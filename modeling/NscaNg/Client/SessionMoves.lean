/-
# The steps of a client

What a step of a client is for the server (`Moves`): the client receives something, and a line may take it to the
next stage, with the request of that stage written; or the connection has been made, or a chunk of the standard
input is there.
-/
import NscaNg.Client.SessionSteps

namespace NscaNg.Client

open Posix Libev

variable {cfg : Config} {s t : Session} {stage : Stage}

/-! ### Steps -/

/-- A step has taken the client to the stage, or the program has ended. -/
structure Comes (cfg : Config) (taken : Option (Tls.Request × Bytes)) (s t : Session) (stage : Stage) : Prop where
  flow : Tls.Flow taken (stage.request cfg) s.tls t.tls
  flushes : (s.tls.unsent ++ stage.request cfg).length < 2 ^ 31 → Tls.Flushes t.tls
  built : t.built = s.built ++ stage.builds
  enters : t.died = true ∧ t.built = s.built ∨ At cfg t stage

/-- What goes behind the queue has the same room before. -/
theorem room_of_flow {taken : Option (Tls.Request × Bytes)} {u v : Tls.State Handler} {written : Bytes}
    (hflow : Tls.Flow taken [] u v) (hroom : (u.unsent ++ written).length < 2 ^ 31) :
    (v.unsent ++ written).length < 2 ^ 31 := by
  have hle := hflow.length_unsent_le
  rw [List.length_append] at hroom ⊢
  omega

theorem Takes.comes {taken : Option (Tls.Request × Bytes)} {u : Tls.State Handler} (h : Takes cfg { s with tls := u } t stage)
    (hflow : Tls.Flow taken [] s.tls u) : Comes cfg taken s t stage where
  flow := hflow.writes h.writes
  flushes hroom := h.flushes (room_of_flow hflow hroom)
  built := h.built
  enters := h.enters

theorem Comes.faithful {taken : Option (Tls.Request × Bytes)} (h : Comes cfg taken s t stage) (hs : Faithful cfg s) :
    Faithful cfg t := by
  rcases h.enters with ⟨-, hbuilt⟩ | hat
  · obtain ⟨done, hprefix, hbuilds⟩ := hs
    exact ⟨done, hprefix, hbuilt.symm ▸ hbuilds⟩
  · exact hat.keeps.faithful

/-- The client has left with this message. -/
structure Departs (cfg : Config) (taken : Option (Tls.Request × Bytes)) (message : Bytes) (s t : Session) : Prop where
  flow : Tls.Flow taken (farewell message) s.tls t.tls
  flushes : (s.tls.unsent ++ farewell message).length < 2 ^ 31 → Tls.Flushes t.tls
  built : t.built = s.built
  enters : At cfg t (.stopped 1)

theorem Bails.departs {taken : Option (Tls.Request × Bytes)} {u : Tls.State Handler} {message : Bytes}
    (h : Bails cfg message { s with tls := u } t) (hflow : Tls.Flow taken [] s.tls u) : Departs cfg taken message s t where
  flow := hflow.writes h.writes
  flushes hroom := h.flushes (room_of_flow hflow hroom)
  built := h.built
  enters := h.enters

/-- The stage is one at which the client waits for a response. -/
def Stage.Pending (stage : Stage) : Prop := ∃ handler, stage.posture = .awaiting handler

/-- The client waits for the response to what it has said. -/
theorem Stage.pending_of_turn {turn : Turn} (h : stage.turn = some turn) :
    stage.Pending ∧ turn.Accepts stage.response := by
  have hokay : strcasecmp (ascii "OKAY") (ascii "OKAY") = 0 := by decide
  cases stage with
  | greeting =>
    cases h
    exact ⟨⟨_, rfl⟩, by decide, [ascii "MOIN", ascii "1"], by decide, by decide⟩
  | asking submission =>
    cases h
    exact ⟨⟨_, rfl⟩, hokay⟩
  | sending submission =>
    cases h
    exact ⟨⟨_, rfl⟩, hokay⟩
  | quitting =>
    cases h
    exact ⟨⟨_, rfl⟩, hokay⟩
  | _ => cases h

theorem Stage.Pending.plain_response (h : stage.Pending) : Plain stage.response := by
  have hmoin : Plain (ascii "MOIN 1") := (by decide : newline ∉ ascii "MOIN 1" ∧ 0 ∉ ascii "MOIN 1")
  have hokay : Plain (ascii "OKAY") := (by decide : newline ∉ ascii "OKAY" ∧ 0 ∉ ascii "OKAY")
  obtain ⟨handler, hposture⟩ := h
  cases stage with
  | greeting => exact hmoin
  | asking submission => exact hokay
  | sending submission => exact hokay
  | quitting => exact hokay
  | _ => cases hposture

/-- The stage that the client comes to by itself. -/
inductive Advances (cfg : Config) : Stage → Stage → Prop
  | connected : Advances cfg .connecting .greeting
  | fetched {stage : Stage} : Fetched cfg stage → Advances cfg .idle stage

/-- What a step of the client is for the server. -/
inductive Moves (cfg : Config) (s t : Session) (stage : Stage) : Prop
  | quiet : Tls.Flow none [] s.tls t.tls → Tls.Flushes t.tls → t.built = s.built → t.died = true ∨ At cfg t stage →
      Moves cfg s t stage
  | advances (stage' : Stage) : Advances cfg stage stage' → Comes cfg none s t stage' → Moves cfg s t stage
  | accepts (data : Bytes) (turn : Turn) (stage' : Stage) : stage.turn = some turn → turn.Accepts (cstr data) →
      Follows cfg stage stage' → Comes cfg (some (.line, data)) s t stage' → Moves cfg s t stage
  | refused (data : Bytes) (turn : Turn) : stage.turn = some turn → ¬ turn.Accepts (cstr data) → Grumpy (cstr data) →
      Comes cfg (some (.line, data)) s t (.stopped 1) → Moves cfg s t stage
  | bails (data : Bytes) (turn : Turn) : stage.turn = some turn → ¬ turn.Accepts (cstr data) → ¬ Grumpy (cstr data) →
      Departs cfg (some (.line, data)) (turn.complaint (cstr data)) s t → Moves cfg s t stage

theorem posture_connecting (h : stage.posture = .connecting) : stage = .connecting := by
  cases stage <;> first | rfl | cases h

/-- **A step of the client**, as the server sees it. -/
theorem moves_step {e : Event} (h : At cfg s stage) (hf : Tls.Flushes s.tls) (hstep : step cfg s e = some t) :
    Moves cfg s t stage := by
  unfold step at hstep
  split at hstep
  · cases hstep
  · split at hstep
    · rename_i e' he
      obtain ⟨u, hu, rfl⟩ := Option.map_eq_some_iff.mp hstep
      obtain ⟨hfu, hturns⟩ := turns_step h.connection hf he hu
      cases hturns with
      | quiet hupcalls hflow hholds hcloses =>
        have hreact : react cfg e.closes e.readings s u = { s with tls := u } := by
          unfold react
          rw [if_neg fun hc => absurd (hcloses hc.1) (by simp [hc.2]), hupcalls, List.drop_length]
        rw [hreact]
        exact .quiet hflow hfu rfl (Or.inr ⟨hholds, h.keeps.carry u⟩)
      | dies hfreed hcloses hflow =>
        have hreact : react cfg e.closes e.readings s u = { s with tls := u, died := true } := if_pos ⟨hfreed, hcloses⟩
        rw [hreact]
        exact .quiet hflow hfu rfl (Or.inl rfl)
      | connects hposture hupcalls hflow hrest =>
        obtain rfl := posture_connecting hposture
        have hreact : react cfg e.closes e.readings s u = handleTlsConnect cfg { s with tls := u } := by
          unfold react
          rw [if_neg fun hc => absurd hc.1 (by simp [hrest.alive]), hupcalls, List.drop_left]
          rfl
        rw [hreact]
        obtain ⟨-, hkeeps⟩ := h
        cases hkeeps with
        | connecting hk =>
          have htakes := takes_connect (s := { s with tls := u }) cfg hrest hfu
            ⟨hk.reader, hk.built, hk.exitCode⟩
          exact .advances .greeting .connected (htakes.comes hflow)
      | reads handler data hposture hupcalls hflow hrest =>
        have hreact : react cfg e.closes e.readings s u =
            answer cfg e.readings.1 e.readings.2 { s with tls := u } (.read handler data) := by
          unfold react
          rw [if_neg fun hc => absurd hc.1 (by simp [hrest.alive]), hupcalls, List.drop_left]
        rw [hreact]
        obtain ⟨turn, hturn, haccepted, hrejected⟩ :=
          takes_answer (s := { s with tls := u }) e.readings.1 e.readings.2 data hrest hfu
          (h.keeps.carry u) hposture
        by_cases hline : turn.Accepts (cstr data)
        · obtain ⟨stage', hfollows, htakes⟩ := haccepted hline
          exact .accepts data turn stage' hturn hline hfollows (htakes.comes hflow)
        · by_cases hgrumpy : Grumpy (cstr data)
          · exact .refused data turn hturn hline hgrumpy (((hrejected hline).refused hgrumpy).comes hflow)
          · exact .bails data turn hturn hline hgrumpy (((hrejected hline).unexpected hgrumpy).departs hflow)
    · split at hstep
      · rename_i r hreader
        obtain ⟨r', hr, rfl⟩ := Option.map_eq_some_iff.mp hstep
        have hact : r.active = true := by
          by_contra hoff
          rw [Reader.step, if_neg hoff] at hr
          cases hr
        by_cases hidle : stage = .idle
        · subst hidle
          obtain ⟨hconnection, hkeeps⟩ := h
          cases hkeeps with
          | idle r₀ hk hact₀ hlast =>
            obtain rfl : r₀ = r := Option.some.inj (hk.reader.symm.trans hreader)
            obtain ⟨stage', hstage, htakes⟩ := fetched_inputCb e.readings.2 hconnection hf hk hact hlast hr
            have hflow : Tls.Flow none [] s.tls s.tls := Tls.flow_of_writes (.refl s.tls)
            exact .advances stage' (.fetched hstage) (Takes.comes (u := s.tls) htakes hflow)
        · have hoff := h.keeps.inactive hidle r hreader
          exact absurd (hact.symm.trans hoff) (by decide)
      · cases hstep

theorem built_step {e : Event} (hstep : step cfg s e = some t) : s.built <+: t.built := by
  unfold step at hstep
  split at hstep
  · cases hstep
  · split at hstep
    · obtain ⟨u, -, rfl⟩ := Option.map_eq_some_iff.mp hstep
      unfold react
      split
      · exact List.prefix_rfl
      · split
        · exact List.prefix_rfl
        · exact built_answer cfg _ _ { s with tls := u } _
    · split at hstep
      · obtain ⟨r', -, rfl⟩ := Option.map_eq_some_iff.mp hstep
        exact built_hear cfg _ s r'
      · cases hstep

/-! ### The start -/

/-- Nothing has been sent or received yet, but perhaps the greeting has been written. -/
structure Begins (cfg : Config) (s : Session) (stage : Stage) : Prop where
  first : stage = .connecting ∨ stage = .greeting
  sent : s.tls.history.sent = []
  unsent : s.tls.unsent = stage.request cfg
  received : s.tls.history.received = []
  unread : s.tls.unread = []
  flushes : Tls.Flushes s.tls
  built : s.built = []
  enters : s.Ended ∨ At cfg s stage

/-- A connection that has just been made, but for some watchers. -/
structure Fresh (timeout now : ℚ) (u : Tls.State Handler) : Prop where
  fed : Tls.IoFed u
  user : u.userSide = (Tls.tlsNew .connect timeout now).userSide
  side : u.inputSide = (Tls.tlsNew Handler.connect timeout now).inputSide
  active : ∀ w, w ∈ u.loop.active → w = .timeout ∨ w = .init
  unsent : u.unsent = []

theorem Fresh.connecting {timeout now : ℚ} {u : Tls.State Handler} (h : Fresh timeout now u)
    (hinit : .init ∈ u.loop.active) : Connecting u where
  fed := h.fed
  alive := congrArg Tls.UserSide.freed h.user
  runs := congrArg Tls.UserSide.died h.user
  error := congrArg Tls.UserSide.errorHandler h.user
  timeout := congrArg Tls.UserSide.timeoutHandler h.user
  lineTooLong := congrArg Tls.UserSide.lineTooLongHandler h.user
  drain := congrArg Tls.UserSide.shutdownOnDrain h.user
  shutdown hact := (h.active _ hact).elim (by decide) (by decide)
  armed _ hne := absurd h.unsent hne
  handler := congrArg Tls.UserSide.connectHandler h.user
  init := hinit
  read hact := (h.active _ hact).elim (by decide) (by decide)
  write hact := (h.active _ hact).elim (by decide) (by decide)
  blank := ⟨congrArg Tls.InputSide.input h.side, congrArg Tls.InputSide.inputOffset h.side⟩

/-- `tls_connect()`. -/
theorem tlsConnect_cases (hasSocket : Bool) (reply : Tls.SslAccept) (timeout now : ℚ) {u : Tls.State Handler}
    (hu : Tls.tlsConnect hasSocket reply .connect none timeout now = u) :
    (u.history.upcalls = [] ∧ (u.freed = true ∨ u.freed = false ∧ (u.died = true ∨ Connecting u))) ∨
      (u.history.upcalls = [.connect .connect] ∧ Resting u) := by
  have hfed : Tls.IoFed u := hu ▸ (Tls.Started.connect hasSocket reply Handler.connect none timeout now).ioFed
  have hunsent : u.unsent = [] := hu ▸ (Tls.Started.connect hasSocket reply Handler.connect none timeout now).unused.unsent
  have huser := Tls.userSide_tlsOnTimeout none (Tls.tlsNew Handler.connect timeout now)
  have hside := (Tls.frame_tlsOnTimeout (v := .read) (by decide) none (Tls.tlsNew Handler.connect timeout now)).side
  have hoff : ∀ w, w ∈ (Tls.tlsOnTimeout none (Tls.tlsNew Handler.connect timeout now)).loop.active → w = .timeout := by
    intro w hact
    by_contra hw
    have hnew := (Tls.mem_tlsOnTimeout_active none (Tls.tlsNew Handler.connect timeout now) hw).mp hact
    exact Finset.notMem_empty w hnew
  unfold Tls.tlsConnect at hu
  generalize Tls.tlsOnTimeout none (Tls.tlsNew Handler.connect timeout now) = v at huser hside hoff hu
  have hfresh : ∀ {x : Tls.State Handler}, Tls.IoFed x → x.userSide = v.userSide → x.inputSide = v.inputSide →
      x.unsent = [] → x.loop.active = insert .init v.loop.active → Connecting x := by
    intro x hfed hux hsx hunsent hactive
    refine Fresh.connecting ⟨hfed, hux.trans huser, hsx.trans hside, fun w hw => ?_, hunsent⟩ (hactive ▸ Finset.mem_insert_self _ _)
    rw [hactive, Finset.mem_insert] at hw
    exact hw.symm.imp_left (hoff w)
  have hquiet : v.history.upcalls = [] := congrArg Tls.UserSide.upcalls huser
  have hlive : v.freed = false := congrArg Tls.UserSide.freed huser
  cases hasSocket with
  | false =>
    subst hu
    exact Or.inl ⟨hquiet, Or.inr ⟨hlive, Or.inl rfl⟩⟩
  | true =>
    cases reply with
    | established identified =>
      subst hu
      have hconnect : v.connectHandler = .connect := congrArg Tls.UserSide.connectHandler huser
      refine Or.inr ⟨?_, ?_⟩
      · show v.history.upcalls ++ [.connect v.connectHandler] = _
        rw [hquiet, hconnect]
        rfl
      · have hnot : ∀ w : Tls.Watcher, w ≠ .timeout → w ∉ v.loop.active := fun w hw hact => hw (hoff w hact)
        exact {
          fed := hfed
          alive := hlive
          runs := congrArg Tls.UserSide.died huser
          error := congrArg Tls.UserSide.errorHandler huser
          timeout := congrArg Tls.UserSide.timeoutHandler huser
          lineTooLong := congrArg Tls.UserSide.lineTooLongHandler huser
          drain := congrArg Tls.UserSide.shutdownOnDrain huser
          shutdown := hnot .shutdown (by decide)
          armed := fun _ hne => absurd hunsent hne
          init := hnot .init (by decide)
          read := hnot .read (by decide)
          blank := ⟨congrArg Tls.InputSide.input hside, congrArg Tls.InputSide.inputOffset hside⟩ }
    | error e =>
      have harmed : (v.touch.arm .init .write).loop.active = insert .init v.loop.active := by
        simp [Tls.State.arm, Tls.State.touch]
      have hwait : ∀ events, ((v.touch.arm .init .write).loop.waitFor .init events).active = insert .init v.loop.active :=
        fun events => (Loop.waitFor_active _ _ events (harmed ▸ Finset.mem_insert_self _ _)).trans harmed
      cases e with
      | wantRead =>
        subst hu
        exact Or.inl ⟨hquiet, Or.inr ⟨hlive, Or.inr (hfresh hfed rfl rfl hunsent (hwait .read))⟩⟩
      | wantWrite =>
        subst hu
        exact Or.inl ⟨hquiet, Or.inr ⟨hlive, Or.inr (hfresh hfed rfl rfl hunsent (hwait .write))⟩⟩
      | interrupted =>
        subst hu
        exact Or.inl ⟨hquiet, Or.inr ⟨hlive, Or.inr (hfresh hfed rfl rfl hunsent harmed)⟩⟩
      | failed =>
        have herror : v.errorHandler = none := congrArg Tls.UserSide.errorHandler huser
        have hfree : u = Tls.tlsFree (v.touch.arm .init .write) := by
          rw [← hu]
          show Tls.tlsError _ = _
          unfold Tls.tlsError
          rw [show (v.touch.arm .init .write).errorHandler = none from herror]
        have hgone := Tls.userSide_tlsFree (v.touch.arm .init .write)
        rw [← hfree] at hgone
        exact Or.inl ⟨(congrArg Tls.UserSide.upcalls hgone).trans hquiet, Or.inl (congrArg Tls.UserSide.freed hgone)⟩

/-- `client_start()`. -/
theorem begins_start (cfg : Config) (hasSocket : Bool) (reply : Tls.SslAccept) (now : ℚ) :
    ∃ stage, Begins cfg (start cfg hasSocket reply now) stage := by
  have hunused := (Tls.Started.connect hasSocket reply Handler.connect none cfg.timeout now).unused
  have hcases := tlsConnect_cases hasSocket reply cfg.timeout now rfl
  unfold start
  generalize Tls.tlsConnect hasSocket reply Handler.connect none cfg.timeout now = u at hunused hcases
  rcases hcases with ⟨hquiet, hfreed | ⟨hlive, hrest⟩⟩ | ⟨hcalled, hrest⟩
  · have hreact : ∀ s : Session, react cfg false ([], 0) s u = { s with tls := u, died := true } := fun s =>
      if_pos ⟨hfreed, rfl⟩
    rw [hreact]
    exact ⟨.connecting, Or.inl rfl, hunused.sent, hunused.unsent, hunused.received, hunused.unread, hunused.flushes, rfl,
      Or.inl (Or.inl rfl)⟩
  · have hreact : ∀ s : Session, react cfg false ([], 0) s u = { s with tls := u } := fun s => by
      unfold react
      rw [if_neg fun hc => absurd hc.1 (by simp [hlive]), hquiet, List.drop_nil]
    rw [hreact]
    refine ⟨.connecting, Or.inl rfl, hunused.sent, hunused.unsent, hunused.received, hunused.unread, hunused.flushes, rfl,
      hrest.imp Or.inr fun hconnecting => ⟨hconnecting, .connecting ⟨rfl, rfl, rfl⟩⟩⟩
  · let called : Session :=
      { tls := u, reader := none, input := false, command := none, exitCode := 0, died := false, built := [] }
    have hreact : ∀ s : Session, s.tls.history.upcalls = [] →
        react cfg false ([], 0) s u = handleTlsConnect cfg { s with tls := u } := fun s hs => by
      unfold react
      rw [if_neg fun hc => absurd hc.1 (by simp [hrest.alive]), hcalled, hs]
      rfl
    rw [hreact _ rfl]
    have htakes := takes_connect (s := called) cfg hrest hunused.flushes ⟨rfl, rfl, rfl⟩
    refine ⟨.greeting, Or.inr rfl, htakes.writes.sent.trans hunused.sent, ?_, htakes.writes.received.trans hunused.received,
      htakes.writes.unread.trans hunused.unread, htakes.flushes ?_, htakes.built, htakes.enters.imp_left fun h => Or.inl h.1⟩
    · rw [htakes.writes.unsent, show called.tls.unsent = [] from hunused.unsent, List.nil_append]
    · rw [show called.tls.unsent = [] from hunused.unsent]
      simp [Stage.request, cfg.sessionId_length, Tls.lineTerminator, ascii]

/-! ### The end -/

/-- A client that has ended without an error of its connection has stopped, and if its exit status is 0, all of its
standard input has been read. -/
theorem At.exits {status : ℕ} (h : At cfg s stage) (hruns : ¬ s.Ended) (hexit : s.exitStatus = some status) :
    stage = .stopped status ∧ (status = 0 → Builds cfg cfg.chunks s.built) := by
  unfold Session.exitStatus at hexit
  split at hexit
  · rename_i hended
    exact absurd hended hruns
  · split at hexit
    · rename_i hidle
      obtain ⟨hnone, hoff⟩ := hidle
      have hact : ∀ {w}, w ∉ s.tls.loop.active := fun {w} => hnone ▸ Finset.notMem_empty w
      obtain ⟨hconnection, hkeeps⟩ := h
      cases hkeeps with
      | connecting => exact absurd (show Connecting s.tls from hconnection).init hact
      | idle r hk hactive _ => exact absurd (hactive.symm.trans (hoff r hk.reader)) (by decide)
      | greeting => exact absurd (show Awaiting _ s.tls from hconnection).read hact
      | asking => exact absurd (show Awaiting _ s.tls from hconnection).read hact
      | sending => exact absurd (show Awaiting _ s.tls from hconnection).read hact
      | quitting => exact absurd (show Awaiting _ s.tls from hconnection).read hact
      | stopped done _ _ hbuilds hall =>
        obtain rfl := Option.some.inj hexit
        exact ⟨rfl, fun hzero => hall hzero ▸ hbuilds⟩
    · cases hexit

/-- It has sent everything it has written. -/
theorem At.sent {status : ℕ} (h : At cfg s stage) (hruns : ¬ s.Ended) (hexit : s.exitStatus = some status) :
    s.tls.unsent = [] := by
  obtain ⟨rfl, -⟩ := h.exits hruns hexit
  have hclosing : Closing s.tls := h.connection
  unfold Session.exitStatus at hexit
  rw [if_neg (show ¬ (s.died = true ∨ s.tls.died = true) from hruns)] at hexit
  split at hexit
  · rename_i hidle
    have hact : ∀ {w}, w ∉ s.tls.loop.active := fun {w} => hidle.1 ▸ Finset.notMem_empty w
    rcases hclosing.leaves with hfreed | hshutdown | ⟨-, hwrite⟩
    · exact hclosing.swept (Or.inr hfreed)
    · exact absurd hshutdown hact
    · exact absurd hwrite hact
  · cases hexit

end NscaNg.Client
