/-
# How the client uses its connection

The handlers of the client do one of a few things to its connection (`Deed`): they send a request or a command and ask
for a line, or they shut it down, perhaps with a last word. So a step of the client is a turn of a user that behaves, and
the rules of a connection hold whatever the server does.
-/
import NscaNg.Common.TlsUsers
import NscaNg.Client.Conversation

namespace NscaNg.Client

open Posix Libev

variable {cfg : Config} {s t : Session} {stage : Stage}

/-! ### What a handler does to the connection -/

inductive Deed (u : Tls.State Handler) : Tls.State Handler → Prop
  | nothing : Deed u u
  | requests (request : Bytes) (h : Handler) : Deed u (Tls.tlsRead h 0 (Tls.tlsWriteLine request u))
  | sends (data : Bytes) (h : Handler) : data ≠ [] → Deed u (Tls.tlsRead h 0 (Tls.tlsWrite data true u))
  | stops : Deed u (Tls.tlsShutdown u)
  | bails (message : Bytes) :
      Deed u (Tls.tlsShutdown (Tls.tlsWriteLine message (Tls.tlsWrite (ascii "BAIL ") false u)))

theorem deed_hear (cfg : Config) (now : ℕ) (s : Session) (r : Reader) : Deed s.tls (hear cfg now s r).tls := by
  unfold hear
  dsimp only
  split
  · exact .nothing
  · split
    · unfold announce
      split
      · exact .nothing
      · exact .nothing
      · exact .requests _ .pushResponse
    · exact .requests _ .quitResponse
    · exact .nothing

theorem deed_inputReadChunk (cfg : Config) (readings : List Reading) (now : ℕ) (s : Session) :
    Deed s.tls (inputReadChunk cfg readings now s).tls := by
  unfold inputReadChunk
  split
  · exact deed_hear cfg now s _
  · exact .nothing

theorem deed_grumpy (line message : Bytes) (s : Session) :
    Deed s.tls ((serverIsGrumpy line s).getD (bail message s)).tls := by
  unfold serverIsGrumpy
  split
  · exact .stops
  · exact .bails message

/-- The command that is sent is not empty. -/
def Loaded (s : Session) : Prop := ∀ submission, s.command = some submission → submission.sent ≠ []

/-- **What a handler does**, whatever it is given. -/
theorem deed_answer (cfg : Config) (readings : List Reading) (now : ℕ) (s : Session) (upcall : Tls.Upcall Handler)
    (hloaded : ∀ data, upcall = .read .pushResponse data → Loaded s) :
    Deed s.tls (answer cfg readings now s upcall).tls := by
  cases upcall with
  | connect handler => exact .requests _ .moinResponse
  | error handler => exact .nothing
  | timeout handler => exact .nothing
  | lineTooLong handler => exact .nothing
  | read handler data =>
    cases handler with
    | connect => exact .nothing
    | moinResponse =>
      show Deed s.tls (handleTlsMoinResponse cfg readings now (cstr data) s).tls
      unfold handleTlsMoinResponse
      split
      · split
        · exact .bails _
        · dsimp only
          split
          · exact .bails _
          · split
            · exact .bails _
            · exact deed_inputReadChunk cfg readings now
                { s with reader := some (Reader.start cfg.stdin), input := true }
      · exact deed_grumpy _ _ s
    | pushResponse =>
      show Deed s.tls (handleTlsPushResponse (cstr data) s).tls
      unfold handleTlsPushResponse
      split
      · split
        · rename_i submission hcommand
          exact .sends submission.sent .commandResponse (hloaded data rfl submission hcommand)
        · exact .nothing
      · exact deed_grumpy _ _ s
    | commandResponse =>
      show Deed s.tls (handleTlsCommandResponse cfg readings now (cstr data) s).tls
      unfold handleTlsCommandResponse
      split
      · exact deed_inputReadChunk cfg readings now s
      · exact deed_grumpy _ _ s
    | quitResponse =>
      show Deed s.tls (handleTlsQuitResponse (cstr data) s).tls
      unfold handleTlsQuitResponse
      split
      · exact .stops
      · exact deed_grumpy _ _ s

theorem uses_nothing (u : Tls.State Handler) : Tls.Uses u [] u :=
  ⟨.rests [] fun _ he => absurd he List.not_mem_nil, .nil u⟩

/-- What a handler does comes to orderly calls. -/
theorem Deed.uses {u v : Tls.State Handler} (h : Deed u v) (hu : Resting u) (hq : Tls.Queue u) :
    ∃ calls, Tls.Uses u calls v ∧ Tls.Writes (calls.flatMap Tls.Event.written) u v := by
  have hstep : ∀ {u v : Tls.State Handler} {e : Tls.Event Handler}, Resting u → Tls.stepAlive u e = some v →
      Machine.Steps Tls.step u e v := fun hu h => (Server.step_of_alive hu.alive hu.runs).trans h
  cases h with
  | nothing => exact ⟨[], uses_nothing u, .refl u⟩
  | requests request handler =>
    refine ⟨[.tlsWriteLine request, .tlsRead handler 0], ⟨.asks [.tlsWriteLine request] handler 0 ?_ hu.blank,
      .cons (hstep hu rfl) (.cons (hstep (hu.tlsWriteLine request) rfl) (.nil _))⟩, ?_⟩
    · simp [Tls.Event.Prepares]
    · exact (Tls.writes_tlsWriteLine request u).trans (Tls.writes_tlsRead handler 0 _)
  | sends data handler hne =>
    refine ⟨[.tlsWrite data true, .tlsRead handler 0], ⟨.asks [.tlsWrite data true] handler 0 ?_ hu.blank,
      .cons (hstep hu rfl) (.cons (hstep (hu.tlsWrite data true) rfl) (.nil _))⟩, ?_⟩
    · simp [Tls.Event.Prepares, hne]
    · exact (Tls.writes_tlsWrite hq data true).trans (Tls.writes_tlsRead handler 0 _)
  | stops =>
    exact ⟨[.tlsShutdown], ⟨.ends [] fun e he => absurd he List.not_mem_nil, .cons (hstep hu rfl) (.nil _)⟩,
      Tls.writes_tlsShutdown u⟩
  | bails message =>
    have hbail := hu.tlsWrite (ascii "BAIL ") false
    refine ⟨[.tlsWrite (ascii "BAIL ") false, .tlsWriteLine message, .tlsShutdown],
      ⟨.ends [.tlsWrite (ascii "BAIL ") false, .tlsWriteLine message] ?_,
        .cons (hstep hu rfl) (.cons (hstep hbail rfl) (.cons (hstep (hbail.tlsWriteLine message) rfl) (.nil _)))⟩, ?_⟩
    · simp [Tls.Event.Prepares, ascii]
    · have hwrites := (Tls.writes_tlsWrite hq (ascii "BAIL ") false).trans (Tls.writes_tlsWriteLine message _)
      rw [show ([.tlsWrite (ascii "BAIL ") false, .tlsWriteLine message, .tlsShutdown] :
        List (Tls.Event Handler)).flatMap Tls.Event.written = ascii "BAIL " ++ (message ++ Tls.lineTerminator) ++ [] by
          simp [Tls.Event.written]]
      exact hwrites.trans (Tls.writes_tlsShutdown _)

/-- A handler is called, or none. -/
def Handles (u v : Tls.State Handler) : Prop := v = u ∨ Resting u ∧ Deed u v

theorem Handles.uses {u v : Tls.State Handler} (h : Handles u v) (hq : Tls.Queue u) :
    ∃ calls, Tls.Uses u calls v ∧ Tls.Writes (calls.flatMap Tls.Event.written) u v := by
  rcases h with rfl | ⟨hrest, hdeed⟩
  · exact ⟨[], uses_nothing v, .refl v⟩
  · exact hdeed.uses hrest hq

/-! ### Steps -/

/-- There is room for what is written behind what is queued. -/
theorem room_of_written {taken : Option (Tls.Request × Bytes)} {u v : Tls.State Handler} {written : Bytes}
    (hroom : t.written.length < 2 ^ 31) (hflow : Tls.Flow taken [] v u) (hwrites : Tls.Writes written u t.tls) :
    v.unsent.length + written.length < 2 ^ 31 := by
  have hstream := congrArg List.length (hflow.writes hwrites).stream
  unfold Session.written at hroom
  simp only [List.length_append] at hroom hstream
  omega

/-- No timeout is handed to the client. -/
theorem Posture.Holds.untimed {m : Posture} {t u : Tls.State Handler} {e : Tls.Event Handler} (h : m.Holds t)
    (he : e.FromLoop) (hstep : Tls.step t e = some u) (handler : Handler) :
    u.history.upcalls ≠ t.history.upcalls ++ [.timeout handler] := by
  intro hcalled
  obtain ⟨hfed, -, -, htimeout⟩ := h.unheard
  have hcalls : ∀ {called : List (Tls.Upcall Handler)}, u.history.upcalls = t.history.upcalls ++ called →
      called = [.timeout handler] := fun h => List.append_cancel_left (h.symm.trans hcalled)
  cases Tls.outcome_stepAlive hfed he (Tls.step_eq_some hstep).2.2 with
  | quiet h _ _ _ => cases hcalls h.upcalls
  | freed h _ => cases hcalls (congrArg Tls.UserSide.upcalls h.user)
  | error _ h => cases hcalls (congrArg Tls.UserSide.upcalls h.user)
  | read _ _ _ h _ _ => cases hcalls h.upcalls
  | lineTooLong _ _ h _ => cases hcalls h.upcalls
  | connect _ h _ _ => cases hcalls h.upcalls
  | timeout hsome _ _ => exact absurd (htimeout.symm.trans hsome) (by simp)

/-- The handler that waits for the answer to an announcement has a command to send. -/
theorem Keeps.loaded (h : Keeps cfg s stage) (hawaits : stage.posture = .awaiting .pushResponse) : Loaded s := by
  cases h with
  | asking r submission hk howed hcommand hmade =>
    intro submission' hsubmission
    obtain rfl : submission = submission' := Option.some.inj (hcommand.symm.trans hsubmission)
    exact hmade.sent_ne_nil
  | _ => cases hawaits

/-- **A step of the client is a turn of the user of its connection**, who behaves. -/
theorem behaves_step {e : Event} (h : At cfg s stage) (hf : Tls.Flushes s.tls) (hroom : t.written.length < 2 ^ 31)
    (hstep : step cfg s e = some t) :
    ∃ turn : Tls.Turn Handler, turn.event = e.tls ∧ Tls.Behaves True s.tls turn t.tls := by
  unfold step at hstep
  split at hstep
  · cases hstep
  · split at hstep
    · rename_i e' he
      obtain ⟨u, hu, rfl⟩ := Option.map_eq_some_iff.mp hstep
      obtain ⟨hfu, hturns⟩ := turns_step h.connection hf he hu
      have hloop := event_fromLoop he
      have htimed := h.connection.untimed hloop hu
      have hturn : ∀ {taken : Option (Tls.Request × Bytes)}, Tls.Flow taken [] s.tls u →
          Handles u (react cfg e.closes e.readings s u).tls → ∃ turn : Tls.Turn Handler,
            turn.event = e.tls ∧ Tls.Behaves True s.tls turn (react cfg e.closes e.readings s u).tls := by
        intro taken hflow hhandles
        obtain ⟨calls, huses, hwrites⟩ := hhandles.uses hfu.queue
        exact ⟨⟨e.tls, calls, huses.orderly.user⟩, rfl, ⟨u, huses, he ▸ ⟨hloop, hu, fun handler hup =>
          absurd hup (htimed handler)⟩⟩, fun _ => room_of_written hroom hflow hwrites⟩
      cases hturns with
      | quiet hupcalls hflow _ hcloses =>
        refine hturn hflow (Or.inl ?_)
        unfold react
        rw [if_neg fun hc => absurd (hcloses hc.1) (by simp [hc.2]), hupcalls, List.drop_length]
      | dies hfreed hcloses hflow =>
        refine hturn hflow (Or.inl ?_)
        unfold react
        rw [if_pos ⟨hfreed, hcloses⟩]
      | connects _ hupcalls hflow hrest =>
        refine hturn hflow (Or.inr ⟨hrest, ?_⟩)
        unfold react
        rw [if_neg fun hc => absurd hc.1 (by simp [hrest.alive]), hupcalls, List.drop_left]
        exact deed_answer cfg _ _ { s with tls := u } _ fun data hread => by cases hread
      | reads handler data hposture hupcalls hflow hrest =>
        refine hturn hflow (Or.inr ⟨hrest, ?_⟩)
        unfold react
        rw [if_neg fun hc => absurd hc.1 (by simp [hrest.alive]), hupcalls, List.drop_left]
        refine deed_answer cfg _ _ { s with tls := u } _ fun data' hread => ?_
        obtain rfl : handler = .pushResponse := by cases hread; rfl
        exact (h.keeps.carry u).loaded hposture
    · rename_i hinput
      split at hstep
      · rename_i r hreader
        obtain ⟨r', hr, rfl⟩ := Option.map_eq_some_iff.mp hstep
        have hidle : stage = .idle := by
          by_contra hidle
          have hoff := h.keeps.inactive hidle r hreader
          rw [Reader.step, if_neg (by simp [hoff])] at hr
          cases hr
        subst hidle
        obtain ⟨calls, huses, hwrites⟩ := (deed_hear cfg e.readings.2 s r').uses h.connection hf.queue
        have hflow : Tls.Flow none [] s.tls s.tls := Tls.flow_of_writes (.refl s.tls)
        exact ⟨⟨none, calls, huses.orderly.user⟩, hinput.symm, ⟨s.tls, huses, rfl⟩, fun _ =>
          room_of_written hroom hflow hwrites⟩
      · cases hstep

/-! ### Runs -/

theorem Converses.length_le {turns : List Turn} {lines : List Bytes} {rest : Bytes} (h : Converses cfg turns lines rest) :
    rest.length ≤ (said cfg turns).length + 64 := by
  have hsingle : ∀ turn : Turn, said cfg [turn] = turn.request cfg := said_singleton cfg
  induction h with
  | silent => exact Nat.zero_le _
  | waits turn =>
    rw [hsingle]
    omega
  | @accepted turn line turns lines rest hline _ ih =>
    have hsaid : said cfg (turn :: turns) = turn.request cfg ++ said cfg turns := rfl
    rw [hsaid, List.length_append, List.length_append]
    omega
  | refused _ _ =>
    rw [hsingle]
    omega
  | @bails turn line _ _ =>
    have hle := length_complaint turn line
    rw [hsingle, List.length_append]
    omega

/-- A client that has room has not written too much. -/
theorem Partaking.written_lt (h : Partaking cfg s stage) (hroom : HasRoom cfg s.built) : s.written.length < 2 ^ 31 := by
  obtain ⟨turns, lines, hwithin, -, hconverses⟩ := h.conversing.transcript
  have hle := hconverses.length_le
  have hsaid := length_said cfg hwithin
  unfold HasRoom at hroom
  omega

/-- `client_start()`: the connection is made, and the greeting may be written at once. -/
theorem behaves_start (cfg : Config) (hasSocket : Bool) (reply : Tls.SslAccept) (now : ℚ)
    (hroom : (start cfg hasSocket reply now).written.length < 2 ^ 31) :
    ∃ turn : Tls.Turn Handler, turn.event = none ∧ Tls.Behaves True
      (Tls.tlsConnect hasSocket reply .connect none cfg.timeout now) turn (start cfg hasSocket reply now).tls := by
  have hunused := (Tls.Started.connect hasSocket reply Handler.connect none cfg.timeout now).unused
  have hcases := tlsConnect_cases hasSocket reply cfg.timeout now rfl
  unfold start at hroom ⊢
  generalize Tls.tlsConnect hasSocket reply Handler.connect none cfg.timeout now = u at hunused hcases hroom ⊢
  have hturn : ∀ {t : Session}, t.written.length < 2 ^ 31 → Handles u t.tls →
      ∃ turn : Tls.Turn Handler, turn.event = none ∧ Tls.Behaves True u turn t.tls := by
    intro t hroom hhandles
    obtain ⟨calls, huses, hwrites⟩ := hhandles.uses hunused.flushes.queue
    have hflow : Tls.Flow none [] u u := Tls.flow_of_writes (.refl u)
    exact ⟨⟨none, calls, huses.orderly.user⟩, rfl, ⟨u, huses, rfl⟩, fun _ => room_of_written hroom hflow hwrites⟩
  refine hturn hroom ?_
  unfold react
  rcases hcases with ⟨hquiet, -⟩ | ⟨hcalled, hrest⟩
  · refine Or.inl ?_
    split
    · rfl
    · rw [hquiet, List.drop_nil]
  · refine Or.inr ⟨hrest, ?_⟩
    rw [if_neg fun hc => absurd hc.1 (by simp [hrest.alive]), hcalled]
    exact .requests _ .moinResponse

/-- **The client keeps the rules of its connection**, whatever the server sends: read operations are completed, and its
output is within the bounds. The events of the loop are those of the client; first the connection is made. -/
theorem running_proper {es : List Event} (h : Running cfg es s) (hroom : HasRoom cfg s.built) :
    ∃ (first : Tls.Turn Handler) (turns : List (Tls.Turn Handler)) (x : Tls.Traced Handler), first.event = none ∧
      List.Forall₂ (fun e turn => turn.event = e.tls) es turns ∧
      Tls.Traces (fun x e => Tls.Completes x e ∧ Tls.WithinBounds x e) ((first :: turns).flatMap Tls.Turn.events) x ∧
      x.conn = s.tls := by
  obtain ⟨hasSocket, reply, now, hruns⟩ := h
  obtain ⟨hroom', hruns⟩ := hruns.backwards (fun _ _ _ hstep hroom => HasRoom.mono hroom (built_step hstep)) hroom
  have hstep : ∀ (s : Session) (e : Event) (t : Session), (∃ stage, Partaking cfg s stage) →
      (Machine.Steps (step cfg) s e t ∧ HasRoom cfg t.built) → (∃ stage, Partaking cfg t stage) ∧
        ∃ turn : Tls.Turn Handler, turn.event = e.tls ∧ Tls.Behaves True s.tls turn t.tls := by
    rintro s e t ⟨stage, hs⟩ ⟨hstep, hroom⟩
    obtain ⟨stage', ht⟩ := partaking_step hs hroom hstep
    have hruns : ¬ s.Ended := fun hended => by
      rw [Machine.Steps, step, if_pos (show s.died = true ∨ s.tls.died = true from hended)] at hstep
      cases hstep
    obtain ⟨hat, hflushes⟩ := hs.runs.resolve_left hruns
    exact ⟨⟨stage', ht⟩, behaves_step hat hflushes (ht.written_lt hroom) hstep⟩
  have hpartaking := partaking_start cfg hasSocket reply now
  obtain ⟨stage, hstart⟩ := hpartaking
  obtain ⟨first, hfirst, hbegins⟩ := behaves_start cfg hasSocket reply now (hstart.written_lt hroom')
  obtain ⟨turns, hevents, hturns⟩ := hruns.images hstep ⟨stage, hstart⟩
  obtain ⟨x, htraces, hconn⟩ :=
    Tls.traces_of_behaves (.connect hasSocket reply Handler.connect none cfg.timeout now) (.cons hbegins hturns)
  exact ⟨first, turns, x, hfirst, hevents, htraces.mono fun _ _ h => ⟨h.1, h.2 trivial⟩, hconn⟩

end NscaNg.Client
