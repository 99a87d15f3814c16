/-
# What a session has to do

As long as something is queued, the session is waiting to send it, a session that has not begun is waiting for the
TLS handshake, and one that has been ended is being shut down, or its connection has been freed (`Brisk`).
-/
import NscaNg.Common.TlsProgress
import NscaNg.Server.SessionStreams

namespace NscaNg
namespace Server

open Posix Libev

variable {ρ : Type} {cfg : Config ρ} {s t : Session}

/-- A session leaves nothing lying. -/
structure Brisk (s : Session) : Prop where
  armed : Tls.Armed s.tls
  accepting : s.log = [] → s.tls.freed = false → .init ∈ s.tls.loop.active
  leaving : s.connection = .freed → Tls.Leaving s.tls

/-! ### A handler at work -/

theorem armed_tlsRead (ha : Tls.Armed s.tls) (h : ReadHandler) (n : ℕ) : Tls.Armed (perform s (.tlsRead h n)).tls := by
  unfold perform act
  split
  · exact ha
  · rcases tls_call s (.tlsRead (.read h) n) with hsame | hstep
    · exact hsame ▸ ha
    · rw [← Option.some.inj hstep]
      exact ha.tlsRead (.read h) n

theorem Working.tls_call {e : Tls.Event Handler} {u : Tls.State Handler} (hs : Working s)
    (h : Tls.stepAlive s.tls e = some u) : (s.call e).tls = u := by
  rw [call_eq hs.alive hs.runs h]

/-- Whatever is queued by then, a line that is written is going to be sent with it. -/
theorem Working.armed_tlsWrite (hs : Working s) (data : Bytes) : Tls.Armed (perform s (.tlsWrite data)).tls := by
  rw [perform_eq hs.runs, act, hs.tls_call rfl]
  exact Tls.armed_tlsWrite data false s.tls

theorem Working.armed_plain (hs : Working s) (ha : Tls.Armed s.tls) {a : Action} (h : a.Plain) :
    Tls.Armed (perform s a).tls := by
  cases a with
  | tlsWrite data => exact hs.armed_tlsWrite data
  | sendResponse response =>
    rw [perform_eq hs.runs, act, hs.tls_call rfl]
    exact Tls.armed_tlsWriteLine response s.tls
  | tlsWriteLine string =>
    rw [perform_eq hs.runs, act, hs.tls_call rfl]
    exact Tls.armed_tlsWriteLine string s.tls
  | access =>
    rw [perform_eq hs.runs, act, use_eq hs.connection]
    exact ha
  | setInputLength size =>
    rw [perform_eq hs.runs, act, use_eq hs.connection]
    exact ha
  | setConnectionId id =>
    rw [perform_eq hs.runs, act]
    exact ha
  | fifoWrite data =>
    rw [perform_eq hs.runs, act]
    exact ha
  | free data =>
    rw [perform_eq hs.runs, act]
    exact ha
  | _ => exact h.elim

theorem Working.armed_plains (hs : Working s) (ha : Tls.Armed s.tls) {ws : List Action} (hws : ∀ a ∈ ws, a.Plain) :
    Tls.Armed (ws.foldl perform s).tls := by
  induction ws generalizing s with
  | nil => exact ha
  | cons a ws ih =>
    have hplain := hws a List.mem_cons_self
    exact ih (hs.plain hplain).working (hs.armed_plain ha hplain) fun b hb => hws b (List.mem_cons_of_mem a hb)

theorem Working.armed_course (hs : Working s) (ha : Tls.Armed s.tls) {actions : List Action} (h : Course actions) :
    Tls.Armed (actions.foldl perform s).tls := by
  cases h with
  | goesOn ws h hws hpush =>
    rw [List.foldl_append]
    exact armed_tlsRead (hs.armed_plains ha hws) h 0
  | takes ws n hws hpos hlt =>
    have hplain := hs.plains hws
    have hset := hplain.working.armed_plain (hs.armed_plains ha hws) (a := .setInputLength n) trivial
    rw [List.foldl_append]
    exact armed_tlsRead hset .push n
  | ends ws hws =>
    rw [List.foldl_append, (hs.plains hws).working.shutdown]
    exact (hs.armed_plains ha hws).tlsShutdown
  | stalls _ hws => exact hs.armed_plains ha hws

/-- A handler that calls `tls_shutdown()` does so after all else. -/
theorem Working.leaving_course (hs : Working s) {actions : List Action} (h : Course actions)
    (hends : .tlsShutdown ∈ actions) : Tls.Leaving (actions.foldl perform s).tls := by
  have hplain : ∀ ws : List Action, (∀ a ∈ ws, a.Plain) → .tlsShutdown ∉ ws :=
    fun ws hws => notMem_plain hws (by simp [Action.Plain])
  cases h with
  | goesOn ws h hws hpush => simp [hplain ws hws] at hends
  | takes ws n hws hpos hlt => simp [hplain ws hws] at hends
  | ends ws hws =>
    rw [List.foldl_append, (hs.plains hws).working.shutdown]
    exact Tls.leaving_tlsShutdown _
  | stalls _ hws => exact absurd hends (hplain _ hws)

/-- After a timeout the write watcher was stopped, but `bail()` has something to say. -/
theorem Working.armed_bail (hs : Working s) (message : String) : Tls.Armed ((bail message).foldl perform s).tls := by
  have hcourse : Course [.tlsWriteLine (ascii message), .tlsShutdown, .connectionStop] :=
    .ends [.tlsWriteLine (ascii message)] (by simp [Action.Plain])
  exact (hs.plain (a := .tlsWrite (ascii "BAIL ")) trivial).working.armed_course (hs.armed_tlsWrite _) hcourse

theorem armed_handleConnect (halive : s.tls.freed = false) (hruns : s.tls.died = false) (ha : Tls.Armed s.tls) :
    Tls.Armed (handleConnect.foldl perform s).tls := by
  have htimeout := ha.of_beside (Tls.beside_tlsOnTimeout (some Handler.timeout) s.tls)
  rw [perform_handleConnect halive hruns]
  exact armed_tlsRead (s := { s with
    tls := Tls.tlsOnLineTooLong .lineTooLong (Tls.tlsOnError .error (Tls.tlsOnTimeout (some .timeout) s.tls))
    connection := .live }) htimeout .handshake 0

/-! ### Steps -/

theorem brisk_gone {u : Tls.State Handler} (hfreed : u.freed = true) (h : t.tls = u) : Brisk t := by
  subst h
  exact ⟨.of_freed hfreed, fun _ halive => absurd (halive.symm.trans hfreed) (by decide), fun _ => Or.inl hfreed⟩

/-- The handler of a session that goes on does its work. -/
theorem brisk_answered {u : Tls.State Handler} {p : Entry} {upcall : Tls.Upcall Handler} {actions : List Action}
    (ho : Opened s p) (hfed : Tls.IoFed u) (hcalls : Tls.Calls [upcall] s.tls u) (hoff : .read ∉ u.loop.active)
    (hactions : answer cfg s.id s.inputLength upcall = actions) (hcourse : Course actions)
    (hblank : requests actions ≠ [] → Tls.Blank u)
    (harmed : ∀ called : Session, Working called → called.tls = u → Tls.Armed (actions.foldl perform called).tls) :
    Brisk (react cfg s u) := by
  have hfin := finishes_answered ho hfed hcalls hoff hactions hcourse hblank
  have hworking : Working { s with
      tls := u, log := s.log ++ [⟨upcall, actions⟩], fault := s.fault || (u.freed && !beforeFree upcall) } :=
    ho.called hfed hcalls
  have hreact : react cfg s u = _ := react_call hcalls.upcalls
  rw [hactions] at hreact
  have harmed' := harmed _ hworking rfl
  have hleaving := hworking.leaving_course hcourse
  rw [← hreact] at harmed' hleaving
  refine ⟨harmed', fun hnil => absurd (hfin.log.symm.trans hnil) (by simp), fun hfreed => hleaving ?_⟩
  by_contra hgoes
  have hconn := hfin.connection
  rw [if_neg hgoes] at hconn
  exact absurd (hconn.symm.trans hfreed) (by decide)

/-- A step of a session. -/
theorem brisk_step {e : Event} (hs : Serves cfg s) (hf : Tls.Flushes s.tls) (hb : Brisk s)
    (h : step cfg s e = some t) : Brisk t := by
  cases halive : s.tls.freed with
  | true => exact absurd h (by simp [step_freed hs.toSound halive])
  | false =>
    obtain ⟨u, hu, houtcome, hfed, rfl⟩ := step_alive hs.toSound halive h
    have hsame := same_of_upcalls (s := s) hu
    -- the write watcher is active, unless a timeout is handled
    have harmed : ∀ {called : List (Tls.Upcall Handler)}, u.history.upcalls = s.tls.history.upcalls ++ called →
        (∀ handler, called ≠ [.timeout handler]) → Tls.Armed u := by
      intro called hupcalls hother
      rcases Tls.armed_stepAlive hs.fed hf hb.armed (event_fromLoop e) hu with ha | ⟨handler, -, htimeout⟩
      · exact ha
      · exact absurd (List.append_cancel_left (hupcalls.symm.trans htimeout)) (hother handler)
    cases houtcome with
    | quiet hcalls _ _ _ =>
      rw [hsame (by simp [hcalls.upcalls]), react_quiet hcalls.upcalls]
      have hlive := harmed hcalls.upcalls (by simp)
      have hnone : ∀ {p : Entry}, s.log.getLast? = some p → s.log ≠ [] := fun hlast hnil => by
        rw [hnil] at hlast
        cases hlast
      cases hs.phase with
      | accepting _ hacc hlog hconn =>
        refine ⟨hlive, fun _ hfreed => ?_, fun hfreed => absurd (hconn.symm.trans hfreed) (by decide)⟩
        exact Tls.init_kept hs.fed hacc.timeout (hb.accepting hlog halive) ⟨hacc.read, hacc.write, hacc.shutdown⟩
          (event_fromLoop e) hu hfreed (hcalls.upcalls.trans (List.append_nil _))
      | waiting p h n ho hreq hawaits =>
        exact ⟨hlive, fun hnil => absurd hnil (hnone ho.last),
          fun hfreed => absurd (ho.working.connection.symm.trans hfreed) (by decide)⟩
      | stalled p ho hreq hoff =>
        exact ⟨hlive, fun hnil => absurd hnil (hnone ho.last),
          fun hfreed => absurd (ho.working.connection.symm.trans hfreed) (by decide)⟩
      | closing p _ hclosing hconn hlast hends =>
        exact ⟨hlive, fun hnil => absurd hnil (hnone hlast), fun _ => Tls.leaving_stepAlive hs.fed (hb.leaving hconn)
          hclosing.timeout hclosing.init hclosing.read (event_fromLoop e) hu⟩
      | gone hgone => exact absurd (halive.symm.trans hgone) (by decide)
    | freed hfreed hwhy =>
      have hupcalls : u.history.upcalls = s.tls.history.upcalls ++ [] := congrArg Tls.UserSide.upcalls hfreed.user
      rw [hsame (by simp [hupcalls]), react_quiet hupcalls]
      exact brisk_gone (congrArg Tls.UserSide.freed hfreed.user) rfl
    | @error handler hhandler hfreed =>
      have hupcalls : u.history.upcalls = s.tls.history.upcalls ++ [.error handler] :=
        congrArg Tls.UserSide.upcalls hfreed.user
      rw [hsame (by simp [hupcalls])]
      obtain ⟨p, ho⟩ := hs.toSound.opened halive (Or.inl (hhandler ▸ rfl))
      obtain rfl : handler = .error := Option.some.inj (hhandler.symm.trans ho.attended.error)
      rw [react_error ho halive hfreed]
      exact brisk_gone (congrArg Tls.UserSide.freed hfreed.user) rfl
    | read data hreader hact hcalls hoff hexp =>
      rw [hsame (by simp [hcalls.upcalls])]
      obtain ⟨p, h, n, ho, hreqs, hawaits⟩ := hs.toSound.reading halive hact
      obtain rfl := Option.some.inj (hreader.symm.trans hawaits.reader)
      have hcourse := course_handle cfg s.id s.inputLength h data
      exact brisk_answered ho hfed hcalls hoff rfl hcourse (fun _ => (hexp _ hawaits.expects).2)
        fun called hw htls => hw.armed_course (htls ▸ harmed hcalls.upcalls (by simp)) hcourse
    | @lineTooLong handler hhandler hact hcalls hoff =>
      rw [hsame (by simp [hcalls.upcalls])]
      obtain ⟨p, h, n, ho, -, -⟩ := hs.toSound.reading halive hact
      obtain rfl : handler = .lineTooLong := Option.some.inj (hhandler.symm.trans ho.attended.lineTooLong)
      exact brisk_answered ho hfed hcalls hoff rfl (course_bail _) (fun hne => absurd rfl hne)
        fun called hw _ => hw.armed_bail _
    | connect hact hcalls hoff hin =>
      cases hs.phase with
      | accepting _ hacc hlog hconn =>
        rw [hacc.connect] at hcalls
        have hlive : u.freed = false := (congrArg Tls.UserSide.freed hcalls.user).trans halive
        have hruns : u.died = false := (congrArg Tls.UserSide.died hcalls.user).trans hs.runs
        let called : Session := { s with
          id := e.identity.or s.id
          tls := u
          log := s.log ++ [⟨.connect .connect, handleConnect⟩]
          fault := s.fault || (u.freed && !beforeFree (.connect .connect)) }
        have hreact : react cfg { s with id := e.identity.or s.id } u = handleConnect.foldl perform called :=
          react_call hcalls.upcalls
        have hfin := finishes_connect (s := called) hfed hlive hruns (by simp [called, hs.sound, hlive])
          (hacc.calls hcalls hin) hoff (List.getLast?_concat)
        have ha := armed_handleConnect (s := called) hlive hruns (harmed hcalls.upcalls (by simp))
        rw [hreact]
        exact ⟨ha, fun hnil => absurd (hfin.log.symm.trans hnil) (by simp [called]),
          fun hfreed => absurd (hfin.connection.symm.trans hfreed) (by decide)⟩
      | waiting p h n ho hreq hawaits => exact absurd hact ho.attended.init
      | stalled p ho hreq hoff => exact absurd hact ho.attended.init
      | closing p _ hclosing hconn hlast hends => exact absurd hact hclosing.init
      | gone hgone => exact absurd (halive.symm.trans hgone) (by decide)
    | @timeout handler hhandler hcalls hoff =>
      rw [hsame (by simp [hcalls.upcalls])]
      obtain ⟨p, ho⟩ := hs.toSound.opened halive (Or.inr (hhandler ▸ rfl))
      obtain rfl : handler = .timeout := Option.some.inj (hhandler.symm.trans ho.attended.timeout)
      exact brisk_answered ho hfed hcalls (hoff .read (by decide)) rfl (course_bail _) (fun hne => absurd rfl hne)
        fun called hw _ => hw.armed_bail _

/-- `accept_tcp_cb()` starts the handshake, or frees the connection. -/
theorem init_acceptTcp (hasAddress hasSsl : Bool) (handler : Handler) (timeout now : ℚ)
    (h : (Tls.acceptTcp hasAddress hasSsl handler timeout now).freed = false) :
    .init ∈ (Tls.acceptTcp hasAddress hasSsl handler timeout now).loop.active := by
  unfold Tls.acceptTcp at h ⊢
  dsimp only at h ⊢
  split
  · rename_i haddress
    rw [if_pos haddress] at h
    split
    · simp [Tls.State.arm]
    · rename_i hssl
      rw [if_neg hssl, Tls.freed_tlsFree] at h
      cases h
  · rename_i haddress
    rw [if_neg haddress, Tls.freed_tlsFree] at h
    cases h

theorem brisk_start (cfg : Config ρ) (hasAddress hasSsl : Bool) (now : ℚ) :
    Brisk (start cfg hasAddress hasSsl now) where
  armed _ hne :=
    absurd (Tls.Started.accept hasAddress hasSsl Handler.connect cfg.timeout now).unused.unsent hne
  accepting _ := init_acceptTcp hasAddress hasSsl .connect cfg.timeout now
  leaving hfreed := by cases hfreed

end Server
end NscaNg
