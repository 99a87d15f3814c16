/-
# The connection of a client

The connection of a client is being made; a handler waits for a line; none waits, because the client reads its
standard input or a handler is at work; or the connection is being shut down. A step of the event loop keeps
it there, or calls the handler, or ends the program (`Turns`).
-/
import NscaNg.Common.TlsProgress
import NscaNg.Client.Session

namespace NscaNg.Client

open Posix Libev

/-- What holds of the connection until it is shut down. -/
structure Connected (t : Tls.State Handler) : Prop where
  fed : Tls.IoFed t
  alive : t.freed = false
  runs : t.died = false
  error : t.errorHandler = none
  timeout : t.timeoutHandler = none
  lineTooLong : t.lineTooLongHandler = none
  drain : t.shutdownOnDrain = false
  shutdown : .shutdown ∉ t.loop.active
  armed : Tls.Armed t

/-- `connect_cb()` is at work. -/
structure Connecting (t : Tls.State Handler) : Prop extends Connected t where
  handler : t.connectHandler = .connect
  init : .init ∈ t.loop.active
  read : .read ∉ t.loop.active
  write : .write ∉ t.loop.active
  blank : Tls.Blank t

/-- Nothing is asked for. -/
structure Resting (t : Tls.State Handler) : Prop extends Connected t where
  init : .init ∉ t.loop.active
  read : .read ∉ t.loop.active
  blank : Tls.Blank t

/-- The handler waits for a line. -/
structure Awaiting (h : Handler) (t : Tls.State Handler) : Prop extends Connected t where
  init : .init ∉ t.loop.active
  read : .read ∈ t.loop.active
  reader : t.readHandler = some h
  expects : Tls.Expects t .line

/-- `tls_shutdown()` has been called. -/
structure Closing (t : Tls.State Handler) : Prop where
  fed : Tls.IoFed t
  runs : t.died = false
  error : t.errorHandler = none
  timeout : t.timeoutHandler = none
  init : .init ∉ t.loop.active
  read : .read ∉ t.loop.active
  leaves : Tls.Leaving t
  /-- The shutdown begins when everything has been sent. -/
  swept : .shutdown ∈ t.loop.active ∨ t.freed = true → t.unsent = []

/-- What becomes of the connection. -/
inductive Posture
  | connecting
  | resting
  | awaiting (h : Handler)
  | closing

def Posture.Holds (t : Tls.State Handler) : Posture → Prop
  | .connecting => Connecting t
  | .resting => Resting t
  | .awaiting h => Awaiting h t
  | .closing => Closing t

/-! ### What the handlers call -/

section

variable {t u : Tls.State Handler}

theorem Connected.alike (h : Connected t) (hu : Tls.Alike t u) (hfed : Tls.IoFed u) (harmed : Tls.Armed u) :
    Connected u where
  fed := hfed
  armed := harmed
  alive := (congrArg Tls.UserSide.freed hu.user).trans h.alive
  runs := (congrArg Tls.UserSide.died hu.user).trans h.runs
  error := (congrArg Tls.UserSide.errorHandler hu.user).trans h.error
  timeout := (congrArg Tls.UserSide.timeoutHandler hu.user).trans h.timeout
  lineTooLong := (congrArg Tls.UserSide.lineTooLongHandler hu.user).trans h.lineTooLong
  drain := (congrArg Tls.UserSide.shutdownOnDrain hu.user).trans h.drain
  shutdown hact := h.shutdown ((hu.active .shutdown (by decide)).mp hact)

theorem Resting.alike (h : Resting t) (hu : Tls.Alike t u) (hfed : Tls.IoFed u) (harmed : Tls.Armed u) : Resting u where
  toConnected := h.toConnected.alike hu hfed harmed
  init hact := h.init ((hu.active .init (by decide)).mp hact)
  read hact := h.read ((hu.active .read (by decide)).mp hact)
  blank := h.blank.of_side hu.input

theorem Resting.tlsWriteLine (h : Resting t) (string : Bytes) : Resting (Tls.tlsWriteLine string t) :=
  h.alike (Tls.alike_tlsWriteLine string t) (Tls.ioFed_writeBuffered (Tls.ioFed_writeBuffered h.fed string) _)
    (Tls.armed_tlsWriteLine string t)

theorem Resting.tlsWrite (h : Resting t) (data : Bytes) (freeData : Bool) :
    Resting (Tls.tlsWrite data freeData t) :=
  h.alike (Tls.alike_tlsWrite data freeData t) (Tls.ioFed_tlsWrite h.fed data freeData)
    (Tls.armed_tlsWrite data freeData t)

/-- The handler asks for a line. -/
theorem Resting.tlsRead (h : Resting t) (handler : Handler) : Awaiting handler (Tls.tlsRead handler 0 t) := by
  have hread : Tls.tlsRead handler 0 t = (t.ask handler 0).arm .read .read := if_neg h.read
  rw [hread]
  have hexp : Tls.Expects (t.ask handler 0) .line := Tls.expects_ask h.blank handler (by decide : (0 : ℕ) < 2 ^ 31)
  refine ⟨⟨?_, h.alive, h.runs, h.error, h.timeout, h.lineTooLong, h.drain, ?_,
    hread ▸ h.armed.tlsRead handler 0⟩, ?_, ?_, rfl, hexp⟩
  · exact Tls.ioFed_arm (s := t.ask handler 0) (Tls.ioFed_loop h.fed rfl) (by decide) .read
  · simpa [Tls.State.arm, Tls.State.ask] using h.shutdown
  · simpa [Tls.State.arm, Tls.State.ask] using h.init
  · simp [Tls.State.arm, Tls.State.ask]

theorem Resting.tlsShutdown (h : Resting t) : Closing (Tls.tlsShutdown t) := by
  have huser := Tls.userSide_tlsShutdown t
  refine ⟨Tls.ioFed_tlsShutdown h.fed, (congrArg Tls.UserSide.died huser).trans h.runs,
    congrArg Tls.UserSide.errorHandler huser, congrArg Tls.UserSide.timeoutHandler huser, fun hact => ?_,
    fun hact => ?_, Tls.leaving_tlsShutdown t, fun hends => ?_⟩
  · exact h.init (((Tls.mem_tlsShutdown_active t .init).mp hact).resolve_right (by simp))
  · exact h.read (((Tls.mem_tlsShutdown_active t .read).mp hact).resolve_right (by simp))
  · have hlive : (Tls.tlsShutdown t).freed = false := (congrArg Tls.UserSide.freed huser).trans h.alive
    have hact := hends.resolve_right fun hfreed => absurd (hlive.symm.trans hfreed) (by decide)
    obtain ⟨-, hoff⟩ := ((Tls.mem_tlsShutdown_active t .shutdown).mp hact).resolve_left h.shutdown
    rw [(Tls.writes_tlsShutdown t).unsent, List.append_nil]
    by_contra hne
    exact hoff (h.armed h.alive hne)

/-! ### Steps of the event loop -/

theorem Connected.calls {called : List (Tls.Upcall Handler)} (h : Connected t) (hu : Tls.Calls called t u)
    (hfed : Tls.IoFed u) (harmed : Tls.Armed u) : Connected u where
  fed := hfed
  armed := harmed
  alive := (congrArg Tls.UserSide.freed hu.user).trans h.alive
  runs := (congrArg Tls.UserSide.died hu.user).trans h.runs
  error := (congrArg Tls.UserSide.errorHandler hu.user).trans h.error
  timeout := (congrArg Tls.UserSide.timeoutHandler hu.user).trans h.timeout
  lineTooLong := (congrArg Tls.UserSide.lineTooLongHandler hu.user).trans h.lineTooLong
  drain := (congrArg Tls.UserSide.shutdownOnDrain hu.user).trans h.drain
  shutdown hact := (hu.off .shutdown (by decide) hact).elim h.shutdown fun hs =>
    absurd (h.drain.symm.trans hs.2) (by decide)

/-- A watcher other than that of the shutdown is not started. -/
theorem off_of_calls {called : List (Tls.Upcall Handler)} {w : Tls.Watcher} (hu : Tls.Calls called t u)
    (hw : w ≠ .timeout ∧ w ≠ .shutdown) (h : w ∉ t.loop.active) : w ∉ u.loop.active := fun hact =>
  (hu.off w hw.1 hact).elim h fun hs => hw.2 hs.1

/-- The connection goes on being made. -/
theorem Connecting.kept {e : Tls.Event Handler} (h : Connecting t) (hu : Tls.Calls [] t u) (he : e.FromLoop)
    (hstep : Tls.stepAlive t e = some u) : .init ∈ u.loop.active :=
  Tls.init_kept h.fed h.timeout h.init ⟨h.read, h.write, h.shutdown⟩ he hstep
    ((congrArg Tls.UserSide.freed hu.user).trans h.alive) (hu.upcalls.trans (List.append_nil _))

/-- What a step of the event loop comes to. -/
inductive Turns (m : Posture) (closes : Bool) (t u : Tls.State Handler) : Prop
  | quiet : u.history.upcalls = t.history.upcalls → Tls.Flow none [] t u → m.Holds u →
      (u.freed = true → closes = true) → Turns m closes t u
  | dies : u.freed = true → closes = false → Tls.Flow none [] t u → Turns m closes t u
  | connects : m = .connecting → u.history.upcalls = t.history.upcalls ++ [.connect .connect] →
      Tls.Flow none [] t u → Resting u → Turns m closes t u
  | reads (h : Handler) (data : Bytes) : m = .awaiting h →
      u.history.upcalls = t.history.upcalls ++ [.read h data] →
      Tls.Flow (some (.line, data)) [] t u → Resting u → Turns m closes t u

theorem Posture.Holds.unheard {m : Posture} (h : m.Holds t) :
    Tls.IoFed t ∧ t.died = false ∧ t.errorHandler = none ∧ t.timeoutHandler = none := by
  have hconnected : Connected t → Tls.IoFed t ∧ t.died = false ∧ t.errorHandler = none ∧ t.timeoutHandler = none :=
    fun h => ⟨h.fed, h.runs, h.error, h.timeout⟩
  cases m with
  | connecting => exact hconnected (show Connecting t from h).toConnected
  | resting => exact hconnected (show Resting t from h).toConnected
  | awaiting handler => exact hconnected (show Awaiting handler t from h).toConnected
  | closing =>
    have h : Closing t := h
    exact ⟨h.fed, h.runs, h.error, h.timeout⟩

/-- Where something is read, a handler waits for a line. -/
theorem Posture.Holds.awaiting {m : Posture} (h : m.Holds t) (hact : .read ∈ t.loop.active) :
    ∃ handler, m = .awaiting handler ∧ Awaiting handler t := by
  cases m with
  | connecting => exact absurd hact (Connecting.read h)
  | resting => exact absurd hact (Resting.read h)
  | awaiting handler => exact ⟨handler, rfl, h⟩
  | closing => exact absurd hact (Closing.read h)

theorem Posture.Holds.connecting {m : Posture} (h : m.Holds t) (hact : .init ∈ t.loop.active) :
    m = .connecting ∧ Connecting t := by
  cases m with
  | connecting => exact ⟨rfl, h⟩
  | resting => exact absurd hact (Resting.init h)
  | awaiting handler => exact absurd hact (Awaiting.init h)
  | closing => exact absurd hact (Closing.init h)

theorem Posture.Holds.closing {m : Posture} (h : m.Holds t) (hact : .shutdown ∈ t.loop.active) :
    m = .closing ∧ Closing t := by
  cases m with
  | connecting => exact absurd hact (show Connecting t from h).shutdown
  | resting => exact absurd hact (show Resting t from h).shutdown
  | awaiting handler => exact absurd hact (show Awaiting handler t from h).shutdown
  | closing => exact ⟨rfl, h⟩

/-- What is queued is going to be sent. -/
theorem Connected.armed_stepAlive {e : Tls.Event Handler} (h : Connected t) (hf : Tls.Flushes t) (he : e.FromLoop)
    (hstep : Tls.stepAlive t e = some u) : Tls.Armed u :=
  (Tls.armed_stepAlive h.fed hf h.armed he hstep).elim id fun ⟨_, hsome, _⟩ => absurd (h.timeout.symm.trans hsome) (by simp)

/-- Nothing more is written once everything has been sent. -/
theorem unsent_of_flow (hflow : Tls.Flow none [] t u) (hnil : t.unsent = []) : u.unsent = [] := by
  have hle := hflow.length_unsent_le
  rw [hnil] at hle
  exact List.length_eq_zero_iff.mp (Nat.le_zero.mp hle)

/-- The connection stays as it is. -/
theorem Posture.Holds.calls {m : Posture} {e : Tls.Event Handler} (h : m.Holds t) (hf : Tls.Flushes t)
    (halive : t.freed = false) (hflow : Tls.Flow none [] t u)
    (hu : Tls.Calls [] t u) (hfed : Tls.IoFed u) (he : e.FromLoop) (hstep : Tls.stepAlive t e = some u)
    (hread : t.readHandler.isSome → .read ∈ t.loop.active → .read ∈ u.loop.active)
    (hexp : ∀ r, Tls.Expects t r → Tls.Expects u r)
    (hside : .read ∉ t.loop.active → u.inputSide = t.inputSide) : m.Holds u := by
  cases m with
  | connecting =>
    have h : Connecting t := h
    exact { h.toConnected.calls hu hfed (h.toConnected.armed_stepAlive hf he hstep) with
      handler := (congrArg Tls.UserSide.connectHandler hu.user).trans h.handler
      init := h.kept hu he hstep
      read := off_of_calls hu (by decide) h.read
      write := off_of_calls hu (by decide) h.write
      blank := h.blank.of_side (hside h.read) }
  | resting =>
    have h : Resting t := h
    exact { h.toConnected.calls hu hfed (h.toConnected.armed_stepAlive hf he hstep) with
      init := off_of_calls hu (by decide) h.init
      read := off_of_calls hu (by decide) h.read
      blank := h.blank.of_side (hside h.read) }
  | awaiting handler =>
    have h : Awaiting handler t := h
    exact { h.toConnected.calls hu hfed (h.toConnected.armed_stepAlive hf he hstep) with
      init := off_of_calls hu (by decide) h.init
      read := hread (h.reader ▸ rfl) h.read
      reader := (congrArg Tls.UserSide.readHandler hu.user).trans h.reader
      expects := hexp _ h.expects }
  | closing =>
    have h : Closing t := h
    exact {
      fed := hfed
      runs := (congrArg Tls.UserSide.died hu.user).trans h.runs
      error := (congrArg Tls.UserSide.errorHandler hu.user).trans h.error
      timeout := (congrArg Tls.UserSide.timeoutHandler hu.user).trans h.timeout
      init := off_of_calls hu (by decide) h.init
      read := off_of_calls hu (by decide) h.read
      leaves := Tls.leaving_stepAlive h.fed h.leaves h.timeout h.init h.read he hstep
      swept := fun hends => by
        have hfreed : u.freed = false := (congrArg Tls.UserSide.freed hu.user).trans halive
        have hact := hends.resolve_right fun hgone => absurd (hfreed.symm.trans hgone) (by decide)
        rcases Tls.begun_stepAlive h.fed hf he hstep hact with hbegun | hnil
        · exact unsent_of_flow hflow (h.swept (Or.inl hbegun))
        · exact hnil }

theorem event_fromLoop {e : Event} {e' : Tls.Event Handler} (h : e.tls = some e') : e'.FromLoop := by
  cases e with
  | connectCb reply => cases reply <;> cases h <;> trivial
  | inputCb readings now => cases h
  | _ =>
    cases h
    trivial

/-- **Steps of the event loop**, for a client. -/
theorem turns_step {m : Posture} {e : Event} {e' : Tls.Event Handler} (h : m.Holds t) (hf : Tls.Flushes t)
    (he : e.tls = some e') (hstep : Tls.step t e' = some u) : Tls.Flushes u ∧ Turns m e.closes t u := by
  obtain ⟨halive, -, hsteps⟩ := Tls.step_eq_some hstep
  obtain ⟨hfed', -, herror, htimeout⟩ := h.unheard
  have hloop := event_fromLoop he
  have hfed : Tls.IoFed u := Tls.ioFed_step hfed' hstep
  have hwaits : .read ∈ t.loop.active → Tls.Waiting t .line := fun hact => by
    obtain ⟨handler, -, haw⟩ := h.awaiting hact
    exact haw.expects.waiting fun hne => absurd rfl hne
  obtain ⟨hfu, hflow⟩ := Tls.flow_stepAlive hfed' halive hf hloop hwaits hsteps
  refine ⟨hfu, ?_⟩
  have hkept : u.delivered = t.delivered → Tls.Flow none [] t u := fun hdel => by
    rcases hflow with ⟨-, hflow, -⟩ | ⟨data, hdata, -⟩
    · exact hflow
    · rw [hdel] at hdata
      simp at hdata
  cases Tls.outcome_stepAlive hfed' hloop hsteps with
  | quiet hcalls hread hexp hside =>
    have hflow := hkept (by simp [hcalls.delivered])
    have hfreed : u.freed = false := (congrArg Tls.UserSide.freed hcalls.user).trans halive
    exact .quiet (hcalls.upcalls.trans (List.append_nil _)) hflow (h.calls hf halive hflow hcalls hfed hloop hsteps hread hexp hside)
      fun hc => absurd (hfreed.symm.trans hc) (by decide)
  | freed hfreed hwhy =>
    have hupcalls : u.history.upcalls = t.history.upcalls :=
      (congrArg Tls.UserSide.upcalls hfreed.user).trans (List.append_nil _)
    have hflow := hkept (by rw [Tls.State.delivered, hupcalls, Tls.State.delivered])
    have hgone : u.freed = true := congrArg Tls.UserSide.freed hfreed.user
    cases hcloses : e.closes with
    | false => exact .dies hgone rfl hflow
    | true =>
      cases e with
      | shutdownCb replies =>
        cases he
        have hact := hfed'.fed .shutdown (by decide) (Tls.invoke_eq_some hsteps).1
        obtain ⟨rfl, hclosing⟩ := h.closing hact
        exact .quiet hupcalls hflow {
          fed := hfed
          runs := (hfreed.runs halive).trans hclosing.runs
          error := (congrArg Tls.UserSide.errorHandler hfreed.user).trans hclosing.error
          timeout := (congrArg Tls.UserSide.timeoutHandler hfreed.user).trans hclosing.timeout
          init := hfreed.inactive ▸ Finset.notMem_empty _
          read := hfreed.inactive ▸ Finset.notMem_empty _
          leaves := Or.inl hgone
          swept := fun _ => unsent_of_flow hflow (hclosing.swept (Or.inl hact)) } fun _ => rfl
      | _ => cases hcloses
  | error hhandler _ => exact absurd (hhandler.symm.trans herror) (by simp)
  | @read handler data hhandler hact hcalls hoff hexp =>
    obtain ⟨_, rfl, haw⟩ := h.awaiting hact
    obtain rfl := Option.some.inj (hhandler.symm.trans haw.reader)
    have hrest : Resting u := { haw.toConnected.calls hcalls hfed (haw.toConnected.armed_stepAlive hf hloop hsteps) with
      init := off_of_calls hcalls (by decide) haw.init
      read := hoff
      blank := (hexp _ haw.expects).2 }
    rcases hflow with ⟨hdel, -, -⟩ | ⟨data', hdel, hflow⟩
    · rw [hcalls.delivered] at hdel
      simp [Tls.Upcall.data?] at hdel
    · obtain rfl : data' = data := by simpa [hcalls.delivered, Tls.Upcall.data?] using hdel.symm
      exact .reads handler data' rfl hcalls.upcalls hflow hrest
  | lineTooLong hhandler hact hcalls hoff =>
    obtain ⟨_, -, haw⟩ := h.awaiting hact
    exact absurd (hhandler.symm.trans haw.lineTooLong) (by simp)
  | connect hact hcalls hoff hside =>
    obtain ⟨rfl, hcon⟩ := h.connecting hact
    have hflow := hkept (by simp [hcalls.delivered, Tls.Upcall.data?])
    rw [hcon.handler] at hcalls
    have hconnected := hcon.toConnected.calls hcalls hfed (hcon.toConnected.armed_stepAlive hf hloop hsteps)
    exact .connects rfl hcalls.upcalls hflow { hconnected with
      init := hoff
      read := off_of_calls hcalls (by decide) hcon.read
      blank := hcon.blank.of_side (hside hcon.read) }
  | timeout hhandler _ _ => exact absurd (hhandler.symm.trans htimeout) (by simp)

end

end NscaNg.Client
