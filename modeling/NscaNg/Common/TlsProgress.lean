/-
# What a connection has to do

As long as something is queued, `write_cb()` is waiting to send it (`Armed`). Once `tls_shutdown()` has been called, the
shutdown has begun, or it will begin when the queue is empty, or the connection has been freed (`Leaving`). Both hold
from one callback to the next; only a handler that a timeout calls finds the write watcher stopped, and may be expected
to write something. And the handshake goes on until it is done (`init_kept`).
-/
import NscaNg.Common.TlsStreams

namespace NscaNg
namespace Tls

open Posix Libev

variable {η : Type} {s t : State η}

/-- What is queued is going to be sent. -/
def Armed (s : State η) : Prop := s.freed = false → s.unsent ≠ [] → .write ∈ s.loop.active

/-- The shutdown goes on, or is over. -/
def Leaving (s : State η) : Prop :=
  s.freed = true ∨ .shutdown ∈ s.loop.active ∨ (s.shutdownOnDrain = true ∧ .write ∈ s.loop.active)

theorem Armed.of_freed (h : s.freed = true) : Armed s := fun hf => absurd (h.symm.trans hf) (by decide)

theorem Armed.of_beside (h : Armed s) (hb : Beside s t) : Armed t := by
  intro hf hne
  have hs : s.freed = false := by
    by_contra hc
    exact absurd (hf.symm.trans (hb.freed (by simpa using hc))) (by decide)
  exact (hb.write hf).mpr (h hs (unsent_of_side hb.side ▸ hne))

/-! ### What a handler calls -/

theorem write_writeBuffered (data : Bytes) (s : State η) : .write ∈ (writeBuffered data s).loop.active :=
  mem_armWrite { s with outputBuffer := s.outputBuffer ++ data }

theorem write_tlsWrite (data : Bytes) (freeData : Bool) (s : State η) : .write ∈ (tlsWrite data freeData s).loop.active := by
  unfold tlsWrite
  split
  · exact mem_armWrite { s with output := some data, outputSize := data.length }
  · exact write_writeBuffered data s

theorem armed_tlsWrite (data : Bytes) (freeData : Bool) (s : State η) : Armed (tlsWrite data freeData s) :=
  fun _ _ => write_tlsWrite data freeData s

theorem armed_tlsWriteLine (string : Bytes) (s : State η) : Armed (tlsWriteLine string s) :=
  fun _ _ => write_writeBuffered lineTerminator _

theorem Armed.tlsRead (h : Armed s) (handler : η) (size : ℕ) : Armed (tlsRead handler size s) := by
  refine h.of_beside ?_
  unfold Tls.tlsRead
  split
  · exact beside_same rfl rfl Iff.rfl id
  · have hask : Beside s (s.ask handler size) := beside_same rfl rfl Iff.rfl id
    exact hask.trans (beside_arm (by decide) (by decide) .read _)

theorem Armed.tlsShutdown (h : Armed s) : Armed (tlsShutdown s) := by
  intro hf hne
  rw [unsent_of_side (outputSide_tlsShutdown s)] at hne
  have halive : s.freed = false := (congrArg UserSide.freed (userSide_tlsShutdown s)).symm.trans hf
  exact (mem_tlsShutdown_active s .write).mpr (Or.inl (h halive hne))

theorem leaving_tlsShutdown (s : State η) : Leaving (tlsShutdown s) := by
  by_cases hact : .write ∈ s.loop.active
  · refine Or.inr (Or.inr ⟨?_, (mem_tlsShutdown_active s .write).mpr (Or.inl hact)⟩)
    unfold tlsShutdown tlsOnDrain
    dsimp only
    split <;> rfl
  · exact Or.inr (Or.inl ((mem_tlsShutdown_active s .shutdown).mpr (Or.inr ⟨rfl, hact⟩)))

/-! ### Steps of the event loop -/

theorem timeoutHandler_stopIo (s : State η) : s.stopIo.timeoutHandler = s.timeoutHandler :=
  congrArg UserSide.timeoutHandler (userSide_stopIo s)

/-- The timer starts again, or the connection has timed out. -/
theorem timeoutCb_either (s : State η) : (timeoutCb s).freed = true ∧ s.timeoutHandler = none ∨
    (∃ handler, s.timeoutHandler = some handler ∧ (timeoutCb s).history.upcalls = s.history.upcalls ++ [.timeout handler]) ∨
    ∃ after, timeoutCb s = resumeTimeout after s := by
  have hhandler := timeoutHandler_stopIo s
  have hhistory := history_stopIo s
  unfold timeoutCb
  dsimp only
  split
  · exact Or.inr (Or.inr ⟨_, rfl⟩)
  · generalize s.stopIo = u at hhandler hhistory
    have hresume : (resumeTimeout u.timeout u).timeoutHandler = s.timeoutHandler := hhandler
    have hkept : (resumeTimeout u.timeout u).history = s.history := hhistory
    generalize resumeTimeout u.timeout u = v at hresume hkept
    split
    · rename_i handler hsome
      refine Or.inr (Or.inl ⟨handler, hresume.symm.trans hsome, ?_⟩)
      show v.history.upcalls ++ [.timeout handler] = _
      rw [hkept]
    · rename_i hnone
      exact Or.inl ⟨rfl, hresume.symm.trans hnone⟩

theorem beside_resumeTimeout (after : ℚ) (s : State η) : Beside s (resumeTimeout after s) :=
  beside_same rfl rfl (by simp [resumeTimeout]) (by simp [resumeTimeout])

/-- What is queued is going to be sent, unless the handler of a timeout is to be called. -/
theorem armed_stepAlive {e : Event η} (hfed : IoFed s) (hs : Flushes s) (ha : Armed s) (he : e.FromLoop)
    (h : stepAlive s e = some t) :
    Armed t ∨ ∃ handler, s.timeoutHandler = some handler ∧ t.history.upcalls = s.history.upcalls ++ [.timeout handler] := by
  by_cases haside : e.OutputAside
  · exact Or.inl (ha.of_beside (beside_stepAlive hfed haside h))
  · cases e with
    | writeCb replies => exact Or.inl fun hf => ((sends_writeCb hfed hs.queue hs.watch h).watch hf).mpr
    | timeoutCb =>
      obtain ⟨-, rfl⟩ := invoke_eq_some h
      rcases timeoutCb_either { s with loop := s.loop.take .timeout } with ⟨hfreed, -⟩ | hcalls | ⟨after, hresume⟩
      · exact Or.inl (.of_freed hfreed)
      · exact Or.inr hcalls
      · rw [hresume]
        exact Or.inl (ha.of_beside ((beside_take .timeout s).trans (beside_resumeTimeout after _)))
    | tlsWrite data freeData => exact he.elim
    | tlsWriteLine string => exact he.elim
    | tlsShutdown => exact he.elim
    | _ => exact absurd trivial haside

/-- The shutdown begins when everything has been sent. -/
theorem begun_stepAlive {e : Event η} (hfed : IoFed s) (hs : Flushes s) (he : e.FromLoop) (h : stepAlive s e = some t)
    (hact : .shutdown ∈ t.loop.active) : .shutdown ∈ s.loop.active ∨ t.unsent = [] := by
  by_cases haside : e.OutputAside
  · exact Or.inl ((beside_stepAlive hfed haside h).begun hact)
  · cases e with
    | writeCb replies => exact (sends_writeCb hfed hs.queue hs.watch h).begun hact
    | timeoutCb =>
      obtain ⟨-, rfl⟩ := invoke_eq_some h
      exact Or.inl (((frame_take (w := .timeout) (by decide) _).trans (frame_timeoutCb (by decide) _)).tended.shutdown hact)
    | tlsWrite data freeData => exact he.elim
    | tlsWriteLine string => exact he.elim
    | tlsShutdown => exact he.elim
    | _ => exact absurd trivial haside

/-! ### The handshake -/

theorem freed_tlsFree (s : State η) : (tlsFree s).freed = true :=
  congrArg UserSide.freed (userSide_tlsFree s)

theorem freed_tlsError (s : State η) : (tlsError s).freed = true := by
  unfold tlsError
  split <;> exact freed_tlsFree _

/-- `connect_cb()` and `accept_ssl_cb()` go on waiting, unless they are done. -/
theorem init_acceptSslCb (reply : SslAccept) (hinit : .init ∈ s.loop.active)
    (hfreed : (acceptSslCb reply s).freed = false)
    (hquiet : (acceptSslCb reply s).history.upcalls = s.history.upcalls) :
    .init ∈ (acceptSslCb reply s).loop.active := by
  have hwait : ∀ events, .init ∈ (s.loop.waitFor .init events).active := fun events => by
    rw [Loop.waitFor_active _ _ _ hinit]
    exact hinit
  unfold acceptSslCb at hfreed hquiet ⊢
  cases reply with
  | error e =>
    cases e with
    | wantRead => exact hwait .read
    | wantWrite => exact hwait .write
    | interrupted => exact hinit
    | failed =>
      simp only [Tls.checkTlsError, freed_tlsError] at hfreed
      cases hfreed
  | established identified =>
    cases identified with
    | false =>
      simp only [freed_tlsFree] at hfreed
      cases hfreed
    | true => simp [State.call, State.touch] at hquiet

/-- The handshake goes on until it is done, or the connection is freed. -/
theorem init_kept {e : Event η} (hfed : IoFed s) (htimeout : s.timeoutHandler = none) (hinit : .init ∈ s.loop.active)
    (hoff : .read ∉ s.loop.active ∧ .write ∉ s.loop.active ∧ .shutdown ∉ s.loop.active) (he : e.FromLoop)
    (hstep : stepAlive s e = some t) (hfreed : t.freed = false) (hquiet : t.history.upcalls = s.history.upcalls) :
    .init ∈ t.loop.active := by
  have hnone : ∀ {w : Watcher} {callback : State η → State η}, w ≠ .timeout → w ∉ s.loop.active →
      invoke w callback s ≠ some t := fun hw hact hinvoke => hact (hfed.fed _ hw (invoke_eq_some hinvoke).1)
  cases e with
  | advance time =>
    cases hstep
    exact hinit
  | ready w =>
    simp only [stepAlive] at hstep
    split at hstep <;> cases hstep
    exact hinit
  | expire =>
    simp only [stepAlive] at hstep
    split at hstep <;> cases hstep
    simp [hinit]
  | acceptSslCb reply =>
    obtain ⟨-, rfl⟩ := invoke_eq_some hstep
    exact init_acceptSslCb (s := { s with loop := s.loop.take .init }) reply hinit hfreed hquiet
  | readCb replies => exact absurd hstep (hnone (by decide) hoff.1)
  | writeCb replies => exact absurd hstep (hnone (by decide) hoff.2.1)
  | shutdownCb replies => exact absurd hstep (hnone (by decide) hoff.2.2)
  | timeoutCb =>
    obtain ⟨-, rfl⟩ := invoke_eq_some hstep
    rcases timeoutCb_either { s with loop := s.loop.take .timeout } with ⟨hgone, -⟩ | ⟨handler, hsome, -⟩ | ⟨after, hresume⟩
    · exact absurd (hfreed.symm.trans hgone) (by decide)
    · exact absurd (htimeout.symm.trans hsome) (by simp)
    · rw [hresume]
      simpa [resumeTimeout] using hinit
  | _ => exact he.elim

/-! ### The shutdown -/

theorem leaving_tlsError (s : State η) : Leaving (tlsError s) := Or.inl (freed_tlsError s)

theorem Leaving.waitFor (h : Leaving s) {w : Watcher} (hact : w ∈ s.loop.active) (events : Events) :
    Leaving (waitFor w events s) := by
  have hsame : (s.loop.waitFor w events).active = s.loop.active := Loop.waitFor_active _ _ _ hact
  unfold Leaving Tls.waitFor
  rw [hsame]
  exact h

theorem Leaving.checkTlsError (h : Leaving s) {w : Watcher} (hact : w ∈ s.loop.active) (e : SslError) :
    Leaving (checkTlsError w e s) := by
  cases e with
  | wantRead => exact h.waitFor hact .read
  | wantWrite => exact h.waitFor hact .write
  | interrupted => exact h
  | failed => exact leaving_tlsError s

theorem leaving_nextOutput (h : Leaving s) : Leaving (nextOutput s) ∧ (nextOutput s).loop = s.loop := by
  unfold nextOutput
  split
  · exact ⟨h, rfl⟩
  · exact ⟨h, rfl⟩

/-- The drain handler is called if the shutdown has not begun yet. -/
theorem leaving_drained (h : Leaving s) : Leaving (drained s) := by
  unfold drained
  dsimp only
  split
  · exact Or.inr (Or.inl (by simp [startShutdown, State.arm]))
  · rename_i hdrain
    rcases h with hfreed | hshutdown | ⟨hset, -⟩
    · exact Or.inl hfreed
    · exact Or.inr (Or.inl (by simpa using hshutdown))
    · exact absurd hset hdrain

theorem leaving_writeLoop (replies : List SslWrite) (h : Leaving s) (hact : .write ∈ s.loop.active) :
    Leaving (writeLoop replies s) := by
  induction replies generalizing s with
  | nil =>
    obtain ⟨hnext, hloop⟩ := leaving_nextOutput h
    exact hnext.checkTlsError (hloop ▸ hact) .wantWrite
  | cons reply replies ih =>
    obtain ⟨hnext, hloop⟩ := leaving_nextOutput h
    have hact' : .write ∈ (nextOutput s).loop.active := hloop ▸ hact
    unfold writeLoop
    generalize nextOutput s = s at hnext hact'
    dsimp only
    split
    · rename_i e _
      exact hnext.checkTlsError hact' e
    · rename_i n _
      split
      · exact ih (s := { s.send n with outputOffset := (s.send n).outputOffset + n }) hnext hact'
      · split
        · exact leaving_drained (s := { s.send n with output := none, outputSize := 0, outputOffset := 0 }) hnext
        · exact ih (s := { s.send n with output := none, outputSize := 0, outputOffset := 0 }) hnext hact'

theorem leaving_shutdownLoop (replies : List SslShutdown) (h : Leaving s) (hact : .shutdown ∈ s.loop.active) :
    Leaving (shutdownLoop replies s) := by
  induction replies with
  | nil => exact h.checkTlsError hact .wantRead
  | cons reply replies ih =>
    cases reply with
    | done => exact Or.inl rfl
    | sent => exact ih
    | error e => exact h.checkTlsError hact e

/-- A connection that nobody reads from any more goes on being shut down. -/
theorem leaving_stepAlive {e : Event η} (hfed : IoFed s) (h : Leaving s) (htimeout : s.timeoutHandler = none)
    (hinit : .init ∉ s.loop.active) (hread : .read ∉ s.loop.active) (he : e.FromLoop) (hstep : stepAlive s e = some t) :
    Leaving t := by
  have hoff : ∀ {w : Watcher} {callback : State η → State η}, w ≠ .timeout → w ∉ s.loop.active →
      invoke w callback s ≠ some t := fun hw hact hinvoke => hact (hfed.fed _ hw (invoke_eq_some hinvoke).1)
  cases e with
  | advance time =>
    cases hstep
    exact h
  | ready w =>
    simp only [stepAlive] at hstep
    split at hstep <;> cases hstep
    exact h
  | expire =>
    simp only [stepAlive] at hstep
    split at hstep <;> cases hstep
    refine h.imp id fun hact => ?_
    simpa using hact
  | acceptSslCb reply => exact absurd hstep (hoff (by decide) hinit)
  | readCb replies => exact absurd hstep (hoff (by decide) hread)
  | writeCb replies =>
    obtain ⟨hpen, rfl⟩ := invoke_eq_some hstep
    have hact := hfed.fed .write (by decide) hpen
    exact leaving_writeLoop replies (s := (resetWatcherState .read { s with loop := s.loop.take .write }).touch)
      (by simpa [Leaving, resetWatcherState, State.touch] using h) (by simpa [resetWatcherState, State.touch] using hact)
  | shutdownCb replies =>
    obtain ⟨hpen, rfl⟩ := invoke_eq_some hstep
    have hact := hfed.fed .shutdown (by decide) hpen
    exact leaving_shutdownLoop replies (s := ({ s with loop := s.loop.take .shutdown } : State η).touch) h hact
  | timeoutCb =>
    obtain ⟨-, rfl⟩ := invoke_eq_some hstep
    rcases timeoutCb_either { s with loop := s.loop.take .timeout } with ⟨hfreed, -⟩ | ⟨handler, hsome, -⟩ | ⟨after, hresume⟩
    · exact Or.inl hfreed
    · exact absurd (htimeout.symm.trans hsome) (by simp)
    · rw [hresume]
      refine h.imp id fun hact => ?_
      simpa [resumeTimeout] using hact
  | _ => exact he.elim

end Tls
end NscaNg
