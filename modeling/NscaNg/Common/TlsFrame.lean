/-
# What leaves the input of a connection alone

Most of what a connection does leaves its input side alone (`InputSide`) and does little to the
read and the write watcher: they are fed while active, stopped, or, in the case of the write watcher,
started and fed (`Tended`). `Frame` says this of a step, and there is a lemma for each function of the
model. What is left are requests, and a watcher in its own callback.
-/
import NscaNg.Common.Tls

namespace NscaNg
namespace Tls

open Posix Libev

variable {η : Type}

/-- The data of a call of a read handler. -/
def Upcall.data? : Upcall η → Option Bytes
  | .read _ data => some data
  | .connect _ | .error _ | .timeout _ | .lineTooLong _ => none

namespace State

/-- What the read handlers have been given. -/
def delivered (s : State η) : List Bytes := s.history.upcalls.filterMap Upcall.data?

/-- What has been received for the handlers and not been given to them. -/
def unread (s : State η) : Bytes := (s.input.getD []).take s.inputOffset ++ s.inputBuffer

end State

/-- The part of the state that reading changes. -/
structure InputSide where
  inputBuffer : Bytes
  input : Option Bytes
  inputSize : ℕ
  inputOffset : ℕ
  readMode : ReadMode
  waits : Bool
  requests : List Request
  received : Bytes
  delivered : List Bytes

def State.inputSide (s : State η) : InputSide where
  inputBuffer := s.inputBuffer
  input := s.input
  inputSize := s.inputSize
  inputOffset := s.inputOffset
  readMode := s.readMode
  waits := s.readHandler.isSome
  requests := s.history.requests
  received := s.history.received
  delivered := s.delivered

/-- What may happen to a watcher: it stays as it is, it is fed while it is active, it is stopped, or it
is started and fed if it is the write watcher. -/
inductive Tended (v : Watcher) (l l' : Loop Watcher) : Prop
  | same : (v ∈ l'.active ↔ v ∈ l.active) → (v ∈ l'.pending ↔ v ∈ l.pending) → Tended v l l'
  | fed : v ∈ l'.active → v ∈ l'.pending → v = .write ∨ v ∈ l.active → Tended v l l'
  | stopped : v ∉ l'.active → v ∉ l'.pending → Tended v l l'

theorem Tended.refl (v : Watcher) (l : Loop Watcher) : Tended v l l := .same Iff.rfl Iff.rfl

theorem Tended.trans {v : Watcher} {l l' l'' : Loop Watcher} (h : Tended v l l') (h' : Tended v l' l'') :
    Tended v l l'' := by
  cases h' with
  | stopped ha hp => exact .stopped ha hp
  | fed ha hp hw =>
    cases h with
    | same ha' _ => exact .fed ha hp (hw.imp_right ha'.mp)
    | fed _ _ hw' => exact .fed ha hp hw'
    | stopped ha' _ => exact .fed ha hp (hw.imp_right fun hc => absurd hc ha')
  | same ha hp =>
    cases h with
    | same ha' hp' => exact .same (ha.trans ha') (hp.trans hp')
    | fed ha' hp' hw => exact .fed (ha.mpr ha') (hp.mpr hp') hw
    | stopped ha' hp' => exact .stopped (mt ha.mp ha') (mt hp.mp hp')

/-- The input side stays as it is, and the watcher is tended. -/
structure Frame (v : Watcher) (s t : State η) : Prop where
  side : t.inputSide = s.inputSide
  tended : Tended v s.loop t.loop

variable {v w : Watcher}

theorem Frame.refl (v : Watcher) (s : State η) : Frame v s s := ⟨rfl, .refl v s.loop⟩

theorem Frame.trans {s t u : State η} (h : Frame v s t) (h' : Frame v t u) : Frame v s u :=
  ⟨h'.side.trans h.side, h.tended.trans h'.tended⟩

/-- Only other watchers change. -/
theorem frame_same {s t : State η} (hside : t.inputSide = s.inputSide)
    (hact : v ∈ t.loop.active ↔ v ∈ s.loop.active) (hpen : v ∈ t.loop.pending ↔ v ∈ s.loop.pending) :
    Frame v s t :=
  ⟨hside, .same hact hpen⟩

theorem frame_arm (hw : v ≠ w ∨ w = .write) (s : State η) (events : Events) : Frame v s (s.arm w events) := by
  by_cases hvw : v = w
  · subst hvw
    exact ⟨rfl, .fed (by simp [State.arm]) (by simp [State.arm]) (hw.imp_left (absurd rfl)).symm⟩
  · exact frame_same rfl (by simp [State.arm, hvw]) (by simp [State.arm, hvw])

theorem frame_stop (s : State η) (w : Watcher) : Frame v s { s with loop := s.loop.stop w } := by
  by_cases hvw : v = w
  · subst hvw
    exact ⟨rfl, .stopped (Finset.notMem_erase _ _) (Finset.notMem_erase _ _)⟩
  · exact frame_same rfl (by simp [hvw]) (by simp [hvw])

theorem frame_stopActive (s : State η) (w : Watcher) : Frame v s (s.stopActive w) := by
  unfold State.stopActive
  split
  · exact frame_stop s w
  · exact Frame.refl v s

theorem frame_feed {s : State η} (hw : w ∈ s.loop.active) : Frame v s { s with loop := s.loop.feed w } := by
  by_cases hvw : v = w
  · subst hvw
    exact ⟨rfl, .fed hw (Finset.mem_insert_self _ _) (Or.inr hw)⟩
  · exact frame_same rfl Iff.rfl (by simp [hvw])

theorem frame_take (hw : v ≠ w) (s : State η) : Frame v s { s with loop := s.loop.take w } :=
  frame_same rfl Iff.rfl (by simp [hw])

theorem frame_touch (s : State η) : Frame v s s.touch := frame_same rfl Iff.rfl Iff.rfl

theorem frame_call {u : Upcall η} (hu : u.data? = none) (s : State η) : Frame v s (s.call u) :=
  frame_same (by simp [State.inputSide, State.call, State.delivered, hu]) Iff.rfl Iff.rfl

theorem frame_stopIo (s : State η) : Frame v s s.stopIo :=
  (((frame_stopActive s .init).trans (frame_stopActive _ .read)).trans (frame_stopActive _ .write)).trans
    (frame_stopActive _ .shutdown)

theorem history_stopActive (s : State η) (w : Watcher) : (s.stopActive w).history = s.history := by
  unfold State.stopActive
  split <;> rfl

theorem history_stopIo (s : State η) : s.stopIo.history = s.history := by
  simp only [State.stopIo, history_stopActive]

theorem history_tlsFree (s : State η) : (tlsFree s).history = s.history := by
  have hstop := (history_stopActive s.stopIo .timeout).trans (history_stopIo s)
  unfold tlsFree
  generalize s.stopIo.stopActive .timeout = u at hstop
  exact hstop

theorem readData_of_line {s : State η} (h : s.readMode = .readLine) (replies : List SslRead) :
    readData replies s = readLine replies s := by
  unfold readData
  rw [h]

theorem readData_of_bytes {s : State η} (h : s.readMode = .readBytes) (replies : List SslRead) :
    readData replies s = readBytes replies s := by
  unfold readData
  rw [h]

theorem frame_freed (s : State η) : Frame v s { s with freed := true, died := s.died || s.freed } :=
  frame_same rfl Iff.rfl Iff.rfl

theorem frame_tlsFree (s : State η) : Frame v s (tlsFree s) :=
  ((frame_stopIo s).trans (frame_stopActive s.stopIo .timeout)).trans
    (frame_freed (s.stopIo.stopActive .timeout))

theorem frame_resumeTimeout (hv : v ≠ .timeout) (after : ℚ) (s : State η) : Frame v s (resumeTimeout after s) :=
  frame_same rfl (by simp [resumeTimeout, hv]) (by simp [resumeTimeout])

theorem frame_timeoutHandler (handler : Option η) (s : State η) :
    Frame v s { s with timeoutHandler := handler } := frame_same rfl Iff.rfl Iff.rfl

theorem frame_tlsOnTimeout (hv : v ≠ .timeout) (handler : Option η) (s : State η) :
    Frame v s (tlsOnTimeout handler s) := by
  refine (frame_stopActive s .timeout).trans ((frame_timeoutHandler handler _).trans ?_)
  unfold tlsOnTimeout
  generalize s.stopActive .timeout = s
  dsimp only
  split
  · exact (frame_resumeTimeout hv s.timeout _).trans (frame_touch _)
  · exact Frame.refl v _

theorem frame_startShutdown (hv : v ≠ .shutdown) (s : State η) : Frame v s (startShutdown s) :=
  frame_arm (Or.inl hv) s .write

theorem frame_armWrite (s : State η) :
    Frame v s (if .write ∈ s.loop.active then s else s.arm .write .write) := by
  split
  · exact Frame.refl v s
  · exact frame_arm (Or.inr rfl) s .write

theorem frame_writeBuffered (data : Bytes) (s : State η) : Frame v s (writeBuffered data s) :=
  have hbuf : Frame v s { s with outputBuffer := s.outputBuffer ++ data } := frame_same rfl Iff.rfl Iff.rfl
  hbuf.trans (frame_armWrite _)

theorem frame_tlsWrite (data : Bytes) (freeData : Bool) (s : State η) :
    Frame v s (tlsWrite data freeData s) := by
  unfold tlsWrite
  split
  · have hout : Frame v s { s with output := some data, outputSize := data.length } :=
      frame_same rfl Iff.rfl Iff.rfl
    exact hout.trans (frame_armWrite _)
  · exact frame_writeBuffered data s

theorem frame_tlsOnDrain (hv : v ≠ .shutdown) (s : State η) : Frame v s (tlsOnDrain s) := by
  have hset : Frame v s { s with shutdownOnDrain := true } := frame_same rfl Iff.rfl Iff.rfl
  unfold tlsOnDrain
  dsimp only
  split
  · exact hset
  · exact hset.trans (frame_startShutdown hv _)

theorem frame_tlsShutdown (hv : v ≠ .shutdown) (s : State η) : Frame v s (tlsShutdown s) :=
  have hset : Frame v s { s with errorHandler := none, timeoutHandler := none } :=
    frame_same rfl Iff.rfl Iff.rfl
  hset.trans (frame_tlsOnDrain hv _)

theorem frame_resetWatcherState (w : Watcher) (s : State η) : Frame v s (resetWatcherState w s) := by
  unfold resetWatcherState Loop.feedActive
  split
  · rename_i hw
    exact frame_feed hw
  · exact Frame.refl v s

theorem frame_waitFor (hw : v ≠ w) (events : Events) (s : State η) : Frame v s (waitFor w events s) :=
  frame_same rfl (Loop.mem_waitFor_active _ _ _ _ hw) (Loop.mem_waitFor_pending _ _ _ _ hw)

theorem frame_tlsError (s : State η) : Frame v s (tlsError s) := by
  unfold tlsError
  split
  · exact (frame_call rfl s).trans (frame_tlsFree _)
  · exact frame_tlsFree s

theorem frame_checkTlsError (hw : v ≠ w) (e : SslError) (s : State η) : Frame v s (checkTlsError w e s) := by
  cases e with
  | wantRead => exact frame_waitFor hw .read s
  | wantWrite => exact frame_waitFor hw .write s
  | interrupted => exact Frame.refl v s
  | failed => exact frame_tlsError s

theorem inputSide_checkTlsError (w : Watcher) (e : SslError) (s : State η) :
    (checkTlsError w e s).inputSide = s.inputSide := by
  cases e with
  | wantRead => rfl
  | wantWrite => rfl
  | interrupted => rfl
  | failed => exact (frame_tlsError (v := w) s).side

theorem frame_lineTooLong (s : State η) : Frame v s (lineTooLong s) := by
  unfold lineTooLong
  refine (frame_stop s .read).trans ?_
  dsimp only
  split
  · exact frame_call rfl _
  · exact frame_tlsFree _

theorem frame_nextOutput (s : State η) : Frame v s (nextOutput s) := by
  unfold nextOutput
  split
  · exact Frame.refl v s
  · exact frame_same rfl Iff.rfl Iff.rfl

theorem frame_drained (hv : v ≠ .shutdown) (s : State η) : Frame v s (drained s) := by
  unfold drained
  dsimp only
  split
  · exact (frame_stop s .write).trans (frame_startShutdown hv _)
  · exact frame_stop s .write

theorem frame_writeLoop (replies : List SslWrite) (s : State η) : Frame .read s (writeLoop replies s) := by
  induction replies generalizing s with
  | nil => exact (frame_nextOutput s).trans (frame_checkTlsError (by decide) .wantWrite _)
  | cons reply replies ih =>
    refine (frame_nextOutput s).trans ?_
    unfold writeLoop
    dsimp only
    split
    · exact frame_checkTlsError (by decide) _ _
    · rename_i n _
      have hmore : Frame .read (nextOutput s)
          { (nextOutput s).send n with outputOffset := ((nextOutput s).send n).outputOffset + n } :=
        frame_same rfl Iff.rfl Iff.rfl
      have hdone : Frame .read (nextOutput s)
          { (nextOutput s).send n with output := none, outputSize := 0, outputOffset := 0 } :=
        frame_same rfl Iff.rfl Iff.rfl
      split
      · exact hmore.trans (ih _)
      · split
        · exact hdone.trans (frame_drained (by decide) _)
        · exact hdone.trans (ih _)

theorem frame_writeCb (replies : List SslWrite) (s : State η) :
    Frame .read s (writeCb replies { s with loop := s.loop.take .write }) := by
  refine (frame_take (w := .write) (by decide) s).trans ((frame_resetWatcherState .read _).trans ?_)
  exact (frame_touch _).trans (frame_writeLoop replies _)

theorem frame_shutdownLoop (hv : v ≠ .shutdown) (replies : List SslShutdown) (s : State η) :
    Frame v s (shutdownLoop replies s) := by
  induction replies with
  | nil => exact frame_checkTlsError hv .wantRead s
  | cons reply replies ih =>
    cases reply with
    | done => exact frame_tlsFree s
    | sent => exact ih
    | error e => exact frame_checkTlsError hv e s

theorem frame_acceptSslCb (hv : v ≠ .init) (reply : SslAccept) (s : State η) :
    Frame v s (acceptSslCb reply s) := by
  refine (frame_touch s).trans ?_
  match reply with
  | .error e => exact frame_checkTlsError hv e _
  | .established false => exact frame_tlsFree _
  | .established true => exact (frame_stop _ .init).trans (frame_call rfl _)

theorem frame_timeoutCb (hv : v ≠ .timeout) (s : State η) : Frame v s (timeoutCb s) := by
  unfold timeoutCb
  generalize s.lastActivity + s.timeout - s.loop.now = diff
  dsimp only
  split
  · exact frame_resumeTimeout hv diff s
  · refine (frame_stopIo s).trans ((frame_resumeTimeout hv s.stopIo.timeout _).trans ?_)
    generalize resumeTimeout s.stopIo.timeout s.stopIo = s
    split
    · exact frame_call rfl s
    · exact frame_tlsFree s

/-- The events that are neither requests nor callbacks of the two watchers. -/
def Event.Aside : Event η → Prop
  | .readCb _ | .writeCb _ | .tlsRead _ _ => False
  | _ => True

theorem Event.aside_or (e : Event η) : e.Aside ∨ (∃ replies, e = .readCb replies) ∨
    (∃ replies, e = .writeCb replies) ∨ ∃ handler size, e = .tlsRead handler size := by
  cases e with
  | readCb replies => exact Or.inr (Or.inl ⟨replies, rfl⟩)
  | writeCb replies => exact Or.inr (Or.inr (Or.inl ⟨replies, rfl⟩))
  | tlsRead handler size => exact Or.inr (Or.inr (Or.inr ⟨handler, size, rfl⟩))
  | _ => exact Or.inl trivial

theorem frame_stepAlive (hv : v = .read ∨ v = .write) {s t : State η} {e : Event η} (haside : e.Aside)
    (h : stepAlive s e = some t) : Frame v s t := by
  have hinit : v ≠ .init := by rcases hv with rfl | rfl <;> decide
  have hshutdown : v ≠ .shutdown := by rcases hv with rfl | rfl <;> decide
  have htimeout : v ≠ .timeout := by rcases hv with rfl | rfl <;> decide
  cases e with
  | advance time =>
    cases h
    exact frame_same rfl Iff.rfl Iff.rfl
  | ready w =>
    simp only [stepAlive] at h
    split at h
    · rename_i hw
      cases h
      exact frame_feed hw.1
    · cases h
  | expire =>
    simp only [stepAlive] at h
    split at h
    · cases h
      exact frame_same rfl (by simp [htimeout]) (by simp [htimeout])
    · cases h
  | acceptSslCb reply =>
    obtain ⟨-, rfl⟩ := invoke_eq_some h
    exact (frame_take hinit s).trans (frame_acceptSslCb hinit reply _)
  | readCb replies => exact haside.elim
  | writeCb replies => exact haside.elim
  | shutdownCb replies =>
    obtain ⟨-, rfl⟩ := invoke_eq_some h
    exact (frame_take hshutdown s).trans ((frame_touch _).trans (frame_shutdownLoop hshutdown replies _))
  | timeoutCb =>
    obtain ⟨-, rfl⟩ := invoke_eq_some h
    exact (frame_take htimeout s).trans (frame_timeoutCb htimeout _)
  | tlsRead handler size => exact haside.elim
  | tlsWrite data freeData =>
    cases h
    exact frame_tlsWrite data freeData s
  | tlsWriteLine string =>
    cases h
    exact (frame_writeBuffered string s).trans (frame_writeBuffered lineTerminator _)
  | tlsShutdown =>
    cases h
    exact frame_tlsShutdown hshutdown s
  | tlsOnError handler =>
    cases h
    exact frame_same rfl Iff.rfl Iff.rfl
  | tlsOnTimeout handler =>
    cases h
    exact frame_tlsOnTimeout htimeout handler s
  | tlsOnLineTooLong handler =>
    cases h
    exact frame_same rfl Iff.rfl Iff.rfl

end Tls
end NscaNg
