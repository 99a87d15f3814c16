/-
# The watchers of a connection are set while they are inactive

Most functions that set a watcher look whether it is active, or stop it before. Two do not: `timeout_cb()`
relies on the loop to have stopped the timer that has expired, and `start_shutdown()` on being called
once. So the timer must not be started again before its callback has been called, and the connection
is neither written to nor shut down once its shutdown has begun (`SetsOnce`). Then no watcher is ever
set while it is active (`Lives.setRight`).
-/
import NscaNg.Common.TlsRelease

namespace NscaNg
namespace Tls

open Posix Libev

variable {η : Type} {s t : State η} {l : Loop Watcher}

/-! ### The watchers -/

/-- No watcher has been set while it was active, and those that are set without a look are inactive then:
the timer while its callback is pending, and the shutdown watcher while there is output. -/
structure SetRight (l : Loop Watcher) : Prop where
  misset : l.misset = ∅
  timer : .timeout ∈ l.pending → .timeout ∉ l.active
  shutdown : .shutdown ∈ l.active → .write ∉ l.active

namespace SetRight

theorem idle (now : ℚ) : SetRight (Loop.idle now) :=
  ⟨rfl, fun h => absurd h (Finset.notMem_empty _), fun h => absurd h (Finset.notMem_empty _)⟩

theorem advance (h : SetRight l) (time : ℚ) : SetRight (l.advance time) := ⟨h.misset, h.timer, h.shutdown⟩

theorem take (h : SetRight l) (w : Watcher) : SetRight (l.take w) :=
  ⟨h.misset, fun hpen => h.timer (Finset.mem_of_mem_erase hpen), h.shutdown⟩

theorem feed (h : SetRight l) {w : Watcher} (hw : w ≠ .timeout) : SetRight (l.feed w) :=
  ⟨h.misset, by simpa [hw.symm] using h.timer, h.shutdown⟩

theorem stop (h : SetRight l) (w : Watcher) : SetRight (l.stop w) :=
  ⟨h.misset, fun hpen hact => h.timer (Finset.mem_of_mem_erase hpen) (Finset.mem_of_mem_erase hact),
    fun hact hwrite => h.shutdown (Finset.mem_of_mem_erase hact) (Finset.mem_of_mem_erase hwrite)⟩

theorem expire (h : SetRight l) : SetRight (l.expire .timeout) :=
  ⟨h.misset, fun _ => Finset.notMem_erase _ _,
    fun hact hwrite => h.shutdown (Finset.mem_of_mem_erase hact) (Finset.mem_of_mem_erase hwrite)⟩

theorem waitFor (h : SetRight l) {w : Watcher} (hw : w ≠ .timeout) (hact : w ∈ l.active) (events : Events) :
    SetRight (l.waitFor w events) := by
  refine ⟨(Loop.waitFor_misset events).trans h.misset, ?_, ?_⟩
  · rw [Loop.mem_waitFor_pending _ _ _ _ hw.symm, Loop.waitFor_active _ _ _ hact]
    exact h.timer
  · rw [Loop.waitFor_active _ _ _ hact]
    exact h.shutdown

/-- A watcher that is not active is set and started. -/
theorem arm (h : SetRight l) {w : Watcher} (hw : w ≠ .timeout) (hoff : w ∉ l.active)
    (hwrite : w = .write → .shutdown ∉ l.active) (hshutdown : w = .shutdown → .write ∉ l.active)
    (events : Events) : SetRight (((l.ioSet w events).start w).feed w) := by
  refine ⟨(Loop.ioSet_misset events hoff).trans h.misset, ?_, ?_⟩
  · simpa [hw.symm] using h.timer
  · simp only [Loop.feed_active, Loop.start_active, Loop.ioSet_active, Finset.mem_insert, not_or]
    rintro (rfl | hact)
    · exact ⟨by decide, hshutdown rfl⟩
    · exact ⟨fun hc => hwrite hc.symm hact, h.shutdown hact⟩

/-- The timer is set and started while nothing is left of it. -/
theorem startTimer (h : SetRight l) (hoff : .timeout ∉ l.active) (hquiet : .timeout ∉ l.pending) (after : ℚ) :
    SetRight ((l.timerSet .timeout after).timerStart .timeout) := by
  refine ⟨?_, ?_, ?_⟩
  · rw [Loop.timerStart_misset, Loop.timerSet_misset after hoff, h.misset]
  · simp [hquiet]
  · simpa using h.shutdown

end SetRight

/-! ### What is stopped -/

theorem setRight_stopActive (h : SetRight s.loop) (w : Watcher) : SetRight (s.stopActive w).loop := by
  unfold State.stopActive
  split
  · exact h.stop w
  · exact h

theorem setRight_stopIo (h : SetRight s.loop) : SetRight s.stopIo.loop :=
  setRight_stopActive (setRight_stopActive (setRight_stopActive (setRight_stopActive h _) _) _) _

theorem setRight_tlsFree (h : SetRight s.loop) : SetRight (tlsFree s).loop := by
  rw [tlsFree_loop]
  exact setRight_stopActive (setRight_stopIo h) _

theorem setRight_tlsError (h : SetRight s.loop) : SetRight (tlsError s).loop := by
  unfold tlsError
  split
  · rename_i handler _
    exact setRight_tlsFree (s := s.call (.error handler)) h
  · exact setRight_tlsFree h

theorem setRight_checkTlsError (h : SetRight s.loop) {w : Watcher} (hw : w ≠ .timeout) (hact : w ∈ s.loop.active)
    (e : SslError) : SetRight (checkTlsError w e s).loop := by
  cases e with
  | wantRead => exact h.waitFor hw hact .read
  | wantWrite => exact h.waitFor hw hact .write
  | interrupted => exact h
  | failed => exact setRight_tlsError h

/-! ### Callbacks -/

theorem setRight_resetWatcherState (h : SetRight s.loop) {w : Watcher} (hw : w ≠ .timeout) :
    SetRight (resetWatcherState w s).loop := by
  unfold resetWatcherState Loop.feedActive
  dsimp only
  split
  · exact h.feed hw
  · exact h

theorem setRight_lineTooLong (h : SetRight s.loop) : SetRight (lineTooLong s).loop := by
  unfold lineTooLong
  dsimp only
  split
  · exact h.stop .read
  · exact setRight_tlsFree (s := { s with loop := s.loop.stop .read }) (h.stop .read)

theorem setRight_readLineLoop (replies : List SslRead) (h : SetRight s.loop) (hact : .read ∈ s.loop.active) :
    SetRight (readLineLoop replies s).1.loop := by
  fun_induction readLineLoop replies s with
  | case1 replies s line rest hline => exact h
  | case2 replies s hline hlong => exact setRight_lineTooLong h
  | case3 s hline hlong => exact setRight_checkTlsError h (by decide) hact .wantRead
  | case4 s hline hlong reply replies e he => exact setRight_checkTlsError h (by decide) hact e
  | case5 s hline hlong reply replies bytes hbytes ih => exact ih h hact

theorem setRight_readBytesLoop (replies : List SslRead) (h : SetRight s.loop) (hact : .read ∈ s.loop.active) :
    SetRight (readBytesLoop replies s).1.loop := by
  fun_induction readBytesLoop replies s with
  | case1 s => exact setRight_checkTlsError h (by decide) hact .wantRead
  | case2 s reply replies e he => exact setRight_checkTlsError h (by decide) hact e
  | case3 s reply replies bytes hbytes hlt ih => exact ih h hact
  | case4 s reply replies bytes hbytes hge => exact h

theorem setRight_readCb (replies : List SslRead) (h : SetRight s.loop) (hact : .read ∈ s.loop.active) :
    SetRight (readCb replies s).loop := by
  have hreset := setRight_resetWatcherState (w := .write) h (by decide)
  have hact' : .read ∈ (resetWatcherState .write s).touch.loop.active := by
    simpa [State.touch, resetWatcherState] using hact
  have hread : SetRight (readData replies (resetWatcherState .write s).touch).1.loop := by
    generalize hs : (resetWatcherState .write s).touch = u at hact'
    have hu : SetRight u.loop := hs ▸ hreset
    unfold readData
    split
    · exact setRight_readLineLoop replies (s := { u with input := some (u.input.getD []) }) hu hact'
    · exact setRight_readBytesLoop replies (s := { u with input := some (u.input.getD []) }) hu hact'
  unfold readCb
  generalize readData replies (resetWatcherState .write s).touch = result at hread
  obtain ⟨u, data⟩ := result
  cases data with
  | none => exact hread
  | some data =>
    dsimp only
    unfold deliver
    dsimp only
    split
    · exact hread.stop .read
    · exact hread.stop .read

/-- The shutdown begins when the last output has been written. -/
theorem setRight_drained (h : SetRight s.loop) (hact : .write ∈ s.loop.active) : SetRight (drained s).loop := by
  have hoff : .shutdown ∉ s.loop.active := fun hc => h.shutdown hc hact
  unfold drained
  dsimp only
  split
  · refine (h.stop .write).arm (w := .shutdown) (by decide) ?_ nofun (fun _ => Finset.notMem_erase _ _) .write
    exact fun hc => hoff (Finset.mem_of_mem_erase hc)
  · exact h.stop .write

theorem loop_nextOutput (s : State η) : (nextOutput s).loop = s.loop := by
  unfold nextOutput
  split <;> rfl

theorem setRight_writeLoop (replies : List SslWrite) (h : SetRight s.loop) (hact : .write ∈ s.loop.active) :
    SetRight (writeLoop replies s).loop := by
  induction replies generalizing s with
  | nil =>
    rw [← loop_nextOutput] at h hact
    exact setRight_checkTlsError h (by decide) hact .wantWrite
  | cons reply replies ih =>
    rw [← loop_nextOutput] at h hact
    unfold writeLoop
    generalize nextOutput s = s at h hact
    dsimp only
    split
    · rename_i e _
      exact setRight_checkTlsError h (by decide) hact e
    · rename_i n _
      split
      · exact ih h hact
      · split
        · exact setRight_drained (s := { s.send n with output := none, outputSize := 0, outputOffset := 0 }) h hact
        · exact ih h hact

theorem setRight_writeCb (replies : List SslWrite) (h : SetRight s.loop) (hact : .write ∈ s.loop.active) :
    SetRight (writeCb replies s).loop := by
  have hreset := setRight_resetWatcherState (w := .read) h (by decide)
  refine setRight_writeLoop replies (s := (resetWatcherState .read s).touch) hreset ?_
  simpa [State.touch, resetWatcherState] using hact

theorem setRight_shutdownCb (replies : List SslShutdown) (h : SetRight s.loop) (hact : .shutdown ∈ s.loop.active) :
    SetRight (shutdownCb replies s).loop := by
  unfold shutdownCb
  have htouch : SetRight s.touch.loop := h
  have hact' : .shutdown ∈ s.touch.loop.active := hact
  generalize s.touch = s at htouch hact'
  induction replies with
  | nil => exact setRight_checkTlsError htouch (by decide) hact' .wantRead
  | cons reply replies ih =>
    cases reply with
    | done => exact setRight_tlsFree htouch
    | sent => exact ih
    | error e => exact setRight_checkTlsError htouch (by decide) hact' e

theorem setRight_acceptSslCb (reply : SslAccept) (h : SetRight s.loop) (hact : .init ∈ s.loop.active) :
    SetRight (acceptSslCb reply s).loop := by
  have htouch : SetRight s.touch.loop := h
  match reply with
  | .error e => exact setRight_checkTlsError htouch (by decide) hact e
  | .established false => exact setRight_tlsFree htouch
  | .established true => exact htouch.stop .init

/-- The timer has expired, and its callback is called. -/
theorem setRight_timeoutCb (h : SetRight s.loop) (hoff : .timeout ∉ s.loop.active)
    (hquiet : .timeout ∉ s.loop.pending) : SetRight (timeoutCb s).loop := by
  have hstop := setRight_stopIo h
  have hoff' : .timeout ∉ s.stopIo.loop.active := by simpa [mem_stopIo_active] using hoff
  have hquiet' : .timeout ∉ s.stopIo.loop.pending := by simpa [mem_stopIo_pending] using hquiet
  unfold timeoutCb
  generalize s.lastActivity + s.timeout - s.loop.now = diff
  dsimp only
  split
  · exact h.startTimer hoff hquiet diff
  · generalize s.stopIo = u at hstop hoff' hquiet'
    have hresume : SetRight (resumeTimeout u.timeout u).loop := hstop.startTimer hoff' hquiet' u.timeout
    generalize resumeTimeout u.timeout u = v at hresume
    split
    · exact hresume
    · exact setRight_tlsFree hresume

/-! ### Exported functions -/

theorem setRight_tlsRead (h : SetRight s.loop) (handler : η) (size : ℕ) :
    SetRight (tlsRead handler size s).loop := by
  unfold tlsRead
  split
  · exact h
  · rename_i hoff
    exact h.arm (w := .read) (by decide) hoff nofun nofun .read

/-- The write watcher is made active. -/
theorem setRight_armWrite (h : SetRight s.loop) (hopen : .shutdown ∉ s.loop.active) :
    SetRight (if .write ∈ s.loop.active then s else s.arm .write .write).loop := by
  split
  · exact h
  · rename_i hoff
    exact h.arm (w := .write) (by decide) hoff (fun _ => hopen) nofun .write

theorem setRight_writeBuffered (h : SetRight s.loop) (hopen : .shutdown ∉ s.loop.active) (data : Bytes) :
    SetRight (writeBuffered data s).loop :=
  setRight_armWrite (s := { s with outputBuffer := s.outputBuffer ++ data }) h hopen

theorem setRight_tlsWrite (h : SetRight s.loop) (hopen : .shutdown ∉ s.loop.active) (data : Bytes)
    (freeData : Bool) : SetRight (tlsWrite data freeData s).loop := by
  unfold tlsWrite
  split
  · exact setRight_armWrite (s := { s with output := some data, outputSize := data.length }) h hopen
  · exact setRight_writeBuffered h hopen data

theorem shutdown_writeBuffered (hopen : .shutdown ∉ s.loop.active) (data : Bytes) :
    .shutdown ∉ (writeBuffered data s).loop.active := by
  unfold writeBuffered
  dsimp only
  split
  · exact hopen
  · simpa [State.arm] using hopen

theorem setRight_tlsWriteLine (h : SetRight s.loop) (hopen : .shutdown ∉ s.loop.active) (string : Bytes) :
    SetRight (tlsWriteLine string s).loop :=
  setRight_writeBuffered (setRight_writeBuffered h hopen string) (shutdown_writeBuffered hopen string) lineTerminator

theorem setRight_tlsShutdown (h : SetRight s.loop) (hopen : .shutdown ∉ s.loop.active) :
    SetRight (tlsShutdown s).loop := by
  unfold tlsShutdown tlsOnDrain
  dsimp only
  split
  · exact h
  · rename_i hoff
    exact h.arm (w := .shutdown) (by decide) hopen nofun (fun _ => hoff) .write

/-- The timer is not started again before its callback has been called. -/
theorem setRight_tlsOnTimeout (h : SetRight s.loop) (hexp : ¬ Expired s) (handler : Option η) :
    SetRight (tlsOnTimeout handler s).loop := by
  have hstop := setRight_stopActive h .timeout
  have hoff : .timeout ∉ (s.stopActive .timeout).loop.active := by
    rw [stopActive_active]
    exact Finset.notMem_erase _ _
  have hquiet : .timeout ∉ (s.stopActive .timeout).loop.pending := by
    rw [mem_stopActive_pending]
    exact fun hc => hexp ⟨hc.1, fun hact => hc.2 ⟨rfl, hact⟩⟩
  unfold tlsOnTimeout
  generalize s.stopActive .timeout = u at hstop hoff hquiet
  dsimp only
  split
  · exact hstop.startTimer hoff hquiet u.timeout
  · exact hstop

/-! ### Steps -/

/-- The timer is not started again while its callback is pending, and once the shutdown has begun the
connection is neither written to nor shut down again. -/
def SetsOnce (s : State η) : Event η → Prop
  | .tlsOnTimeout _ => ¬ Expired s
  | .tlsWrite _ _ | .tlsWriteLine _ | .tlsShutdown => .shutdown ∉ s.loop.active
  | .advance _ | .ready _ | .expire | .acceptSslCb _ | .readCb _ | .writeCb _ | .shutdownCb _ | .timeoutCb
  | .tlsRead _ _ | .tlsOnError _ | .tlsOnLineTooLong _ => True

instance decidableExpired (s : State η) : Decidable (Expired s) :=
  inferInstanceAs (Decidable (.timeout ∈ s.loop.pending ∧ .timeout ∉ s.loop.active))

instance decidableSetsOnce (s : State η) : (e : Event η) → Decidable (SetsOnce s e)
  | .tlsOnTimeout _ => inferInstanceAs (Decidable (¬ Expired s))
  | .tlsWrite _ _ | .tlsWriteLine _ | .tlsShutdown => inferInstanceAs (Decidable (.shutdown ∉ s.loop.active))
  | .advance _ | .ready _ | .expire | .acceptSslCb _ | .readCb _ | .writeCb _ | .shutdownCb _ | .timeoutCb
  | .tlsRead _ _ | .tlsOnError _ | .tlsOnLineTooLong _ => instDecidableTrue

theorem setRight_step {e : Event η} (h : SetRight s.loop) (hfed : IoFed s) (hok : SetsOnce s e)
    (hstep : step s e = some t) : SetRight t.loop := by
  obtain ⟨-, -, halive⟩ := step_eq_some hstep
  cases e with
  | advance time =>
    cases halive
    exact h.advance time
  | ready w =>
    obtain ⟨hw, halive⟩ := Option.ite_none_right_eq_some.mp halive
    obtain rfl := Option.some.inj halive
    exact h.feed hw.2
  | expire =>
    obtain ⟨-, halive⟩ := Option.ite_none_right_eq_some.mp halive
    obtain rfl := Option.some.inj halive
    exact h.expire
  | acceptSslCb reply =>
    obtain ⟨hpen, rfl⟩ := invoke_eq_some halive
    exact setRight_acceptSslCb reply (h.take .init) (hfed.fed .init (by decide) hpen)
  | readCb replies =>
    obtain ⟨hpen, rfl⟩ := invoke_eq_some halive
    exact setRight_readCb replies (h.take .read) (hfed.fed .read (by decide) hpen)
  | writeCb replies =>
    obtain ⟨hpen, rfl⟩ := invoke_eq_some halive
    exact setRight_writeCb replies (h.take .write) (hfed.fed .write (by decide) hpen)
  | shutdownCb replies =>
    obtain ⟨hpen, rfl⟩ := invoke_eq_some halive
    exact setRight_shutdownCb replies (h.take .shutdown) (hfed.fed .shutdown (by decide) hpen)
  | timeoutCb =>
    obtain ⟨hpen, rfl⟩ := invoke_eq_some halive
    exact setRight_timeoutCb (h.take .timeout) (h.timer hpen) (Finset.notMem_erase _ _)
  | tlsRead handler size =>
    cases halive
    exact setRight_tlsRead h handler size
  | tlsWrite data freeData =>
    cases halive
    exact setRight_tlsWrite h hok data freeData
  | tlsWriteLine string =>
    cases halive
    exact setRight_tlsWriteLine h hok string
  | tlsShutdown =>
    cases halive
    exact setRight_tlsShutdown h hok
  | tlsOnError handler =>
    cases halive
    exact h
  | tlsOnTimeout handler =>
    cases halive
    exact setRight_tlsOnTimeout h hok handler
  | tlsOnLineTooLong handler =>
    cases halive
    exact h

theorem Started.setRight (h : Started s) : SetRight s.loop := by
  have hset : ∀ (handler : Option η) (connectHandler : η) (timeout now : ℚ),
      SetRight (tlsOnTimeout handler (tlsNew connectHandler timeout now)).loop := by
    intro handler connectHandler timeout now
    exact setRight_tlsOnTimeout (SetRight.idle now) (not_expired_tlsNew connectHandler timeout now) handler
  have hactive : ∀ (handler : Option η) (connectHandler : η) (timeout now : ℚ) {w : Watcher}, w ≠ .timeout →
      w ∉ (tlsOnTimeout handler (tlsNew connectHandler timeout now)).loop.active := by
    intro handler connectHandler timeout now w hw
    unfold tlsOnTimeout State.stopActive
    dsimp only
    split <;> split <;> simp [resumeTimeout, State.touch, tlsNew, hw]
  cases h with
  | accept hasAddress hasSsl connectHandler timeout now =>
    have hs := hset none connectHandler timeout now
    have hoff := hactive none connectHandler timeout now (w := .init) (by decide)
    unfold acceptTcp
    dsimp only
    split
    · split
      · exact hs.arm (w := .init) (by decide) hoff (fun h => absurd h (by decide)) (fun h => absurd h (by decide)) .read
      · exact setRight_tlsFree hs
    · exact setRight_tlsFree (SetRight.idle now)
  | connect hasSocket reply connectHandler timeoutHandler timeout now =>
    have hs := hset timeoutHandler connectHandler timeout now
    have hoff := hactive timeoutHandler connectHandler timeout now (w := .init) (by decide)
    unfold tlsConnect
    generalize tlsOnTimeout timeoutHandler (tlsNew connectHandler timeout now) = u at hs hoff
    dsimp only
    split
    · split
      · rename_i e
        have harm : SetRight (u.touch.arm .init .write).loop :=
          hs.arm (w := .init) (by decide) hoff (fun h => absurd h (by decide)) (fun h => absurd h (by decide)) .write
        exact setRight_checkTlsError harm (by decide) (Finset.mem_insert_self _ _) e
      · exact hs
    · exact hs

/-- No watcher of the connection is set while it is active. -/
theorem Lives.setRight {es : List (Event η)} (h : Lives SetsOnce es s) : SetRight s.loop := by
  have hboth : SetRight s.loop ∧ IoFed s :=
    Lives.invariant (I := fun s => SetRight s.loop ∧ IoFed s) h (fun _ hstart => ⟨hstart.setRight, hstart.ioFed⟩)
      (fun _ _ _ hs hok hstep => ⟨setRight_step hs.1 hs.2 hok hstep, ioFed_step hs.2 hstep⟩)
  exact hboth.1

end Tls
end NscaNg
