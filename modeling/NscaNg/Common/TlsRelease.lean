/-
# The release of a connection

`tls_free()` stops the watchers that are active. An I/O watcher is pending only while it is active, so
nothing of it is left. The timer is another matter: once it has expired it is inactive, and its
callback pending. If `tls_free()` is called by another callback before it is the timer's turn, the
callback stays on the queue, and is called with the connection that has been freed (`released_iff`).
-/
import NscaNg.Common.TlsStart

namespace NscaNg
namespace Tls

open Posix Libev

variable {η : Type}

/-! ### What is left of the watchers -/

theorem stopActive_active (s : State η) (w : Watcher) : (s.stopActive w).loop.active = s.loop.active.erase w := by
  unfold State.stopActive
  split
  · rfl
  · rename_i hw
    exact (Finset.erase_eq_of_notMem hw).symm

theorem mem_stopActive_pending (s : State η) (v w : Watcher) :
    v ∈ (s.stopActive w).loop.pending ↔ v ∈ s.loop.pending ∧ ¬ (v = w ∧ v ∈ s.loop.active) := by
  unfold State.stopActive
  split
  · rename_i hw
    simp only [Loop.stop_pending, Finset.mem_erase]
    constructor
    · rintro ⟨hne, hpen⟩
      exact ⟨hpen, fun hc => hne hc.1⟩
    · rintro ⟨hpen, hnot⟩
      exact ⟨fun heq => hnot ⟨heq, heq ▸ hw⟩, hpen⟩
  · rename_i hw
    exact ⟨fun hpen => ⟨hpen, fun hc => hw (hc.1 ▸ hc.2)⟩, And.left⟩

theorem mem_stopIo_active (s : State η) (v : Watcher) :
    v ∈ s.stopIo.loop.active ↔ v ∈ s.loop.active ∧ v = .timeout := by
  simp only [State.stopIo, stopActive_active, Finset.mem_erase]
  cases v <;> simp

theorem mem_stopIo_pending (s : State η) (v : Watcher) :
    v ∈ s.stopIo.loop.pending ↔ v ∈ s.loop.pending ∧ ¬ (v ≠ .timeout ∧ v ∈ s.loop.active) := by
  simp only [State.stopIo, mem_stopActive_pending, stopActive_active, Finset.mem_erase]
  cases v <;> simp

theorem tlsFree_loop (s : State η) : (tlsFree s).loop = (s.stopIo.stopActive .timeout).loop := by
  simp only [tlsFree]

theorem tlsFree_active (s : State η) : (tlsFree s).loop.active = ∅ := by
  rw [tlsFree_loop, stopActive_active]
  ext v
  simp only [Finset.mem_erase, mem_stopIo_active, Finset.notMem_empty, iff_false, not_and]
  exact fun hne _ => hne

theorem mem_tlsFree_pending (s : State η) (v : Watcher) :
    v ∈ (tlsFree s).loop.pending ↔ v ∈ s.loop.pending ∧ v ∉ s.loop.active := by
  rw [tlsFree_loop, mem_stopActive_pending, mem_stopIo_pending, mem_stopIo_active]
  by_cases hv : v = .timeout
  · simp [hv]
  · simp [hv]

/-! ### I/O watchers are pending only while active -/

theorem ioFed_of_same {s t : State η} (hs : IoFed s)
    (h : ∀ w, w ≠ .timeout →
      (w ∈ t.loop.pending → w ∈ s.loop.pending) ∧ (w ∈ s.loop.active → w ∈ t.loop.active)) : IoFed t :=
  ⟨fun w hw hpen => (h w hw).2 (hs.fed w hw ((h w hw).1 hpen))⟩

theorem ioFed_loop {s t : State η} (hs : IoFed s) (h : t.loop = s.loop) : IoFed t := ⟨h ▸ hs.fed⟩

theorem ioFed_stopActive {s : State η} (hs : IoFed s) (w : Watcher) : IoFed (s.stopActive w) := by
  refine ⟨fun v hv hpen => ?_⟩
  rw [mem_stopActive_pending] at hpen
  rw [stopActive_active, Finset.mem_erase]
  have hact := hs.fed v hv hpen.1
  exact ⟨fun heq => hpen.2 ⟨heq, hact⟩, hact⟩

theorem ioFed_stopIo {s : State η} (hs : IoFed s) : IoFed s.stopIo :=
  ioFed_stopActive (ioFed_stopActive (ioFed_stopActive (ioFed_stopActive hs _) _) _) _

theorem ioFed_tlsFree {s : State η} (hs : IoFed s) : IoFed (tlsFree s) := by
  constructor
  intro v hv hpen
  rw [mem_tlsFree_pending] at hpen
  rw [tlsFree_active]
  exact absurd (hs.fed v hv hpen.1) hpen.2

theorem ioFed_resumeTimeout {s : State η} (hs : IoFed s) (after : ℚ) : IoFed (resumeTimeout after s) :=
  ioFed_of_same hs fun w _ => ⟨by simp [resumeTimeout], fun h => by simp [resumeTimeout, h]⟩

theorem ioFed_tlsOnTimeout {s : State η} (hs : IoFed s) (handler : Option η) : IoFed (tlsOnTimeout handler s) := by
  have hstop := ioFed_stopActive hs .timeout
  unfold tlsOnTimeout
  generalize s.stopActive .timeout = u at hstop
  have hset : IoFed ({ u with timeoutHandler := handler } : State η) := ioFed_loop hstop rfl
  dsimp only
  split
  · exact ioFed_loop (ioFed_resumeTimeout hset u.timeout) rfl
  · exact hset

theorem ioFed_arm {s : State η} (hs : IoFed s) {w : Watcher} (hw : w ≠ .timeout) (events : Events) :
    IoFed (s.arm w events) :=
  ⟨IoOp.loopFed (.arm (W := fun _ => True) s.loop events hw trivial) hs.fed⟩

theorem ioFed_armWrite {s : State η} (hs : IoFed s) :
    IoFed (if .write ∈ s.loop.active then s else s.arm .write .write) := by
  split
  · exact hs
  · exact ioFed_arm hs (by decide) .write

theorem ioFed_writeBuffered {s : State η} (hs : IoFed s) (data : Bytes) : IoFed (writeBuffered data s) :=
  ioFed_armWrite (s := { s with outputBuffer := s.outputBuffer ++ data }) (ioFed_loop hs rfl)

theorem ioFed_tlsWrite {s : State η} (hs : IoFed s) (data : Bytes) (freeData : Bool) :
    IoFed (tlsWrite data freeData s) := by
  unfold tlsWrite
  split
  · exact ioFed_armWrite (s := { s with output := some data, outputSize := data.length }) (ioFed_loop hs rfl)
  · exact ioFed_writeBuffered hs data

theorem ioFed_tlsShutdown {s : State η} (hs : IoFed s) : IoFed (tlsShutdown s) := by
  have hset : IoFed ({ s with errorHandler := none, timeoutHandler := none, shutdownOnDrain := true } : State η) :=
    ioFed_loop hs rfl
  unfold tlsShutdown tlsOnDrain
  dsimp only
  split
  · exact hset
  · exact ioFed_arm hset (by decide) .write

theorem ioFed_tlsRead {s : State η} (hs : IoFed s) (handler : η) (size : ℕ) : IoFed (tlsRead handler size s) := by
  have hask : IoFed (s.ask handler size) := ioFed_loop hs rfl
  unfold tlsRead
  split
  · exact ioFed_loop hs rfl
  · exact ioFed_arm hask (by decide) .read

theorem ioFed_take {s : State η} (hs : IoFed s) (w : Watcher) : IoFed { s with loop := s.loop.take w } :=
  ⟨fun v hv hpen => hs.fed v hv (Finset.mem_of_mem_erase hpen)⟩

theorem ioFed_timeoutCb {s : State η} (hs : IoFed s) : IoFed (timeoutCb s) := by
  have hstop := ioFed_stopIo hs
  unfold timeoutCb
  generalize s.lastActivity + s.timeout - s.loop.now = diff
  dsimp only
  split
  · exact ioFed_resumeTimeout hs diff
  · generalize s.stopIo = u at hstop
    have hresume := ioFed_resumeTimeout hstop u.timeout
    generalize resumeTimeout u.timeout u = v at hresume
    split
    · exact ioFed_loop hresume rfl
    · exact ioFed_tlsFree hresume

theorem ioFed_stopRead {s : State η} (hs : IoFed s) : IoFed s.stopRead := by
  refine ⟨fun v hv hpen => ?_⟩
  obtain ⟨hne, hpen⟩ := Finset.mem_erase.mp hpen
  exact Finset.mem_erase.mpr ⟨hne, hs.fed v hv hpen⟩

theorem Ends.ioFed {s t : State η} (h : Ends s t) (hs : IoFed s) : IoFed t := by
  cases h with
  | quiet hk => exact hk.ioFed hs
  | unheard hk _ => exact ioFed_stopRead (hk.ioFed hs)
  | freed hk _ => exact ioFed_tlsFree (hk.ioFed hs)
  | error hk _ => exact ioFed_tlsFree (ioFed_loop (hk.ioFed hs) rfl)
  | read data _ hk _ => exact ioFed_loop (ioFed_stopRead (hk.ioFed hs)) rfl
  | lineTooLong _ hk _ => exact ioFed_loop (ioFed_stopRead (hk.ioFed hs)) rfl
  | refused _ hk _ => exact ioFed_tlsFree (ioFed_stopRead (hk.ioFed hs))
  | connect _ hk _ => exact ioFed_loop (hk.ioFed hs) rfl

theorem ioFed_step {s t : State η} {e : Event η} (hs : IoFed s) (h : step s e = some t) : IoFed t := by
  obtain ⟨-, -, halive⟩ := step_eq_some h
  cases e with
  | advance time =>
    cases halive
    exact ioFed_of_same hs fun w _ => ⟨id, id⟩
  | ready w =>
    simp only [stepAlive] at halive
    split at halive
    · rename_i hw
      cases halive
      exact ⟨IoOp.loopFed (.feed (W := fun _ => True) s.loop hw.2 hw.1) hs.fed⟩
    · cases halive
  | expire =>
    simp only [stepAlive] at halive
    split at halive
    · cases halive
      exact ioFed_of_same hs fun w hw => ⟨by simp [hw], fun hact => by simp [hw, hact]⟩
    · cases halive
  | timeoutCb =>
    obtain ⟨-, rfl⟩ := invoke_eq_some halive
    exact ioFed_timeoutCb (ioFed_take hs .timeout)
  | tlsRead handler size =>
    cases halive
    exact ioFed_tlsRead hs handler size
  | tlsWrite data freeData =>
    cases halive
    exact ioFed_tlsWrite hs data freeData
  | tlsWriteLine string =>
    cases halive
    exact ioFed_writeBuffered (ioFed_writeBuffered hs string) lineTerminator
  | tlsShutdown =>
    cases halive
    exact ioFed_tlsShutdown hs
  | tlsOnError handler =>
    cases halive
    exact ioFed_loop hs rfl
  | tlsOnTimeout handler =>
    cases halive
    exact ioFed_tlsOnTimeout hs handler
  | tlsOnLineTooLong handler =>
    cases halive
    exact ioFed_loop hs rfl
  | acceptSslCb reply => exact (ends_callback hs rfl halive).2.2.ioFed hs
  | readCb replies => exact (ends_callback hs rfl halive).2.2.ioFed hs
  | writeCb replies => exact (ends_callback hs rfl halive).2.2.ioFed hs
  | shutdownCb replies => exact (ends_callback hs rfl halive).2.2.ioFed hs

theorem ioFed_tlsNew (connectHandler : η) (timeout now : ℚ) : IoFed (tlsNew connectHandler timeout now) :=
  ⟨fun _ _ hpen => absurd hpen (Finset.notMem_empty _)⟩

theorem Started.ioFed {s : State η} (h : Started s) : IoFed s := by
  cases h with
  | accept hasAddress hasSsl connectHandler timeout now =>
    have hnew := ioFed_tlsNew connectHandler timeout now
    have hset := ioFed_tlsOnTimeout hnew none
    unfold acceptTcp
    dsimp only
    split
    · split
      · exact ioFed_arm hset (by decide) .read
      · exact ioFed_tlsFree hset
    · exact ioFed_tlsFree hnew
  | connect hasSocket reply connectHandler timeoutHandler timeout now =>
    have hset := ioFed_tlsOnTimeout (ioFed_tlsNew connectHandler timeout now) timeoutHandler
    have htouch : IoFed (tlsOnTimeout timeoutHandler (tlsNew connectHandler timeout now)).touch :=
      ioFed_loop hset rfl
    unfold tlsConnect
    generalize (tlsOnTimeout timeoutHandler (tlsNew connectHandler timeout now)).touch = u at htouch
    have harm := ioFed_arm htouch (w := .init) (by decide) .write
    have hact : .init ∈ (u.arm .init .write).loop.active := Finset.mem_insert_self _ _
    dsimp only
    split
    · split
      · rename_i e
        exact (ends_checkTlsError (by decide) hact e).ioFed harm
      · exact ioFed_loop htouch rfl
    · exact ioFed_loop htouch rfl

/-! ### What is left behind -/

/-- Nothing of the connection is left in the event loop. -/
structure Released (s : State η) : Prop where
  inactive : s.loop.active = ∅
  quiet : s.loop.pending = ∅

/-- The timer has expired, and its callback has not been called yet. -/
def Expired (s : State η) : Prop := .timeout ∈ s.loop.pending ∧ .timeout ∉ s.loop.active

theorem released_tlsFree_iff {s : State η} (hs : IoFed s) : Released (tlsFree s) ↔ ¬ Expired s := by
  have hquiet : (tlsFree s).loop.pending = ∅ ↔ ∀ v, v ∈ s.loop.pending → v ∈ s.loop.active := by
    simp only [Finset.eq_empty_iff_forall_notMem, mem_tlsFree_pending, not_and, not_not]
  have hreleased : Released (tlsFree s) ↔ ∀ v, v ∈ s.loop.pending → v ∈ s.loop.active :=
    ⟨fun h => hquiet.mp h.quiet, fun h => ⟨tlsFree_active s, hquiet.mpr h⟩⟩
  rw [hreleased]
  constructor
  · intro h hexp
    exact hexp.2 (h .timeout hexp.1)
  · intro h v hv
    by_cases hvt : v = .timeout
    · subst hvt
      by_contra hc
      exact h ⟨hv, hc⟩
    · exact hs.fed v hvt hv

theorem expired_of_keeps {s u : State η} (h : Keeps s u) : Expired u ↔ Expired s := by
  obtain ⟨hact, hpen⟩ := h.io.timer
  exact and_congr hpen (not_congr hact)

/-- A callback of an I/O watcher frees the connection. -/
theorem Ends.leaves_nothing {s t : State η} (h : Ends s t) (hs : IoFed s) (halive : s.freed = false)
    (hfreed : t.freed = true) : Released t ↔ ¬ Expired s := by
  have hfree : ∀ u : State η, Keeps s u → u.freed = false :=
    fun u hk => (congrArg UserSide.freed hk.user).trans halive
  cases h with
  | quiet hk => exact absurd hfreed (by simp [hfree _ hk])
  | unheard hk _ => exact absurd hfreed (by simp [State.stopRead, hfree _ hk])
  | freed hk _ => rw [released_tlsFree_iff (hk.ioFed hs), expired_of_keeps hk]
  | @error u handler hk _ =>
    have hcall : IoFed (u.call (.error handler)) := ioFed_loop (hk.ioFed hs) rfl
    have hexp : Expired (u.call (.error handler)) ↔ Expired u := Iff.rfl
    rw [released_tlsFree_iff hcall, hexp, expired_of_keeps hk]
  | read data _ hk _ => exact absurd hfreed (by simp [State.call, State.stopRead, hfree _ hk])
  | lineTooLong _ hk _ => exact absurd hfreed (by simp [State.call, State.stopRead, hfree _ hk])
  | @refused u _ hk _ =>
    have hexp : Expired u.stopRead ↔ Expired u := by simp [Expired, State.stopRead]
    rw [released_tlsFree_iff (ioFed_stopRead (hk.ioFed hs)), hexp, expired_of_keeps hk]
  | connect _ hk _ => exact absurd hfreed (by simp [State.call, hfree _ hk])

/-- When the timer's own callback frees the connection, nothing is left. -/
theorem released_timeoutCb {s : State η} (hs : IoFed s) (halive : s.freed = false)
    (hfreed : (timeoutCb s).freed = true) : Released (timeoutCb s) := by
  have hstop := ioFed_stopIo hs
  have hkeep : s.stopIo.freed = s.freed := by
    unfold State.stopIo State.stopActive
    split <;> split <;> split <;> split <;> rfl
  unfold timeoutCb at hfreed ⊢
  generalize s.lastActivity + s.timeout - s.loop.now = diff at hfreed ⊢
  dsimp only at hfreed ⊢
  split at hfreed <;> rename_i hdiff
  · exact absurd hfreed (by simp [resumeTimeout, halive])
  · rw [if_neg hdiff]
    generalize s.stopIo = u at hstop hkeep hfreed ⊢
    have hresume := ioFed_resumeTimeout hstop u.timeout
    have hact : ¬ Expired (resumeTimeout u.timeout u) := fun h => h.2 (by simp [resumeTimeout])
    have halive' : (resumeTimeout u.timeout u).freed = false := hkeep.trans halive
    generalize resumeTimeout u.timeout u = v at hresume hact halive' hfreed ⊢
    split at hfreed <;> rename_i hhandler
    · exact absurd hfreed (by simp [State.call, halive'])
    · exact (released_tlsFree_iff hresume).mpr hact

theorem freed_armWrite (s : State η) :
    (if .write ∈ s.loop.active then s else s.arm .write .write).freed = s.freed := by
  split <;> rfl

theorem freed_writeBuffered (data : Bytes) (s : State η) : (writeBuffered data s).freed = s.freed :=
  freed_armWrite { s with outputBuffer := s.outputBuffer ++ data }

theorem freed_tlsOnTimeout (handler : Option η) (s : State η) : (tlsOnTimeout handler s).freed = s.freed := by
  unfold tlsOnTimeout State.stopActive
  dsimp only
  split <;> split <;> rfl

/-- Only callbacks free the connection. -/
theorem freed_of_aside {s t : State η} {e : Event η} (hio : e.ioWatcher = none) (htimeout : e ≠ .timeoutCb)
    (h : stepAlive s e = some t) : t.freed = s.freed := by
  cases e with
  | advance time =>
    cases h
    rfl
  | ready w =>
    simp only [stepAlive] at h
    split at h <;> cases h
    rfl
  | expire =>
    simp only [stepAlive] at h
    split at h <;> cases h
    rfl
  | timeoutCb => exact absurd rfl htimeout
  | tlsRead handler size =>
    cases h
    unfold tlsRead
    split <;> rfl
  | tlsWrite data freeData =>
    cases h
    unfold tlsWrite
    split
    · exact freed_armWrite { s with output := some data, outputSize := data.length }
    · exact freed_writeBuffered data s
  | tlsWriteLine string =>
    cases h
    exact (freed_writeBuffered lineTerminator _).trans (freed_writeBuffered string s)
  | tlsShutdown =>
    cases h
    unfold tlsShutdown tlsOnDrain
    dsimp only
    split <;> rfl
  | tlsOnError handler =>
    cases h
    rfl
  | tlsOnTimeout handler =>
    cases h
    exact freed_tlsOnTimeout handler s
  | tlsOnLineTooLong handler =>
    cases h
    rfl
  | acceptSslCb reply => cases hio
  | readCb replies => cases hio
  | writeCb replies => cases hio
  | shutdownCb replies => cases hio

theorem not_expired_tlsNew (connectHandler : η) (timeout now : ℚ) : ¬ Expired (tlsNew connectHandler timeout now) :=
  fun h => absurd h.1 (Finset.notMem_empty _)

/-- A connection that is freed at its very start leaves nothing behind. -/
theorem Started.released {s : State η} (h : Started s) (hfreed : s.freed = true) : Released s := by
  have hset : ∀ (handler : Option η) (s : State η), ¬ Expired s → ¬ Expired (tlsOnTimeout handler s) := by
    intro handler s hs
    have hstop : ¬ Expired (s.stopActive .timeout) := by
      intro hexp
      have hpen := (mem_stopActive_pending s .timeout .timeout).mp hexp.1
      exact hs ⟨hpen.1, fun hact => hpen.2 ⟨rfl, hact⟩⟩
    unfold tlsOnTimeout
    generalize s.stopActive .timeout = u at hstop
    dsimp only
    split
    · exact fun hexp => hexp.2 (by simp [resumeTimeout, State.touch])
    · exact hstop
  cases h with
  | accept hasAddress hasSsl connectHandler timeout now =>
    have hexp := not_expired_tlsNew connectHandler timeout now
    have hfed := ioFed_tlsNew connectHandler timeout now
    have halive : (tlsNew connectHandler timeout now).freed = false := rfl
    unfold acceptTcp at hfreed ⊢
    generalize tlsNew connectHandler timeout now = s at hexp hfed halive hfreed ⊢
    cases hasAddress with
    | false => exact (released_tlsFree_iff hfed).mpr hexp
    | true =>
      cases hasSsl with
      | false => exact (released_tlsFree_iff (ioFed_tlsOnTimeout hfed none)).mpr (hset none s hexp)
      | true =>
        have halive' : (tlsOnTimeout none s).freed = false := (freed_tlsOnTimeout none s).trans halive
        exact absurd hfreed (by simp [State.arm, halive'])
  | connect hasSocket reply connectHandler timeoutHandler timeout now =>
    have hexp := hset timeoutHandler _ (not_expired_tlsNew connectHandler timeout now)
    have hfed := ioFed_tlsOnTimeout (ioFed_tlsNew connectHandler timeout now) timeoutHandler
    have halive : (tlsOnTimeout timeoutHandler (tlsNew connectHandler timeout now)).freed = false :=
      freed_tlsOnTimeout timeoutHandler _
    unfold tlsConnect at hfreed ⊢
    generalize tlsOnTimeout timeoutHandler (tlsNew connectHandler timeout now) = s at hexp hfed halive hfreed ⊢
    cases hasSocket with
    | false => exact absurd hfreed (by simp [State.touch, halive])
    | true =>
      cases reply with
      | established identified => exact absurd hfreed (by simp [State.touch, State.call, halive])
      | error e =>
        have htouch : IoFed s.touch := ioFed_loop hfed rfl
        have hfed' := ioFed_arm htouch (w := .init) (by decide) .write
        have hexp' : ¬ Expired (s.touch.arm .init .write) := by
          simpa [Expired, State.arm, State.touch] using hexp
        have hact : .init ∈ (s.touch.arm .init .write).loop.active := Finset.mem_insert_self _ _
        have hends := ends_checkTlsError (w := .init) (by decide) hact e
        exact (hends.leaves_nothing hfed' halive hfreed).mpr hexp'

/-- **The release of a connection.** Whenever a connection is freed, nothing of it is left in the
event loop, and no callback is called with it, exactly if it is the timer's own callback that frees it
or the timer has not expired in the same round. -/
theorem released_iff :
    (∀ s : State η, Started s → s.freed = true → Released s) ∧
    ∀ (es : List (Event η)) (s t : State η) (e : Event η), Lives (fun _ _ => True) es s → step s e = some t →
      t.freed = true →
        ((Released t ∧ ∀ w, ¬ t.loop.Next Watcher.priority w) ↔ (e = .timeoutCb ∨ ¬ Expired s)) := by
  refine ⟨fun s hs hfreed => hs.released hfreed, fun es s t e hlives hstep hfreed => ?_⟩
  have hfed : IoFed s := hlives.invariant (fun _ hstart => hstart.ioFed) (fun _ _ _ hs _ h => ioFed_step hs h)
  obtain ⟨halive, -, hstep⟩ := step_eq_some hstep
  have hnext : (Released t ∧ ∀ w, ¬ t.loop.Next Watcher.priority w) ↔ Released t := by
    refine ⟨And.left, fun h => ⟨h, fun w hw => ?_⟩⟩
    have hpen := hw.1
    rw [h.quiet] at hpen
    exact Finset.notMem_empty _ hpen
  rw [hnext]
  by_cases htimeout : e = .timeoutCb
  · subst htimeout
    obtain ⟨-, rfl⟩ := invoke_eq_some hstep
    exact ⟨fun _ => Or.inl rfl, fun _ => released_timeoutCb (ioFed_take hfed .timeout) halive hfreed⟩
  · cases hio : e.ioWatcher with
    | none =>
      have hsame := freed_of_aside hio htimeout hstep
      rw [hfreed, halive] at hsame
      cases hsame
    | some w =>
      have hends := (ends_callback hfed hio hstep).2.2
      rw [hends.leaves_nothing hfed halive hfreed]
      simp [htimeout]

/-- The client breaks off the handshake after the timer has been reset. -/
theorem released_iff_handshake : ∃ s t : State Unit, s.freed = false ∧ t.freed = true ∧
    ((Released t ∧ ∀ w, ¬ t.loop.Next Watcher.priority w) ↔
      ((Event.acceptSslCb (.error .failed) : Event Unit) = .timeoutCb ∨ ¬ Expired s)) := by
  obtain ⟨s, hs, hp⟩ := (Option.any_eq_true _ _).mp (by decide +kernel : Option.any
    (fun s => decide (s.freed = false ∧ ∃ t ∈ step s (.acceptSslCb (.error .failed)), t.freed = true))
    (Machine.run (Machine.guarded (fun _ _ => True) step) (accepted () 5 0) [.advance 3, .ready .init]) = true)
  obtain ⟨halive, t, ht, hfreed⟩ := of_decide_eq_true hp
  exact ⟨s, t, halive, hfreed, released_iff.2 _ s t _ (lives_of_run hs) ht hfreed⟩

/-- The client breaks off the handshake in the round in which the timer expires. -/
theorem not_released : ¬ ∀ (es : List (Event Unit)) (s t : State Unit) (e : Event Unit),
    Lives (fun _ _ => True) es s → step s e = some t → t.freed = true → Released t := by
  intro h
  obtain ⟨s, hs, hp⟩ := (Option.any_eq_true _ _).mp (by decide +kernel : Option.any
    (fun s => decide (∃ t ∈ step s (.acceptSslCb (.error .failed)), t.freed = true ∧ t.loop.pending ≠ ∅))
    (Machine.run (Machine.guarded (fun _ _ => True) step) (accepted () 5 0) [.advance 5, .expire]) = true)
  obtain ⟨t, ht, hfreed, hpen⟩ := of_decide_eq_true hp
  exact hpen (h _ s t _ (lives_of_run hs) ht hfreed).quiet

end Tls
end NscaNg
