/-
# The event loop

The part of libev that its users see: watchers that are active or not, and a queue of those whose
callback is pending. `Loop` holds the watchers of one user.

* `feed` puts a watcher on the queue unless it is there already.
* `stop` makes a watcher inactive and drops its pending event.
* `expire` is what the loop does with a one-shot timer that is due: it is made inactive first,
  and its callback is queued.
* The callbacks of one priority are all called before those of a lower one (`Next`); in which order
  those of one priority are called is left open. The loop polls when nothing is pending.

A watcher may be set only while it is inactive. Setting an active one has no effect here, but is
recorded (`misset`).
-/
import Mathlib.Algebra.Order.Ring.Unbundled.Rat
import Mathlib.Data.Finset.Basic
import Mathlib.Logic.Function.Basic

namespace Libev

/-- What an I/O watcher waits for. -/
inductive Events
  | read
  | write
  deriving DecidableEq, Repr

structure Loop (ω : Type) [DecidableEq ω] where
  now : ℚ
  active : Finset ω
  pending : Finset ω
  /-- What the I/O watchers were set to. -/
  events : ω → Events
  /-- What the timers were set to. -/
  after : ω → ℚ
  /-- When the timers that were started expire. -/
  due : ω → ℚ
  misset : Finset ω

namespace Loop

variable {ω : Type} [DecidableEq ω]

/-- A loop without active watchers. -/
def idle (now : ℚ) : Loop ω := ⟨now, ∅, ∅, fun _ => .read, fun _ => 0, fun _ => 0, ∅⟩

/-- `ev_feed_event()`. -/
def feed (l : Loop ω) (w : ω) : Loop ω := { l with pending := insert w l.pending }

/-- `ev_io_start()` and the like: a watcher that is active already stays as it is. -/
def start (l : Loop ω) (w : ω) : Loop ω := { l with active := insert w l.active }

/-- `ev_io_stop()`, `ev_timer_stop()` and the like. -/
def stop (l : Loop ω) (w : ω) : Loop ω :=
  { l with active := l.active.erase w, pending := l.pending.erase w }

/-- `ev_io_set()`. -/
def ioSet (l : Loop ω) (w : ω) (events : Events) : Loop ω :=
  if w ∈ l.active then { l with misset := insert w l.misset }
  else { l with events := Function.update l.events w events }

/-- `ev_timer_set()` of a one-shot timer. -/
def timerSet (l : Loop ω) (w : ω) (after : ℚ) : Loop ω :=
  if w ∈ l.active then { l with misset := insert w l.misset }
  else { l with after := Function.update l.after w after }

/-- `ev_timer_start()`. -/
def timerStart (l : Loop ω) (w : ω) : Loop ω :=
  if w ∈ l.active then l
  else { l with active := insert w l.active, due := Function.update l.due w (l.now + l.after w) }

/-- A one-shot timer expires. -/
def expire (l : Loop ω) (w : ω) : Loop ω :=
  { l with active := l.active.erase w, pending := insert w l.pending }

/-- The watcher's event is taken from the queue, and its callback is about to be called. -/
def take (l : Loop ω) (w : ω) : Loop ω := { l with pending := l.pending.erase w }

/-- Time passes. -/
def advance (l : Loop ω) (time : ℚ) : Loop ω := { l with now := max l.now time }

/-- The watcher is fed if it is active. -/
def feedActive (l : Loop ω) (w : ω) : Loop ω := if w ∈ l.active then l.feed w else l

/-- The watcher is made to wait for this, if it does not yet. -/
def waitFor (l : Loop ω) (w : ω) (events : Events) : Loop ω :=
  if l.events w = events then l else ((l.stop w).ioSet w events).start w

/-- The callback of the watcher may be the next one. -/
def Next (priority : ω → ℤ) (l : Loop ω) (w : ω) : Prop :=
  w ∈ l.pending ∧ ∀ v ∈ l.pending, priority v ≤ priority w

instance decidableNext (priority : ω → ℤ) (l : Loop ω) (w : ω) : Decidable (l.Next priority w) := by
  unfold Next
  infer_instance

section

variable (l : Loop ω) (v w : ω) (x : ℚ) (events : Events)

@[simp] theorem feed_active : (l.feed w).active = l.active := rfl
@[simp] theorem feed_pending : (l.feed w).pending = insert w l.pending := rfl
@[simp] theorem feed_events : (l.feed w).events = l.events := rfl
@[simp] theorem start_active : (l.start w).active = insert w l.active := rfl
@[simp] theorem start_pending : (l.start w).pending = l.pending := rfl
@[simp] theorem start_events : (l.start w).events = l.events := rfl
@[simp] theorem stop_active : (l.stop w).active = l.active.erase w := rfl
@[simp] theorem stop_pending : (l.stop w).pending = l.pending.erase w := rfl
@[simp] theorem stop_events : (l.stop w).events = l.events := rfl
@[simp] theorem expire_active : (l.expire w).active = l.active.erase w := rfl
@[simp] theorem expire_pending : (l.expire w).pending = insert w l.pending := rfl
@[simp] theorem take_active : (l.take w).active = l.active := rfl
@[simp] theorem take_pending : (l.take w).pending = l.pending.erase w := rfl
@[simp] theorem take_events : (l.take w).events = l.events := rfl
@[simp] theorem advance_active : (l.advance x).active = l.active := rfl
@[simp] theorem advance_pending : (l.advance x).pending = l.pending := rfl
@[simp] theorem idle_active : (idle x : Loop ω).active = ∅ := rfl
@[simp] theorem idle_pending : (idle x : Loop ω).pending = ∅ := rfl

@[simp] theorem ioSet_active : (l.ioSet w events).active = l.active := by
  unfold ioSet
  split <;> rfl

@[simp] theorem ioSet_pending : (l.ioSet w events).pending = l.pending := by
  unfold ioSet
  split <;> rfl

@[simp] theorem timerSet_active : (l.timerSet w x).active = l.active := by
  unfold timerSet
  split <;> rfl

@[simp] theorem timerSet_pending : (l.timerSet w x).pending = l.pending := by
  unfold timerSet
  split <;> rfl

@[simp] theorem timerStart_active : (l.timerStart w).active = insert w l.active := by
  unfold timerStart
  split
  · rename_i h
    exact (Finset.insert_eq_self.mpr h).symm
  · rfl

@[simp] theorem timerStart_pending : (l.timerStart w).pending = l.pending := by
  unfold timerStart
  split <;> rfl

@[simp] theorem feedActive_active : (l.feedActive w).active = l.active := by
  unfold feedActive
  split <;> rfl

theorem mem_feedActive_pending :
    v ∈ (l.feedActive w).pending ↔ v ∈ l.pending ∨ (v = w ∧ w ∈ l.active) := by
  unfold feedActive
  split
  · rename_i hw
    simp [hw, or_comm]
  · rename_i hw
    simp [hw]

theorem waitFor_active (hw : w ∈ l.active) : (l.waitFor w events).active = l.active := by
  unfold waitFor
  split
  · rfl
  · simp [Finset.insert_erase hw]

theorem mem_waitFor_active (hv : v ≠ w) : v ∈ (l.waitFor w events).active ↔ v ∈ l.active := by
  unfold waitFor
  split
  · rfl
  · simp [hv]

theorem mem_waitFor_pending (hv : v ≠ w) : v ∈ (l.waitFor w events).pending ↔ v ∈ l.pending := by
  unfold waitFor
  split
  · rfl
  · simp [hv]

theorem waitFor_pending_subset : (l.waitFor w events).pending ⊆ l.pending := by
  unfold waitFor
  split
  · exact subset_rfl
  · simp [Finset.erase_subset]

variable {l w}

/-- A watcher that is not active may be set. -/
theorem ioSet_misset (h : w ∉ l.active) : (l.ioSet w events).misset = l.misset := by
  rw [ioSet, if_neg h]

theorem timerSet_misset (h : w ∉ l.active) : (l.timerSet w x).misset = l.misset := by
  rw [timerSet, if_neg h]

theorem timerStart_misset : (l.timerStart w).misset = l.misset := by
  unfold timerStart
  split <;> rfl

/-- A watcher that is to wait for something else is stopped before. -/
theorem waitFor_misset : (l.waitFor w events).misset = l.misset := by
  unfold waitFor
  split
  · rfl
  · exact ioSet_misset events (Finset.notMem_erase w l.active)

end

end Loop

end Libev
