/-
# The inactivity timeout

Activity does not restart the timer of a connection, it only notes the time. When the timer expires,
`timeout_cb()` starts it again for what is left since then, and calls the handler if nothing is left. So the
handler is called only if nothing has happened for the whole timeout, and the timer of a connection is
always running or about to be handled, with a deadline that is at most the timeout away from the last
activity, or from the last time it was handled (`inactivity_timeout`).

An observer notes when there is activity and when the timer is handled (`observe`).
-/
import NscaNg.Common.TlsRelease
import NscaNg.Common.TlsUpcalls

namespace NscaNg
namespace Tls

open Posix Libev

variable {η : Type}

/-! ### What can be observed -/

/-- A callback of an I/O watcher, or a call of `tls_on_timeout()`. -/
def Event.isActivity : Event η → Bool
  | .acceptSslCb _ | .readCb _ | .writeCb _ | .shutdownCb _ | .tlsOnTimeout _ => true
  | _ => false

def Event.isTimeoutCb : Event η → Bool
  | .timeoutCb => true
  | _ => false

/-- A connection with the times of its activity so far, and the time its timer was handled last. -/
structure Observed (η : Type) where
  conn : State η
  activity : List ℚ
  handled : Option ℚ

/-- A step, with what there is to note. -/
def observe (x : Observed η) (e : Event η) : Option (Observed η) :=
  (step x.conn e).map fun t =>
    { conn := t
      activity := if e.isActivity then x.activity ++ [x.conn.loop.now] else x.activity
      handled := if e.isTimeoutCb then some x.conn.loop.now else x.handled }

/-- A connection that starts is active. -/
def observed (start : State η) : Observed η := ⟨start, [start.loop.now], none⟩

/-- `timeout_cb()` has called the timeout handler, which frees the connection if it is the default one. -/
def TimedOut (s t : State η) : Prop :=
  t.freed = true ∨ ∃ handler, t.history.upcalls = s.history.upcalls ++ [.timeout handler]

/-- The deadline of the timer may not be later. -/
def Observed.latest (x : Observed η) : ℚ :=
  match x.handled with
  | none => x.conn.lastActivity + x.conn.timeout
  | some h => max (h + x.conn.timeout) (x.conn.lastActivity + x.conn.timeout)

/-- The timer is running or about to be handled, and its deadline is not too late. -/
structure Running (x : Observed η) : Prop where
  ticking : .timeout ∈ x.conn.loop.active ∨ .timeout ∈ x.conn.loop.pending
  deadline : .timeout ∈ x.conn.loop.active → x.conn.loop.due .timeout ≤ x.latest

/-! ### The timer is left alone -/

/-- Nothing happens to the timer, and no time passes. -/
structure SameTimer (l l' : Loop Watcher) : Prop where
  active : .timeout ∈ l'.active ↔ .timeout ∈ l.active
  pending : .timeout ∈ l'.pending ↔ .timeout ∈ l.pending
  due : l'.due .timeout = l.due .timeout
  now : l'.now = l.now

variable {l l' l'' : Loop Watcher} {w : Watcher} {W : Watcher → Prop} {s t u : State η}

theorem SameTimer.refl (l : Loop Watcher) : SameTimer l l := ⟨Iff.rfl, Iff.rfl, rfl, rfl⟩

theorem SameTimer.trans (h : SameTimer l l') (h' : SameTimer l' l'') : SameTimer l l'' :=
  ⟨h'.active.trans h.active, h'.pending.trans h.pending, h'.due.trans h.due, h'.now.trans h.now⟩

theorem sameTimer_feed (hw : w ≠ .timeout) (l : Loop Watcher) : SameTimer l (l.feed w) :=
  ⟨Iff.rfl, by simp [Ne.symm hw], rfl, rfl⟩

theorem sameTimer_stop (hw : w ≠ .timeout) (l : Loop Watcher) : SameTimer l (l.stop w) :=
  ⟨by simp [Ne.symm hw], by simp [Ne.symm hw], rfl, rfl⟩

theorem sameTimer_ioSet (l : Loop Watcher) (w : Watcher) (events : Events) : SameTimer l (l.ioSet w events) := by
  unfold Loop.ioSet
  split <;> exact ⟨Iff.rfl, Iff.rfl, rfl, rfl⟩

theorem sameTimer_start (hw : w ≠ .timeout) (l : Loop Watcher) : SameTimer l (l.start w) :=
  ⟨by simp [Ne.symm hw], Iff.rfl, rfl, rfl⟩

theorem sameTimer_arm (hw : w ≠ .timeout) (l : Loop Watcher) (events : Events) :
    SameTimer l (((l.ioSet w events).start w).feed w) :=
  ((sameTimer_ioSet l w events).trans (sameTimer_start hw _)).trans (sameTimer_feed hw _)

theorem sameTimer_waitFor (hw : w ≠ .timeout) (l : Loop Watcher) (events : Events) :
    SameTimer l (l.waitFor w events) := by
  unfold Loop.waitFor
  split
  · exact SameTimer.refl l
  · exact ((sameTimer_stop hw l).trans (sameTimer_ioSet _ w events)).trans (sameTimer_start hw _)

theorem IoOp.sameTimer (h : IoOp W l l') : SameTimer l l' := by
  cases h with
  | take l hw => exact ⟨Iff.rfl, by simp [Ne.symm hw], rfl, rfl⟩
  | feed l hw hact => exact sameTimer_feed hw l
  | stop l hw hread => exact sameTimer_stop hw l
  | waitFor l events hw hact => exact sameTimer_waitFor hw l events
  | arm l events hw hin => exact sameTimer_arm hw l events

theorem IoOps.sameTimer (h : IoOps W l l') : SameTimer l l' := by
  induction h with
  | refl => exact SameTimer.refl l
  | tail _ h ih => exact ih.trans h.sameTimer

/-- A callback of an I/O watcher leaves the timer alone unless it frees the connection. -/
theorem Ends.sameTimer (h : Ends s t) : t.timeout = s.timeout ∧ (t.freed = true ∨ SameTimer s.loop t.loop) := by
  have hkeeps : ∀ {u : State η}, Keeps s u → u.timeout = s.timeout ∧ SameTimer s.loop u.loop := fun hk =>
    ⟨congrArg UserSide.timeout hk.user, hk.io.sameTimer⟩
  have hstop : ∀ {u : State η}, Keeps s u → SameTimer s.loop u.stopRead.loop := fun hk =>
    (hkeeps hk).2.trans (sameTimer_stop (by decide) _)
  have hfree : ∀ u : State η, (tlsFree u).timeout = u.timeout ∧ (tlsFree u).freed = true := by
    intro u
    have huser := userSide_tlsFree u
    generalize tlsFree u = v at huser
    exact ⟨congrArg UserSide.timeout huser, congrArg UserSide.freed huser⟩
  cases h with
  | quiet hk => exact ⟨(hkeeps hk).1, Or.inr (hkeeps hk).2⟩
  | unheard hk _ => exact ⟨(hkeeps hk).1, Or.inr (hstop hk)⟩
  | freed hk _ => exact ⟨(hfree _).1.trans (hkeeps hk).1, Or.inl (hfree _).2⟩
  | error hk _ => exact ⟨(hfree _).1.trans (hkeeps hk).1, Or.inl (hfree _).2⟩
  | read data _ hk _ => exact ⟨(hkeeps hk).1, Or.inr (hstop hk)⟩
  | lineTooLong _ hk _ => exact ⟨(hkeeps hk).1, Or.inr (hstop hk)⟩
  | refused _ hk _ => exact ⟨(hfree _).1.trans (hkeeps hk).1, Or.inl (hfree _).2⟩
  | connect _ hk _ => exact ⟨(hkeeps hk).1, Or.inr (hkeeps hk).2⟩

/-! ### The time of the last activity -/

theorem lastActivity_stopActive (s : State η) (w : Watcher) : (s.stopActive w).lastActivity = s.lastActivity := by
  unfold State.stopActive
  split <;> rfl

theorem lastActivity_tlsFree (s : State η) : (tlsFree s).lastActivity = s.lastActivity := by
  have hstop : (s.stopIo.stopActive .timeout).lastActivity = s.lastActivity := by
    simp only [State.stopIo, lastActivity_stopActive]
  unfold tlsFree
  generalize s.stopIo.stopActive .timeout = u at hstop
  exact hstop

theorem lastActivity_tlsError (s : State η) : (tlsError s).lastActivity = s.lastActivity := by
  unfold tlsError
  split
  · exact lastActivity_tlsFree _
  · exact lastActivity_tlsFree s

theorem lastActivity_checkTlsError (w : Watcher) (e : SslError) (s : State η) :
    (checkTlsError w e s).lastActivity = s.lastActivity := by
  cases e with
  | wantRead => rfl
  | wantWrite => rfl
  | interrupted => rfl
  | failed => exact lastActivity_tlsError s

theorem lastActivity_lineTooLong (s : State η) : (lineTooLong s).lastActivity = s.lastActivity := by
  unfold lineTooLong
  dsimp only
  split
  · rfl
  · exact lastActivity_tlsFree _

theorem lastActivity_readLineLoop (replies : List SslRead) (s : State η) :
    (readLineLoop replies s).1.lastActivity = s.lastActivity := by
  fun_induction readLineLoop replies s with
  | case1 replies s line rest hline => rfl
  | case2 replies s hline hlong => exact lastActivity_lineTooLong s
  | case3 s hline hlong => exact lastActivity_checkTlsError .read .wantRead s
  | case4 s hline hlong reply replies e he => exact lastActivity_checkTlsError .read e s
  | case5 s hline hlong reply replies bytes hbytes ih => exact ih

theorem lastActivity_readBytesLoop (replies : List SslRead) (s : State η) :
    (readBytesLoop replies s).1.lastActivity = s.lastActivity := by
  fun_induction readBytesLoop replies s with
  | case1 s => exact lastActivity_checkTlsError .read .wantRead s
  | case2 s reply replies e he => exact lastActivity_checkTlsError .read e s
  | case3 s reply replies bytes hbytes hlt ih => exact ih
  | case4 s reply replies bytes hbytes hge => rfl

theorem lastActivity_readData (replies : List SslRead) (s : State η) :
    (readData replies s).1.lastActivity = s.lastActivity := by
  unfold readData
  split
  · exact lastActivity_readLineLoop replies _
  · exact lastActivity_readBytesLoop replies _

theorem lastActivity_deliver (data : Bytes) (s : State η) : (deliver data s).lastActivity = s.lastActivity := by
  unfold deliver
  dsimp only
  split <;> rfl

theorem lastActivity_resetWatcherState (w : Watcher) (s : State η) :
    (resetWatcherState w s).touch.lastActivity = s.loop.now := by
  unfold resetWatcherState Loop.feedActive
  split <;> rfl

theorem lastActivity_readCb (replies : List SslRead) (s : State η) :
    (readCb replies s).lastActivity = s.loop.now := by
  have hdata := (lastActivity_readData replies (resetWatcherState .write s).touch).trans
    (lastActivity_resetWatcherState .write s)
  unfold readCb
  split
  · next heq =>
    rw [heq] at hdata
    exact (lastActivity_deliver _ _).trans hdata
  · next heq =>
    rw [heq] at hdata
    exact hdata

theorem lastActivity_nextOutput (s : State η) : (nextOutput s).lastActivity = s.lastActivity := by
  unfold nextOutput
  split <;> rfl

theorem lastActivity_drained (s : State η) : (drained s).lastActivity = s.lastActivity := by
  unfold drained
  dsimp only
  split <;> rfl

theorem lastActivity_writeLoop (replies : List SslWrite) (s : State η) :
    (writeLoop replies s).lastActivity = s.lastActivity := by
  induction replies generalizing s with
  | nil => exact (lastActivity_checkTlsError .write .wantWrite _).trans (lastActivity_nextOutput s)
  | cons reply replies ih =>
    refine Eq.trans ?_ (lastActivity_nextOutput s)
    unfold writeLoop
    generalize nextOutput s = s
    dsimp only
    split
    · exact lastActivity_checkTlsError .write _ s
    · split
      · exact ih _
      · split
        · exact lastActivity_drained _
        · exact ih _

theorem lastActivity_writeCb (replies : List SslWrite) (s : State η) :
    (writeCb replies s).lastActivity = s.loop.now :=
  (lastActivity_writeLoop replies _).trans (lastActivity_resetWatcherState .read s)

theorem lastActivity_shutdownCb (replies : List SslShutdown) (s : State η) :
    (shutdownCb replies s).lastActivity = s.loop.now := by
  have htouch : s.touch.lastActivity = s.loop.now := rfl
  unfold shutdownCb
  generalize s.touch = u at htouch
  rw [← htouch]
  induction replies with
  | nil => exact lastActivity_checkTlsError .shutdown .wantRead u
  | cons reply replies ih =>
    cases reply with
    | done => exact lastActivity_tlsFree u
    | sent => exact ih
    | error e => exact lastActivity_checkTlsError .shutdown e u

theorem lastActivity_acceptSslCb (reply : SslAccept) (s : State η) :
    (acceptSslCb reply s).lastActivity = s.loop.now := by
  match reply with
  | .error e => exact lastActivity_checkTlsError .init e s.touch
  | .established false => exact lastActivity_tlsFree s.touch
  | .established true => rfl

/-- A callback of an I/O watcher notes the time. -/
theorem lastActivity_callback {e : Event η} (he : e.ioWatcher = some w) (h : stepAlive s e = some t) :
    t.lastActivity = s.loop.now := by
  cases e with
  | acceptSslCb reply =>
    obtain ⟨-, rfl⟩ := invoke_eq_some h
    exact lastActivity_acceptSslCb reply _
  | readCb replies =>
    obtain ⟨-, rfl⟩ := invoke_eq_some h
    exact lastActivity_readCb replies _
  | writeCb replies =>
    obtain ⟨-, rfl⟩ := invoke_eq_some h
    exact lastActivity_writeCb replies _
  | shutdownCb replies =>
    obtain ⟨-, rfl⟩ := invoke_eq_some h
    exact lastActivity_shutdownCb replies _
  | _ => cases he

/-! ### What a step does to the timer -/

/-- The timer is left alone, as is the rest of what decides about it. -/
structure SameClock (s t : State η) : Prop where
  timer : SameTimer s.loop t.loop
  timeout : t.timeout = s.timeout
  lastActivity : t.lastActivity = s.lastActivity
  freed : t.freed = s.freed

theorem SameClock.trans (h : SameClock s t) (h' : SameClock t u) : SameClock s u :=
  ⟨h.timer.trans h'.timer, h'.timeout.trans h.timeout, h'.lastActivity.trans h.lastActivity, h'.freed.trans h.freed⟩

theorem sameClock_arm (hw : w ≠ .timeout) (s : State η) (events : Events) : SameClock s (s.arm w events) :=
  ⟨sameTimer_arm hw s.loop events, rfl, rfl, rfl⟩

theorem sameClock_armWrite (s : State η) :
    SameClock s (if .write ∈ s.loop.active then s else s.arm .write .write) := by
  split
  · exact ⟨SameTimer.refl _, rfl, rfl, rfl⟩
  · exact sameClock_arm (by decide) s .write

theorem sameClock_writeBuffered (data : Bytes) (s : State η) : SameClock s (writeBuffered data s) :=
  have hbuf : SameClock s { s with outputBuffer := s.outputBuffer ++ data } := ⟨SameTimer.refl _, rfl, rfl, rfl⟩
  hbuf.trans (sameClock_armWrite _)

theorem sameClock_tlsWrite (data : Bytes) (freeData : Bool) (s : State η) :
    SameClock s (tlsWrite data freeData s) := by
  unfold tlsWrite
  split
  · have hout : SameClock s { s with output := some data, outputSize := data.length } :=
      ⟨SameTimer.refl _, rfl, rfl, rfl⟩
    exact hout.trans (sameClock_armWrite _)
  · exact sameClock_writeBuffered data s

theorem sameClock_tlsShutdown (s : State η) : SameClock s (tlsShutdown s) := by
  have hset : SameClock s { s with errorHandler := none, timeoutHandler := none, shutdownOnDrain := true } :=
    ⟨SameTimer.refl _, rfl, rfl, rfl⟩
  unfold tlsShutdown tlsOnDrain
  dsimp only
  split
  · exact hset
  · exact hset.trans (sameClock_arm (by decide) _ .write)

/-- What the user of a connection calls leaves the timer alone, but for `tls_on_timeout()`, and so does what the
loop does to an I/O watcher. -/
def Event.isAside : Event η → Bool
  | .ready _ | .tlsRead _ _ | .tlsWrite _ _ | .tlsWriteLine _ | .tlsShutdown | .tlsOnError _ | .tlsOnLineTooLong _ => true
  | _ => false

theorem sameClock_of_aside {e : Event η} (he : e.isAside = true) (h : stepAlive s e = some t) : SameClock s t := by
  cases e with
  | ready w =>
    simp only [stepAlive] at h
    split at h
    · next hw =>
      cases h
      exact ⟨sameTimer_feed hw.2 s.loop, rfl, rfl, rfl⟩
    · cases h
  | tlsRead handler size =>
    cases h
    unfold tlsRead
    split
    · exact ⟨SameTimer.refl _, rfl, rfl, rfl⟩
    · have hask : SameClock s (s.ask handler size) := ⟨SameTimer.refl _, rfl, rfl, rfl⟩
      exact hask.trans (sameClock_arm (by decide) _ .read)
  | tlsWrite data freeData =>
    cases h
    exact sameClock_tlsWrite data freeData s
  | tlsWriteLine string =>
    cases h
    exact (sameClock_writeBuffered string s).trans (sameClock_writeBuffered lineTerminator _)
  | tlsShutdown =>
    cases h
    exact sameClock_tlsShutdown s
  | tlsOnError handler =>
    cases h
    exact ⟨SameTimer.refl _, rfl, rfl, rfl⟩
  | tlsOnLineTooLong handler =>
    cases h
    exact ⟨SameTimer.refl _, rfl, rfl, rfl⟩
  | _ => cases he

theorem sameTimer_stopActive (hw : w ≠ .timeout) (s : State η) : SameTimer s.loop (s.stopActive w).loop := by
  unfold State.stopActive
  split
  · exact sameTimer_stop hw s.loop
  · exact SameTimer.refl _

theorem sameClock_stopIo (s : State η) : SameClock s s.stopIo := by
  have hstop : ∀ {w : Watcher}, w ≠ .timeout → ∀ s : State η, SameClock s (s.stopActive w) := fun hw s =>
    ⟨sameTimer_stopActive hw s, congrArg UserSide.timeout (userSide_stopActive s _), lastActivity_stopActive s _,
      congrArg UserSide.freed (userSide_stopActive s _)⟩
  exact (((hstop (by decide) s).trans (hstop (by decide) _)).trans (hstop (by decide) _)).trans (hstop (by decide) _)

/-- A timer that is set and started is running, and its deadline is a new one if it was not running before. -/
theorem resumeTimeout_timer (after : ℚ) (s : State η) :
    .timeout ∈ (resumeTimeout after s).loop.active ∧ (resumeTimeout after s).loop.now = s.loop.now ∧
      (.timeout ∈ s.loop.active → (resumeTimeout after s).loop.due .timeout = s.loop.due .timeout) ∧
      (.timeout ∉ s.loop.active → (resumeTimeout after s).loop.due .timeout = s.loop.now + after) := by
  unfold resumeTimeout Loop.timerStart Loop.timerSet
  by_cases hact : .timeout ∈ s.loop.active
  · simp [hact]
  · simp [hact]

/-! ### The invariant -/

/-- What is noted is not later than the last activity, and the timer is running. -/
structure Timed (timeout : ℚ) (x : Observed η) : Prop extends Running x where
  timeout_eq : x.conn.timeout = timeout
  past : x.conn.lastActivity ≤ x.conn.loop.now
  seen : ∀ a ∈ x.activity, a ≤ x.conn.lastActivity
  handled : ∀ h ∈ x.handled, h ≤ x.conn.loop.now

variable {timeout : ℚ} {x y : Observed η}

theorem latest_le_of_le (hact : x.conn.lastActivity ≤ y.conn.lastActivity) (htimeout : y.conn.timeout = x.conn.timeout)
    (hhandled : y.handled = x.handled) : x.latest ≤ y.latest := by
  unfold Observed.latest
  rw [htimeout, hhandled]
  cases x.handled with
  | none => exact add_le_add hact le_rfl
  | some h => exact max_le_max le_rfl (add_le_add hact le_rfl)

/-- The timer is left alone, and there may be activity. -/
theorem Timed.of_sameTimer (hx : Timed timeout x) (htimer : SameTimer x.conn.loop y.conn.loop)
    (htimeout : y.conn.timeout = x.conn.timeout) (hhandled : y.handled = x.handled)
    (hlast : x.conn.lastActivity ≤ y.conn.lastActivity) (hpast : y.conn.lastActivity ≤ x.conn.loop.now)
    (hseen : ∀ a ∈ y.activity, a ≤ y.conn.lastActivity) : Timed timeout y where
  ticking := hx.ticking.imp htimer.active.mpr htimer.pending.mpr
  deadline hact := by
    rw [htimer.due]
    exact (hx.deadline (htimer.active.mp hact)).trans (latest_le_of_le hlast htimeout hhandled)
  timeout_eq := htimeout.trans hx.timeout_eq
  past := by rwa [htimer.now]
  seen := hseen
  handled := by
    rw [hhandled, htimer.now]
    exact hx.handled

/-- `timeout_cb()`: either the timer is started again for what is left since the last activity, or nothing is left,
it is started for the whole timeout, and the handler is called. -/
theorem timeoutCb_cases (s : State η) :
    (0 < s.lastActivity + s.timeout - s.loop.now ∧
        timeoutCb s = resumeTimeout (s.lastActivity + s.timeout - s.loop.now) s) ∨
      (s.lastActivity + s.timeout ≤ s.loop.now ∧
        ((timeoutCb s).freed = true ∨
          ∃ handler, timeoutCb s = (resumeTimeout s.stopIo.timeout s.stopIo).call (.timeout handler))) := by
  by_cases hdiff : 0 < s.lastActivity + s.timeout - s.loop.now
  · refine Or.inl ⟨hdiff, ?_⟩
    unfold timeoutCb
    exact if_pos hdiff
  · refine Or.inr ⟨by linarith, ?_⟩
    have hcb : timeoutCb s = _ := if_neg hdiff
    rw [hcb]
    generalize resumeTimeout s.stopIo.timeout s.stopIo = u
    cases u.timeoutHandler with
    | none => exact Or.inl (congrArg UserSide.freed (userSide_tlsFree u))
    | some handler => exact Or.inr ⟨handler, rfl⟩

/-- The deadline behind `timeout_cb()`, if the timer is started for a time that is left. -/
theorem Timed.resume (hx : Timed timeout x) {after : ℚ} {u v : State η}
    (hu : SameClock { x.conn with loop := x.conn.loop.take .timeout } u)
    (hafter : after ≤ timeout) (hv : v.loop = (resumeTimeout after u).loop)
    (hv' : v.timeout = u.timeout ∧ v.lastActivity = u.lastActivity) :
    Timed timeout ⟨v, x.activity, some x.conn.loop.now⟩ := by
  obtain ⟨hrunning, hnow, hold, hnew⟩ := resumeTimeout_timer after u
  have hunow : u.loop.now = x.conn.loop.now := hu.timer.now
  have hlast : v.lastActivity = x.conn.lastActivity := hv'.2.trans hu.lastActivity
  have htimeout : v.timeout = timeout := (hv'.1.trans hu.timeout).trans hx.timeout_eq
  have hmax : Observed.latest ⟨v, x.activity, some x.conn.loop.now⟩ =
      max (x.conn.loop.now + timeout) (x.conn.lastActivity + timeout) := by
    show max (x.conn.loop.now + v.timeout) (v.lastActivity + v.timeout) = _
    rw [htimeout, hlast]
  have hvnow : v.loop.now = x.conn.loop.now := by rw [hv, hnow, hunow]
  refine ⟨⟨Or.inl (hv ▸ hrunning), fun _ => ?_⟩, htimeout, ?_, ?_, ?_⟩
  · show v.loop.due .timeout ≤ _
    rw [hmax, hv]
    by_cases hact : .timeout ∈ u.loop.active
    · -- the timer has been started since it expired
      rw [hold hact, hu.timer.due]
      refine (hx.deadline (hu.timer.active.mp hact)).trans ?_
      unfold Observed.latest
      rw [hx.timeout_eq]
      cases hh : x.handled with
      | none => exact le_max_right _ _
      | some h => exact max_le_max (add_le_add (hx.handled h hh) le_rfl) le_rfl
    · rw [hnew hact, hunow]
      exact (add_le_add le_rfl hafter).trans (le_max_left _ _)
  · show v.lastActivity ≤ v.loop.now
    rw [hlast, hvnow]
    exact hx.past
  · intro a ha
    show a ≤ v.lastActivity
    rw [hlast]
    exact hx.seen a ha
  · intro h hh
    show h ≤ v.loop.now
    rw [hvnow, Option.some.inj hh]

theorem timed_timeoutCb (hx : Timed timeout x) {t : State η}
    (ht : t = timeoutCb { x.conn with loop := x.conn.loop.take .timeout }) (halive : t.freed = false) :
    Timed timeout ⟨t, x.activity, some x.conn.loop.now⟩ := by
  have htake : SameClock { x.conn with loop := x.conn.loop.take .timeout }
      { x.conn with loop := x.conn.loop.take .timeout } := ⟨SameTimer.refl _, rfl, rfl, rfl⟩
  rcases timeoutCb_cases { x.conn with loop := x.conn.loop.take .timeout } with ⟨-, hresume⟩ | ⟨-, hfreed | ⟨handler, hcall⟩⟩
  · refine hx.resume (u := { x.conn with loop := x.conn.loop.take .timeout }) htake ?_
      (congrArg State.loop (ht.trans hresume)) ?_
    · show x.conn.lastActivity + x.conn.timeout - x.conn.loop.now ≤ timeout
      rw [hx.timeout_eq]
      linarith [hx.past]
    · rw [ht, hresume]
      exact ⟨rfl, rfl⟩
  · rw [← ht, halive] at hfreed
    cases hfreed
  · have hstop := sameClock_stopIo { x.conn with loop := x.conn.loop.take .timeout }
    rw [hcall] at ht
    generalize State.stopIo { x.conn with loop := x.conn.loop.take .timeout } = u at hstop ht
    have hle : u.timeout ≤ timeout := by
      rw [hstop.timeout]
      exact hx.timeout_eq.le
    refine hx.resume hstop hle ?_ ?_
    · rw [ht]
      rfl
    · rw [ht]
      exact ⟨rfl, rfl⟩

/-- `tls_on_timeout()` restarts the timer. -/
theorem timed_tlsOnTimeout (hpos : 0 < timeout) (hs : s.timeout = timeout) (handler : Option η)
    {activity : List ℚ} {handled : Option ℚ} (hact : ∀ a ∈ activity, a ≤ s.loop.now)
    (hhandled : ∀ h ∈ handled, h ≤ s.loop.now) :
    Timed timeout ⟨tlsOnTimeout handler s, activity, handled⟩ := by
  have hoff : .timeout ∉ (s.stopActive .timeout).loop.active := by
    rw [stopActive_active]
    exact Finset.notMem_erase _ _
  have hnow : (s.stopActive .timeout).loop.now = s.loop.now := by
    unfold State.stopActive
    split <;> rfl
  have htimeout : (s.stopActive .timeout).timeout = timeout :=
    (congrArg UserSide.timeout (userSide_stopActive s .timeout)).trans hs
  unfold tlsOnTimeout
  generalize s.stopActive .timeout = u at hoff hnow htimeout
  obtain ⟨hrunning, hnow', -, hnew⟩ := resumeTimeout_timer timeout { u with timeoutHandler := handler }
  have hset : (if 0 < u.timeout then (resumeTimeout u.timeout { u with timeoutHandler := handler }).touch
      else { u with timeoutHandler := handler }) = (resumeTimeout timeout { u with timeoutHandler := handler }).touch := by
    rw [htimeout, if_pos hpos]
  have hdue := hnew hoff
  dsimp only
  rw [hset]
  have htime : (resumeTimeout timeout { u with timeoutHandler := handler }).timeout = timeout := htimeout
  generalize resumeTimeout timeout { u with timeoutHandler := handler } = v at hrunning hnow' hdue htime
  have hvnow : v.loop.now = s.loop.now := hnow'.trans hnow
  refine ⟨⟨Or.inl hrunning, fun _ => ?_⟩, htime, le_rfl, ?_, ?_⟩
  · have hlatest : v.loop.now + timeout ≤ Observed.latest ⟨v.touch, activity, handled⟩ := by
      unfold Observed.latest
      cases handled with
      | none => exact (congrArg (v.loop.now + ·) htime).ge
      | some h => exact le_max_of_le_right (congrArg (v.loop.now + ·) htime).ge
    show v.loop.due .timeout ≤ _
    rw [hdue]
    exact hnow' ▸ hlatest
  · intro a ha
    show a ≤ v.loop.now
    rw [hvnow]
    exact hact a ha
  · intro h hh
    show h ≤ v.loop.now
    rw [hvnow]
    exact hhandled h hh

/-- What is kept along a run: a connection that has not been freed is timed. -/
structure Watched (timeout : ℚ) (x : Observed η) : Prop where
  fed : IoFed x.conn
  timed : x.conn.freed = false → Timed timeout x

/-- **Every step keeps the timer running.** -/
theorem watched_step (hpos : 0 < timeout) (hx : Watched timeout x) {e : Event η} (h : observe x e = some y) :
    Watched timeout y := by
  obtain ⟨t, hstep, rfl⟩ := Option.map_eq_some_iff.mp h
  obtain ⟨halive, -, halive'⟩ := step_eq_some hstep
  have hold := hx.timed halive
  refine ⟨ioFed_step hx.fed hstep, fun hfreed => ?_⟩
  have hcallback : ∀ w, e.ioWatcher = some w → e.isActivity = true → e.isTimeoutCb = false →
      Timed timeout ⟨t, if e.isActivity then x.activity ++ [x.conn.loop.now] else x.activity,
        if e.isTimeoutCb then some x.conn.loop.now else x.handled⟩ := by
    intro w hw hactivity htimeout
    obtain ⟨-, -, hends⟩ := ends_callback hx.fed hw halive'
    have hlast := lastActivity_callback hw halive'
    obtain ⟨hsame, hfree | htimer⟩ := hends.sameTimer
    · exact absurd (hfreed.symm.trans hfree) (by decide)
    · rw [hactivity, htimeout]
      refine hold.of_sameTimer htimer hsame rfl ?_ hlast.le fun a ha => ?_
      · rw [hlast]
        exact hold.past
      · show a ≤ t.lastActivity
        rw [hlast]
        rcases List.mem_append.mp ha with ha | ha
        · exact (hold.seen a ha).trans hold.past
        · exact (List.mem_singleton.mp ha).le
  have haside : e.isAside = true → e.isActivity = false → e.isTimeoutCb = false →
      Timed timeout ⟨t, if e.isActivity then x.activity ++ [x.conn.loop.now] else x.activity,
        if e.isTimeoutCb then some x.conn.loop.now else x.handled⟩ := by
    intro he hactivity htimeout
    have hclock := sameClock_of_aside he halive'
    rw [hactivity, htimeout]
    refine hold.of_sameTimer hclock.timer hclock.timeout rfl hclock.lastActivity.ge ?_ fun a ha => ?_
    · show t.lastActivity ≤ _
      rw [hclock.lastActivity]
      exact hold.past
    · show a ≤ t.lastActivity
      rw [hclock.lastActivity]
      exact hold.seen a ha
  cases e with
  | advance time =>
    cases halive'
    exact ⟨⟨hold.ticking, hold.deadline⟩, hold.timeout_eq, hold.past.trans (le_max_left _ _), hold.seen,
      fun h hh => (hold.handled h hh).trans (le_max_left _ _)⟩
  | expire =>
    simp only [stepAlive] at halive'
    split at halive'
    · cases halive'
      exact ⟨⟨Or.inr (Finset.mem_insert_self _ _), fun hact => absurd hact (Finset.notMem_erase _ _)⟩,
        hold.timeout_eq, hold.past, hold.seen, hold.handled⟩
    · cases halive'
  | timeoutCb =>
    obtain ⟨-, ht⟩ := invoke_eq_some halive'
    exact timed_timeoutCb hold ht hfreed
  | tlsOnTimeout handler =>
    cases halive'
    refine timed_tlsOnTimeout hpos hold.timeout_eq handler (fun a ha => ?_) hold.handled
    rcases List.mem_append.mp ha with ha | ha
    · exact (hold.seen a ha).trans hold.past
    · exact (List.mem_singleton.mp ha).le
  | acceptSslCb reply => exact hcallback .init rfl rfl rfl
  | readCb replies => exact hcallback .read rfl rfl rfl
  | writeCb replies => exact hcallback .write rfl rfl rfl
  | shutdownCb replies => exact hcallback .shutdown rfl rfl rfl
  | ready w => exact haside rfl rfl rfl
  | tlsRead handler size => exact haside rfl rfl rfl
  | tlsWrite data freeData => exact haside rfl rfl rfl
  | tlsWriteLine string => exact haside rfl rfl rfl
  | tlsShutdown => exact haside rfl rfl rfl
  | tlsOnError handler => exact haside rfl rfl rfl
  | tlsOnLineTooLong handler => exact haside rfl rfl rfl

/-- The state behind the call of `tls_on_timeout()` that starts the timer. -/
structure TimerSet (timeout now : ℚ) (s : State η) : Prop where
  timed : 0 < timeout → Timed timeout ⟨s, [now], none⟩
  timeout_eq : s.timeout = timeout
  now_eq : s.loop.now = now
  lastActivity : 0 < timeout → s.lastActivity = now
  alive : s.freed = false

theorem timerSet_tlsNew (connectHandler : η) (timeout now : ℚ) (handler : Option η) :
    TimerSet timeout now (tlsOnTimeout handler (tlsNew connectHandler timeout now)) := by
  have hstop : (tlsNew connectHandler timeout now).stopActive .timeout = tlsNew connectHandler timeout now :=
    if_neg (Finset.notMem_empty _)
  have hclock : (tlsOnTimeout handler (tlsNew connectHandler timeout now)).timeout = timeout ∧
      (tlsOnTimeout handler (tlsNew connectHandler timeout now)).loop.now = now ∧
      (tlsOnTimeout handler (tlsNew connectHandler timeout now)).lastActivity = now := by
    unfold tlsOnTimeout
    rw [hstop]
    dsimp only
    split
    · have hnow : (resumeTimeout (tlsNew connectHandler timeout now).timeout
          { tlsNew connectHandler timeout now with timeoutHandler := handler }).loop.now = now :=
        (resumeTimeout_timer _ _).2.1
      exact ⟨rfl, hnow, hnow⟩
    · exact ⟨rfl, rfl, rfl⟩
  obtain ⟨htimeout, hnow, hlast⟩ := hclock
  exact ⟨fun hpos => timed_tlsOnTimeout hpos rfl handler (fun _ ha => (List.mem_singleton.mp ha).le)
    (fun _ hh => nomatch hh), htimeout, hnow, fun _ => hlast, freed_tlsOnTimeout handler _⟩

/-- What leaves the timer alone starts a connection that is watched. -/
theorem TimerSet.started {timeout now : ℚ} {u start : State η} (hu : TimerSet timeout now u) (hpos : 0 < timeout)
    (htimeout : start.timeout = timeout) (htimer : SameTimer u.loop start.loop) (hlast : start.lastActivity = now) :
    Timed timeout (observed start) := by
  have hstartnow : start.loop.now = now := htimer.now.trans hu.now_eq
  refine (hu.timed hpos).of_sameTimer htimer (htimeout.trans hu.timeout_eq.symm) rfl ?_ ?_ fun a ha => ?_
  · show u.lastActivity ≤ start.lastActivity
    rw [hlast, hu.lastActivity hpos]
  · show start.lastActivity ≤ u.loop.now
    rw [hlast, hu.now_eq]
  · show a ≤ start.lastActivity
    rw [List.mem_singleton.mp ha, hstartnow, hlast]

/-- A connection that starts is watched. -/
theorem Started.watched {start : State η} (h : Started start) (hpos : 0 < start.timeout) :
    Watched start.timeout (observed start) := by
  refine ⟨h.ioFed, fun hfreed => ?_⟩
  have hfree : ∀ v : State η, ¬ (tlsFree v).freed = false := fun v hv =>
    Bool.false_ne_true (hv.symm.trans (congrArg UserSide.freed (userSide_tlsFree v)))
  cases h with
  | accept hasAddress hasSsl connectHandler timeout now =>
    have hset := timerSet_tlsNew connectHandler timeout now none
    have hfirst : acceptTcp false hasSsl connectHandler timeout now = tlsFree (tlsNew connectHandler timeout now) := rfl
    have hsecond : acceptTcp true false connectHandler timeout now =
        tlsFree (tlsOnTimeout none (tlsNew connectHandler timeout now)) := rfl
    have hthird : acceptTcp true true connectHandler timeout now =
        (tlsOnTimeout none (tlsNew connectHandler timeout now)).arm .init .read := rfl
    cases hasAddress with
    | false => exact absurd (hfirst ▸ hfreed) (hfree _)
    | true =>
      cases hasSsl with
      | false => exact absurd (hsecond ▸ hfreed) (hfree _)
      | true =>
        rw [hthird] at hpos ⊢
        generalize tlsOnTimeout none (tlsNew connectHandler timeout now) = u at hset hpos
        have htimeout : (u.arm .init .read).timeout = timeout := hset.timeout_eq
        rw [htimeout] at hpos ⊢
        exact hset.started hpos htimeout (sameTimer_arm (by decide) u.loop .read) (hset.lastActivity hpos)
  | connect hasSocket reply connectHandler timeoutHandler timeout now =>
    have hset := timerSet_tlsNew connectHandler timeout now timeoutHandler
    have hfirst : tlsConnect false reply connectHandler timeoutHandler timeout now =
        { (tlsOnTimeout timeoutHandler (tlsNew connectHandler timeout now)).touch with died := true } := rfl
    cases hasSocket with
    | false =>
      rw [hfirst] at hpos ⊢
      generalize tlsOnTimeout timeoutHandler (tlsNew connectHandler timeout now) = u at hset hpos
      have htimeout : { u.touch with died := true }.timeout = timeout := hset.timeout_eq
      rw [htimeout] at hpos ⊢
      exact hset.started hpos htimeout (SameTimer.refl _) hset.now_eq
    | true =>
      cases reply with
      | established identified =>
        have hsecond : tlsConnect true (.established identified) connectHandler timeoutHandler timeout now =
            (tlsOnTimeout timeoutHandler (tlsNew connectHandler timeout now)).touch.call
              (.connect (tlsOnTimeout timeoutHandler (tlsNew connectHandler timeout now)).connectHandler) := rfl
        rw [hsecond] at hpos ⊢
        generalize tlsOnTimeout timeoutHandler (tlsNew connectHandler timeout now) = u at hset hpos
        have htimeout : (u.touch.call (.connect u.connectHandler)).timeout = timeout := hset.timeout_eq
        rw [htimeout] at hpos ⊢
        exact hset.started hpos htimeout (SameTimer.refl _) hset.now_eq
      | error e =>
        have hthird : tlsConnect true (.error e) connectHandler timeoutHandler timeout now =
            checkTlsError .init e ((tlsOnTimeout timeoutHandler (tlsNew connectHandler timeout now)).touch.arm .init
              .write) := rfl
        rw [hthird] at hpos hfreed ⊢
        generalize tlsOnTimeout timeoutHandler (tlsNew connectHandler timeout now) = u at hset hpos hfreed
        have hact : .init ∈ (u.touch.arm .init .write).loop.active := Finset.mem_insert_self _ _
        have hlast := lastActivity_checkTlsError .init e (u.touch.arm .init .write)
        obtain ⟨hsame, hfreed' | htimer⟩ := (ends_checkTlsError (by decide) hact e).sameTimer
        · exact absurd (hfreed.symm.trans hfreed') Bool.false_ne_true
        · generalize checkTlsError .init e (u.touch.arm .init .write) = v at hlast hsame htimer hpos
          have htimeout : v.timeout = timeout := hsame.trans hset.timeout_eq
          rw [htimeout] at hpos ⊢
          exact hset.started hpos htimeout ((sameTimer_arm (by decide) u.touch.loop .write).trans htimer)
            (hlast.trans hset.now_eq)

/-! ### The timeout -/

/-- The handler is called only if nothing is left of the timeout. -/
theorem TimedOut.idle (halive : s.freed = false) (h : TimedOut s (timeoutCb { s with loop := s.loop.take .timeout })) :
    s.lastActivity + s.timeout ≤ s.loop.now := by
  rcases timeoutCb_cases { s with loop := s.loop.take .timeout } with ⟨-, hresume⟩ | ⟨hle, -⟩
  · rw [hresume] at h
    rcases h with hfreed | ⟨handler, hcalled⟩
    · exact absurd (halive.symm.trans hfreed) Bool.false_ne_true
    · have hsame : s.history.upcalls = s.history.upcalls ++ [.timeout handler] := hcalled
      exact absurd hsame.symm (by simp)
  · exact hle

/-- **The timeout handler is called only after the timeout**: nothing has happened for so long. And as long as the
connection has not been freed, its timer is running or about to be handled, with a deadline that is not too late. -/
theorem inactivity_timeout {start : State η} (hstart : Started start) (hpos : 0 < start.timeout)
    {es : List (Event η)} {x : Observed η} (h : Machine.Runs (Machine.Steps observe) (observed start) es x) :
    (∀ y, observe x .timeoutCb = some y → TimedOut x.conn y.conn →
      ∀ a ∈ x.activity, a ≤ x.conn.loop.now - start.timeout) ∧
    (x.conn.freed = false → x.conn.timeout = start.timeout ∧ Running x) := by
  have hwatched : Watched start.timeout x :=
    h.invariant (fun _ _ _ hx hstep => watched_step hpos hx hstep) (hstart.watched hpos)
  refine ⟨fun y hy hout a ha => ?_, fun halive => ?_⟩
  · obtain ⟨t, hstep, rfl⟩ := Option.map_eq_some_iff.mp hy
    obtain ⟨halive, -, hcb⟩ := step_eq_some hstep
    obtain ⟨-, rfl⟩ := invoke_eq_some hcb
    have htimed := hwatched.timed halive
    have hidle := TimedOut.idle halive hout
    have hseen := htimed.seen a ha
    rw [htimed.timeout_eq] at hidle
    linarith
  · have htimed := hwatched.timed halive
    exact ⟨htimed.timeout_eq, htimed.toRunning⟩

/-- A timer of 5 seconds that is reset for an activity at 4, and expires again at 9. -/
theorem inactivity_timeout_reset : ∃ x y : Observed Unit, observe x .timeoutCb = some y ∧ TimedOut x.conn y.conn ∧
    x.activity = [0, 3, 4] ∧ (∀ a ∈ x.activity, a ≤ x.conn.loop.now - 5) ∧ Running x := by
  obtain ⟨x, hx, hp⟩ := (Option.any_eq_true _ _).mp (by decide +kernel : Option.any
    (fun x => decide (x.activity = [0, 3, 4] ∧ x.conn.freed = false ∧ ∃ y ∈ observe x .timeoutCb, y.conn.freed = true))
    (Machine.run observe (observed (acceptTcp true true () 5 0))
      [.advance 3, .acceptSslCb (.established true), .tlsRead () 0, .advance 4, .readCb [.error .interrupted],
        .advance 6, .expire, .timeoutCb, .advance 9, .expire]) = true)
  obtain ⟨hactivity, halive, y, hy, hfreed⟩ := of_decide_eq_true hp
  have hlimits := inactivity_timeout (.accept true true () 5 0) (by decide +kernel) (Machine.runs_of_run hx)
  exact ⟨x, y, hy, Or.inl hfreed, hactivity, hlimits.1 y hy (Or.inl hfreed), (hlimits.2 halive).2⟩

end Tls
end NscaNg
