/-
# What the callbacks of a connection do

A callback of an I/O watcher leaves alone what belongs to the user of the connection (`UserSide`) and
does little to the watchers (`IoOps`): it takes its event, feeds watchers that are active, makes them
wait for something else or stops them, but not the read watcher, and starts the shutdown watcher if
that is to be done when the output is drained. Then it ends in one of a few ways (`Ends`): there is
nothing more to do for now, a handler is called, or the connection is freed. The read watcher is
stopped only when reading is over. `Ends` has a lemma for each function of the model that a callback
consists of, and one for the callbacks (`ends_callback`).

An I/O watcher is pending only while it is active (`IoFed`).
-/
import Mathlib.Logic.Relation
import NscaNg.Common.Tls

namespace NscaNg
namespace Tls

open Posix Libev

variable {η : Type}

/-- What the user of a connection sets and sees. -/
structure UserSide (η : Type) where
  timeout : ℚ
  connectHandler : η
  readHandler : Option η
  shutdownOnDrain : Bool
  errorHandler : Option η
  timeoutHandler : Option η
  lineTooLongHandler : Option η
  freed : Bool
  died : Bool
  requests : List Request
  upcalls : List (Upcall η)

def State.userSide (s : State η) : UserSide η where
  timeout := s.timeout
  connectHandler := s.connectHandler
  readHandler := s.readHandler
  shutdownOnDrain := s.shutdownOnDrain
  errorHandler := s.errorHandler
  timeoutHandler := s.timeoutHandler
  lineTooLongHandler := s.lineTooLongHandler
  freed := s.freed
  died := s.died
  requests := s.history.requests
  upcalls := s.history.upcalls

/-! ### The I/O watchers -/

/-- What is done to an I/O watcher. Only those of `W` are started, and the read watcher is not stopped. -/
inductive IoOp (W : Watcher → Prop) : Loop Watcher → Loop Watcher → Prop
  | take {w : Watcher} (l : Loop Watcher) : w ≠ .timeout → IoOp W l (l.take w)
  | feed {w : Watcher} (l : Loop Watcher) : w ≠ .timeout → w ∈ l.active → IoOp W l (l.feed w)
  | stop {w : Watcher} (l : Loop Watcher) : w ≠ .timeout → w ≠ .read → IoOp W l (l.stop w)
  | waitFor {w : Watcher} (l : Loop Watcher) (events : Events) : w ≠ .timeout → w ∈ l.active →
      IoOp W l (l.waitFor w events)
  | arm {w : Watcher} (l : Loop Watcher) (events : Events) : w ≠ .timeout → W w →
      IoOp W l (((l.ioSet w events).start w).feed w)

/-- One after the other. -/
abbrev IoOps (W : Watcher → Prop) : Loop Watcher → Loop Watcher → Prop := Relation.ReflTransGen (IoOp W)

/-- An I/O watcher is pending only while it is active. -/
def LoopFed (l : Loop Watcher) : Prop := ∀ w, w ≠ .timeout → w ∈ l.pending → w ∈ l.active

structure IoFed (s : State η) : Prop where
  fed : LoopFed s.loop

variable {W W' : Watcher → Prop} {l l' : Loop Watcher}

theorem IoOp.mono (hW : ∀ w, W w → W' w) (h : IoOp W l l') : IoOp W' l l' := by
  cases h with
  | take l hw => exact .take l hw
  | feed l hw hact => exact .feed l hw hact
  | stop l hw hread => exact .stop l hw hread
  | waitFor l events hw hact => exact .waitFor l events hw hact
  | arm l events hw hin => exact .arm l events hw (hW _ hin)

theorem IoOps.mono (hW : ∀ w, W w → W' w) (h : IoOps W l l') : IoOps W' l l' :=
  Relation.ReflTransGen.mono (fun _ _ hop => IoOp.mono hW hop) _ _ h

theorem IoOp.loopFed (h : IoOp W l l') (hl : LoopFed l) : LoopFed l' := by
  intro v hv hpen
  cases h with
  | take l hw => exact hl v hv (Finset.mem_of_mem_erase hpen)
  | feed l hw hact =>
    rcases Finset.mem_insert.mp hpen with rfl | hpen
    · exact hact
    · exact hl v hv hpen
  | @stop w l hw hread =>
    obtain ⟨hne, hpen⟩ := Finset.mem_erase.mp hpen
    exact Finset.mem_erase.mpr ⟨hne, hl v hv hpen⟩
  | waitFor l events hw hact =>
    rw [Loop.waitFor_active _ _ _ hact]
    exact hl v hv (Loop.waitFor_pending_subset _ _ _ hpen)
  | arm l events hw hin =>
    simp only [Loop.feed_pending, Loop.start_pending, Loop.ioSet_pending, Finset.mem_insert] at hpen
    simp only [Loop.feed_active, Loop.start_active, Loop.ioSet_active, Finset.mem_insert]
    exact hpen.imp_right (hl v hv)

/-- No watcher is started but those of `W`. -/
theorem IoOp.off {v : Watcher} (h : IoOp W l l') (hv : ¬ W v) (hoff : v ∉ l.active) : v ∉ l'.active := by
  cases h with
  | take l hw => exact hoff
  | feed l hw hact => exact hoff
  | stop l hw hread => exact fun hc => hoff (Finset.mem_of_mem_erase hc)
  | waitFor l events hw hact => rwa [Loop.waitFor_active _ _ _ hact]
  | arm l events hw hin =>
    simp only [Loop.feed_active, Loop.start_active, Loop.ioSet_active, Finset.mem_insert, not_or]
    exact ⟨fun hc => hv (hc ▸ hin), hoff⟩

/-- The timer is left alone. -/
theorem IoOp.timer (h : IoOp W l l') : (.timeout ∈ l'.active ↔ .timeout ∈ l.active) ∧
    (.timeout ∈ l'.pending ↔ .timeout ∈ l.pending) := by
  cases h with
  | take l hw => exact ⟨Iff.rfl, by simp [Ne.symm hw]⟩
  | feed l hw hact => exact ⟨Iff.rfl, by simp [Ne.symm hw]⟩
  | stop l hw hread => exact ⟨by simp [Ne.symm hw], by simp [Ne.symm hw]⟩
  | waitFor l events hw hact =>
    exact ⟨Loop.mem_waitFor_active _ _ _ _ (Ne.symm hw), Loop.mem_waitFor_pending _ _ _ _ (Ne.symm hw)⟩
  | arm l events hw hin => exact ⟨by simp [Ne.symm hw], by simp [Ne.symm hw]⟩

/-- Reading goes on. -/
theorem IoOp.reading (h : IoOp W l l') (hl : .read ∈ l.active) : .read ∈ l'.active := by
  cases h with
  | take l hw => exact hl
  | feed l hw hact => exact hl
  | stop l hw hread => exact Finset.mem_erase.mpr ⟨Ne.symm hread, hl⟩
  | waitFor l events hw hact => rwa [Loop.waitFor_active _ _ _ hact]
  | arm l events hw hin => simp [hl]

theorem IoOps.loopFed (h : IoOps W l l') (hl : LoopFed l) : LoopFed l' := by
  induction h with
  | refl => exact hl
  | tail _ h ih => exact h.loopFed ih

theorem IoOps.off {v : Watcher} (h : IoOps W l l') (hv : ¬ W v) (hoff : v ∉ l.active) : v ∉ l'.active := by
  induction h with
  | refl => exact hoff
  | tail _ h ih => exact h.off hv ih

theorem IoOps.reading (h : IoOps W l l') (hl : .read ∈ l.active) : .read ∈ l'.active := by
  induction h with
  | refl => exact hl
  | tail _ h ih => exact h.reading ih

theorem IoOps.timer (h : IoOps W l l') : (.timeout ∈ l'.active ↔ .timeout ∈ l.active) ∧
    (.timeout ∈ l'.pending ↔ .timeout ∈ l.pending) := by
  induction h with
  | refl => exact ⟨Iff.rfl, Iff.rfl⟩
  | tail _ h ih => exact ⟨h.timer.1.trans ih.1, h.timer.2.trans ih.2⟩

/-! ### What callbacks keep -/

/-- The watchers a callback may start. -/
def Starts (s : State η) (w : Watcher) : Prop := w = .shutdown ∧ s.shutdownOnDrain = true

/-- What a callback has done before it ends. -/
structure Keeps (s u : State η) : Prop where
  io : IoOps (Starts s) s.loop u.loop
  user : u.userSide = s.userSide

theorem Keeps.ioFed {s u : State η} (h : Keeps s u) (hs : IoFed s) : IoFed u := ⟨h.io.loopFed hs.fed⟩

theorem Keeps.refl (s : State η) : Keeps s s := ⟨.refl, rfl⟩

/-- The watchers are not touched. -/
theorem keeps_same {s u : State η} (hloop : u.loop = s.loop) (huser : u.userSide = s.userSide) : Keeps s u :=
  ⟨hloop ▸ .refl, huser⟩

theorem Keeps.trans {s u v : State η} (h : Keeps s u) (h' : Keeps u v) : Keeps s v := by
  have hdrain : u.shutdownOnDrain = s.shutdownOnDrain := congrArg UserSide.shutdownOnDrain h.user
  exact ⟨h.io.trans (h'.io.mono fun w hw => ⟨hw.1, hdrain ▸ hw.2⟩), h'.user.trans h.user⟩

theorem keeps_op {s u : State η} (hio : IoOp (Starts s) s.loop u.loop) (huser : u.userSide = s.userSide) :
    Keeps s u := ⟨.single hio, huser⟩

theorem keeps_take {w : Watcher} (hw : w ≠ .timeout) (s : State η) :
    Keeps s { s with loop := s.loop.take w } := keeps_op (.take _ hw) rfl

theorem keeps_stop {w : Watcher} (hw : w ≠ .timeout) (hread : w ≠ .read) (s : State η) :
    Keeps s { s with loop := s.loop.stop w } := keeps_op (.stop _ hw hread) rfl

theorem keeps_touch (s : State η) : Keeps s s.touch := keeps_same rfl rfl

theorem keeps_resetWatcherState {w : Watcher} (hw : w ≠ .timeout) (s : State η) :
    Keeps s (resetWatcherState w s) := by
  unfold resetWatcherState Loop.feedActive
  split
  · rename_i hact
    exact keeps_op (.feed _ hw hact) rfl
  · exact Keeps.refl s

theorem keeps_waitFor {w : Watcher} {s : State η} (hw : w ≠ .timeout) (hact : w ∈ s.loop.active)
    (events : Events) : Keeps s (waitFor w events s) := keeps_op (.waitFor _ _ hw hact) rfl

theorem keeps_nextOutput (s : State η) : Keeps s (nextOutput s) := by
  unfold nextOutput
  split
  · exact Keeps.refl s
  · exact keeps_same rfl rfl

theorem keeps_drained (s : State η) : Keeps s (drained s) := by
  unfold drained
  dsimp only
  split
  · rename_i hdrain
    have hstop := keeps_stop (w := .write) (by decide) (by decide) s
    exact hstop.trans (keeps_op (.arm (w := .shutdown) _ .write (by decide) ⟨rfl, hdrain⟩) rfl)
  · exact keeps_stop (by decide) (by decide) s

/-! ### How callbacks end -/

/-- Why a connection may be freed without a call of the error handler. -/
def Unattended (s : State η) : Prop :=
  s.errorHandler = none ∨ .init ∈ s.loop.active ∨ .shutdown ∈ s.loop.active ∨ s.shutdownOnDrain = true

/-- Reading is over. -/
def State.stopRead (s : State η) : State η := { s with loop := s.loop.stop .read }

/-- How the callback of an I/O watcher ends. -/
inductive Ends (s : State η) : State η → Prop
  | quiet {u : State η} : Keeps s u → Ends s u
  | unheard {u : State η} : Keeps s u → s.readHandler = none → Ends s u.stopRead
  | freed {u : State η} : Keeps s u → Unattended s → Ends s (tlsFree u)
  | error {u : State η} {handler : η} : Keeps s u → s.errorHandler = some handler →
      Ends s (tlsFree (u.call (.error handler)))
  | read {u : State η} {handler : η} (data : Bytes) : .read ∈ s.loop.active → Keeps s u →
      s.readHandler = some handler → Ends s (u.stopRead.call (.read handler data))
  | lineTooLong {u : State η} {handler : η} : .read ∈ s.loop.active → Keeps s u →
      s.lineTooLongHandler = some handler → Ends s (u.stopRead.call (.lineTooLong handler))
  | refused {u : State η} : .read ∈ s.loop.active → Keeps s u → s.lineTooLongHandler = none →
      Ends s (tlsFree u.stopRead)
  | connect {u : State η} : .init ∈ s.loop.active → Keeps s u → .init ∉ u.loop.active →
      Ends s (u.call (.connect s.connectHandler))

/-- A watcher that is not started by the callback was active before. -/
theorem Keeps.active {s u : State η} (h : Keeps s u) {w : Watcher} (hw : ¬ Starts s w) (hact : w ∈ u.loop.active) :
    w ∈ s.loop.active := by
  by_contra hc
  exact h.io.off hw hc hact

theorem Keeps.unattended {s u : State η} (h : Keeps s u) (hu : Unattended u) : Unattended s := by
  have hdrain : u.shutdownOnDrain = s.shutdownOnDrain := congrArg UserSide.shutdownOnDrain h.user
  have herror : u.errorHandler = s.errorHandler := congrArg UserSide.errorHandler h.user
  rcases hu with hu | hu | hu | hu
  · exact Or.inl (herror ▸ hu)
  · exact Or.inr (Or.inl (h.active (fun hw => absurd hw.1 (by decide)) hu))
  · by_cases hs : s.shutdownOnDrain = true
    · exact Or.inr (Or.inr (Or.inr hs))
    · exact Or.inr (Or.inr (Or.inl (h.active (fun hw => hs hw.2) hu)))
  · exact Or.inr (Or.inr (Or.inr (hdrain ▸ hu)))

/-- A callback may do something before. -/
theorem Keeps.ends {s u t : State η} (h : Keeps s u) (h' : Ends u t) : Ends s t := by
  cases h' with
  | quiet hk => exact .quiet (h.trans hk)
  | unheard hk hh => exact .unheard (h.trans hk) ((congrArg UserSide.readHandler h.user).symm.trans hh)
  | freed hk hwhy => exact .freed (h.trans hk) (h.unattended hwhy)
  | error hk hh => exact .error (h.trans hk) ((congrArg UserSide.errorHandler h.user).symm.trans hh)
  | read data hact hk hh =>
    have hact' := h.active (fun hw => absurd hw.1 (by decide)) hact
    exact .read data hact' (h.trans hk) ((congrArg UserSide.readHandler h.user).symm.trans hh)
  | lineTooLong hact hk hh =>
    have hact' := h.active (fun hw => absurd hw.1 (by decide)) hact
    exact .lineTooLong hact' (h.trans hk) ((congrArg UserSide.lineTooLongHandler h.user).symm.trans hh)
  | refused hact hk hh =>
    have hact' := h.active (fun hw => absurd hw.1 (by decide)) hact
    exact .refused hact' (h.trans hk) ((congrArg UserSide.lineTooLongHandler h.user).symm.trans hh)
  | connect hact hk hoff =>
    have hact' := h.active (fun hw => absurd hw.1 (by decide)) hact
    have hconnect : u.connectHandler = s.connectHandler := congrArg UserSide.connectHandler h.user
    rw [hconnect]
    exact .connect hact' (h.trans hk) hoff

theorem ends_tlsError (s : State η) : Ends s (tlsError s) := by
  unfold tlsError
  split
  · rename_i handler hh
    exact .error (Keeps.refl s) hh
  · rename_i hh
    exact .freed (Keeps.refl s) (Or.inl hh)

theorem ends_checkTlsError {w : Watcher} {s : State η} (hw : w ≠ .timeout) (hact : w ∈ s.loop.active)
    (e : SslError) : Ends s (checkTlsError w e s) := by
  cases e with
  | wantRead => exact .quiet (keeps_waitFor hw hact .read)
  | wantWrite => exact .quiet (keeps_waitFor hw hact .write)
  | interrupted => exact .quiet (Keeps.refl s)
  | failed => exact ends_tlsError s

theorem ends_lineTooLong {s : State η} (hact : .read ∈ s.loop.active) : Ends s (lineTooLong s) := by
  unfold lineTooLong
  dsimp only
  split
  · rename_i handler hh
    exact .lineTooLong hact (Keeps.refl s) hh
  · rename_i hh
    exact .refused hact (Keeps.refl s) hh

theorem ends_deliver {s u : State η} (hact : .read ∈ s.loop.active) (h : Keeps s u) (data : Bytes) :
    Ends s (deliver data u) := by
  have hreader : u.readHandler = s.readHandler := congrArg UserSide.readHandler h.user
  unfold deliver
  dsimp only
  split
  · rename_i handler hh
    exact .read data hact h (hreader ▸ hh)
  · rename_i hh
    exact .unheard h (hreader ▸ hh)

/-- How reading ends: there is something for the handler, or the callback ends. -/
def ReadEnds (s : State η) : State η × Option Bytes → Prop
  | (t, some _) => Keeps s t
  | (t, none) => Ends s t

theorem Keeps.readEnds {s u : State η} {result : State η × Option Bytes} (h : Keeps s u)
    (h' : ReadEnds u result) : ReadEnds s result := by
  match result with
  | (t, some data) => exact h.trans h'
  | (t, none) => exact h.ends h'

theorem ends_readLineLoop (replies : List SslRead) {s : State η} (hact : .read ∈ s.loop.active) :
    ReadEnds s (readLineLoop replies s) := by
  fun_induction readLineLoop replies s with
  | case1 replies s line rest hline => exact keeps_same rfl rfl
  | case2 replies s hline hlong => exact ends_lineTooLong hact
  | case3 s hline hlong => exact ends_checkTlsError (by decide) hact .wantRead
  | case4 s hline hlong reply replies e he => exact ends_checkTlsError (by decide) hact e
  | case5 s hline hlong reply replies bytes hbytes ih =>
    have hmore : Keeps s (s.receiveLine bytes) := keeps_same rfl rfl
    exact hmore.readEnds (ih hact)

theorem ends_readBytesLoop (replies : List SslRead) {s : State η} (hact : .read ∈ s.loop.active) :
    ReadEnds s (readBytesLoop replies s) := by
  fun_induction readBytesLoop replies s with
  | case1 s => exact ends_checkTlsError (by decide) hact .wantRead
  | case2 s reply replies e he => exact ends_checkTlsError (by decide) hact e
  | case3 s reply replies bytes hbytes hlt ih =>
    have hmore : Keeps s (s.receiveBytes bytes) := keeps_same rfl rfl
    exact hmore.readEnds (ih hact)
  | case4 s reply replies bytes hbytes hge => exact keeps_same rfl rfl

theorem ends_readData (replies : List SslRead) {s : State η} (hact : .read ∈ s.loop.active) :
    ReadEnds s (readData replies s) := by
  have hblock : Keeps s { s with input := some (s.input.getD []) } := keeps_same rfl rfl
  unfold readData
  split
  · exact hblock.readEnds (ends_readLineLoop replies hact)
  · exact hblock.readEnds (ends_readBytesLoop replies hact)

theorem ends_readCb (replies : List SslRead) {s : State η} (hact : .read ∈ s.loop.active) :
    Ends s (readCb replies s) := by
  have hk := (keeps_resetWatcherState (w := .write) (by decide) s).trans (keeps_touch _)
  have hact' : .read ∈ (resetWatcherState .write s).touch.loop.active := by
    simpa [State.touch, resetWatcherState] using hact
  have hend := hk.readEnds (ends_readData replies hact')
  unfold readCb
  split
  · rename_i t data heq
    rw [heq] at hend
    exact ends_deliver hact hend data
  · rename_i t heq
    rw [heq] at hend
    exact hend

theorem ends_writeLoop (replies : List SslWrite) {s : State η} (hact : .write ∈ s.loop.active) :
    Ends s (writeLoop replies s) := by
  induction replies generalizing s with
  | nil =>
    have hact' : .write ∈ (nextOutput s).loop.active := by
      unfold nextOutput
      split <;> exact hact
    exact (keeps_nextOutput s).ends (ends_checkTlsError (by decide) hact' .wantWrite)
  | cons reply replies ih =>
    refine (keeps_nextOutput s).ends ?_
    have hact' : .write ∈ (nextOutput s).loop.active := by
      unfold nextOutput
      split <;> exact hact
    unfold writeLoop
    generalize nextOutput s = s at hact'
    dsimp only
    split
    · rename_i e _
      exact ends_checkTlsError (by decide) hact' e
    · rename_i n _
      have hmore : Keeps s { s.send n with outputOffset := (s.send n).outputOffset + n } := keeps_same rfl rfl
      have hdone : Keeps s { s.send n with output := none, outputSize := 0, outputOffset := 0 } :=
        keeps_same rfl rfl
      split
      · exact hmore.ends (ih hact')
      · split
        · exact hdone.ends (.quiet (keeps_drained _))
        · exact hdone.ends (ih hact')

theorem ends_writeCb (replies : List SslWrite) {s : State η} (hact : .write ∈ s.loop.active) :
    Ends s (writeCb replies s) := by
  have hk := (keeps_resetWatcherState (w := .read) (by decide) s).trans (keeps_touch _)
  have hact' : .write ∈ (resetWatcherState .read s).touch.loop.active := by
    simpa [State.touch, resetWatcherState] using hact
  exact hk.ends (ends_writeLoop replies hact')

theorem ends_shutdownCb (replies : List SslShutdown) {s : State η} (hact : .shutdown ∈ s.loop.active) :
    Ends s (shutdownCb replies s) := by
  refine (keeps_touch s).ends ?_
  unfold shutdownCb
  have hact' : .shutdown ∈ s.touch.loop.active := hact
  generalize s.touch = s at hact'
  induction replies with
  | nil => exact ends_checkTlsError (by decide) hact' .wantRead
  | cons reply replies ih =>
    cases reply with
    | done => exact .freed (Keeps.refl s) (Or.inr (Or.inr (Or.inl hact')))
    | sent => exact ih
    | error e => exact ends_checkTlsError (by decide) hact' e

theorem ends_acceptSslCb (reply : SslAccept) {s : State η} (hact : .init ∈ s.loop.active) :
    Ends s (acceptSslCb reply s) := by
  refine (keeps_touch s).ends ?_
  have hact' : .init ∈ s.touch.loop.active := hact
  match reply with
  | .error e => exact ends_checkTlsError (by decide) hact' e
  | .established false => exact .freed (Keeps.refl _) (Or.inr (Or.inl hact'))
  | .established true => exact .connect hact' (keeps_stop (by decide) (by decide) _) (Finset.notMem_erase _ _)

/-! ### Callbacks that are called -/

/-- The events that are callbacks of an I/O watcher, with the watcher. -/
def Event.ioWatcher : Event η → Option Watcher
  | .acceptSslCb _ => some .init
  | .readCb _ => some .read
  | .writeCb _ => some .write
  | .shutdownCb _ => some .shutdown
  | _ => none

/-- **The callbacks of the I/O watchers.** -/
theorem ends_callback {s t : State η} {e : Event η} {w : Watcher} (hs : IoFed s)
    (he : e.ioWatcher = some w) (h : stepAlive s e = some t) : w ≠ .timeout ∧ w ∈ s.loop.active ∧ Ends s t := by
  cases e with
  | acceptSslCb reply =>
    cases he
    obtain ⟨hpen, rfl⟩ := invoke_eq_some h
    have hact := hs.fed .init (by decide) hpen
    exact ⟨by decide, hact, (keeps_take (by decide) s).ends (ends_acceptSslCb reply hact)⟩
  | readCb replies =>
    cases he
    obtain ⟨hpen, rfl⟩ := invoke_eq_some h
    have hact := hs.fed .read (by decide) hpen
    exact ⟨by decide, hact, (keeps_take (by decide) s).ends (ends_readCb replies hact)⟩
  | writeCb replies =>
    cases he
    obtain ⟨hpen, rfl⟩ := invoke_eq_some h
    have hact := hs.fed .write (by decide) hpen
    exact ⟨by decide, hact, (keeps_take (by decide) s).ends (ends_writeCb replies hact)⟩
  | shutdownCb replies =>
    cases he
    obtain ⟨hpen, rfl⟩ := invoke_eq_some h
    have hact := hs.fed .shutdown (by decide) hpen
    exact ⟨by decide, hact, (keeps_take (by decide) s).ends (ends_shutdownCb replies hact)⟩
  | _ => cases he

end Tls
end NscaNg
