/-
# Working off the pending events of a connection

A callback of the read watcher feeds the write watcher, and the other way round, since the OpenSSL
call of one direction may change what the other waits for. While OpenSSL has nothing to offer in
either direction and both watchers are active, each callback therefore queues the other one, and the
loop never gets back to polling. It does only as long as `read_cb()` can do without OpenSSL: if a line
is waiting in `input_buffer`, or the buffer is full, and this again in each state in which a handler
has asked for more (`worksOff_iff`). What the handlers ask for is up to the user of the connection, so
it is a variable here (`asks`).
-/
import NscaNg.Common.TlsFrame
import NscaNg.Common.TlsStart

namespace NscaNg
namespace Tls

open Posix Libev

variable {η : Type}

/-- The callbacks of the two watchers. -/
def Event.isCallback : Event η → Bool
  | .readCb _ | .writeCb _ => true
  | _ => false

/-- What the connection's user may call from a handler, apart from asking for more. -/
def Event.isCall : Event η → Bool
  | .tlsWrite _ _ | .tlsWriteLine _ | .tlsShutdown | .tlsOnError _ | .tlsOnTimeout _ | .tlsOnLineTooLong _ => true
  | _ => false

/-- A callback whose OpenSSL calls only report that they have to wait, or a call of a handler, which
asks for more, if at all, after its last request is completed. -/
def Event.Blocked (asks : State η → η → ℕ → Prop) (s : State η) : Event η → Prop
  | .readCb replies => ∀ reply ∈ replies, reply = .error .wantRead ∨ reply = .error .wantWrite
  | .writeCb replies => ∀ reply ∈ replies, reply = .error .wantRead ∨ reply = .error .wantWrite
  | .tlsRead handler size => .read ∉ s.loop.active ∧ asks s handler size
  | e => e.isCall = true

/-- The loop calls one of the two callbacks while OpenSSL has nothing to offer, or a handler does
something. -/
def BlockedStep (asks : State η → η → ℕ → Prop) : State η → Event η → State η → Prop :=
  Machine.Meeting (Event.Blocked asks) (Machine.Steps step)

/-- Working off the pending events comes to an end after a number of callbacks. -/
def WorksOff (asks : State η → η → ℕ → Prop) (s : State η) : Prop :=
  ∃ n, ∀ es t, Machine.Runs (BlockedStep asks) s es t → es.countP Event.isCallback ≤ n

/-- `read_cb()` has something for a handler without a call of `SSL_read()`. -/
def Answerable (s : State η) : Prop :=
  s.readMode = .readLine ∧ (newline ∈ s.inputBuffer ∨ lineMaxSize < s.inputBuffer.length + s.inputSize)

instance decidableAnswerable (s : State η) : Decidable (Answerable s) := by
  unfold Answerable
  infer_instance

/-- Whenever both watchers are active, `read_cb()` has something for a handler: at the beginning, and
again where a handler has asked for more. -/
def StaysAnswerable (asks : State η → η → ℕ → Prop) (s : State η) : Prop :=
  ∀ es t, Machine.Runs (BlockedStep asks) s es t → t.freed = false ∧ t.died = false → .read ∈ t.loop.active →
    .write ∈ t.loop.active → Answerable t

/-- How often the handler for lines that are too long has been called. -/
def State.tooLong (s : State η) : ℕ :=
  s.history.upcalls.countP fun u => match u with
    | .lineTooLong _ => true
    | _ => false

/-- The handler for lines that are too long does not ask for a line again and again. -/
def GivesUp (asks : State η → η → ℕ → Prop) (s : State η) : Prop :=
  ∃ n, ∀ es t, Machine.Runs (BlockedStep asks) s es t → t.tooLong ≤ n

/-! ### What is pending in a reachable state -/

/-- The read watcher is pending only while active, and of two active watchers one is pending. -/
structure Fed (s : State η) : Prop where
  readActive : .read ∈ s.loop.pending → .read ∈ s.loop.active
  either : .read ∈ s.loop.active → .write ∈ s.loop.active → .read ∈ s.loop.pending ∨ .write ∈ s.loop.pending

/-- The watcher is pending if it is active. -/
def Settled (v : Watcher) (s : State η) : Prop := v ∈ s.loop.active → v ∈ s.loop.pending

theorem Settled.tended {v : Watcher} {s t : State η} (hs : Settled v s) (h : Tended v s.loop t.loop) :
    Settled v t := by
  intro hact
  cases h with
  | same ha hp => exact hp.mpr (hs (ha.mp hact))
  | fed _ hp _ => exact hp
  | stopped ha _ => exact absurd hact ha

theorem settled_resetWatcherState (v : Watcher) (s : State η) : Settled v (resetWatcherState v s) := by
  intro hact
  rw [resetWatcherState, Loop.feedActive_active] at hact
  exact (Loop.mem_feedActive_pending _ _ _).mpr (Or.inr ⟨rfl, hact⟩)

theorem Fed.tended {s t : State η} (hs : Fed s) (hr : Tended .read s.loop t.loop)
    (hw : Tended .write s.loop t.loop) : Fed t := by
  constructor
  · intro hp
    cases hr with
    | same ha hp' => exact ha.mpr (hs.readActive (hp'.mp hp))
    | fed ha _ _ => exact ha
    | stopped _ hp' => exact absurd hp hp'
  · intro hact hact'
    cases hw with
    | fed _ hp _ => exact Or.inr hp
    | stopped ha _ => exact absurd hact' ha
    | same ha hp =>
      cases hr with
      | fed _ hp' _ => exact Or.inl hp'
      | stopped ha' _ => exact absurd hact ha'
      | same ha' hp' => exact (hs.either (ha'.mp hact) (ha.mp hact')).imp hp'.mpr hp.mpr

/-! The callback of the read watcher queues nothing once it has fed the write watcher. -/

theorem pending_stopActive (s : State η) (w : Watcher) : (s.stopActive w).loop.pending ⊆ s.loop.pending := by
  unfold State.stopActive
  split
  · exact Finset.erase_subset _ _
  · exact subset_rfl

theorem pending_stopIo (s : State η) : s.stopIo.loop.pending ⊆ s.loop.pending := by
  unfold State.stopIo
  refine (pending_stopActive _ .shutdown).trans ?_
  refine (pending_stopActive _ .write).trans ?_
  exact (pending_stopActive _ .read).trans (pending_stopActive s .init)

theorem pending_tlsFree (s : State η) : (tlsFree s).loop.pending ⊆ s.loop.pending := by
  simp only [tlsFree]
  exact (pending_stopActive s.stopIo .timeout).trans (pending_stopIo s)

theorem pending_tlsError (s : State η) : (tlsError s).loop.pending ⊆ s.loop.pending := by
  unfold tlsError
  split
  · exact pending_tlsFree _
  · exact pending_tlsFree s

theorem pending_checkTlsError (w : Watcher) (e : SslError) (s : State η) :
    (checkTlsError w e s).loop.pending ⊆ s.loop.pending := by
  cases e with
  | wantRead => exact Loop.waitFor_pending_subset _ _ _
  | wantWrite => exact Loop.waitFor_pending_subset _ _ _
  | interrupted => exact subset_rfl
  | failed => exact pending_tlsError s

theorem pending_lineTooLong (s : State η) : (lineTooLong s).loop.pending ⊆ s.loop.pending := by
  unfold lineTooLong
  dsimp only
  split
  · exact Finset.erase_subset _ _
  · exact (pending_tlsFree _).trans (Finset.erase_subset _ _)

/-- The write watcher is tended, and nothing is queued. -/
structure Quiets (l l' : Loop Watcher) : Prop where
  write : Tended .write l l'
  pending : l'.pending ⊆ l.pending

theorem quiets_checkTlsError (e : SslError) (s : State η) : Quiets s.loop (checkTlsError .read e s).loop :=
  ⟨(frame_checkTlsError (by decide) e s).tended, pending_checkTlsError .read e s⟩

theorem quiets_readLineLoop (replies : List SslRead) (s : State η) : Quiets s.loop (readLineLoop replies s).1.loop := by
  fun_induction readLineLoop replies s with
  | case1 replies s line rest hline => exact ⟨.refl _ _, subset_rfl⟩
  | case2 replies s hline hlong => exact ⟨(frame_lineTooLong s).tended, pending_lineTooLong s⟩
  | case3 s hline hlong => exact quiets_checkTlsError .wantRead s
  | case4 s hline hlong reply replies e he => exact quiets_checkTlsError e s
  | case5 s hline hlong reply replies bytes hbytes ih => exact ih

theorem quiets_readBytesLoop (replies : List SslRead) (s : State η) : Quiets s.loop (readBytesLoop replies s).1.loop := by
  fun_induction readBytesLoop replies s with
  | case1 s => exact quiets_checkTlsError .wantRead s
  | case2 s reply replies e he => exact quiets_checkTlsError e s
  | case3 s reply replies bytes hbytes hlt ih => exact ih
  | case4 s reply replies bytes hbytes hge => exact ⟨.refl _ _, subset_rfl⟩

theorem quiets_readData (replies : List SslRead) (s : State η) : Quiets s.loop (readData replies s).1.loop := by
  unfold readData
  split
  · exact quiets_readLineLoop replies { s with input := some (s.input.getD []) }
  · exact quiets_readBytesLoop replies { s with input := some (s.input.getD []) }

theorem quiets_deliver (data : Bytes) (s : State η) : Quiets s.loop (deliver data s).loop := by
  have hstop : Quiets s.loop (s.loop.stop .read) :=
    ⟨(frame_stop s .read).tended, Finset.erase_subset _ _⟩
  unfold deliver
  dsimp only
  split
  · exact hstop
  · exact hstop

theorem fed_readCb (replies : List SslRead) (s : State η) :
    Fed (readCb replies { s with loop := s.loop.take .read }) := by
  have hquiet : Quiets (resetWatcherState .write { s with loop := s.loop.take .read }).touch.loop
      (readCb replies { s with loop := s.loop.take .read }).loop := by
    unfold readCb
    generalize (resetWatcherState .write { s with loop := s.loop.take .read }).touch = s'
    have hdata := quiets_readData replies s'
    split
    · rename_i t data heq
      rw [heq] at hdata
      have hdel := quiets_deliver data t
      exact ⟨hdata.write.trans hdel.write, hdel.pending.trans hdata.pending⟩
    · rename_i t heq
      rw [heq] at hdata
      exact hdata
  have hsettled : Settled .write (resetWatcherState .write { s with loop := s.loop.take .read }).touch :=
    settled_resetWatcherState .write _
  constructor
  · intro hp
    have hp' := (Loop.mem_feedActive_pending _ _ _).mp (hquiet.pending hp)
    simp at hp'
  · intro _ hact
    exact Or.inr (hsettled.tended hquiet.write hact)

theorem fed_writeCb (replies : List SslWrite) {s : State η} (hs : Fed s) :
    Fed (writeCb replies { s with loop := s.loop.take .write }) := by
  have hr := (frame_writeCb replies s).tended
  constructor
  · intro hp
    cases hr with
    | same ha hp' => exact ha.mpr (hs.readActive (hp'.mp hp))
    | fed ha _ _ => exact ha
    | stopped _ hp' => exact absurd hp hp'
  · intro hact _
    have hsettled : Settled .read (resetWatcherState .read { s with loop := s.loop.take .write }).touch :=
      settled_resetWatcherState .read _
    exact Or.inl (hsettled.tended (frame_writeLoop replies _).tended hact)

theorem fed_tlsRead (handler : η) (size : ℕ) {s : State η} (hs : Fed s) : Fed (tlsRead handler size s) := by
  unfold tlsRead
  split
  · exact ⟨hs.readActive, hs.either⟩
  · exact ⟨fun _ => Finset.mem_insert_self _ _, fun _ _ => Or.inl (Finset.mem_insert_self _ _)⟩

theorem fed_step {s t : State η} {e : Event η} (hs : Fed s) (h : step s e = some t) : Fed t := by
  obtain ⟨-, -, halive⟩ := step_eq_some h
  rcases e.aside_or with haside | ⟨replies, rfl⟩ | ⟨replies, rfl⟩ | ⟨handler, size, rfl⟩
  · exact hs.tended (frame_stepAlive (Or.inl rfl) haside halive).tended
      (frame_stepAlive (Or.inr rfl) haside halive).tended
  · obtain ⟨-, rfl⟩ := invoke_eq_some halive
    exact fed_readCb replies s
  · obtain ⟨-, rfl⟩ := invoke_eq_some halive
    exact fed_writeCb replies hs
  · cases halive
    exact fed_tlsRead handler size hs

theorem Started.fed {s : State η} (h : Started s) : Fed s := by
  have hnew : ∀ (connectHandler : η) (timeout now : ℚ), Fed (tlsNew connectHandler timeout now) := fun _ _ _ =>
    ⟨fun hp => absurd hp (Finset.notMem_empty _), fun hact => absurd hact (Finset.notMem_empty _)⟩
  suffices hall : ∃ u : State η, Fed u ∧ ∀ v, v = .read ∨ v = .write → Tended v u.loop s.loop by
    obtain ⟨u, hu, ht⟩ := hall
    exact hu.tended (ht .read (Or.inl rfl)) (ht .write (Or.inr rfl))
  cases h with
  | accept hasAddress hasSsl connectHandler timeout now =>
    refine ⟨_, hnew connectHandler timeout now, fun v hv => ?_⟩
    have hinit : v ≠ .init := by rcases hv with rfl | rfl <;> decide
    have htimeout : v ≠ .timeout := by rcases hv with rfl | rfl <;> decide
    simp only [acceptTcp]
    split
    · split
      · exact ((frame_tlsOnTimeout htimeout none _).trans (frame_arm (Or.inl hinit) _ .read)).tended
      · exact ((frame_tlsOnTimeout htimeout none _).trans (frame_tlsFree _)).tended
    · exact (frame_tlsFree _).tended
  | connect hasSocket reply connectHandler timeoutHandler timeout now =>
    refine ⟨_, hnew connectHandler timeout now, fun v hv => ?_⟩
    have hinit : v ≠ .init := by rcases hv with rfl | rfl <;> decide
    have htimeout : v ≠ .timeout := by rcases hv with rfl | rfl <;> decide
    have hbegin : Frame v (tlsNew connectHandler timeout now)
        (tlsOnTimeout timeoutHandler (tlsNew connectHandler timeout now)).touch :=
      (frame_tlsOnTimeout htimeout timeoutHandler _).trans (frame_touch _)
    simp only [tlsConnect]
    split
    · cases reply with
      | error e =>
        have harmed := hbegin.trans (frame_arm (Or.inl hinit) _ .write)
        exact (harmed.trans (frame_checkTlsError hinit e _)).tended
      | established identified => exact (hbegin.trans (frame_call rfl _)).tended
    · exact hbegin.tended

theorem Lives.fed {es : List (Event η)} {s : State η} (h : Lives (fun _ _ => True) es s) : Fed s :=
  h.invariant (fun _ hstart => hstart.fed) fun _ _ _ hs _ hstep => fed_step hs hstep

/-! ### Callbacks that have to wait -/

/-- Both watchers are active, one is pending, and `read_cb()` has nothing for a handler. -/
structure PingPong (s : State η) : Prop where
  alive : s.freed = false ∧ s.died = false
  read : .read ∈ s.loop.active
  write : .write ∈ s.loop.active
  fed : .read ∈ s.loop.pending ∨ .write ∈ s.loop.pending
  silent : ¬ Answerable s

theorem readData_blocked {replies : List SslRead} {s : State η} (hs : ¬ Answerable s)
    (hb : ∀ reply ∈ replies, reply = .error .wantRead ∨ reply = .error .wantWrite) :
    ∃ events, readData replies s = (waitFor .read events { s with input := some (s.input.getD []) }, none) := by
  unfold readData
  split
  · rename_i hmode
    have hnone : bufferReadLine s.inputBuffer = none := bufferReadLine_eq_none.mpr fun hm => hs ⟨hmode, Or.inl hm⟩
    have hfits : ¬ lineMaxSize < s.inputBuffer.length + s.inputSize := fun hlong => hs ⟨hmode, Or.inr hlong⟩
    unfold readLine readLineLoop
    simp only [hnone, if_neg hfits]
    cases replies with
    | nil => exact ⟨.read, rfl⟩
    | cons reply replies =>
      rcases hb reply List.mem_cons_self with rfl | rfl
      · exact ⟨.read, rfl⟩
      · exact ⟨.write, rfl⟩
  · unfold readBytes readBytesLoop
    cases replies with
    | nil => exact ⟨.read, rfl⟩
    | cons reply replies =>
      rcases hb reply List.mem_cons_self with rfl | rfl
      · exact ⟨.read, rfl⟩
      · exact ⟨.write, rfl⟩

theorem writeLoop_blocked {replies : List SslWrite} (s : State η)
    (hb : ∀ reply ∈ replies, reply = .error .wantRead ∨ reply = .error .wantWrite) :
    ∃ events, writeLoop replies s = waitFor .write events (nextOutput s) := by
  unfold writeLoop
  cases replies with
  | nil => exact ⟨.write, rfl⟩
  | cons reply replies =>
    rcases hb reply List.mem_cons_self with rfl | rfl
    · exact ⟨.read, rfl⟩
    · exact ⟨.write, rfl⟩

theorem nextOutput_eq (s : State η) : ∃ output size buffer,
    nextOutput s = { s with output := output, outputSize := size, outputBuffer := buffer } := by
  unfold nextOutput
  split
  · exact ⟨s.output, s.outputSize, s.outputBuffer, rfl⟩
  · exact ⟨_, _, _, rfl⟩

/-- All that is left of a read callback that has to wait. -/
theorem readCb_blocked {replies : List SslRead} {s : State η} (hs : ¬ Answerable s)
    (hb : ∀ reply ∈ replies, reply = .error .wantRead ∨ reply = .error .wantWrite) :
    ∃ events time input, readCb replies { s with loop := s.loop.take .read } = { s with
      lastActivity := time
      input := input
      loop := ((s.loop.take .read).feedActive .write).waitFor .read events } := by
  have hs' : ¬ Answerable (resetWatcherState .write { s with loop := s.loop.take .read }).touch := hs
  obtain ⟨events, h⟩ := readData_blocked hs' hb
  refine ⟨events, ((s.loop.take .read).feedActive .write).now, some (s.input.getD []), ?_⟩
  unfold readCb
  rw [h]
  rfl

/-- All that is left of a write callback that has to wait. -/
theorem writeCb_blocked {replies : List SslWrite} (s : State η)
    (hb : ∀ reply ∈ replies, reply = .error .wantRead ∨ reply = .error .wantWrite) :
    ∃ events time output size buffer, writeCb replies { s with loop := s.loop.take .write } = { s with
      lastActivity := time
      output := output
      outputSize := size
      outputBuffer := buffer
      loop := ((s.loop.take .write).feedActive .read).waitFor .write events } := by
  obtain ⟨events, h⟩ :=
    writeLoop_blocked (resetWatcherState .read { s with loop := s.loop.take .write }).touch hb
  obtain ⟨output, size, buffer, hout⟩ :=
    nextOutput_eq (resetWatcherState .read { s with loop := s.loop.take .write }).touch
  refine ⟨events, ((s.loop.take .write).feedActive .read).now, output, size, buffer, ?_⟩
  rw [writeCb, h, hout]
  rfl

/-- A call of a handler leaves the two watchers alone if the write watcher is active. -/
structure Untouched (s t : State η) : Prop where
  side : t.inputSide = s.inputSide
  active : ∀ v, v = .read ∨ v = .write → (v ∈ t.loop.active ↔ v ∈ s.loop.active)
  pending : ∀ v, v = .read ∨ v = .write → (v ∈ t.loop.pending ↔ v ∈ s.loop.pending)
  alive : t.freed = s.freed ∧ t.died = s.died
  upcalls : t.history.upcalls = s.history.upcalls

theorem untouched_same {s t : State η} (hside : t.inputSide = s.inputSide) (hloop : t.loop = s.loop)
    (halive : t.freed = s.freed ∧ t.died = s.died) (hcalls : t.history.upcalls = s.history.upcalls) : Untouched s t :=
  ⟨hside, fun _ _ => by rw [hloop], fun _ _ => by rw [hloop], halive, hcalls⟩

theorem writeBuffered_active {s : State η} (h : .write ∈ s.loop.active) (data : Bytes) :
    writeBuffered data s = { s with outputBuffer := s.outputBuffer ++ data } := if_pos h

theorem untouched_tlsOnTimeout (handler : Option η) (s : State η) : Untouched s (tlsOnTimeout handler s) := by
  have hstop : ∀ v, v = Watcher.read ∨ v = .write → v ≠ Watcher.timeout := by
    rintro v (rfl | rfl) <;> decide
  refine ⟨(frame_tlsOnTimeout (v := .read) (by decide) handler s).side, fun v hv => ?_, fun v hv => ?_, ?_, ?_⟩
  · simp only [tlsOnTimeout, State.stopActive, resumeTimeout, State.touch]
    split <;> split <;> simp [hstop v hv]
  · simp only [tlsOnTimeout, State.stopActive, resumeTimeout, State.touch]
    split <;> split <;> simp [hstop v hv]
  · simp only [tlsOnTimeout, State.stopActive, resumeTimeout, State.touch]
    split <;> split <;> exact ⟨rfl, rfl⟩
  · simp only [tlsOnTimeout, State.stopActive, resumeTimeout, State.touch]
    split <;> split <;> rfl

theorem untouched_call {s t : State η} {e : Event η} (hw : .write ∈ s.loop.active) (hcall : e.isCall = true)
    (h : stepAlive s e = some t) : Untouched s t := by
  cases e with
  | tlsWrite data freeData =>
    cases h
    unfold tlsWrite
    split
    · dsimp only
      rw [if_pos hw]
      exact untouched_same rfl rfl ⟨rfl, rfl⟩ rfl
    · rw [writeBuffered_active hw]
      exact untouched_same rfl rfl ⟨rfl, rfl⟩ rfl
  | tlsWriteLine string =>
    cases h
    have hw' : .write ∈ (writeBuffered string s).loop.active := by
      rw [writeBuffered_active hw]
      exact hw
    rw [tlsWriteLine, writeBuffered_active hw', writeBuffered_active hw]
    exact untouched_same rfl rfl ⟨rfl, rfl⟩ rfl
  | tlsShutdown =>
    cases h
    simp only [tlsShutdown, tlsOnDrain]
    rw [if_pos hw]
    exact untouched_same rfl rfl ⟨rfl, rfl⟩ rfl
  | tlsOnTimeout handler =>
    cases h
    exact untouched_tlsOnTimeout handler s
  | tlsOnError handler =>
    cases h
    exact untouched_same rfl rfl ⟨rfl, rfl⟩ rfl
  | tlsOnLineTooLong handler =>
    cases h
    exact untouched_same rfl rfl ⟨rfl, rfl⟩ rfl
  | _ => cases hcall

theorem answerable_of_side {s t : State η} (h : t.inputSide = s.inputSide) : Answerable t ↔ Answerable s := by
  simp only [State.inputSide, InputSide.mk.injEq] at h
  unfold Answerable
  rw [h.1, h.2.2.1, h.2.2.2.2.1]

section Handlers

variable {asks : State η → η → ℕ → Prop}

theorem Event.Blocked.cases {s : State η} {e : Event η} (h : e.Blocked asks s) :
    (∃ replies, e = .readCb replies ∧ ∀ reply ∈ replies, reply = .error .wantRead ∨ reply = .error .wantWrite) ∨
    (∃ replies, e = .writeCb replies ∧ ∀ reply ∈ replies, reply = .error .wantRead ∨ reply = .error .wantWrite) ∨
    (∃ handler size, e = .tlsRead handler size ∧ .read ∉ s.loop.active ∧ asks s handler size) ∨
    (e.isCall = true ∧ e.isCallback = false) := by
  cases e with
  | readCb replies => exact Or.inl ⟨replies, rfl, h⟩
  | writeCb replies => exact Or.inr (Or.inl ⟨replies, rfl, h⟩)
  | tlsRead handler size => exact Or.inr (Or.inr (Or.inl ⟨handler, size, rfl, h⟩))
  | _ => exact Or.inr (Or.inr (Or.inr ⟨h, rfl⟩))

/-- Each callback that has to wait leaves the other one pending. -/
theorem pingPong_step {s t : State η} {e : Event η} (hs : PingPong s) (h : BlockedStep asks s e t) : PingPong t := by
  obtain ⟨hb, hstep⟩ := h
  obtain ⟨-, -, halive⟩ := step_eq_some hstep
  rcases hb.cases with ⟨replies, rfl, hb⟩ | ⟨replies, rfl, hb⟩ | ⟨handler, size, rfl, hact, -⟩ | ⟨hcall, -⟩
  · obtain ⟨-, rfl⟩ := invoke_eq_some halive
    obtain ⟨events, time, input, hcb⟩ := readCb_blocked hs.silent hb
    rw [hcb]
    have hact : .read ∈ ((s.loop.take .read).feedActive .write).active := by simpa using hs.read
    refine ⟨hs.alive, ?_, ?_, Or.inr ?_, hs.silent⟩
    · simpa only [Loop.waitFor_active _ _ _ hact] using hact
    · simpa only [Loop.waitFor_active _ _ _ hact] using (by simpa using hs.write)
    · refine (Loop.mem_waitFor_pending _ _ _ _ (by decide)).mpr ?_
      exact (Loop.mem_feedActive_pending _ _ _).mpr (Or.inr ⟨rfl, hs.write⟩)
  · obtain ⟨-, rfl⟩ := invoke_eq_some halive
    obtain ⟨events, time, output, size, buffer, hcb⟩ := writeCb_blocked s hb
    rw [hcb]
    have hact : .write ∈ ((s.loop.take .write).feedActive .read).active := by simpa using hs.write
    refine ⟨hs.alive, ?_, ?_, Or.inl ?_, hs.silent⟩
    · simpa only [Loop.waitFor_active _ _ _ hact] using (by simpa using hs.read)
    · simpa only [Loop.waitFor_active _ _ _ hact] using hact
    · refine (Loop.mem_waitFor_pending _ _ _ _ (by decide)).mpr ?_
      exact (Loop.mem_feedActive_pending _ _ _).mpr (Or.inr ⟨rfl, hs.read⟩)
  · exact absurd hs.read hact
  · have hsame := untouched_call hs.write hcall halive
    refine ⟨by rw [hsame.alive.1, hsame.alive.2]; exact hs.alive, ?_, ?_, ?_, ?_⟩
    · exact (hsame.active .read (Or.inl rfl)).mpr hs.read
    · exact (hsame.active .write (Or.inr rfl)).mpr hs.write
    · exact hs.fed.imp (hsame.pending .read (Or.inl rfl)).mpr (hsame.pending .write (Or.inr rfl)).mpr
    · exact mt (answerable_of_side hsame.side).mp hs.silent

/-- One of the two callbacks has its turn. -/
theorem pingPong_progress {s : State η} (hs : PingPong s) :
    ∃ e t, BlockedStep asks s e t ∧ e.isCallback = true ∧ PingPong t := by
  suffices h : ∃ e t, BlockedStep asks s e t ∧ e.isCallback = true by
    obtain ⟨e, t, hstep, hcb⟩ := h
    exact ⟨e, t, hstep, hcb, pingPong_step hs hstep⟩
  have hnext : ∀ w : Watcher, w ≠ .timeout → w ∈ s.loop.pending → s.loop.Next Watcher.priority w := by
    intro w hw hp
    refine ⟨hp, fun v _ => ?_⟩
    cases v <;> cases w <;> first | exact absurd rfl hw | decide
  have hstep : ∀ e : Event η, step s e = stepAlive s e := fun e => if_neg (by simp [hs.alive])
  rcases hs.fed with hp | hp
  · refine ⟨.readCb [], readCb [] { s with loop := s.loop.take .read }, ⟨by simp [Event.Blocked], ?_⟩, rfl⟩
    rw [Machine.Steps, hstep]
    exact if_pos (hnext .read (by decide) hp)
  · refine ⟨.writeCb [], writeCb [] { s with loop := s.loop.take .write }, ⟨by simp [Event.Blocked], ?_⟩, rfl⟩
    rw [Machine.Steps, hstep]
    exact if_pos (hnext .write (by decide) hp)

theorem not_worksOff {s : State η} (hs : PingPong s) : ¬ WorksOff asks s := by
  rintro ⟨n, hn⟩
  obtain ⟨es, t, hruns, hcount⟩ := Machine.exists_runs (fun _ => pingPong_progress) hs (n + 1)
  have hle := hn es t hruns
  omega

/-! ### Read callbacks that have something for a handler -/

/-- The watcher is off. -/
structure Off (v : Watcher) (l : Loop Watcher) : Prop where
  inactive : v ∉ l.active
  quiet : v ∉ l.pending

theorem off_stop (v : Watcher) (l : Loop Watcher) : Off v (l.stop v) :=
  ⟨Finset.notMem_erase _ _, Finset.notMem_erase _ _⟩

theorem Off.tended {l l' : Loop Watcher} (h : Off .read l) (ht : Tended .read l l') : Off .read l' := by
  cases ht with
  | same ha hp => exact ⟨mt ha.mp h.inactive, mt hp.mp h.quiet⟩
  | fed _ _ hw => exact absurd (hw.resolve_left (by decide)) h.inactive
  | stopped ha hp => exact ⟨ha, hp⟩

/-- A read callback uses up a line, or finds that it is too long; then the handler for this is called
or the connection freed. -/
def UsesUp (s t : State η) : Prop :=
  (t.inputBuffer.count newline < s.inputBuffer.count newline ∧ t.tooLong = s.tooLong) ∨
  (newline ∉ s.inputBuffer ∧ t.inputBuffer = s.inputBuffer ∧
    (t.freed = true ∧ t.tooLong = s.tooLong ∨ t.tooLong = s.tooLong + 1))

/-- The read watcher is stopped, and the write watcher too only if the connection is freed. -/
structure HandsOver (s t : State η) : Prop where
  off : Off .read t.loop
  write : t.freed = false → .write ∈ s.loop.active → .write ∈ t.loop.active
  uses : UsesUp s t

theorem count_bufferReadLine {buf line rest : Bytes} (h : bufferReadLine buf = some (line, rest)) :
    rest.count newline < buf.count newline := by
  have hmem : newline ∈ buf := by
    by_contra hc
    rw [bufferReadLine_eq_none.mpr hc] at h
    cases h
  obtain ⟨l, r, rfl, hl⟩ := exists_line hmem
  rw [bufferReadLine_line hl] at h
  cases h
  simp [List.count_eq_zero_of_not_mem hl]

theorem handsOver_deliver {s : State η} {line rest : Bytes} (h : bufferReadLine s.inputBuffer = some (line, rest)) :
    HandsOver s (deliver line { s with inputBuffer := rest, input := none, inputSize := 0 }) := by
  have hoff := off_stop .read s.loop
  have hwrite : .write ∈ s.loop.active → .write ∈ (s.loop.stop .read).active :=
    fun h => Finset.mem_erase.mpr ⟨by decide, h⟩
  have hcount := count_bufferReadLine h
  unfold deliver
  dsimp only
  split
  · exact ⟨hoff, fun _ => hwrite, Or.inl ⟨hcount, by simp [State.tooLong, State.call]⟩⟩
  · exact ⟨hoff, fun _ => hwrite, Or.inl ⟨hcount, rfl⟩⟩

theorem inputBuffer_of_side {s t : State η} (h : t.inputSide = s.inputSide) : t.inputBuffer = s.inputBuffer :=
  congrArg InputSide.inputBuffer h

theorem handsOver_lineTooLong {s : State η} (h : newline ∉ s.inputBuffer) : HandsOver s (lineTooLong s) := by
  have hoff := off_stop .read s.loop
  unfold lineTooLong
  dsimp only
  split
  · refine ⟨hoff, fun _ h => Finset.mem_erase.mpr ⟨by decide, h⟩, Or.inr ⟨h, rfl, Or.inr ?_⟩⟩
    simp [State.tooLong, State.call]
  · have hfree := frame_tlsFree (v := .read) { s with loop := s.loop.stop .read }
    have hbuf := inputBuffer_of_side hfree.side
    have hcalls : (tlsFree { s with loop := s.loop.stop .read }).tooLong = s.tooLong := by
      rw [State.tooLong, history_tlsFree]
      rfl
    refine ⟨hoff.tended hfree.tended, fun hfreed => ?_, Or.inr ⟨h, hbuf, Or.inl ⟨rfl, hcalls⟩⟩⟩
    simp [tlsFree] at hfreed

/-- A line is waiting, or the buffer is full. -/
theorem readData_answerable (replies : List SslRead) {s : State η} (hs : Answerable s) :
    (∃ line rest, bufferReadLine s.inputBuffer = some (line, rest) ∧
      readData replies s = ({ s with inputBuffer := rest, input := none, inputSize := 0 }, some line)) ∨
    (newline ∉ s.inputBuffer ∧
      readData replies s = (lineTooLong { s with input := some (s.input.getD []) }, none)) := by
  obtain ⟨hmode, hline⟩ := hs
  rw [readData_of_line hmode]
  unfold readLine readLineLoop
  dsimp only
  split
  · rename_i line rest h
    exact Or.inl ⟨line, rest, h, rfl⟩
  · rename_i hnone
    have hno := bufferReadLine_eq_none.mp hnone
    exact Or.inr ⟨hno, if_pos (hline.resolve_left hno)⟩

theorem handsOver_readCb (replies : List SslRead) {s : State η} (hs : Answerable s) :
    HandsOver s (readCb replies { s with loop := s.loop.take .read }) := by
  have hs' : Answerable (resetWatcherState .write { s with loop := s.loop.take .read }).touch := hs
  have hact : .write ∈ s.loop.active →
      .write ∈ (resetWatcherState .write { s with loop := s.loop.take .read }).touch.loop.active := by
    intro h
    simpa [resetWatcherState, State.touch] using h
  have huses : ∀ t, UsesUp (resetWatcherState .write { s with loop := s.loop.take .read }).touch t → UsesUp s t :=
    fun _ h => h
  unfold readCb
  generalize (resetWatcherState .write { s with loop := s.loop.take .read }).touch = s' at hs' hact huses
  rcases readData_answerable replies hs' with ⟨line, rest, hline, h⟩ | ⟨hno, h⟩
  · rw [h]
    have hdel := handsOver_deliver hline
    exact ⟨hdel.off, fun hfreed hw => hdel.write hfreed (hact hw), huses _ hdel.uses⟩
  · rw [h]
    have hlong : HandsOver { s' with input := some (s'.input.getD []) } _ := handsOver_lineTooLong hno
    exact ⟨hlong.off, fun hfreed hw => hlong.write hfreed (hact hw), huses _ hlong.uses⟩

/-! ### What a step can be -/

/-- The read watcher is pending only while active, and the write watcher is active. -/
structure Held (s : State η) : Prop where
  readActive : .read ∈ s.loop.pending → .read ∈ s.loop.active
  write : s.freed = false → .write ∈ s.loop.active

/-- Nothing changes for the handlers. -/
structure Unmoved (s t : State η) : Prop where
  answerable : Answerable t ↔ Answerable s
  buffer : t.inputBuffer = s.inputBuffer
  tooLong : t.tooLong = s.tooLong
  read : .read ∈ t.loop.active ↔ .read ∈ s.loop.active
  freed : t.freed = s.freed

/-- What a step can be while OpenSSL has nothing to offer: a read callback that hands something over or
has to wait, a write callback, a call of a handler, or a request. -/
inductive Does (asks : State η → η → ℕ → Prop) (s : State η) (e : Event η) (t : State η) : Prop
  | handsOver : e.isCallback = true → .read ∈ s.loop.active → Answerable s → HandsOver s t → Does asks s e t
  | waits : e.isCallback = true → .read ∈ s.loop.active → ¬ Answerable s → Unmoved s t → Does asks s e t
  | writes : e.isCallback = true → .write ∈ s.loop.pending → .write ∉ t.loop.pending → Unmoved s t → Does asks s e t
  | calls : e.isCallback = false → (.write ∈ t.loop.pending ↔ .write ∈ s.loop.pending) → Unmoved s t → Does asks s e t
  | requests (handler : η) (size : ℕ) : e.isCallback = false → .read ∉ s.loop.active → asks s handler size →
      t = (s.ask handler size).arm .read .read → Does asks s e t

theorem does_blockedStep {s t : State η} {e : Event η} (hs : Held s) (h : BlockedStep asks s e t) :
    s.freed = false ∧ s.died = false ∧ Held t ∧ Does asks s e t := by
  obtain ⟨hb, hstep⟩ := h
  obtain ⟨hfreed, hdied, halive⟩ := step_eq_some hstep
  refine ⟨hfreed, hdied, ?_⟩
  rcases hb.cases with ⟨replies, rfl, hb⟩ | ⟨replies, rfl, hb⟩ | ⟨handler, size, rfl, hact, hasks⟩ | ⟨hcall, hnot⟩
  · obtain ⟨hpen, rfl⟩ := invoke_eq_some halive
    have hact := hs.readActive hpen
    by_cases hans : Answerable s
    · have hover := handsOver_readCb replies hans
      exact ⟨⟨fun h => absurd h hover.off.quiet, fun h => hover.write h (hs.write hfreed)⟩,
        .handsOver rfl hact hans hover⟩
    · obtain ⟨events, time, input, hcb⟩ := readCb_blocked hans hb
      rw [hcb]
      have hact' : .read ∈ ((s.loop.take .read).feedActive .write).active := by simpa using hact
      have hsame : (((s.loop.take .read).feedActive .write).waitFor .read events).active = s.loop.active := by
        rw [Loop.waitFor_active _ _ _ hact', Loop.feedActive_active]
        rfl
      refine ⟨⟨fun _ => ?_, fun h => ?_⟩, .waits rfl hact hans ⟨Iff.rfl, rfl, rfl, ?_, rfl⟩⟩
      · exact hsame ▸ hact
      · exact hsame ▸ hs.write h
      · rw [hsame]
  · obtain ⟨hpen, rfl⟩ := invoke_eq_some halive
    obtain ⟨events, time, output, size, buffer, hcb⟩ := writeCb_blocked s hb
    rw [hcb]
    have hquiet : .write ∉ (((s.loop.take .write).feedActive .read).waitFor .write events).pending := by
      intro hp
      have hp' := (Loop.mem_feedActive_pending _ _ _).mp (Loop.waitFor_pending_subset _ _ _ hp)
      simp at hp'
    have hact : .read ∈ (((s.loop.take .write).feedActive .read).waitFor .write events).active ↔
        .read ∈ s.loop.active := by
      rw [Loop.mem_waitFor_active _ _ _ _ (by decide), Loop.feedActive_active]
      rfl
    have hwrite : .write ∈ ((s.loop.take .write).feedActive .read).active := by simpa using hs.write hfreed
    refine ⟨⟨fun h => hact.mpr ?_, fun _ => ?_⟩, .writes rfl hpen hquiet ⟨Iff.rfl, rfl, rfl, hact, rfl⟩⟩
    · have hp' := (Loop.mem_feedActive_pending _ _ _).mp (Loop.waitFor_pending_subset _ _ _ h)
      exact hp'.elim (fun hp => hs.readActive (Finset.mem_of_mem_erase hp)) And.right
    · simpa only [Loop.waitFor_active _ _ _ hwrite] using hwrite
  · have hask : t = (s.ask handler size).arm .read .read := by
      simp only [stepAlive, tlsRead, if_neg hact, Option.some.injEq] at halive
      exact halive.symm
    refine ⟨?_, .requests handler size rfl hact hasks hask⟩
    subst hask
    refine ⟨fun _ => Finset.mem_insert_self _ _, fun _ => Finset.mem_insert_of_mem ?_⟩
    simpa [State.ask] using hs.write hfreed
  · have hsame := untouched_call (hs.write hfreed) hcall halive
    have hact := hsame.active .read (Or.inl rfl)
    refine ⟨⟨fun h => hact.mpr (hs.readActive ((hsame.pending .read (Or.inl rfl)).mp h)),
      fun _ => (hsame.active .write (Or.inr rfl)).mpr (hs.write hfreed)⟩,
      .calls hnot (hsame.pending .write (Or.inr rfl)) ⟨answerable_of_side hsame.side,
        inputBuffer_of_side hsame.side, ?_, hact, hsame.alive.1⟩⟩
    rw [State.tooLong, hsame.upcalls, State.tooLong]

/-- A step calls the handler for lines that are too long once at most, and only in a callback. -/
theorem Does.tooLong_le {s t : State η} {e : Event η} (h : Does asks s e t) :
    t.tooLong ≤ s.tooLong + if e.isCallback then 1 else 0 := by
  cases h with
  | handsOver hcb _ _ hover =>
    rw [if_pos hcb]
    rcases hover.uses with ⟨-, h⟩ | ⟨-, -, ⟨-, h⟩ | h⟩ <;> omega
  | waits _ _ _ hsame | writes _ _ _ hsame | calls _ _ hsame =>
    rw [hsame.tooLong]
    exact Nat.le_add_right _ _
  | requests handler size _ _ _ h =>
    subst h
    exact Nat.le_add_right s.tooLong _

theorem tooLong_le_countP {s t : State η} {es : List (Event η)} (hs : Held s)
    (h : Machine.Runs (BlockedStep asks) s es t) : t.tooLong ≤ s.tooLong + es.countP Event.isCallback := by
  induction h with
  | nil => exact Nat.le_add_right _ _
  | cons h1 _ ih =>
    obtain ⟨-, -, ht, hdoes⟩ := does_blockedStep hs h1
    have hrest := ih ht
    have hone := hdoes.tooLong_le
    rw [List.countP_cons]
    omega

/-! ### The callbacks that are still to come -/

/-- A read callback for the present or a future request, the write callbacks beside it, and two
callbacks for each line in the buffer. -/
def callbacksLeft (s : State η) : ℕ :=
  if s.freed then 0 else 2 + (if .write ∈ s.loop.pending then 1 else 0) + 2 * s.inputBuffer.count newline

/-- What is needed for working off to come to an end. -/
structure Settling (asks : State η → η → ℕ → Prop) (n : ℕ) (s : State η) : Prop where
  held : Held s
  answered : StaysAnswerable asks s
  givesUp : ∀ es t, Machine.Runs (BlockedStep asks) s es t → t.tooLong ≤ n

theorem settling_step {n : ℕ} {s t : State η} {e : Event η} (hs : Settling asks n s) (h : BlockedStep asks s e t) :
    Settling asks n t ∧
      callbacksLeft t + 2 * (n - t.tooLong) + (if e.isCallback then 1 else 0) ≤
        callbacksLeft s + 2 * (n - s.tooLong) := by
  obtain ⟨hfreed, hdied, hheld, hdoes⟩ := does_blockedStep hs.held h
  have hle : t.tooLong ≤ n := hs.givesUp [e] t (.cons h (.nil t))
  refine ⟨⟨hheld, fun es u hruns => hs.answered (e :: es) u (.cons h hruns),
    fun es u hruns => hs.givesUp (e :: es) u (.cons h hruns)⟩, ?_⟩
  have hpen : ∀ u : State η, (if .write ∈ u.loop.pending then 1 else 0) ≤ 1 := fun u => by split <;> omega
  have hleft : callbacksLeft t ≤ 2 + (if .write ∈ t.loop.pending then 1 else 0) + 2 * t.inputBuffer.count newline := by
    unfold callbacksLeft
    split
    · exact Nat.zero_le _
    · exact le_refl _
  have hnow : callbacksLeft s =
      2 + (if .write ∈ s.loop.pending then 1 else 0) + 2 * s.inputBuffer.count newline := by
    simp [callbacksLeft, hfreed]
  have hpt := hpen t
  rw [hnow]
  cases hdoes with
  | handsOver hcb _ _ hover =>
    rw [if_pos hcb]
    rcases hover.uses with ⟨hcount, hlong⟩ | ⟨-, hbuf, ⟨hfree, hlong⟩ | hlong⟩
    · omega
    · have hzero : callbacksLeft t = 0 := by simp [callbacksLeft, hfree]
      omega
    · rw [hbuf] at hleft
      omega
  | waits _ hact hno _ =>
    exact absurd (hs.answered [] s (.nil s) ⟨hfreed, hdied⟩ hact (hs.held.write hfreed)) hno
  | writes hcb hp hq hsame =>
    rw [hsame.buffer, if_neg hq] at hleft
    rw [if_pos hcb, if_pos hp, hsame.tooLong]
    omega
  | calls hcb hp hsame =>
    rw [hsame.buffer] at hleft
    simp only [hp] at hleft
    rw [hsame.tooLong, hcb]
    simpa using hleft
  | requests handler size hcb hact _ ht =>
    have hsame : callbacksLeft t = callbacksLeft s := by
      subst ht
      simp [callbacksLeft, State.arm, State.ask]
    have hlong : t.tooLong = s.tooLong := by
      subst ht
      rfl
    rw [hlong, hcb, hsame, hnow]
    simp

/-- **Two active watchers.** From a reachable state of a connection with both watchers active,
whatever its handlers ask for, working off the pending events comes to an end without OpenSSL exactly
if `read_cb()` has something for a handler at once, and again whenever one has asked for more, and if
there is an end to requests for a line that is too long. If `read_cb()` has nothing, something is
pending after any number of callbacks. -/
theorem worksOff_iff (asks : State η → η → ℕ → Prop) {es : List (Event η)} {s : State η}
    (hlives : Lives (fun _ _ => True) es s) (halive : s.freed = false ∧ s.died = false)
    (hread : .read ∈ s.loop.active) (hwrite : .write ∈ s.loop.active) :
    (WorksOff asks s ↔ StaysAnswerable asks s ∧ GivesUp asks s) ∧
      (¬ Answerable s → ∀ es t, Machine.Runs (BlockedStep asks) s es t → t.loop.pending.Nonempty) := by
  have hfed := hlives.fed
  have hheld : Held s := ⟨hfed.readActive, fun _ => hwrite⟩
  refine ⟨⟨fun ⟨n, hn⟩ => ⟨fun es t hruns ht hr hw => ?_, ?_⟩, fun ⟨hans, n, hn⟩ => ?_⟩, fun hs es t hruns => ?_⟩
  · by_contra hno
    have hfed' : Fed t := hruns.invariant (I := Fed) (fun _ _ _ hu h => fed_step hu h.2) hfed
    have hgoes : ¬ WorksOff asks t := not_worksOff ⟨ht, hr, hw, hfed'.either hr hw, hno⟩
    refine hgoes ⟨n, fun fs u hfs => ?_⟩
    have hall := hn (es ++ fs) u (hruns.append hfs)
    rw [List.countP_append] at hall
    omega
  · refine ⟨s.tooLong + n, fun es t hruns => ?_⟩
    have hle := tooLong_le_countP hheld hruns
    have hall := hn es t hruns
    omega
  · exact ⟨callbacksLeft s + 2 * (n - s.tooLong), fun es t hruns =>
      hruns.countP_le (fun _ _ _ hu h => settling_step hu h) (⟨hheld, hans, hn⟩ : Settling asks n s)⟩
  · have hping : PingPong s := ⟨halive, hread, hwrite, hfed.either hread hwrite, hs⟩
    have ht := hruns.invariant (fun _ _ _ hs hstep => pingPong_step hs hstep) hping
    exact ht.fed.elim (fun h => ⟨_, h⟩) fun h => ⟨_, h⟩

/-- Handlers that ask only for lines which are in the buffer already are served to the end: one call
of the handler for lines that are too long is left for the present request. -/
structure Frugal (n : ℕ) (s : State η) : Prop where
  held : Held s
  answerable : .read ∈ s.loop.active → Answerable s
  tooLong : s.tooLong + (if newline ∈ s.inputBuffer ∨ .read ∈ s.loop.active then 1 else 0) ≤ n

theorem frugal_step (hasks : ∀ s handler size, asks s handler size → size = 0 ∧ newline ∈ s.inputBuffer) {n : ℕ}
    {s t : State η} {e : Event η} (hs : Frugal n s) (h : BlockedStep asks s e t) : Frugal n t := by
  obtain ⟨-, -, hheld, hdoes⟩ := does_blockedStep hs.held h
  cases hdoes with
  | handsOver _ hact _ hover =>
    refine ⟨hheld, fun hr => absurd hr hover.off.inactive, ?_⟩
    have hlong := hs.tooLong
    rw [if_pos (Or.inr hact)] at hlong
    rcases hover.uses with ⟨-, heq⟩ | ⟨hno, hbuf, hend⟩
    · rw [heq]
      split <;> omega
    · rw [if_neg (by simp [hbuf, hno, hover.off.inactive])]
      rcases hend with ⟨-, heq⟩ | heq <;> omega
  | waits _ _ _ hsame | writes _ _ _ hsame | calls _ _ hsame =>
    refine ⟨hheld, fun hr => hsame.answerable.mpr (hs.answerable (hsame.read.mp hr)), ?_⟩
    rw [hsame.tooLong, hsame.buffer]
    simpa only [hsame.read] using hs.tooLong
  | requests handler size _ _ hasked ht =>
    obtain ⟨rfl, hline⟩ := hasks s handler size hasked
    subst ht
    refine ⟨hheld, fun _ => ⟨rfl, Or.inl hline⟩, ?_⟩
    have hlong := hs.tooLong
    rw [if_pos (Or.inl hline)] at hlong
    exact le_trans (Nat.add_le_add_left (by split <;> omega) _) hlong

/-- If the handlers ask only for lines that are in the buffer already, the present state decides. -/
theorem worksOff_iff_answerable (hasks : ∀ s handler size, asks s handler size → size = 0 ∧ newline ∈ s.inputBuffer)
    {es : List (Event η)} {s : State η} (hlives : Lives (fun _ _ => True) es s)
    (halive : s.freed = false ∧ s.died = false) (hread : .read ∈ s.loop.active) (hwrite : .write ∈ s.loop.active) :
    WorksOff asks s ↔ Answerable s := by
  rw [(worksOff_iff asks hlives halive hread hwrite).1]
  refine ⟨fun h => h.1 [] s (.nil s) halive hread hwrite, fun hans => ?_⟩
  have hall : ∀ es t, Machine.Runs (BlockedStep asks) s es t → Frugal (s.tooLong + 1) t := fun es t hruns =>
    hruns.invariant (fun _ _ _ hu h => frugal_step hasks hu h)
      ⟨⟨hlives.fed.readActive, fun _ => hwrite⟩, fun _ => hans, by split <;> omega⟩
  exact ⟨fun es t hruns _ hr _ => (hall es t hruns).answerable hr,
    s.tooLong + 1, fun es t hruns => le_trans (Nat.le_add_right _ _) (hall es t hruns).tooLong⟩

end Handlers

/-- A response is on its way while the next line is waited for, and the handler asks for every line. -/
theorem worksOff_iff_okay : ∃ s : State Unit,
    Machine.run step (accepted () 0 0) [.acceptSslCb (.established true), .tlsRead () 0,
      .readCb [.data (ch 'M') (ascii "OIN 1 x\n")], .tlsWriteLine (ascii "MOIN 1"), .tlsRead () 0] = some s ∧
    (WorksOff (fun _ _ size => size = 0) s ↔
      StaysAnswerable (fun _ _ size => size = 0) s ∧ GivesUp (fun _ _ size => size = 0) s) ∧
    (¬ Answerable s → ∀ es t, Machine.Runs (BlockedStep fun _ _ size => size = 0) s es t →
      t.loop.pending.Nonempty) := by
  obtain ⟨s, hs, hp⟩ := (Option.any_eq_true _ _).mp (by decide : Option.any
    (fun s => decide ((s.freed = false ∧ s.died = false) ∧ .read ∈ s.loop.active ∧ .write ∈ s.loop.active))
    (Machine.run step (accepted () 0 0) [.acceptSslCb (.established true), .tlsRead () 0,
      .readCb [.data (ch 'M') (ascii "OIN 1 x\n")], .tlsWriteLine (ascii "MOIN 1"), .tlsRead () 0]) = true)
  obtain ⟨halive, hread, hwrite⟩ := of_decide_eq_true hp
  exact ⟨s, hs, worksOff_iff _ (lives_of_steps hs) halive hread hwrite⟩

/-- The peer takes no response and sends no request, and the handlers ask for nothing more: the two
callbacks go on for ever. -/
theorem not_forall_worksOff : ¬ ∀ (es : List (Event Unit)) (s : State Unit), Lives (fun _ _ => True) es s →
    s.freed = false ∧ s.died = false → .read ∈ s.loop.active → .write ∈ s.loop.active →
    WorksOff (fun _ _ _ => False) s := by
  intro h
  obtain ⟨s, hs, hp⟩ := (Option.any_eq_true _ _).mp (by decide : Option.any
    (fun s => decide ((s.freed = false ∧ s.died = false) ∧ .read ∈ s.loop.active ∧ .write ∈ s.loop.active ∧
      .read ∈ s.loop.pending ∧ ¬ Answerable s))
    (Machine.run step (accepted () 0 0) [.acceptSslCb (.established true), .tlsRead () 0,
      .readCb [.data (ch 'M') (ascii "OIN 1 x\n")], .tlsWriteLine (ascii "MOIN 1"), .tlsRead () 0]) = true)
  obtain ⟨halive, hread, hwrite, hpen, hsilent⟩ := of_decide_eq_true hp
  have hping : PingPong s := ⟨halive, hread, hwrite, Or.inl hpen, hsilent⟩
  exact not_worksOff hping (h _ s (lives_of_steps hs) halive hread hwrite)

end Tls
end NscaNg
