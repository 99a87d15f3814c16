/-
# Watchers are set while they are inactive

The watchers of the command file writer and of the connections are set in many places, some of them
deep within other callbacks. In `fifo.c` one place is wrong: `open_cb()` starts the timer that reopens
the FIFO if the FIFO is closed in the end, but a failure of `write_cb()`, which `open_cb()` may call,
has started the timer already. As long as the FIFO does not fail at once (`OpensWell`), no watcher is set
while it is active; that of `tls.c` is `Tls.SetsOnce` (`set_while_inactive`).
-/
import NscaNg.Common.TlsSets
import NscaNg.Server.FifoWatchers

namespace NscaNg
namespace Fifo

open Posix Libev

variable {β : Type} {cfg : Config} {s t : State β} {l : Loop Watcher}

/-! ### The watchers -/

/-- No watcher has been set while it was active, and the timer of a dump runs only while it is waited
for an idle moment too. -/
structure SetRight (l : Loop Watcher) : Prop where
  misset : l.misset = ∅
  timer : .timeout ∈ l.active → .idle ∈ l.active

namespace SetRight

theorem with_loop {l' : Loop Watcher} (h : SetRight l) (hmisset : l'.misset = l.misset)
    (hactive : l'.active = l.active) : SetRight l' :=
  ⟨hmisset.trans h.misset, by simpa [hactive] using h.timer⟩

theorem stop (h : SetRight l) {w : Watcher} (hw : w ≠ .idle) : SetRight (l.stop w) :=
  ⟨h.misset, fun hact => Finset.mem_erase.mpr ⟨hw.symm, h.timer (Finset.mem_of_mem_erase hact)⟩⟩

theorem expire (h : SetRight l) {w : Watcher} (hw : w ≠ .idle) : SetRight (l.expire w) :=
  ⟨h.misset, fun hact => Finset.mem_erase.mpr ⟨hw.symm, h.timer (Finset.mem_of_mem_erase hact)⟩⟩

theorem start (h : SetRight l) {w : Watcher} (hw : w ≠ .timeout) : SetRight (l.start w) :=
  ⟨h.misset, by
    simp only [Loop.start_active, Finset.mem_insert]
    exact fun hact => Or.inr (h.timer (hact.resolve_left hw.symm))⟩

/-- The timer that reopens the FIFO is set and started. -/
theorem startReopen (h : SetRight l) (hoff : .reopen ∉ l.active) (after : ℚ) :
    SetRight ((l.timerSet .reopen after).timerStart .reopen) := by
  refine ⟨?_, ?_⟩
  · rw [Loop.timerStart_misset, Loop.timerSet_misset after hoff, h.misset]
  · simpa using h.timer

/-- A dump is waited for. -/
theorem startIdle (h : SetRight l) (hoff : .idle ∉ l.active) (after : ℚ) :
    SetRight (((l.timerSet .timeout after).timerStart .timeout).start .idle) := by
  have htimer : .timeout ∉ l.active := fun hact => hoff (h.timer hact)
  refine ⟨?_, fun _ => Finset.mem_insert_self _ _⟩
  exact Loop.timerStart_misset.trans ((Loop.timerSet_misset after htimer).trans h.misset)

end SetRight

/-! ### `write_cb()` -/

theorem setRight_nextOutput (h : SetRight s.loop) : SetRight (nextOutput s).attempt.loop := by
  have hsame : (nextOutput s).attempt.loop = s.loop := nextOutput_loop s
  rwa [hsame]

theorem setRight_writeFailed (h : SetRight s.loop) (hoff : .reopen ∉ s.loop.active) :
    SetRight (writeFailed s).loop :=
  (h.stop (w := .write) (by decide)).startReopen (fun hact => hoff (Finset.mem_of_mem_erase hact)) retryTimeout

theorem setRight_written (h : SetRight s.loop) (n : ℕ) : SetRight (written n s).loop := by
  unfold written
  dsimp only
  split
  · exact h.stop (by decide)
  · exact h

theorem setRight_writeCb (replies : List WriteReply) (hw : Writing cfg s) (h : SetRight s.loop) :
    SetRight (writeCb cfg replies s).loop := by
  induction replies generalizing s with
  | nil => exact setRight_nextOutput h
  | cons reply replies ih =>
    have hnext := setRight_nextOutput h
    have hw' : Writing cfg (nextOutput s).attempt := hw.nextOutput.of_hand rfl
    unfold writeCb
    cases reply with
    | again => exact hnext
    | interrupted => exact hnext
    | failed => exact setRight_writeFailed hnext (hw'.opened hw'.isOpen).1
    | written more =>
      have hdone := setRight_written hnext (cfg.taken (nextOutput s).attempt.outputSize more)
      dsimp only
      split
      · rename_i hmore
        exact ih ((hw'.written _).2 hmore.2) hdone
      · exact hdone

/-! ### Dumps and `dispatch_data()` -/

theorem openDumpFile_loop (cfg : Config) (mkstemp : Option Bytes) (s : State β) :
    (openDumpFile cfg mkstemp s).1.loop = s.loop := (Hand.mk.inj (hand_openDumpFile cfg mkstemp s)).1

theorem closeDumpFile_loop (close : Bool) (data : List β) (s : State β) :
    (closeDumpFile close data s).1.loop = s.loop := (Hand.mk.inj (hand_closeDumpFile close data s)).1

theorem setRight_asyncDumpData (r : Replies) (h : SetRight s.loop) : SetRight (asyncDumpData cfg r s).loop := by
  have hopen : SetRight (openDumpFile cfg r.mkstemp (joinBuffers s)).1.loop := by
    rwa [openDumpFile_loop, joinBuffers_loop]
  unfold asyncDumpData
  generalize openDumpFile cfg r.mkstemp (joinBuffers s) = p at hopen
  obtain ⟨u, created⟩ := p
  cases created with
  | false => exact hopen
  | true =>
    have hstart := hopen.start (w := .async) (by decide)
    dsimp only
    split
    · exact hstart
    · have hstop := hstart.stop (w := .async) (by decide)
      simp only [freeOutput, closeDumpFile_loop]
      exact hstop

theorem setRight_stopActive (h : SetRight s.loop) {w : Watcher} (hw : w ≠ .idle) :
    SetRight (s.stopActive w).loop := by
  unfold State.stopActive
  split
  · exact h.stop hw
  · exact h

/-- The timer of a dump is stopped together with its idle watcher. -/
theorem setRight_stopIdle (h : SetRight s.loop) : SetRight ((s.stop .idle).stopActive .timeout).loop := by
  unfold State.stopActive
  split
  · refine ⟨h.misset, fun hact => ?_⟩
    exact absurd hact (Finset.notMem_erase _ _)
  · rename_i hoff
    exact ⟨h.misset, fun hact => absurd hact hoff⟩

theorem setRight_dispatchData (r : Replies) (ho : Orderly cfg s) (hr : Retries s) (h : SetRight s.loop) :
    SetRight (dispatchData cfg r s).loop := by
  unfold dispatchData
  split
  · exact h
  rename_i hc
  split
  · rename_i hfits
    split
    · exact h
    · exact setRight_writeCb _ (writing_start ho hr (by simpa using hc) hfits) (h.start (by decide))
  · have hstop := setRight_stopActive (w := .write) h (by decide)
    generalize s.stopActive .write = u at hstop
    dsimp only
    split
    · split
      · exact hstop
      · exact setRight_asyncDumpData r hstop
    · split
      · exact hstop
      · rename_i hoff
        exact hstop.startIdle hoff retryTimeout

theorem setRight_fifoWrite (data : List β) (freeData : Bool) (r : Replies) (ho : Orderly cfg s) (hr : Retries s)
    (h : SetRight s.loop) : SetRight (fifoWrite cfg data freeData r s).loop := by
  unfold fifoWrite
  split
  · exact setRight_dispatchData r (ho.with_data _ _) (hr.with_data _ _) h
  · unfold throwAway
    dsimp only
    split
    · exact setRight_dispatchData r ((ho.with_data _ _).of_hand rfl) ((hr.with_data _ _).of_hand rfl) h
    · exact setRight_dispatchData r (ho.with_data _ _) (hr.with_data _ _) h

/-! ### `open_cb()` -/

/-- One of the writes that `write_cb()` makes fails: the first, or the second one, which follows if the
block is not empty and there is data in the buffer. -/
def WriteFails (s : State β) : List WriteReply → Prop
  | .failed :: _ => True
  | .written _ :: .failed :: _ => 0 < s.outputSize ∧ 0 < s.outputBuffer.length
  | _ => False

instance decidableWriteFails (s : State β) (replies : List WriteReply) : Decidable (WriteFails s replies) := by
  unfold WriteFails
  split <;> infer_instance

theorem taken_pos (cfg : Config) (size more : ℕ) : 0 < cfg.taken size more ↔ 0 < size := by
  unfold Config.taken
  split <;> omega

theorem isOpen_nextOutput (s : State β) : (nextOutput s).isOpen = s.isOpen := by
  unfold nextOutput
  split <;> rfl

theorem written_isOpen (n : ℕ) (s : State β) : (written n s).isOpen = s.isOpen := by
  unfold written
  dsimp only
  split <;> rfl

theorem written_output (n : ℕ) (s : State β) : (written n s).output = none := by
  unfold written
  dsimp only
  split <;> rfl

theorem written_outputBuffer (n : ℕ) (s : State β) : (written n s).outputBuffer = s.outputBuffer := by
  unfold written
  dsimp only
  split <;> rfl

/-- There is a second write if there is data in the buffer behind the block. -/
theorem writes_more_iff (s : State β) (more : ℕ) :
    (0 < cfg.taken (nextOutput s).attempt.outputSize more ∧ 0 < (nextOutput s).attempt.outputBuffer.length) ↔
      (0 < s.outputSize ∧ 0 < s.outputBuffer.length) := by
  rw [taken_pos]
  unfold nextOutput
  split
  · rfl
  · rename_i hnone
    simp [State.attempt, State.outputSize, hnone]

theorem writeCb_written_isOpen (cfg : Config) (more : ℕ) (replies : List WriteReply) (s : State β) :
    ∃ u : State β, u.isOpen = s.isOpen ∧ u.output = none ∧
      (writeCb cfg (.written more :: replies) s).isOpen =
        (if 0 < s.outputSize ∧ 0 < s.outputBuffer.length then (writeCb cfg replies u).isOpen else s.isOpen) := by
  have hisOpen : (nextOutput s).attempt.isOpen = s.isOpen := isOpen_nextOutput s
  refine ⟨written (cfg.taken (nextOutput s).attempt.outputSize more) (nextOutput s).attempt,
    (written_isOpen _ _).trans hisOpen, written_output _ _, ?_⟩
  rw [writeCb]
  rw [written_outputBuffer, if_congr (writes_more_iff s more) rfl rfl]
  split
  · rfl
  · exact (written_isOpen _ _).trans hisOpen

/-- With the block in the FIFO, only the next write counts. -/
theorem isOpen_writeCb_next (replies : List WriteReply) (hout : s.output = none) :
    (writeCb cfg replies s).isOpen = (if replies.head? = some .failed then false else s.isOpen) := by
  have hsize : ¬ (0 < s.outputSize ∧ 0 < s.outputBuffer.length) := by simp [State.outputSize, hout]
  cases replies with
  | nil => exact isOpen_nextOutput s
  | cons reply replies =>
    cases reply with
    | again => exact isOpen_nextOutput s
    | interrupted => exact isOpen_nextOutput s
    | failed => rfl
    | written more =>
      obtain ⟨u, -, -, hu⟩ := writeCb_written_isOpen cfg more replies s
      rw [hu, if_neg hsize]
      rfl

/-- The FIFO is closed exactly if one of the writes fails. -/
theorem isOpen_writeCb (replies : List WriteReply) (s : State β) :
    (writeCb cfg replies s).isOpen = (if WriteFails s replies then false else s.isOpen) := by
  cases replies with
  | nil => exact isOpen_nextOutput s
  | cons reply replies =>
    cases reply with
    | again => exact isOpen_nextOutput s
    | interrupted => exact isOpen_nextOutput s
    | failed => rfl
    | written more =>
      obtain ⟨u, hopen, hout, hu⟩ := writeCb_written_isOpen cfg more replies s
      rw [hu, isOpen_writeCb_next replies hout, hopen]
      by_cases hmore : 0 < s.outputSize ∧ 0 < s.outputBuffer.length
      · rw [if_pos hmore]
        cases replies with
        | nil => rfl
        | cons next replies => cases next <;> simp [WriteFails, hmore]
      · rw [if_neg hmore]
        cases replies with
        | nil => rfl
        | cons next replies => cases next <;> simp [WriteFails, hmore]

/-- `open_cb()` has opened the FIFO, and finds that it cannot write to it. -/
def FailsAtOnce (cfg : Config) (s : State β) (r : Replies) : Prop :=
  ¬ BuffersAreEmpty s ∧ ¬ BuffersExceedPipeSize cfg s ∧ WriteFails s r.writes

instance decidableFailsAtOnce (cfg : Config) (s : State β) (r : Replies) : Decidable (FailsAtOnce cfg s r) := by
  unfold FailsAtOnce
  infer_instance

theorem asyncDumpData_isOpen (r : Replies) (s : State β) : (asyncDumpData cfg r s).isOpen = s.isOpen := by
  have hopen : (openDumpFile cfg r.mkstemp (joinBuffers s)).1.isOpen = s.isOpen := by
    rw [(Hand.mk.inj (hand_openDumpFile cfg r.mkstemp (joinBuffers s))).2.1]
    unfold joinBuffers
    split <;> rfl
  unfold asyncDumpData
  generalize openDumpFile cfg r.mkstemp (joinBuffers s) = p at hopen
  obtain ⟨u, created⟩ := p
  cases created with
  | false => exact hopen
  | true =>
    dsimp only
    split
    · exact hopen
    · exact ((Hand.mk.inj (hand_closeDumpFile r.close [] _)).2.1).trans hopen

/-- The write watcher of a FIFO that has just been opened is not active. -/
theorem isOpen_dispatchData (cfg : Config) (r : Replies) (hopen : s.isOpen = true) (hoff : .write ∉ s.loop.active) :
    (dispatchData cfg r s).isOpen = decide (BuffersExceedPipeSize cfg s ∨ ¬ WriteFails s r.writes) := by
  unfold dispatchData
  rw [if_neg (by simp [hopen])]
  split
  · rename_i hfits
    rw [isOpen_writeCb]
    have hsame : WriteFails (s.start .write) r.writes ↔ WriteFails s r.writes := Iff.rfl
    have hstart : (s.start .write).isOpen = true := hopen
    simp [hsame, hfits, hstart]
  · rename_i hlarge
    rw [not_not] at hlarge
    have hstop : (s.stopActive .write).isOpen = true := by
      unfold State.stopActive
      split <;> exact hopen
    generalize s.stopActive .write = u at hstop
    simp only [hlarge, true_or, decide_true]
    split
    · split
      · exact hstop
      · exact (asyncDumpData_isOpen r u).trans hstop
    · split
      · exact hstop
      · exact hstop

theorem failsAtOnce_congr {u : State β} (hout : u.output = s.output) (hbuf : u.outputBuffer = s.outputBuffer)
    (r : Replies) : FailsAtOnce cfg u r ↔ FailsAtOnce cfg s r := by
  have hsize : u.outputSize = s.outputSize := by rw [State.outputSize, State.outputSize, hout]
  have hwrites : WriteFails u r.writes ↔ WriteFails s r.writes := by
    unfold WriteFails
    rw [hsize, hbuf]
  rw [FailsAtOnce, FailsAtOnce, BuffersAreEmpty, BuffersAreEmpty, BuffersExceedPipeSize, BuffersExceedPipeSize,
    hwrites, hout, hbuf, hsize]

/-- `retryOpen` sets the timer while it is inactive. -/
theorem setRight_retryOpen (h : SetRight s.loop) (hoff : s.isOpen = false → .reopen ∉ s.loop.active) :
    SetRight (retryOpen s).loop := by
  unfold retryOpen
  split
  · rename_i hc
    exact h.startReopen (hoff hc) retryTimeout
  · exact h

/-- `open_cb()` has opened the FIFO: it sets the timer while it is active exactly if the FIFO fails at
once. -/
theorem setRight_opened (custom : Bool) (r : Replies) (ho : Orderly cfg s) (hc : s.isOpen = false)
    (ha : .reopen ∉ s.loop.active) (hp : .reopen ∉ s.loop.pending) (h : SetRight s.loop) :
    (¬ FailsAtOnce cfg s r → SetRight (openCb cfg custom .opened r s).loop) ∧
      (FailsAtOnce cfg s r → (openCb cfg custom .opened r s).loop.misset ≠ ∅) := by
  have hoff : .write ∉ s.loop.active := fun hw => absurd (ho.write hw) (by simp [hc])
  obtain ⟨u, hu, heq⟩ := openCb_opened custom r ho ha hp
  obtain ⟨hloop, hopen, hout, hbuf, -⟩ := Hand.mk.inj hu.hand
  have hset : SetRight u.loop := hloop ▸ h.with_loop (Loop.ioSet_misset _ hoff) (Loop.ioSet_active _ _ _)
  have hoff' : .write ∉ u.loop.active := by
    rw [hloop]
    simpa using hoff
  have hp' : .reopen ∉ u.loop.pending := by
    rw [hloop]
    simpa using hp
  rw [heq, ← failsAtOnce_congr hout hbuf]
  by_cases hempty : BuffersAreEmpty u
  · rw [if_pos hempty]
    exact ⟨fun _ => setRight_retryOpen hset (fun hcl => absurd hcl (by simp [hopen])),
      fun hfails => absurd hempty hfails.1⟩
  · rw [if_neg hempty]
    have hdone := setRight_dispatchData r hu.toOrderly hu.toRetries hset
    have harmed := armed_dispatchData r hu.toOrderly hu.toRetries
    have hisOpen := isOpen_dispatchData cfg r hopen hoff'
    have hpending : .reopen ∉ (dispatchData cfg r u).loop.pending := fun hq => hp' (dispatchData_pending r u hq)
    generalize dispatchData cfg r u = d at hdone harmed hisOpen hpending
    refine ⟨fun hgood => setRight_retryOpen hdone fun hcl => ?_, fun hfails => ?_⟩
    · rw [hcl] at hisOpen
      obtain ⟨hfits, hwrites⟩ := not_or.mp (of_decide_eq_false hisOpen.symm)
      exact absurd ⟨hempty, hfits, not_not.mp hwrites⟩ hgood
    · have hcl : d.isOpen = false := by
        rw [hisOpen]
        exact decide_eq_false (not_or.mpr ⟨hfails.2.1, not_not.mpr hfails.2.2⟩)
      have hact : .reopen ∈ d.loop.active := (harmed.closed hcl).mpr hpending
      rw [retryOpen, if_pos hcl, State.startTimer, Loop.timerStart_misset, Loop.timerSet, if_pos hact]
      exact Finset.insert_ne_empty _ _

theorem setRight_openCb (custom : Bool) (reply : OpenReply) (r : Replies) (ho : Orderly cfg s)
    (hc : s.isOpen = false) (ha : .reopen ∉ s.loop.active) (hp : .reopen ∉ s.loop.pending) (h : SetRight s.loop)
    (hgood : reply = .opened → ¬ FailsAtOnce cfg s r) : SetRight (openCb cfg custom reply r s).loop := by
  cases reply with
  | failed noReader => exact setRight_retryOpen h fun _ => ha
  | noStatus => exact setRight_retryOpen h fun _ => ha
  | notFifo => exact setRight_retryOpen h fun _ => ha
  | opened => exact (setRight_opened custom r ho hc ha hp h).1 (hgood rfl)

theorem setRight_fifoStart (cfg : Config) (reply : OpenReply) (r : Replies) (now : ℚ) :
    SetRight (fifoStart cfg reply r now : State β).loop :=
  setRight_openCb true reply r (orderly_initial cfg now) rfl (Finset.notMem_empty _) (Finset.notMem_empty _)
    ⟨rfl, fun hact => absurd hact (Finset.notMem_empty _)⟩ fun _ hfails => hfails.1 ⟨rfl, rfl⟩

/-! ### Steps -/

/-- A FIFO that has been opened does not fail at once. -/
def OpensWell (cfg : Config) (s : State β) : Event β → Prop
  | .openCb .opened r => ¬ FailsAtOnce cfg s r
  | .openCb (.failed _) _ | .openCb .noStatus _ | .openCb .notFifo _ => True
  | .advance _ | .ready _ | .expire _ | .writeCb _ | .asyncCb _ _ _ _ _ | .idleCb _ _ | .timeoutCb _ _
  | .fifoWrite _ _ _ => True

instance decidableOpensWell (cfg : Config) (s : State β) (e : Event β) : Decidable (OpensWell cfg s e) := by
  unfold OpensWell
  split <;> infer_instance

section

variable [Cell β]

theorem setRight_processDumpFile (time : ℕ) (close : Bool) (contents : List β) (r : Replies) (ho : Orderly cfg s)
    (hr : Retries s) (h : SetRight s.loop) : SetRight (processDumpFile cfg time close contents r s).loop := by
  rcases processDumpFile_cases cfg time close contents r s with hsame | ⟨u, command, hu, heq⟩
  · rwa [(Hand.mk.inj hsame).1]
  · rw [heq]
    rw [← (Hand.mk.inj hu).1] at h
    exact setRight_fifoWrite command true r (ho.of_hand hu) (hr.of_hand hu) h

theorem setRight_idleCb (d : DumpReplies) (r : Replies) (ho : Orderly cfg s) (hr : Retries s)
    (h : SetRight s.loop) : SetRight (idleCb cfg d r s).loop := by
  have hstop := setRight_stopIdle h
  obtain ⟨ho, hr⟩ := calm_stopIdle ho hr
  unfold idleCb
  generalize (s.stop .idle).stopActive .timeout = s at hstop ho hr
  have hhand := hand_openDumpFile cfg d.mkstemp (joinBuffers s)
  have ho' := (orderly_joinBuffers ho).of_hand hhand
  have hr' := (retries_joinBuffers hr).of_hand hhand
  have hopen : SetRight (openDumpFile cfg d.mkstemp (joinBuffers s)).1.loop := by
    rwa [openDumpFile_loop, joinBuffers_loop]
  unfold syncDumpData
  generalize openDumpFile cfg d.mkstemp (joinBuffers s) = p at ho' hr' hopen
  obtain ⟨u, created⟩ := p
  cases created with
  | false => exact hopen
  | true =>
    dsimp only at ho' hr' hopen ⊢
    split
    · simp only [freeOutput, closeDumpFile_loop]
      exact hopen
    · exact setRight_processDumpFile _ _ _ r (ho'.with_data none u.outputBuffer) (hr'.with_data none u.outputBuffer)
        hopen

theorem setRight_requestDone (reply : AioReply) (time : ℕ) (close : Bool) (r : Replies) (hs : Flowing cfg s)
    (h : SetRight s.loop) : SetRight (requestDone cfg reply time close r s).loop := by
  have hanswered := hs.answered
  have hstop := h.stop (w := .async) (by decide)
  unfold requestDone
  cases reply with
  | failed => exact hstop
  | wrote n =>
    dsimp only
    split
    · exact hstop
    · exact setRight_processDumpFile time close _ r hanswered.toOrderly hanswered.toRetries hstop

theorem setRight_asyncCb (reply : AioReply) (time : ℕ) (close : Bool) (r r' : Replies) (hs : Flowing cfg s)
    (h : SetRight s.loop) : SetRight (asyncCb cfg reply time close r r' s).loop := by
  have hdone := setRight_requestDone reply time close r hs h
  have hflow := flowing_requestDone reply time close r hs
  unfold asyncCb
  dsimp only
  split
  · exact setRight_dispatchData r' hflow.toOrderly hflow.toRetries hdone
  · exact hdone

theorem setRight_step {e : Event β} (hs : Armed cfg s) (h : SetRight s.loop) (hok : OpensWell cfg s e)
    (hstep : step cfg s e = some t) : SetRight t.loop := by
  cases e with
  | advance time =>
    obtain rfl := Option.some.inj hstep
    exact h.with_loop rfl rfl
  | ready w =>
    obtain ⟨-, hstep⟩ := Option.ite_none_right_eq_some.mp hstep
    obtain rfl := Option.some.inj hstep
    exact h.with_loop rfl rfl
  | expire w =>
    obtain ⟨hw, hstep⟩ := Option.ite_none_right_eq_some.mp hstep
    obtain rfl := Option.some.inj hstep
    refine h.expire ?_
    rintro rfl
    exact absurd hw.2.1 (by decide)
  | openCb reply r =>
    obtain ⟨hc, ha, hp, rfl⟩ := hs.openCb_eq hstep
    refine setRight_openCb false reply r (hs.toOrderly.take .reopen) hc ha hp (h.with_loop rfl rfl) ?_
    rintro rfl
    exact hok
  | writeCb replies =>
    obtain ⟨hp, rfl⟩ := invoke_eq_some hstep
    exact setRight_writeCb replies (hs.writing_take hp) (h.with_loop rfl rfl)
  | asyncCb reply time close r r' =>
    obtain ⟨-, hstep⟩ := Option.ite_none_right_eq_some.mp hstep
    obtain ⟨-, rfl⟩ := invoke_eq_some hstep
    exact setRight_asyncCb reply time close r r' (hs.take (by decide)).toFlowing (h.with_loop rfl rfl)
  | idleCb d r =>
    obtain ⟨-, hstep⟩ := Option.ite_none_left_eq_some.mp hstep
    obtain ⟨-, rfl⟩ := invoke_eq_some hstep
    have htake := hs.take (w := .idle) (by decide)
    exact setRight_idleCb d r htake.toOrderly htake.toRetries (h.with_loop rfl rfl)
  | timeoutCb d r =>
    obtain ⟨-, hstep⟩ := Option.ite_none_left_eq_some.mp hstep
    obtain ⟨-, rfl⟩ := invoke_eq_some hstep
    have htake := hs.take (w := .timeout) (by decide)
    exact setRight_idleCb d r htake.toOrderly htake.toRetries (h.with_loop rfl rfl)
  | fifoWrite data freeData r =>
    obtain rfl := Option.some.inj hstep
    exact setRight_fifoWrite data freeData r hs.toOrderly hs.toRetries h

/-- A FIFO that fails at once has its timer set while it is active. -/
theorem misset_step {e : Event β} (hs : Armed cfg s) (h : SetRight s.loop) (hbad : ¬ OpensWell cfg s e)
    (hstep : step cfg s e = some t) : t.loop.misset ≠ ∅ := by
  unfold OpensWell at hbad
  split at hbad
  · rename_i r
    obtain ⟨hc, ha, hp, rfl⟩ := hs.openCb_eq hstep
    exact (setRight_opened false r (hs.toOrderly.take .reopen) hc ha hp (h.with_loop rfl rfl)).2 (not_not.mp hbad)
  all_goals exact absurd trivial hbad

/-- **Watchers are set while they are inactive.** As long as the FIFO does not fail at once when it is
opened, the command file writer sets no watcher while it is active, and the first step in which the FIFO does
is one that sets such a watcher. As long as the timer of a connection is not started again while its callback
is pending, and the connection is left alone once its shutdown has begun, no watcher of the connection is
set while it is active. -/
theorem set_while_inactive {reply : OpenReply} {r : Replies} {now : ℚ} {es : List (Event β)} {s : State β}
    {η : Type} {ds : List (Tls.Event η)} {c : Tls.State η}
    (hs : Machine.Runs (Machine.Meeting (OpensWell cfg) (Machine.Steps (step cfg))) (fifoStart cfg reply r now) es s)
    (hc : Tls.Lives Tls.SetsOnce ds c) :
    (s.loop.misset = ∅ ∧ ∀ e t, step cfg s e = some t → (t.loop.misset = ∅ ↔ OpensWell cfg s e)) ∧
      c.loop.misset = ∅ := by
  have hboth : Armed cfg s ∧ SetRight s.loop :=
    Machine.Runs.invariant (I := fun s => Armed cfg s ∧ SetRight s.loop)
      (fun _ _ _ hs hstep => ⟨armed_step hs.1 hstep.2, setRight_step hs.1 hs.2 hstep.1 hstep.2⟩) hs
      ⟨armed_fifoStart cfg reply r now, setRight_fifoStart cfg reply r now⟩
  refine ⟨⟨hboth.2.misset, fun e t hstep => ⟨fun hset => ?_, fun hok => ?_⟩⟩, hc.setRight.misset⟩
  · by_contra hbad
    exact misset_step hboth.1 hboth.2 hbad hstep hset
  · exact (setRight_step hboth.1 hboth.2 hok hstep).misset

end

/-- A record is waiting when the FIFO is opened, and a connection is established. -/
theorem set_while_inactive_reopened : ∃ (s : State UInt8) (c : Tls.State Unit),
    s.history.fifo = ascii "x\n" ∧ c.history.upcalls = [.connect ()] ∧ s.loop.misset = ∅ ∧ c.loop.misset = ∅ := by
  obtain ⟨s, hs, hp⟩ := (Option.any_eq_true _ _).mp (by decide +kernel : Option.any
    (fun s => decide (s.history.fifo = ascii "x\n"))
    (Machine.run (Machine.guarded (OpensWell (Config.standard false)) (step (Config.standard false)))
      (fifoStart (Config.standard false) (.failed true) ⟨[], none, true, true⟩ 0 : State UInt8)
      [.fifoWrite (ascii "x\n") true ⟨[], none, true, true⟩, .advance 10, .expire .reopen,
        .openCb .opened ⟨[.written 0], none, true, true⟩]) = true)
  obtain ⟨c, hc, hq⟩ := (Option.any_eq_true _ _).mp (by decide +kernel : Option.any
    (fun c => decide (c.history.upcalls = [.connect ()]))
    (Machine.run (Machine.guarded Tls.SetsOnce Tls.step) (Tls.accepted () 5 0)
      [.acceptSslCb (.established true), .tlsOnTimeout (some ())]) = true)
  obtain ⟨⟨hset, -⟩, hset'⟩ := set_while_inactive (Machine.runs_of_guarded hs) (Tls.lives_of_run hc)
  exact ⟨s, c, of_decide_eq_true hp, of_decide_eq_true hq, hset, hset'⟩

/-- A record is waiting when the FIFO is opened, and cannot be written; and a connection is established in the
round in which its timer expires. -/
theorem not_set_while_inactive :
    (¬ ∀ (cfg : Config) (reply : OpenReply) (r : Replies) (now : ℚ) (es : List (Event UInt8)) (s : State UInt8),
      Machine.Runs (Machine.Steps (step cfg)) (fifoStart cfg reply r now) es s → s.loop.misset = ∅) ∧
    ¬ ∀ (es : List (Tls.Event Unit)) (s : Tls.State Unit), Tls.Lives (fun _ _ => True) es s → s.loop.misset = ∅ := by
  constructor
  · intro h
    obtain ⟨s, hs, hp⟩ := (Option.any_eq_true _ _).mp (by decide +kernel : Option.any
      (fun s => decide (s.loop.misset ≠ ∅))
      (Machine.run (step (Config.standard false))
        (fifoStart (Config.standard false) (.failed true) ⟨[], none, true, true⟩ 0 : State UInt8)
        [.fifoWrite (ascii "x\n") true ⟨[], none, true, true⟩, .advance 10, .expire .reopen,
          .openCb .opened ⟨[.failed], none, true, true⟩]) = true)
    exact of_decide_eq_true hp (h _ _ _ _ _ s (Machine.runs_of_run hs))
  · intro h
    obtain ⟨c, hc, hq⟩ := (Option.any_eq_true _ _).mp (by decide +kernel : Option.any
      (fun c => decide (c.loop.misset ≠ ∅))
      (Machine.run (Machine.guarded (fun _ _ => True) Tls.step) (Tls.accepted () 1 0)
        [.advance 1, .expire, .acceptSslCb (.established true), .tlsOnTimeout (some ()), .timeoutCb]) = true)
    exact of_decide_eq_true hq (h _ c (Tls.lives_of_run hc))

end Fifo
end NscaNg
