/-
# The watchers of the command file writer

Between two callbacks the watchers fit the data in hand (`Armed`): the FIFO is retried while it is
closed, it is written to while what waits fits into the pipe, and a dump is on its way if it does not.
Data that comes in may break this, and `dispatch_data()` restores it (`armed_dispatchData`).
-/
import NscaNg.Server.Fifo

namespace NscaNg
namespace Fifo

open Posix Libev

variable {β : Type} {cfg : Config} {s t : State β}

/-! ### What holds within the callbacks too -/

/-- The write watcher belongs to the open FIFO, and the async watcher to a request. -/
structure Orderly (cfg : Config) (s : State β) : Prop where
  write : .write ∈ s.loop.active → s.isOpen = true
  writePending : .write ∈ s.loop.pending → .write ∈ s.loop.active
  async : .async ∈ s.loop.active ↔ s.request.isSome = true
  asyncPending : .async ∈ s.loop.pending → .async ∈ s.loop.active
  aio : s.request.isSome = true → cfg.aio = true

/-- The timer that reopens the FIFO runs or has expired while the FIFO is closed, and is off while it
is open. -/
structure Retries (s : State β) : Prop where
  closed : s.isOpen = false → (.reopen ∈ s.loop.active ↔ .reopen ∉ s.loop.pending)
  opened : s.isOpen = true → .reopen ∉ s.loop.active ∧ .reopen ∉ s.loop.pending

/-- The write watcher fits the data in hand. -/
structure Flowing (cfg : Config) (s : State β) : Prop extends Orderly cfg s, Retries s where
  small : .write ∈ s.loop.active → ¬ BuffersExceedPipeSize cfg s
  ready : s.isOpen = true → ¬ BuffersAreEmpty s → ¬ BuffersExceedPipeSize cfg s → .write ∈ s.loop.active

/-- The watchers fit the data in hand. -/
structure Armed (cfg : Config) (s : State β) : Prop extends Flowing cfg s where
  large : s.isOpen = true → BuffersExceedPipeSize cfg s →
    if cfg.aio then .async ∈ s.loop.active else .idle ∈ s.loop.active

/-- `write_cb()` has something to write that fits into the pipe. -/
structure Writing (cfg : Config) (s : State β) : Prop extends Orderly cfg s, Retries s where
  isOpen : s.isOpen = true
  active : .write ∈ s.loop.active
  fits : ¬ BuffersExceedPipeSize cfg s

theorem not_buffersExceedPipeSize : ¬ BuffersExceedPipeSize cfg s ↔
    s.outputSize ≤ cfg.pipeBuf ∧ s.outputBuffer.length ≤ cfg.pipeBuf := by
  simp [BuffersExceedPipeSize]

theorem BuffersAreEmpty.not_exceed (h : BuffersAreEmpty s) : ¬ BuffersExceedPipeSize cfg s := by
  rw [not_buffersExceedPipeSize, State.outputSize, h.1, h.2]
  exact ⟨Nat.zero_le _, Nat.zero_le _⟩

/-- Where the data fits into the pipe, no dump is needed. -/
theorem Flowing.armed (h : Flowing cfg s) (hfits : ¬ BuffersExceedPipeSize cfg s) : Armed cfg s :=
  ⟨h, fun _ hlarge => absurd hlarge hfits⟩

theorem Writing.armed (h : Writing cfg s) : Armed cfg s :=
  have hf : Flowing cfg s := ⟨h.toOrderly, h.toRetries, fun _ => h.fits, fun _ _ _ => h.active⟩
  hf.armed h.fits

theorem armed_of_empty (h : Orderly cfg s) (hr : Retries s) (he : BuffersAreEmpty s) : Armed cfg s :=
  have hf : Flowing cfg s := ⟨h, hr, fun _ => he.not_exceed, fun _ hne => absurd he hne⟩
  hf.armed he.not_exceed

/-- Without the FIFO nothing is to be done about the data. -/
theorem armed_of_closed (h : Orderly cfg s) (hr : Retries s) (hc : s.isOpen = false) : Armed cfg s := by
  have hopen : s.isOpen ≠ true := by simp [hc]
  exact ⟨⟨h, hr, fun hw => absurd (h.write hw) hopen, fun ho => absurd ho hopen⟩, fun ho => absurd ho hopen⟩

/-- A dump is on its way. -/
theorem armed_of_large (h : Orderly cfg s) (hr : Retries s) (hoff : .write ∉ s.loop.active)
    (hlarge : BuffersExceedPipeSize cfg s)
    (hdump : if cfg.aio then .async ∈ s.loop.active else .idle ∈ s.loop.active) : Armed cfg s :=
  ⟨⟨h, hr, fun hw => absurd hw hoff, fun _ _ hfits => absurd hlarge hfits⟩, fun _ _ => hdump⟩

/-! ### What a function leaves alone -/

/-- The part of the state that decides about the watchers. -/
structure Hand (β : Type) where
  loop : Loop Watcher
  isOpen : Bool
  output : Option (List β)
  outputBuffer : List β
  request : Option (List β)

def State.hand (s : State β) : Hand β := ⟨s.loop, s.isOpen, s.output, s.outputBuffer, s.request⟩

theorem Orderly.of_hand (h : Orderly cfg s) (hh : t.hand = s.hand) : Orderly cfg t := by
  obtain ⟨hl, ho, -, -, hr⟩ := Hand.mk.inj hh
  obtain ⟨h1, h2, h3, h4, h5⟩ := h
  rw [← hl, ← ho] at h1
  rw [← hl] at h2 h4
  rw [← hl, ← hr] at h3
  rw [← hr] at h5
  exact ⟨h1, h2, h3, h4, h5⟩

theorem Retries.of_hand (h : Retries s) (hh : t.hand = s.hand) : Retries t := by
  obtain ⟨hl, ho, -, -, -⟩ := Hand.mk.inj hh
  obtain ⟨h1, h2⟩ := h
  rw [← hl, ← ho] at h1 h2
  exact ⟨h1, h2⟩

theorem exceed_of_hand (hh : t.hand = s.hand) : BuffersExceedPipeSize cfg t ↔ BuffersExceedPipeSize cfg s := by
  obtain ⟨-, -, ho, hb, -⟩ := Hand.mk.inj hh
  unfold BuffersExceedPipeSize State.outputSize
  rw [ho, hb]

theorem Writing.of_hand (h : Writing cfg s) (hh : t.hand = s.hand) : Writing cfg t := by
  obtain ⟨hl, ho, -, -, -⟩ := Hand.mk.inj hh
  exact ⟨h.toOrderly.of_hand hh, h.toRetries.of_hand hh, by rw [ho]; exact h.isOpen,
    by rw [hl]; exact h.active, mt (exceed_of_hand hh).mp h.fits⟩

/-- Only the data in hand changes. -/
theorem Orderly.with_data (h : Orderly cfg s) (output : Option (List β)) (outputBuffer : List β) :
    Orderly cfg { s with output := output, outputBuffer := outputBuffer } :=
  ⟨h.write, h.writePending, h.async, h.asyncPending, h.aio⟩

theorem Retries.with_data (h : Retries s) (output : Option (List β)) (outputBuffer : List β) :
    Retries { s with output := output, outputBuffer := outputBuffer } :=
  ⟨h.closed, h.opened⟩

/-- A watcher other than that of the timer is started or stopped. -/
theorem Retries.stop (h : Retries s) {w : Watcher} (hw : w ≠ .reopen) : Retries (s.stop w) := by
  refine ⟨fun hc => ?_, fun ho => ?_⟩
  · simpa [State.stop, hw.symm] using h.closed hc
  · simpa [State.stop, hw.symm] using h.opened ho

theorem Orderly.stop (h : Orderly cfg s) {w : Watcher} (hw : w ≠ .async) : Orderly cfg (s.stop w) := by
  refine ⟨fun ha => h.write (Finset.mem_of_mem_erase ha), fun hp => ?_, ?_, fun hp => ?_, h.aio⟩
  · obtain ⟨hne, hp⟩ := Finset.mem_erase.mp hp
    exact Finset.mem_erase.mpr ⟨hne, h.writePending hp⟩
  · simpa [State.stop, hw.symm] using h.async
  · obtain ⟨hne, hp⟩ := Finset.mem_erase.mp hp
    exact Finset.mem_erase.mpr ⟨hne, h.asyncPending hp⟩

/-- A watcher of neither the FIFO nor a request is started. -/
theorem Orderly.started (h : Orderly cfg s) {l : Loop Watcher} {w : Watcher} (hw : w ≠ .write ∧ w ≠ .async)
    (ha : l.active = insert w s.loop.active) (hp : l.pending = s.loop.pending) :
    Orderly cfg { s with loop := l } := by
  obtain ⟨h1, h2, h3, h4, h5⟩ := h
  refine ⟨?_, ?_, ?_, ?_, h5⟩
  · simpa [ha, hw.1.symm] using h1
  · simpa [ha, hp, hw.1.symm] using h2
  · simpa [ha, hw.2.symm] using h3
  · simpa [ha, hp, hw.2.symm] using h4

theorem Retries.started (h : Retries s) {l : Loop Watcher} {w : Watcher} (hw : w ≠ .reopen)
    (ha : l.active = insert w s.loop.active) (hp : l.pending = s.loop.pending) :
    Retries { s with loop := l } := by
  refine ⟨fun hc => ?_, fun ho => ?_⟩
  · simpa [ha, hp, hw.symm] using h.closed hc
  · simpa [ha, hp, hw.symm] using h.opened ho

/-! ### `write_cb()` -/

theorem exceed_nextOutput (h : ¬ BuffersExceedPipeSize cfg s) : ¬ BuffersExceedPipeSize cfg (nextOutput s) := by
  obtain ⟨hsize, hbuf⟩ := not_buffersExceedPipeSize.mp h
  unfold nextOutput
  split
  · exact h
  · exact not_buffersExceedPipeSize.mpr ⟨hbuf, Nat.zero_le _⟩

theorem Writing.nextOutput (h : Writing cfg s) : Writing cfg (nextOutput s) := by
  have hfits := exceed_nextOutput h.fits
  unfold Fifo.nextOutput at hfits ⊢
  split
  · exact h
  · rename_i hout
    rw [hout] at hfits
    exact ⟨h.toOrderly.with_data _ _, h.toRetries.with_data _ _, h.isOpen, h.active, hfits⟩

theorem armed_writeFailed (h : Writing cfg s) : Armed cfg (writeFailed s) := by
  obtain ⟨hact, hpen⟩ := h.opened h.isOpen
  refine armed_of_closed ?_ ⟨fun _ => ?_, fun ho => ?_⟩ rfl
  · refine Orderly.started ?_ (w := .reopen) (by decide) (by simp) (by simp)
    exact ⟨by simp [State.stop, State.logged], by simp [State.stop, State.logged],
      by simpa [State.stop, State.logged] using h.async,
      by simpa [State.stop, State.logged] using h.asyncPending, h.aio⟩
  · simp [writeFailed, State.startTimer, State.stop, State.logged, hpen]
  · exact absurd ho (by simp [writeFailed, State.startTimer, State.stop, State.logged])

/-- Once the block is written, the buffer is empty, or it is next. -/
theorem Writing.written (h : Writing cfg s) (n : ℕ) :
    Armed cfg (written n s) ∧ (0 < (written n s).outputBuffer.length → Writing cfg (written n s)) := by
  have hout : Orderly cfg (freeOutput (s.send n)) := (h.toOrderly.with_data none s.outputBuffer).of_hand rfl
  have hret : Retries (freeOutput (s.send n)) := (h.toRetries.with_data none s.outputBuffer).of_hand rfl
  unfold Fifo.written
  dsimp only
  split
  · rename_i hempty
    refine ⟨armed_of_empty (hout.stop (by decide)) (hret.stop (by decide)) ⟨rfl, hempty⟩, fun hpos => ?_⟩
    exact absurd hempty (Nat.pos_iff_ne_zero.mp hpos)
  · have hfits := (not_buffersExceedPipeSize.mp h.fits).2
    have hw : Writing cfg (freeOutput (s.send n)) :=
      ⟨hout, hret, h.isOpen, h.active, not_buffersExceedPipeSize.mpr ⟨Nat.zero_le _, hfits⟩⟩
    exact ⟨hw.armed, fun _ => hw⟩

theorem armed_writeCb (replies : List WriteReply) (h : Writing cfg s) : Armed cfg (writeCb cfg replies s) := by
  induction replies generalizing s with
  | nil =>
    have hw : Writing cfg (nextOutput s).attempt := h.nextOutput.of_hand rfl
    exact hw.armed
  | cons reply replies ih =>
    have hw : Writing cfg (nextOutput s).attempt := h.nextOutput.of_hand rfl
    unfold writeCb
    cases reply with
    | again => exact hw.armed
    | interrupted => exact hw.armed
    | failed => exact armed_writeFailed hw
    | written more =>
      obtain ⟨harmed, hnext⟩ := hw.written (cfg.taken (nextOutput s).attempt.outputSize more)
      dsimp only
      split
      · rename_i hmore
        exact ih (hnext hmore.2)
      · exact harmed

/-! ### Dumps -/

theorem orderly_joinBuffers (h : Orderly cfg s) : Orderly cfg (joinBuffers s) := by
  unfold joinBuffers
  split
  · exact h
  · exact h.with_data _ _

theorem retries_joinBuffers (h : Retries s) : Retries (joinBuffers s) := by
  unfold joinBuffers
  split
  · exact h
  · exact h.with_data _ _

/-- All data in hand is joined in the block. -/
theorem joinBuffers_outputBuffer (s : State β) : (joinBuffers s).outputBuffer = [] := by
  unfold joinBuffers
  split
  · rename_i h
    exact List.eq_nil_of_length_eq_zero h
  · rfl

theorem hand_openDumpFile (cfg : Config) (mkstemp : Option Bytes) (s : State β) :
    (openDumpFile cfg mkstemp s).1.hand = s.hand := by
  cases mkstemp <;> rfl

theorem hand_closeDumpFile (close : Bool) (data : List β) (s : State β) :
    (closeDumpFile close data s).1.hand = s.hand := by
  cases close <;> rfl

/-- The block is gone, and nothing was in the buffer. -/
theorem armed_freeOutput (h : Orderly cfg s) (hr : Retries s) (hb : s.outputBuffer = []) :
    Armed cfg (freeOutput s) :=
  armed_of_empty (h.with_data none s.outputBuffer) (hr.with_data none s.outputBuffer)
    ⟨rfl, by simp [freeOutput, hb]⟩

theorem outputBuffer_of_hand (hh : t.hand = s.hand) : t.outputBuffer = s.outputBuffer :=
  (Hand.mk.inj hh).2.2.2.1

/-- A request that has been queued owns the block. -/
theorem armed_queued (haio : cfg.aio = true) (h : Orderly cfg s) (hr : Retries s) (hb : s.outputBuffer = []) :
    Armed cfg { s.start .async with request := some (s.output.getD []), output := none } := by
  refine armed_of_empty ?_ ?_ ⟨rfl, by simp [State.start, hb]⟩
  · refine ⟨?_, ?_, by simp [State.start], by simp [State.start], fun _ => haio⟩
    · simpa [State.start] using h.write
    · simpa [State.start] using h.writePending
  · have hstarted := hr.started (w := .async) (by decide) (l := s.loop.start .async) rfl rfl
    exact ⟨hstarted.closed, hstarted.opened⟩

/-- A request that could not be queued leaves the watchers as they were. -/
theorem stop_start_async (h : .async ∉ s.loop.active) (hp : .async ∉ s.loop.pending) :
    (s.loop.start .async).stop .async = s.loop := by
  simp [Loop.stop, Loop.start, Finset.erase_insert h, Finset.erase_eq_of_notMem hp]

theorem armed_asyncDumpData (r : Replies) (haio : cfg.aio = true) (h : Orderly cfg s) (hr : Retries s)
    (hidle : .async ∉ s.loop.active) : Armed cfg (asyncDumpData cfg r s) := by
  have hhand := hand_openDumpFile cfg r.mkstemp (joinBuffers s)
  have ho := (orderly_joinBuffers h).of_hand hhand
  have hret := (retries_joinBuffers hr).of_hand hhand
  have hbuf := (outputBuffer_of_hand hhand).trans (joinBuffers_outputBuffer s)
  have hloop : (openDumpFile cfg r.mkstemp (joinBuffers s)).1.loop = s.loop := by
    rw [(Hand.mk.inj hhand).1]
    unfold joinBuffers
    split <;> rfl
  have hquiet : .async ∉ s.loop.pending := fun hp => hidle (h.asyncPending hp)
  unfold asyncDumpData
  generalize openDumpFile cfg r.mkstemp (joinBuffers s) = p at ho hret hbuf hloop
  obtain ⟨s', created⟩ := p
  dsimp only at ho hret hbuf hloop
  cases created with
  | false => exact armed_freeOutput ho hret hbuf
  | true =>
    dsimp only
    split
    · exact armed_queued haio ho hret hbuf
    · have hsame : ((s'.start .async).logged (.loss .cannotQueue ((s'.start .async).output.getD []))).stop .async =
          s'.logged (.loss .cannotQueue (s'.output.getD [])) := by
        have hl : (s'.loop.start .async).stop .async = s'.loop := by
          rw [hloop]
          exact stop_start_async hidle hquiet
        simp only [State.stop, State.start, State.logged, hl]
      rw [hsame]
      have hclose := hand_closeDumpFile r.close [] (s'.logged (.loss .cannotQueue (s'.output.getD [])))
      exact armed_freeOutput (ho.of_hand hclose) (hret.of_hand hclose) ((outputBuffer_of_hand hclose).trans hbuf)

/-! ### `dispatch_data()` -/

theorem State.stopActive_eq (s : State β) (w : Watcher) (h : w ∈ s.loop.pending → w ∈ s.loop.active) :
    s.stopActive w = s.stop w := by
  unfold State.stopActive
  split
  · rfl
  · rename_i hw
    have hp : w ∉ s.loop.pending := fun hp => hw (h hp)
    simp [State.stop, Loop.stop, Finset.erase_eq_of_notMem hw, Finset.erase_eq_of_notMem hp]

/-- The write watcher is started. -/
theorem writing_start (h : Orderly cfg s) (hr : Retries s) (ho : s.isOpen = true)
    (hfits : ¬ BuffersExceedPipeSize cfg s) : Writing cfg (s.start .write) := by
  refine ⟨⟨fun _ => ho, fun _ => ?_, ?_, ?_, h.aio⟩, hr.started (by decide) rfl rfl, ho, ?_, hfits⟩
  · exact Finset.mem_insert_self _ _
  · simpa [State.start] using h.async
  · simpa [State.start] using h.asyncPending
  · exact Finset.mem_insert_self _ _

/-- `dispatch_data()` makes the watchers fit the data. -/
theorem armed_dispatchData (r : Replies) (h : Orderly cfg s) (hr : Retries s) : Armed cfg (dispatchData cfg r s) := by
  unfold dispatchData
  split
  · rename_i hc
    exact armed_of_closed h hr hc
  rename_i hc
  have ho : s.isOpen = true := by simpa using hc
  split
  · rename_i hfits
    split
    · rename_i hact
      have hw : Writing cfg s := ⟨h, hr, ho, hact, hfits⟩
      exact hw.armed
    · exact armed_writeCb _ (writing_start h hr ho hfits)
  · rename_i hlarge
    rw [not_not] at hlarge
    rw [State.stopActive_eq s .write h.writePending]
    have hs := h.stop (w := .write) (by decide)
    have hrs := hr.stop (w := .write) (by decide)
    have hoff : .write ∉ (s.stop .write).loop.active := Finset.notMem_erase _ _
    dsimp only
    split
    · rename_i haio
      split
      · rename_i hasync
        exact armed_of_large hs hrs hoff hlarge (by rw [if_pos haio]; exact hasync)
      · rename_i hasync
        exact armed_asyncDumpData r haio hs hrs hasync
    · rename_i haio
      split
      · rename_i hidle
        exact armed_of_large hs hrs hoff hlarge (by rw [if_neg haio]; exact hidle)
      · have hs' : Orderly cfg ((s.stop .write).startTimer .timeout) :=
          hs.started (w := .timeout) (by decide) (by simp) (by simp)
        have hrs' : Retries ((s.stop .write).startTimer .timeout) :=
          hrs.started (w := .timeout) (by decide) (by simp) (by simp)
        have hoff' : .write ∉ (((s.stop .write).startTimer .timeout).start .idle).loop.active := by
          simp [State.start, State.startTimer, State.stop]
        refine armed_of_large (hs'.started (w := .idle) (by decide) rfl rfl)
          (hrs'.started (w := .idle) (by decide) rfl rfl) hoff' hlarge ?_
        rw [if_neg haio]
        exact Finset.mem_insert_self _ _

/-! ### A callback queues nothing -/

theorem nextOutput_loop (s : State β) : (nextOutput s).loop = s.loop := by
  unfold nextOutput
  split <;> rfl

theorem joinBuffers_loop (s : State β) : (joinBuffers s).loop = s.loop := by
  unfold joinBuffers
  split <;> rfl

theorem writeCb_pending (replies : List WriteReply) (s : State β) :
    (writeCb cfg replies s).loop.pending ⊆ s.loop.pending := by
  induction replies generalizing s with
  | nil => exact (congrArg Loop.pending (nextOutput_loop s)).subset
  | cons reply replies ih =>
    have hnext : (nextOutput s).attempt.loop.pending ⊆ s.loop.pending :=
      (congrArg Loop.pending (nextOutput_loop s)).subset
    unfold writeCb
    generalize (nextOutput s).attempt = s' at hnext
    cases reply with
    | again => exact hnext
    | interrupted => exact hnext
    | failed =>
      refine Finset.Subset.trans ?_ hnext
      simp [writeFailed, State.startTimer, State.stop, State.logged, Finset.erase_subset]
    | written more =>
      have hwritten : ∀ n, (written n s').loop.pending ⊆ s'.loop.pending := by
        intro n
        unfold written
        dsimp only
        split
        · exact Finset.erase_subset _ _
        · exact subset_rfl
      dsimp only
      split
      · exact (ih _).trans ((hwritten _).trans hnext)
      · exact (hwritten _).trans hnext

theorem asyncDumpData_pending (r : Replies) (s : State β) :
    (asyncDumpData cfg r s).loop.pending ⊆ s.loop.pending := by
  have hloop : (openDumpFile cfg r.mkstemp (joinBuffers s)).1.loop = s.loop :=
    (Hand.mk.inj (hand_openDumpFile cfg r.mkstemp (joinBuffers s))).1.trans (joinBuffers_loop s)
  unfold asyncDumpData
  generalize openDumpFile cfg r.mkstemp (joinBuffers s) = p at hloop
  obtain ⟨s', created⟩ := p
  dsimp only at hloop
  cases created with
  | false => simp [freeOutput, hloop]
  | true =>
    dsimp only
    split
    · simp [State.start, hloop]
    · cases r.close <;>
        simp [freeOutput, closeDumpFile, State.stop, State.start, State.logged, hloop, Finset.erase_subset]

theorem dispatchData_pending (r : Replies) (s : State β) :
    (dispatchData cfg r s).loop.pending ⊆ s.loop.pending := by
  have hstop : (s.stopActive .write).loop.pending ⊆ s.loop.pending := by
    unfold State.stopActive
    split
    · exact Finset.erase_subset _ _
    · exact subset_rfl
  unfold dispatchData
  split
  · exact subset_rfl
  split
  · split
    · exact subset_rfl
    · exact writeCb_pending _ _
  · dsimp only
    split
    · split
      · exact hstop
      · exact (asyncDumpData_pending r _).trans hstop
    · split
      · exact hstop
      · simpa [State.start, State.startTimer] using hstop

/-! ### Exported functions and callbacks -/

theorem Flowing.of_hand (h : Flowing cfg s) (hh : t.hand = s.hand) : Flowing cfg t := by
  obtain ⟨hl, ho, hout, hbuf, -⟩ := Hand.mk.inj hh
  have hempty : BuffersAreEmpty t ↔ BuffersAreEmpty s := by rw [BuffersAreEmpty, BuffersAreEmpty, hout, hbuf]
  refine ⟨h.toOrderly.of_hand hh, h.toRetries.of_hand hh, ?_, ?_⟩
  · rw [hl, exceed_of_hand hh]
    exact h.small
  · rw [hl, ho, hempty, exceed_of_hand hh]
    exact h.ready

theorem Armed.of_hand (h : Armed cfg s) (hh : t.hand = s.hand) : Armed cfg t := by
  refine ⟨h.toFlowing.of_hand hh, ?_⟩
  obtain ⟨hl, ho, -, -, -⟩ := Hand.mk.inj hh
  rw [hl, ho, exceed_of_hand hh]
  exact h.large

theorem armed_fifoWrite (data : List β) (freeData : Bool) (r : Replies) (h : Orderly cfg s) (hr : Retries s) :
    Armed cfg (fifoWrite cfg data freeData r s) := by
  unfold fifoWrite
  split
  · exact armed_dispatchData r (h.with_data _ _) (hr.with_data _ _)
  · unfold throwAway
    dsimp only
    split
    · exact armed_dispatchData r ((h.with_data _ _).of_hand rfl) ((hr.with_data _ _).of_hand rfl)
    · exact armed_dispatchData r (h.with_data _ _) (hr.with_data _ _)

/-- `retryOpen` makes up for an attempt that has failed. -/
theorem armed_retryOpen (h : Orderly cfg s) (hp : .reopen ∉ s.loop.pending) (ho : s.isOpen = true → Armed cfg s) :
    Armed cfg (retryOpen s) := by
  unfold retryOpen
  split
  · rename_i hc
    refine armed_of_closed (h.started (w := .reopen) (by decide) (by simp) (by simp)) ⟨fun _ => ?_, fun ho => ?_⟩ hc
    · simp [State.startTimer, hp]
    · exact absurd ho (by simp [State.startTimer, hc])
  · rename_i hc
    exact ho (by simpa using hc)

/-- The FIFO has just been opened. -/
structure Opened (cfg : Config) (s u : State β) : Prop extends Orderly cfg u, Retries u where
  hand : u.hand = ⟨s.loop.ioSet .write .write, true, s.output, s.outputBuffer, s.request⟩

theorem openCb_opened (custom : Bool) (r : Replies) (h : Orderly cfg s) (ha : .reopen ∉ s.loop.active)
    (hp : .reopen ∉ s.loop.pending) : ∃ u, Opened cfg s u ∧
      openCb cfg custom .opened r s = retryOpen (if BuffersAreEmpty u then u else dispatchData cfg r u) := by
  have ho : Orderly cfg { s with isOpen := true, loop := s.loop.ioSet .write .write } :=
    ⟨fun _ => rfl, by simpa using h.writePending, by simpa using h.async, by simpa using h.asyncPending, h.aio⟩
  have hr : Retries { s with isOpen := true, loop := s.loop.ioSet .write .write } := by
    refine ⟨fun hc => ?_, fun _ => ?_⟩
    · cases hc
    · simpa using ⟨ha, hp⟩
  cases custom with
  | true => exact ⟨{ s with isOpen := true, loop := s.loop.ioSet .write .write }, ⟨ho, hr, rfl⟩, rfl⟩
  | false =>
    exact ⟨{ s with isOpen := true, loop := s.loop.ioSet .write .write }.logged .opened,
      ⟨ho.of_hand rfl, hr.of_hand rfl, rfl⟩, rfl⟩

theorem armed_openCb (custom : Bool) (reply : OpenReply) (r : Replies) (h : Orderly cfg s) (hc : s.isOpen = false)
    (ha : .reopen ∉ s.loop.active) (hp : .reopen ∉ s.loop.pending) : Armed cfg (openCb cfg custom reply r s) := by
  have hoff : .write ∉ s.loop.active := fun hw => absurd (h.write hw) (by simp [hc])
  have hfailed : ∀ m : Message β, Armed cfg (retryOpen ({ s with isOpen := false }.logged m)) := by
    intro m
    refine armed_retryOpen ⟨fun hw => absurd hw hoff, h.writePending, h.async, h.asyncPending, h.aio⟩ hp ?_
    intro ho
    cases ho
  cases reply with
  | failed noReader => exact hfailed _
  | noStatus => exact hfailed _
  | notFifo => exact hfailed _
  | opened =>
    obtain ⟨u, hu, heq⟩ := openCb_opened custom r h ha hp
    have hquiet : .reopen ∉ u.loop.pending := by
      rw [(Hand.mk.inj hu.hand).1]
      simpa using hp
    rw [heq]
    split
    · rename_i hempty
      exact armed_retryOpen hu.toOrderly hquiet fun _ => armed_of_empty hu.toOrderly hu.toRetries hempty
    · have harmed := armed_dispatchData r hu.toOrderly hu.toRetries
      exact armed_retryOpen harmed.toOrderly (fun hq => hquiet (dispatchData_pending r u hq)) fun _ => harmed

/-- The request is done with. -/
theorem Flowing.answered (h : Flowing cfg s) : Flowing cfg { s.stop .async with request := none } := by
  refine ⟨⟨?_, ?_, ?_, ?_, fun hr => ?_⟩, ⟨?_, ?_⟩, ?_, ?_⟩
  · simpa [State.stop] using h.write
  · simpa [State.stop] using h.writePending
  · simp [State.stop]
  · simp [State.stop]
  · cases hr
  · simpa [State.stop] using h.closed
  · simpa [State.stop] using h.opened
  · exact fun hw => h.small (Finset.mem_of_mem_erase hw)
  · intro ho hne hfits
    exact Finset.mem_erase.mpr ⟨by decide, h.ready ho hne hfits⟩

theorem orderly_initial (cfg : Config) (now : ℚ) : Orderly cfg (initial now : State β) := by
  refine ⟨?_, ?_, ?_, ?_, ?_⟩ <;> simp [initial]

theorem armed_fifoStart (cfg : Config) (reply : OpenReply) (r : Replies) (now : ℚ) :
    Armed cfg (fifoStart cfg reply r now : State β) :=
  armed_openCb true reply r (orderly_initial cfg now) rfl (Finset.notMem_empty _) (Finset.notMem_empty _)

/-- Events are queued or taken from the queue. -/
theorem Armed.with_loop (h : Armed cfg s) {l : Loop Watcher} (ha : l.active = s.loop.active)
    (hw : .write ∈ l.pending → .write ∈ l.active) (hasync : .async ∈ l.pending → .async ∈ l.active)
    (hr : .reopen ∈ l.pending ↔ .reopen ∈ s.loop.pending) : Armed cfg { s with loop := l } := by
  obtain ⟨⟨⟨h1, h2, h3, h4, h5⟩, ⟨h6, h7⟩, h8, h9⟩, h10⟩ := h
  rw [← ha] at h1 h3 h6 h7 h8 h9 h10
  rw [← hr] at h6 h7
  exact ⟨⟨⟨h1, hw, h3, hasync, h5⟩, ⟨h6, h7⟩, h8, h9⟩, h10⟩

theorem Orderly.take (h : Orderly cfg s) (w : Watcher) : Orderly cfg { s with loop := s.loop.take w } := by
  refine ⟨h.write, fun hp => ?_, h.async, fun hp => ?_, h.aio⟩
  · exact h.writePending (Finset.mem_of_mem_erase hp)
  · exact h.asyncPending (Finset.mem_of_mem_erase hp)

/-- A watcher's event is taken, but not that of the timer that reopens the FIFO. -/
theorem Armed.take (h : Armed cfg s) {w : Watcher} (hw : w ≠ .reopen) :
    Armed cfg { s with loop := s.loop.take w } :=
  h.with_loop rfl (h.toOrderly.take w).writePending (h.toOrderly.take w).asyncPending (by simp [hw.symm])

theorem armed_expire (h : Armed cfg s) {w : Watcher} (hact : w ∈ s.loop.active) (hw : w.isTimer = true) :
    Armed cfg { s with loop := s.loop.expire w } := by
  have hne : w ≠ .write ∧ w ≠ .async ∧ w ≠ .idle := by cases w <;> simp_all [Watcher.isTimer]
  refine ⟨⟨⟨?_, ?_, ?_, ?_, h.aio⟩, ⟨fun hc => ?_, fun ho => ?_⟩, ?_, fun ho he hf => ?_⟩, fun ho hl => ?_⟩
  · simpa [hne.1.symm] using h.write
  · simpa [hne.1.symm] using h.writePending
  · simpa [hne.2.1.symm] using h.async
  · simpa [hne.2.1.symm] using h.asyncPending
  · by_cases hr : w = .reopen
    · simp [hr]
    · simpa [Ne.symm hr] using h.closed hc
  · by_cases hr : w = .reopen
    · exact absurd (hr ▸ hact) (h.opened ho).1
    · simpa [Ne.symm hr] using h.opened ho
  · exact fun hw => h.small (Finset.mem_of_mem_erase hw)
  · exact Finset.mem_erase.mpr ⟨hne.1.symm, h.ready ho he hf⟩
  · have := h.large ho hl
    split
    · rename_i haio
      rw [if_pos haio] at this
      exact Finset.mem_erase.mpr ⟨hne.2.1.symm, this⟩
    · rename_i haio
      rw [if_neg haio] at this
      exact Finset.mem_erase.mpr ⟨hne.2.2.symm, this⟩

/-- `write_cb()` is called with something to write. -/
theorem Armed.writing_take (hs : Armed cfg s) (hp : .write ∈ s.loop.pending) :
    Writing cfg { s with loop := s.loop.take .write } := by
  have hact := hs.writePending hp
  have htake := hs.take (w := .write) (by decide)
  exact ⟨htake.toOrderly, htake.toRetries, hs.write hact, hact, hs.small hact⟩

/-- The watchers of a dump are stopped. -/
theorem calm_stopIdle (h : Orderly cfg s) (hr : Retries s) :
    Orderly cfg ((s.stop .idle).stopActive .timeout) ∧ Retries ((s.stop .idle).stopActive .timeout) := by
  unfold State.stopActive
  split
  · exact ⟨(h.stop (by decide)).stop (by decide), (hr.stop (by decide)).stop (by decide)⟩
  · exact ⟨h.stop (by decide), hr.stop (by decide)⟩

section

variable [Cell β]

/-- Either the file cannot be closed, or a command is written. -/
theorem processDumpFile_cases (cfg : Config) (time : ℕ) (close : Bool) (contents : List β) (r : Replies)
    (s : State β) :
    (processDumpFile cfg time close contents r s).hand = s.hand ∨
      ∃ s' command, s'.hand = s.hand ∧
        processDumpFile cfg time close contents r s = fifoWrite cfg command true r s' := by
  cases close with
  | false => exact Or.inl rfl
  | true =>
    exact Or.inr ⟨(closeDumpFile true contents s).1.filed ⟨makeProcessFileCommand time s, contents⟩,
      Cell.command s.history.files.length (makeProcessFileCommand time s), rfl, rfl⟩

theorem armed_idleCb (d : DumpReplies) (r : Replies) (h : Orderly cfg s) (hr : Retries s) :
    Armed cfg (idleCb cfg d r s) := by
  obtain ⟨h, hr⟩ := calm_stopIdle h hr
  unfold idleCb
  generalize (s.stop .idle).stopActive .timeout = s at h hr
  have hhand := hand_openDumpFile cfg d.mkstemp (joinBuffers s)
  have ho := (orderly_joinBuffers h).of_hand hhand
  have hret := (retries_joinBuffers hr).of_hand hhand
  have hbuf := (outputBuffer_of_hand hhand).trans (joinBuffers_outputBuffer s)
  unfold syncDumpData
  generalize openDumpFile cfg d.mkstemp (joinBuffers s) = p at ho hret hbuf
  obtain ⟨s', created⟩ := p
  dsimp only at ho hret hbuf
  cases created with
  | false => exact armed_freeOutput ho hret hbuf
  | true =>
    dsimp only
    split
    · have hclose := hand_closeDumpFile d.close []
        (s'.logged (.loss (.cannotWrite (s'.dumpFile.getD [])) (s'.output.getD [])))
      exact armed_freeOutput (ho.of_hand hclose) (hret.of_hand hclose) ((outputBuffer_of_hand hclose).trans hbuf)
    · rename_i contents _
      have harmed := armed_freeOutput ho hret hbuf
      rcases processDumpFile_cases cfg d.time d.close contents r (freeOutput s') with hsame | ⟨u, c, hu, heq⟩
      · exact harmed.of_hand hsame
      · rw [heq]
        exact armed_fifoWrite _ _ _ (harmed.toOrderly.of_hand hu) (harmed.toRetries.of_hand hu)

theorem flowing_requestDone (reply : AioReply) (time : ℕ) (close : Bool) (r : Replies) (h : Flowing cfg s) :
    Flowing cfg (requestDone cfg reply time close r s) := by
  have hflow := h.answered
  unfold requestDone
  cases reply with
  | failed => exact hflow.of_hand rfl
  | wrote n =>
    dsimp only
    split
    · exact hflow.of_hand rfl
    · rcases processDumpFile_cases cfg time close (s.request.getD []) r
        { s.stop .async with request := none } with hsame | ⟨u, c, hu, heq⟩
      · exact hflow.of_hand hsame
      · rw [heq]
        exact (armed_fifoWrite _ _ _ (hflow.toOrderly.of_hand hu) (hflow.toRetries.of_hand hu)).toFlowing

theorem armed_asyncCb (reply : AioReply) (time : ℕ) (close : Bool) (r r' : Replies) (h : Flowing cfg s) :
    Armed cfg (asyncCb cfg reply time close r r' s) := by
  have hdone := flowing_requestDone reply time close r h
  unfold asyncCb
  dsimp only
  split
  · exact armed_dispatchData r' hdone.toOrderly hdone.toRetries
  · rename_i hfits
    exact hdone.armed hfits

/-! ### Steps -/

/-- `open_cb()` is called while the FIFO is closed, and its timer is off. -/
theorem Armed.openCb_eq (hs : Armed cfg s) {reply : OpenReply} {r : Replies}
    (h : step cfg s (.openCb reply r) = some t) :
    s.isOpen = false ∧ .reopen ∉ s.loop.active ∧ .reopen ∉ (s.loop.take .reopen).pending ∧
      t = openCb cfg false reply r { s with loop := s.loop.take .reopen } := by
  obtain ⟨hp, rfl⟩ := invoke_eq_some h
  have hc : s.isOpen = false := by
    by_contra ho
    exact (hs.opened (by simpa using ho)).2 hp
  exact ⟨hc, fun ha => (hs.closed hc).mp ha hp, Finset.notMem_erase _ _, rfl⟩

theorem armed_step {e : Event β} (hs : Armed cfg s) (h : step cfg s e = some t) : Armed cfg t := by
  cases e with
  | advance time =>
    obtain rfl := Option.some.inj h
    exact hs.with_loop rfl hs.writePending hs.asyncPending Iff.rfl
  | ready w =>
    dsimp only [step] at h
    split at h
    · rename_i hw
      obtain rfl := Option.some.inj h
      have hne : w ≠ .reopen := by
        rintro rfl
        exact absurd hw.2 (by decide)
      refine hs.with_loop rfl (fun hp => ?_) (fun hp => ?_) (by simp [hne.symm])
      · rcases Finset.mem_insert.mp hp with rfl | hp
        · exact hw.1
        · exact hs.writePending hp
      · rcases Finset.mem_insert.mp hp with rfl | hp
        · exact hw.1
        · exact hs.asyncPending hp
    · cases h
  | expire w =>
    dsimp only [step] at h
    split at h
    · rename_i hw
      obtain rfl := Option.some.inj h
      exact armed_expire hs hw.1 hw.2.1
    · cases h
  | openCb reply r =>
    obtain ⟨hc, ha, hp, rfl⟩ := hs.openCb_eq h
    exact armed_openCb false reply r (hs.toOrderly.take .reopen) hc ha hp
  | writeCb replies =>
    obtain ⟨hp, rfl⟩ := invoke_eq_some h
    exact armed_writeCb replies (hs.writing_take hp)
  | asyncCb reply time close r r' =>
    obtain ⟨-, h⟩ := Option.ite_none_right_eq_some.mp h
    obtain ⟨-, rfl⟩ := invoke_eq_some h
    exact armed_asyncCb reply time close r r' (hs.take (by decide)).toFlowing
  | idleCb d r =>
    obtain ⟨-, h⟩ := Option.ite_none_left_eq_some.mp h
    obtain ⟨-, rfl⟩ := invoke_eq_some h
    have htake := hs.take (w := .idle) (by decide)
    exact armed_idleCb d r htake.toOrderly htake.toRetries
  | timeoutCb d r =>
    obtain ⟨-, h⟩ := Option.ite_none_left_eq_some.mp h
    obtain ⟨-, rfl⟩ := invoke_eq_some h
    have htake := hs.take (w := .timeout) (by decide)
    exact armed_idleCb d r htake.toOrderly htake.toRetries
  | fifoWrite data freeData r =>
    obtain rfl := Option.some.inj h
    exact armed_fifoWrite data freeData r hs.toOrderly hs.toRetries

/-- The watchers of the writer always fit the data in hand. -/
theorem Reachable.armed (h : Reachable cfg s) : Armed cfg s := by
  obtain ⟨reply, r, now, es, hruns⟩ := h
  exact hruns.invariant (fun _ _ _ hs hstep => armed_step hs hstep) (armed_fifoStart cfg reply r now)

/-- **The writer never stalls.** While the FIFO is closed, the timer to reopen it runs or has expired;
and while it is open and there is data, the FIFO is waited for, or a dump is on its way. -/
theorem never_stalls (h : Reachable cfg s) :
    (s.isOpen = false → .reopen ∈ s.loop.active ∨ .reopen ∈ s.loop.pending) ∧
      (s.isOpen = true → s.output.getD [] ≠ [] ∨ s.outputBuffer ≠ [] →
        .write ∈ s.loop.active ∨ (cfg.aio = true ∧ s.request.isSome = true) ∨
          (cfg.aio = false ∧ .idle ∈ s.loop.active)) := by
  have harmed := h.armed
  refine ⟨fun hc => ?_, fun ho hdata => ?_⟩
  · by_cases hact : .reopen ∈ s.loop.active
    · exact Or.inl hact
    · exact Or.inr (not_not.mp (mt (harmed.closed hc).mpr hact))
  · have hne : ¬ BuffersAreEmpty s := by
      rintro ⟨hout, hbuf⟩
      rcases hdata with h1 | h1
      · exact h1 (by rw [hout]; rfl)
      · exact h1 (List.eq_nil_of_length_eq_zero hbuf)
    by_cases hlarge : BuffersExceedPipeSize cfg s
    · have hdump := harmed.large ho hlarge
      by_cases haio : cfg.aio = true
      · rw [if_pos haio] at hdump
        exact Or.inr (Or.inl ⟨haio, harmed.async.mp hdump⟩)
      · rw [if_neg haio] at hdump
        exact Or.inr (Or.inr ⟨by simpa using haio, hdump⟩)
    · exact Or.inl (harmed.ready ho hne hlarge)

end

/-- The pipe is full when a record comes in. -/
theorem never_stalls_full : ∃ s : State UInt8,
    Machine.run (step (Config.standard false)) (fifoStart (Config.standard false) .opened ⟨[], none, true, true⟩ 0)
      [.fifoWrite (ascii "x\n") true ⟨[.again], none, true, true⟩] = some s ∧
    ((s.isOpen = false → .reopen ∈ s.loop.active ∨ .reopen ∈ s.loop.pending) ∧
      (s.isOpen = true → s.output.getD [] ≠ [] ∨ s.outputBuffer ≠ [] →
        .write ∈ s.loop.active ∨ ((Config.standard false).aio = true ∧ s.request.isSome = true) ∨
          ((Config.standard false).aio = false ∧ .idle ∈ s.loop.active))) := by
  obtain ⟨s, hs⟩ := Option.isSome_iff_exists.mp (by decide +kernel : Option.isSome
    (Machine.run (step (Config.standard false))
      (fifoStart (Config.standard false) .opened ⟨[], none, true, true⟩ 0 : State UInt8)
      [.fifoWrite (ascii "x\n") true ⟨[.again], none, true, true⟩]) = true)
  exact ⟨s, hs, never_stalls ⟨.opened, ⟨[], none, true, true⟩, 0, _, Machine.runs_of_run hs⟩⟩

end Fifo
end NscaNg
