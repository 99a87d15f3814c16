/-
# The limit of the queue

`max_queue_size` is how many megabytes the command file writer queues. `fifo_write()` looks at the size
of the buffer before it appends a record to it, and throws the buffer away if it would become too large;
but the block in front of the buffer is not counted, a record that is larger than the limit is queued
all the same, and the limit in bytes is a `size_t`. `FitsQueue` says of a record what is enough for it to be
queued within the limit, and not to have anything thrown away without need. As long as all records are of
this kind, no more than `max_queue_size` megabytes are ever held (`queue_limit`).
-/
import NscaNg.Server.FifoWatchers

namespace NscaNg
namespace Fifo

open Posix Libev

variable {β : Type} {cfg : Config} {s t u : State β}

/-- The `max_queue_size` of the configuration, in bytes. -/
def Config.maxQueueBytes (cfg : Config) : ℕ := cfg.maxQueueSize * 1024 * 1024

/-- The bytes that are held in memory. -/
def State.held (s : State β) : ℕ := s.outputSize + s.outputBuffer.length

/-- The data that is thrown away because too much is queued. -/
def Message.thrown : Message β → Option (List β)
  | .loss (.throwingAway _) data => some data
  | .loss (.cannotCreate _) _ | .loss .cannotQueue _ | .loss (.cannotWrite _) _ | .loss (.wrote _ _ _) _
  | .loss (.cannotClose _) _ => none
  | .noReader | .cannotOpen | .noStatus | .notFifo | .opened | .cannotWriteFifo => none

def State.thrown (s : State β) : List (List β) := s.history.log.filterMap Message.thrown

/-! ### Nothing comes in -/

/-- No more is held, and nothing is thrown away. -/
structure Eases (s t : State β) : Prop where
  held : t.held ≤ s.held
  thrown : t.thrown = s.thrown

theorem Eases.refl (s : State β) : Eases s s := ⟨le_rfl, rfl⟩

theorem Eases.trans (h : Eases s t) (h' : Eases t u) : Eases s u :=
  ⟨h'.held.trans h.held, h'.thrown.trans h.thrown⟩

theorem eases_logged {m : Message β} (hm : m.thrown = none) (s : State β) : Eases s (s.logged m) :=
  ⟨le_rfl, by simp [State.thrown, State.logged, hm]⟩

theorem eases_freeOutput (s : State β) : Eases s (freeOutput s) :=
  ⟨Nat.add_le_add_right (Nat.zero_le _) _, rfl⟩

theorem eases_stopActive (w : Watcher) (s : State β) : Eases s (s.stopActive w) := by
  unfold State.stopActive
  split
  · exact ⟨le_rfl, rfl⟩
  · exact Eases.refl s

theorem eases_nextOutput (s : State β) : Eases s (nextOutput s) := by
  unfold nextOutput
  split
  · exact Eases.refl s
  · exact ⟨by simp [State.held, State.outputSize], rfl⟩

theorem eases_written (n : ℕ) (s : State β) : Eases s (written n s) := by
  have hsend : Eases s (s.send n) := ⟨le_rfl, rfl⟩
  have hfree := hsend.trans (eases_freeOutput (s.send n))
  unfold written
  dsimp only
  split
  · exact hfree.trans ⟨le_rfl, rfl⟩
  · exact hfree

theorem eases_writeCb (replies : List WriteReply) (s : State β) : Eases s (writeCb cfg replies s) := by
  induction replies generalizing s with
  | nil => exact (eases_nextOutput s).trans ⟨le_rfl, rfl⟩
  | cons reply replies ih =>
    have hnext : Eases s (nextOutput s).attempt := (eases_nextOutput s).trans ⟨le_rfl, rfl⟩
    refine hnext.trans ?_
    unfold writeCb
    generalize (nextOutput s).attempt = s
    cases reply with
    | again => exact Eases.refl s
    | interrupted => exact Eases.refl s
    | failed => exact (eases_logged (m := .cannotWriteFifo) rfl s).trans ⟨le_rfl, rfl⟩
    | written more =>
      have hdone := eases_written (cfg.taken s.outputSize more) s
      dsimp only
      split
      · exact hdone.trans (ih _)
      · exact hdone

/-! ### Dumps -/

theorem eases_joinBuffers (s : State β) : Eases s (joinBuffers s) := by
  unfold joinBuffers
  split
  · exact Eases.refl s
  · exact ⟨by simp [State.held, State.outputSize], rfl⟩

theorem eases_openDumpFile (cfg : Config) (mkstemp : Option Bytes) (s : State β) :
    Eases s (openDumpFile cfg mkstemp s).1 := by
  cases mkstemp with
  | none => exact (eases_logged rfl s).trans ⟨le_rfl, rfl⟩
  | some suffix => exact ⟨le_rfl, rfl⟩

theorem eases_closeDumpFile (close : Bool) (data : List β) (s : State β) :
    Eases s (closeDumpFile close data s).1 := by
  cases close with
  | false => exact ⟨le_rfl, by simp [closeDumpFile, State.thrown, State.logged, Message.thrown]⟩
  | true => exact ⟨le_rfl, rfl⟩

/-- The buffer is joined to the block. -/
theorem joinBuffers_output (s : State β) : (joinBuffers s).output.getD [] = s.output.getD [] ++ s.outputBuffer := by
  unfold joinBuffers
  split
  · rename_i h
    rw [List.eq_nil_of_length_eq_zero h, List.append_nil]
  · rfl

theorem joinBuffers_history (s : State β) : (joinBuffers s).history = s.history := by
  unfold joinBuffers
  split <;> rfl

/-- The dump file is closed, and the block given up. -/
theorem freeOutput_clears (close : Bool) (data : List β) (hbuf : s.outputBuffer = []) :
    (freeOutput (closeDumpFile close data s).1).held = 0 ∧
      (freeOutput (closeDumpFile close data s).1).thrown = s.thrown := by
  have hclose := outputBuffer_of_hand (hand_closeDumpFile close data s)
  refine ⟨?_, (eases_closeDumpFile close data s).thrown⟩
  simp [State.held, State.outputSize, freeOutput, hclose, hbuf]

/-- The block and the buffer are given to a request, or given up. -/
theorem asyncDumpData_clears (cfg : Config) (r : Replies) (s : State β) :
    (asyncDumpData cfg r s).held = 0 ∧ (asyncDumpData cfg r s).thrown = s.thrown := by
  have heases := (eases_joinBuffers s).trans (eases_openDumpFile cfg r.mkstemp (joinBuffers s))
  have hbuf := (outputBuffer_of_hand (hand_openDumpFile cfg r.mkstemp (joinBuffers s))).trans
    (joinBuffers_outputBuffer s)
  unfold asyncDumpData
  generalize openDumpFile cfg r.mkstemp (joinBuffers s) = p at heases hbuf
  obtain ⟨v, created⟩ := p
  dsimp only at heases hbuf
  cases created with
  | false => exact ⟨by simp [State.held, State.outputSize, freeOutput, hbuf], heases.thrown⟩
  | true =>
    dsimp only
    split
    · exact ⟨by simp [State.held, State.outputSize, State.start, hbuf], heases.thrown⟩
    · have hlogged := (eases_logged (m := .loss .cannotQueue (v.output.getD [])) rfl v).thrown
      have hclear := freeOutput_clears r.close []
        (s := ((v.start .async).logged (.loss .cannotQueue ((v.start .async).output.getD []))).stop .async) hbuf
      exact ⟨hclear.1, hclear.2.trans (hlogged.trans heases.thrown)⟩

/-! ### `dispatch_data()` -/

theorem eases_dispatchData (r : Replies) (s : State β) : Eases s (dispatchData cfg r s) := by
  unfold dispatchData
  split
  · exact Eases.refl s
  · split
    · split
      · exact Eases.refl s
      · have hstart : Eases s (s.start .write) := ⟨le_rfl, rfl⟩
        exact hstart.trans (eases_writeCb r.writes (s.start .write))
    · have hstop := eases_stopActive .write s
      refine hstop.trans ?_
      generalize s.stopActive .write = s
      dsimp only
      split
      · split
        · exact Eases.refl s
        · obtain ⟨hheld, hthrown⟩ := asyncDumpData_clears cfg r s
          exact ⟨hheld ▸ Nat.zero_le _, hthrown⟩
      · split
        · exact Eases.refl s
        · exact ⟨le_rfl, rfl⟩

theorem mem_stopActive_async (s : State β) :
    .async ∈ (s.stopActive .write).loop.active ↔ .async ∈ s.loop.active := by
  unfold State.stopActive
  split
  · simp [State.stop]
  · rfl

/-- All that is held is handed over at once. -/
theorem dispatchData_dumps (r : Replies) (hopen : s.isOpen = true) (haio : cfg.aio = true)
    (hidle : .async ∉ s.loop.active) (hlarge : BuffersExceedPipeSize cfg s) :
    (dispatchData cfg r s).held = 0 := by
  unfold dispatchData
  rw [if_neg (by simp [hopen]), if_neg (not_not.mpr hlarge), if_pos haio,
    if_neg (mt (mem_stopActive_async s).mp hidle)]
  exact (asyncDumpData_clears cfg r _).1

/-- Nothing can be done for now. -/
theorem dispatchData_waits (r : Replies) (hlarge : BuffersExceedPipeSize cfg s)
    (hwaits : ¬ (s.isOpen = true ∧ cfg.aio = true ∧ .async ∉ s.loop.active)) :
    (dispatchData cfg r s).held = s.held := by
  have hstop : (s.stopActive .write).held = s.held := by
    unfold State.stopActive
    split <;> rfl
  unfold dispatchData
  split
  · rfl
  · rename_i hopen
    dsimp only
    split
    · rename_i haio
      have hact : .async ∈ s.loop.active := by
        by_contra hc
        exact hwaits ⟨by simpa using hopen, haio, hc⟩
      rw [if_pos ((mem_stopActive_async s).mpr hact)]
      exact hstop
    · split
      · exact hstop
      · exact hstop

/-! ### `fifo_write()` -/

/-- The buffer is too large with a record of this size. -/
def Throws (cfg : Config) (size : ℕ) (s : State β) : Prop :=
  0 < cfg.queueLimit ∧ cfg.queueLimit < s.outputBuffer.length + size

instance decidableThrows (size : ℕ) (s : State β) : Decidable (Throws cfg size s) := by
  unfold Throws
  infer_instance

/-- What is too large for the limit is given to the system at once. -/
def DumpsAtOnce (cfg : Config) (s : State β) : Prop :=
  s.isOpen = true ∧ cfg.aio = true ∧ .async ∉ s.loop.active ∧ 2 * cfg.pipeBuf ≤ cfg.maxQueueBytes

instance decidableDumpsAtOnce (s : State β) : Decidable (DumpsAtOnce cfg s) := by
  unfold DumpsAtOnce
  infer_instance

/-- What is left of the buffer. -/
def keptSize (cfg : Config) (size : ℕ) (s : State β) : ℕ := if Throws cfg size s then 0 else s.outputBuffer.length

/-- There is room for a record of this size behind the block and what is left of the buffer, and the buffer
is thrown away only if there is no room behind all of it. -/
structure FitsQueue (cfg : Config) (size : ℕ) (s : State β) : Prop where
  room : s.outputSize + keptSize cfg size s + size ≤ cfg.maxQueueBytes ∨ DumpsAtOnce cfg s
  needed : Throws cfg size s → s.outputBuffer ≠ [] → cfg.maxQueueBytes < s.held + size

instance decidableFitsQueue (size : ℕ) (s : State β) : Decidable (FitsQueue cfg size s) :=
  decidable_of_iff
    ((s.outputSize + keptSize cfg size s + size ≤ cfg.maxQueueBytes ∨ DumpsAtOnce cfg s) ∧
      (Throws cfg size s → 0 < s.outputBuffer.length → cfg.maxQueueBytes < s.held + size))
    ⟨fun h => ⟨h.1, fun ht hne => h.2 ht (List.length_pos_iff.mpr hne)⟩,
      fun h => ⟨h.room, fun ht hpos => h.needed ht (List.length_pos_iff.mp hpos)⟩⟩

theorem FitsQueue.congr {size : ℕ} (h : FitsQueue cfg size s) (hactive : t.loop.active = s.loop.active)
    (hopen : t.isOpen = s.isOpen) (hout : t.output = s.output) (hbuf : t.outputBuffer = s.outputBuffer) :
    FitsQueue cfg size t := by
  obtain ⟨hroom, hneeded⟩ := h
  have hthrows : Throws cfg size t ↔ Throws cfg size s := by rw [Throws, Throws, hbuf]
  refine ⟨?_, fun ht hne => ?_⟩
  · rw [keptSize, if_congr hthrows rfl rfl, DumpsAtOnce, State.outputSize, hactive, hopen, hout, hbuf]
    exact hroom
  · rw [State.held, State.outputSize, hout, hbuf]
    exact hneeded (hthrows.mp ht) (hbuf ▸ hne)

/-- Without AIO the record itself is within the limit. -/
theorem FitsQueue.size_le {size : ℕ} (h : FitsQueue cfg size s) (haio : cfg.aio = false) :
    size ≤ cfg.maxQueueBytes := by
  have hroom := h.room.resolve_right fun hdumps => absurd hdumps.2.1 (by simp [haio])
  omega

/-- Below 2 ^ 44 megabytes the limit of `fifo_write()` is the one that was asked for. -/
theorem queueLimit_eq (h : cfg.maxQueueSize < 2 ^ 44) : cfg.queueLimit = cfg.maxQueueBytes :=
  Nat.mod_eq_of_lt (by show cfg.maxQueueSize * 1024 * 1024 < 2 ^ 64; omega)

/-- So there only the room counts: what is thrown away is always too much. -/
theorem fitsQueue_iff_room {size : ℕ} (h : cfg.maxQueueSize < 2 ^ 44) :
    FitsQueue cfg size s ↔ s.outputSize + keptSize cfg size s + size ≤ cfg.maxQueueBytes ∨ DumpsAtOnce cfg s := by
  refine ⟨FitsQueue.room, fun hroom => ⟨hroom, fun hthrows _ => ?_⟩⟩
  have hlarge := hthrows.2
  rw [queueLimit_eq h] at hlarge
  exact hlarge.trans_le (by rw [State.held]; omega)

/-- Nothing else is in the queue. -/
theorem fitsQueue_of_empty {size : ℕ} (hout : s.output = none) (hbuf : s.outputBuffer = [])
    (hle : size ≤ cfg.maxQueueBytes) : FitsQueue cfg size s := by
  refine ⟨Or.inl ?_, fun _ hne => absurd hbuf hne⟩
  simpa [keptSize, State.outputSize, hout, hbuf] using hle

/-- The record has been put behind what is left, and is to be dispatched. -/
structure Queued (cfg : Config) (size : ℕ) (s q : State β) : Prop where
  held : q.held = s.outputSize + keptSize cfg size s + size
  isOpen : q.isOpen = s.isOpen
  loop : q.loop = s.loop
  thrown : q.thrown = s.thrown ∨ (Throws cfg size s ∧ q.thrown = s.thrown ++ [s.outputBuffer])
  needed : Throws cfg size s → s.outputBuffer ≠ [] → q.thrown = s.thrown ++ [s.outputBuffer]

theorem fifoWrite_eq (cfg : Config) (data : List β) (freeData : Bool) (r : Replies) (s : State β) :
    ∃ q, Queued cfg data.length s q ∧ fifoWrite cfg data freeData r s = dispatchData cfg r q := by
  unfold fifoWrite
  split
  · rename_i hempty
    obtain ⟨⟨hout, hbuf⟩, -⟩ := hempty
    have hkept : keptSize cfg data.length s = 0 := by
      unfold keptSize
      split
      · rfl
      · exact hbuf
    refine ⟨{ s with output := some data }, ⟨?_, rfl, rfl, Or.inl rfl, fun _ hne => ?_⟩, rfl⟩
    · simp [State.held, State.outputSize, hkept, hout, hbuf]
    · exact absurd (List.eq_nil_of_length_eq_zero hbuf) hne
  · refine ⟨{ throwAway cfg data.length s with
      outputBuffer := (throwAway cfg data.length s).outputBuffer ++ data }, ?_, rfl⟩
    by_cases hthrows : Throws cfg data.length s
    · have haway : throwAway cfg data.length s =
          { s.logged (.loss (.throwingAway (cfg.queueLimit / 1024 / 1024)) s.outputBuffer) with
            outputBuffer := [] } :=
        if_pos hthrows
      have hadd : ∀ b, ({ throwAway cfg data.length s with outputBuffer := b } : State β).thrown =
          s.thrown ++ [s.outputBuffer] := by
        intro b
        simp [haway, State.thrown, State.logged, Message.thrown]
      refine ⟨?_, ?_, ?_, Or.inr ⟨hthrows, hadd _⟩, fun _ _ => hadd _⟩
      · simp [keptSize, hthrows, haway, State.held, State.outputSize, State.logged]
      · rw [haway]
        rfl
      · rw [haway]
        rfl
    · have haway : throwAway cfg data.length s = s := if_neg hthrows
      rw [haway]
      refine ⟨?_, rfl, rfl, Or.inl rfl, fun hc => absurd hc hthrows⟩
      simp [keptSize, hthrows, State.held, State.outputSize, Nat.add_assoc]

/-- What does not fit into the limit does not fit into the pipe either. -/
theorem exceed_of_held (hpipe : 2 * cfg.pipeBuf ≤ cfg.maxQueueBytes) (h : cfg.maxQueueBytes < s.held) :
    BuffersExceedPipeSize cfg s := by
  unfold BuffersExceedPipeSize
  unfold State.held at h
  omega

theorem held_fifoWrite (data : List β) (freeData : Bool) (r : Replies) (h : FitsQueue cfg data.length s) :
    (fifoWrite cfg data freeData r s).held ≤ cfg.maxQueueBytes := by
  obtain ⟨q, hq, heq⟩ := fifoWrite_eq cfg data freeData r s
  rw [heq]
  by_cases hle : q.held ≤ cfg.maxQueueBytes
  · exact (eases_dispatchData r q).held.trans hle
  · obtain ⟨hopen, haio, hidle, hpipe⟩ := h.room.resolve_left (hq.held ▸ hle)
    rw [← hq.isOpen] at hopen
    rw [← hq.loop] at hidle
    rw [dispatchData_dumps r hopen haio hidle (exceed_of_held hpipe (not_le.mp hle))]
    exact Nat.zero_le _

/-- What is thrown away would have been too much with the record. -/
def ThrowsForRoom (cfg : Config) (record : Option (List β)) (s t : State β) : Prop :=
  ∀ data ∈ t.thrown.drop s.thrown.length, data ≠ [] → ∃ d ∈ record, cfg.maxQueueBytes < s.held + d.length

theorem throwsForRoom_of_thrown {record : Option (List β)} (h : t.thrown = s.thrown) :
    ThrowsForRoom cfg record s t := by
  intro data hmem
  rw [h, List.drop_length] at hmem
  exact absurd hmem List.not_mem_nil

theorem throwsForRoom_fifoWrite_iff (data : List β) (freeData : Bool) (r : Replies) (s : State β) :
    ThrowsForRoom cfg (some data) s (fifoWrite cfg data freeData r s) ↔
      (Throws cfg data.length s → s.outputBuffer ≠ [] → cfg.maxQueueBytes < s.held + data.length) := by
  obtain ⟨q, hq, heq⟩ := fifoWrite_eq cfg data freeData r s
  have hthrown : (dispatchData cfg r q).thrown = q.thrown := (eases_dispatchData r q).thrown
  rw [heq]
  constructor
  · intro h hthrows hne
    rw [hq.needed hthrows hne] at hthrown
    obtain ⟨d, hd, hlt⟩ := h s.outputBuffer (by simp [hthrown]) hne
    exact Option.some.inj hd ▸ hlt
  · intro h
    rcases hq.thrown with hsame | ⟨hthrows, hadd⟩
    · exact throwsForRoom_of_thrown (hthrown.trans hsame)
    · intro d hmem hne
      rw [hthrown, hadd, List.drop_left, List.mem_singleton] at hmem
      exact ⟨data, rfl, h hthrows (hmem ▸ hne)⟩

/-- The record is kept within the limit, and nothing is thrown away without need, exactly if it fits. -/
theorem fitsQueue_iff (hpipe : 2 * cfg.pipeBuf ≤ cfg.maxQueueBytes) (data : List β) (freeData : Bool) (r : Replies)
    (s : State β) : ((fifoWrite cfg data freeData r s).held ≤ cfg.maxQueueBytes ∧
        ThrowsForRoom cfg (some data) s (fifoWrite cfg data freeData r s)) ↔ FitsQueue cfg data.length s := by
  rw [throwsForRoom_fifoWrite_iff]
  constructor
  · rintro ⟨hheld, hneeded⟩
    refine ⟨?_, hneeded⟩
    obtain ⟨q, hq, heq⟩ := fifoWrite_eq cfg data freeData r s
    by_contra hno
    obtain ⟨hroom, hlate⟩ := not_or.mp hno
    rw [← hq.held] at hroom
    have hwaits := dispatchData_waits r (exceed_of_held hpipe (not_le.mp hroom)) fun hc =>
      hlate ⟨hq.isOpen ▸ hc.1, hc.2.1, hq.loop ▸ hc.2.2, hpipe⟩
    rw [heq, hwaits] at hheld
    exact hroom hheld
  · exact fun h => ⟨held_fifoWrite data freeData r h, h.needed⟩

/-- While the FIFO is closed, the first record is the block. -/
theorem fifoWrite_closed_empty (hc : s.isOpen = false) (he : BuffersAreEmpty s) (data : List β) (r : Replies) :
    fifoWrite cfg data true r s = { s with output := some data } := by
  rw [fifoWrite, if_pos ⟨he, rfl⟩, dispatchData, if_pos hc]

/-- While the FIFO is closed, the other records are put into the buffer. -/
theorem fifoWrite_closed_append {data : List β} (hc : s.isOpen = false) (hout : s.output ≠ none)
    (hfits : ¬ Throws cfg data.length s) (freeData : Bool) (r : Replies) :
    fifoWrite cfg data freeData r s = { s with outputBuffer := s.outputBuffer ++ data } := by
  have haway : throwAway cfg data.length s = s := if_neg hfits
  rw [fifoWrite, if_neg fun he => hout he.1.1, haway]
  exact if_pos hc

/-- The limit is kept, and nothing is thrown away without need. -/
structure Kept (cfg : Config) (record : Option (List β)) (s t : State β) : Prop where
  held : t.held ≤ cfg.maxQueueBytes
  room : ThrowsForRoom cfg record s t

theorem Eases.kept {record : Option (List β)} (h : Eases s t) (hs : s.held ≤ cfg.maxQueueBytes) :
    Kept cfg record s t := ⟨h.held.trans hs, throwsForRoom_of_thrown h.thrown⟩

theorem Kept.trans_eases {record : Option (List β)} (h : Kept cfg record s t) (h' : Eases t u) :
    Kept cfg record s u := by
  refine ⟨h'.held.trans h.held, ?_⟩
  rw [ThrowsForRoom, h'.thrown]
  exact h.room

theorem kept_fifoWrite (data : List β) (freeData : Bool) (r : Replies) (hfit : FitsQueue cfg data.length t)
    (h : Eases s t) : Kept cfg (some data) s (fifoWrite cfg data freeData r t) := by
  refine ⟨held_fifoWrite data freeData r hfit, fun d hmem hne => ?_⟩
  rw [← h.thrown] at hmem
  obtain ⟨record, hrecord, hlt⟩ := (throwsForRoom_fifoWrite_iff data freeData r t).mpr hfit.needed d hmem hne
  exact ⟨record, hrecord, hlt.trans_le (Nat.add_le_add_right h.held _)⟩

/-! ### Callbacks -/

theorem eases_retryOpen (s : State β) : Eases s (retryOpen s) := by
  unfold retryOpen
  split
  · exact ⟨le_rfl, rfl⟩
  · exact Eases.refl s

theorem eases_openCb (custom : Bool) (reply : OpenReply) (r : Replies) (s : State β) :
    Eases s (openCb cfg custom reply r s) := by
  have hfailed : ∀ m : Message β, m.thrown = none →
      Eases s (retryOpen ({ s with isOpen := false }.logged m)) := by
    intro m hm
    have hclosed : Eases s { s with isOpen := false } := ⟨le_rfl, rfl⟩
    exact (hclosed.trans (eases_logged hm _)).trans (eases_retryOpen _)
  have hopened : ∀ v : State β, Eases s v →
      Eases s (retryOpen (if BuffersAreEmpty v then v else dispatchData cfg r v)) := by
    intro v hv
    refine Eases.trans ?_ (eases_retryOpen _)
    split
    · exact hv
    · exact hv.trans (eases_dispatchData r v)
  cases reply with
  | failed noReader => exact hfailed _ (by cases noReader <;> rfl)
  | noStatus => exact hfailed _ rfl
  | notFifo => exact hfailed _ rfl
  | opened =>
    unfold openCb
    dsimp only
    cases custom with
    | true => exact hopened _ ⟨le_rfl, rfl⟩
    | false =>
      have hlogged := eases_logged (m := .opened) rfl s
      exact hopened _ ⟨hlogged.held, hlogged.thrown⟩

section

variable [Cell β]

/-- The `PROCESS_FILE` command that the event makes, if it completes a dump file. -/
def Event.command (cfg : Config) (s : State β) : Event β → Option (List β)
  | .asyncCb (.wrote n) time true _ _ =>
    if n = (s.request.getD []).length then
      some (Cell.command s.history.files.length (makeProcessFileCommand time s))
    else none
  | .asyncCb (.wrote _) _ false _ _ | .asyncCb .failed _ _ _ _ => none
  | .idleCb d _ | .timeoutCb d _ =>
    d.mkstemp.bind fun suffix =>
      if d.close = true ∧ (dumpLoop (s.output.getD [] ++ s.outputBuffer) d.writes 0 []).isSome then
        some (Cell.command s.history.files.length (processFileCommand d.time (cfg.dumpName suffix)))
      else none
  | .advance _ | .ready _ | .expire _ | .openCb _ _ | .writeCb _ | .fifoWrite _ _ _ => none

/-- The record that `fifo_write()` is given. -/
def Event.incoming (cfg : Config) (s : State β) : Event β → Option (List β)
  | .fifoWrite data _ _ => some data
  | e => e.command cfg s

/-- What is queued when `fifo_write()` is called. -/
def Event.queue (s : State β) : Event β → State β
  | .asyncCb _ _ _ _ _ => { s.stop .async with request := none }
  | .idleCb _ _ | .timeoutCb _ _ => { s with output := none, outputBuffer := [] }
  | .advance _ | .ready _ | .expire _ | .openCb _ _ | .writeCb _ | .fifoWrite _ _ _ => s

/-- Whenever `fifo_write()` is called, there is room for the record. -/
def KeepsLimit (cfg : Config) (s : State β) (e : Event β) : Prop :=
  ∀ record ∈ e.incoming cfg s, FitsQueue cfg record.length (e.queue s)

instance decidableKeepsLimit (s : State β) (e : Event β) : Decidable (KeepsLimit cfg s e) := by
  unfold KeepsLimit
  infer_instance

theorem processDumpFile_true (cfg : Config) (time : ℕ) (contents : List β) (r : Replies) (s : State β) :
    ∃ v, v.hand = s.hand ∧ Eases s v ∧ processDumpFile cfg time true contents r s =
      fifoWrite cfg (Cell.command s.history.files.length (makeProcessFileCommand time s)) true r v :=
  ⟨(closeDumpFile true contents s).1.filed ⟨makeProcessFileCommand time s, contents⟩, rfl, ⟨le_rfl, rfl⟩, rfl⟩

theorem kept_asyncCb (reply : AioReply) (time : ℕ) (close : Bool) (r r' : Replies) (hs : s.held ≤ cfg.maxQueueBytes)
    (hok : ∀ record ∈ (Event.asyncCb reply time close r r').command cfg s,
      FitsQueue cfg record.length { s.stop .async with request := none }) :
    Kept cfg ((Event.asyncCb reply time close r r').command cfg s) s (asyncCb cfg reply time close r r' s) := by
  have hanswered : Eases s { s.stop .async with request := none } := ⟨le_rfl, rfl⟩
  have hdone : Kept cfg ((Event.asyncCb reply time close r r').command cfg s) s
      (requestDone cfg reply time close r s) := by
    unfold requestDone
    cases reply with
    | failed => exact (hanswered.trans (eases_logged rfl _)).kept hs
    | wrote n =>
      dsimp only
      split
      · exact (hanswered.trans (eases_logged rfl _)).kept hs
      · rename_i hn
        rw [not_not] at hn
        cases close with
        | false => exact (hanswered.trans (eases_closeDumpFile false _ _)).kept hs
        | true =>
          have hcommand : (Event.asyncCb (.wrote n) time true r r').command cfg s =
              some (Cell.command s.history.files.length (makeProcessFileCommand time s)) := if_pos hn
          obtain ⟨v, hv, heases, heq⟩ := processDumpFile_true cfg time (s.request.getD []) r
            { s.stop .async with request := none }
          obtain ⟨hloop, hopen, hout, hbuf, -⟩ := Hand.mk.inj hv
          rw [hcommand, heq]
          exact kept_fifoWrite _ true r ((hok _ hcommand).congr (congrArg Loop.active hloop) hopen hout hbuf)
            (hanswered.trans heases)
  unfold asyncCb
  dsimp only
  split
  · exact hdone.trans_eases (eases_dispatchData r' _)
  · exact hdone

theorem kept_syncDumpData (d : DumpReplies) (r : Replies) (haio : cfg.aio = false)
    (hs : s.held ≤ cfg.maxQueueBytes)
    (hok : ∀ record ∈ (Event.idleCb d r).command cfg s,
      FitsQueue cfg record.length { s with output := none, outputBuffer := [] }) :
    Kept cfg ((Event.idleCb d r).command cfg s) s (syncDumpData cfg d r s) := by
  have heases := (eases_joinBuffers s).trans (eases_openDumpFile cfg d.mkstemp (joinBuffers s))
  have hbuf := (outputBuffer_of_hand (hand_openDumpFile cfg d.mkstemp (joinBuffers s))).trans
    (joinBuffers_outputBuffer s)
  have hjoined := joinBuffers_output s
  have hhistory := joinBuffers_history s
  unfold syncDumpData
  cases hmkstemp : d.mkstemp with
  | none =>
    rw [hmkstemp] at heases
    exact (heases.trans (eases_freeOutput _)).kept hs
  | some suffix =>
    rw [hmkstemp] at heases hbuf
    unfold openDumpFile at heases hbuf ⊢
    dsimp only at heases hbuf ⊢
    rw [hjoined]
    split
    · exact (heases.trans ((eases_logged rfl _).trans
        ((eases_closeDumpFile _ _ _).trans (eases_freeOutput _)))).kept hs
    · rename_i contents hloop
      cases hclose : d.close with
      | false => exact (heases.trans ((eases_freeOutput _).trans (eases_closeDumpFile false _ _))).kept hs
      | true =>
        have hcommand : (Event.idleCb d r).command cfg s =
            some (Cell.command s.history.files.length (processFileCommand d.time (cfg.dumpName suffix))) := by
          simp [Event.command, hmkstemp, hclose, hloop]
        have hfit := (hok _ hcommand).size_le haio
        obtain ⟨v, hv, heases', heq⟩ := processDumpFile_true cfg d.time contents r (freeOutput
          { joinBuffers s with
            dumpFile := some (cfg.dumpName suffix)
            dumpFd := some (joinBuffers s).history.opened
            history := { (joinBuffers s).history with opened := (joinBuffers s).history.opened + 1 } })
        obtain ⟨-, -, hout, hbuf', -⟩ := Hand.mk.inj hv
        have hfiles : (joinBuffers s).history.files = s.history.files := congrArg History.files hhistory
        rw [heq, hcommand]
        simp only [freeOutput, makeProcessFileCommand, Option.getD_some, hfiles]
        exact kept_fifoWrite _ true r (fitsQueue_of_empty hout (hbuf'.trans hbuf) hfit)
          (heases.trans ((eases_freeOutput _).trans heases'))

/-- The watchers are not what the queue is about. -/
theorem kept_idleCb (d : DumpReplies) (r : Replies) (haio : cfg.aio = false) (hs : s.held ≤ cfg.maxQueueBytes)
    (hok : ∀ record ∈ (Event.idleCb d r).command cfg s,
      FitsQueue cfg record.length { s with output := none, outputBuffer := [] }) :
    Kept cfg ((Event.idleCb d r).command cfg s) s (idleCb cfg d r s) := by
  have hstop : ∃ l, (s.stop .idle).stopActive .timeout = { s with loop := l } := by
    unfold State.stopActive
    split
    · exact ⟨_, rfl⟩
    · exact ⟨_, rfl⟩
  obtain ⟨l, hl⟩ := hstop
  unfold idleCb
  rw [hl]
  have hkept := kept_syncDumpData (s := { s with loop := l }) d r haio hs fun record hrecord =>
    fitsQueue_of_empty rfl rfl ((hok record hrecord).size_le haio)
  exact ⟨hkept.held, hkept.room⟩

theorem kept_step {e : Event β} (hs : s.held ≤ cfg.maxQueueBytes) (hok : KeepsLimit cfg s e)
    (hstep : step cfg s e = some t) : Kept cfg (e.incoming cfg s) s t := by
  cases e with
  | advance time =>
    obtain rfl := Option.some.inj hstep
    exact Eases.kept ⟨le_rfl, rfl⟩ hs
  | ready w =>
    obtain ⟨-, hstep⟩ := Option.ite_none_right_eq_some.mp hstep
    obtain rfl := Option.some.inj hstep
    exact Eases.kept ⟨le_rfl, rfl⟩ hs
  | expire w =>
    obtain ⟨-, hstep⟩ := Option.ite_none_right_eq_some.mp hstep
    obtain rfl := Option.some.inj hstep
    exact Eases.kept ⟨le_rfl, rfl⟩ hs
  | openCb reply r =>
    obtain ⟨-, rfl⟩ := invoke_eq_some hstep
    have htake : Eases s { s with loop := s.loop.take .reopen } := ⟨le_rfl, rfl⟩
    exact (htake.trans (eases_openCb false reply r _)).kept hs
  | writeCb replies =>
    obtain ⟨-, rfl⟩ := invoke_eq_some hstep
    have htake : Eases s { s with loop := s.loop.take .write } := ⟨le_rfl, rfl⟩
    exact (htake.trans (eases_writeCb replies _)).kept hs
  | asyncCb reply time close r r' =>
    obtain ⟨-, hstep⟩ := Option.ite_none_right_eq_some.mp hstep
    obtain ⟨-, rfl⟩ := invoke_eq_some hstep
    have hkept := kept_asyncCb (s := { s with loop := s.loop.take .async }) reply time close r r' hs
      fun record hrecord => (hok record hrecord).congr rfl rfl rfl rfl
    exact ⟨hkept.held, hkept.room⟩
  | idleCb d r =>
    obtain ⟨haio, hstep⟩ := Option.ite_none_left_eq_some.mp hstep
    obtain ⟨-, rfl⟩ := invoke_eq_some hstep
    have hkept := kept_idleCb (s := { s with loop := s.loop.take .idle }) d r (by simpa using haio) hs
      fun record hrecord => (hok record hrecord).congr rfl rfl rfl rfl
    exact ⟨hkept.held, hkept.room⟩
  | timeoutCb d r =>
    obtain ⟨haio, hstep⟩ := Option.ite_none_left_eq_some.mp hstep
    obtain ⟨-, rfl⟩ := invoke_eq_some hstep
    have hkept := kept_idleCb (s := { s with loop := s.loop.take .timeout }) d r (by simpa using haio) hs
      fun record hrecord => (hok record hrecord).congr rfl rfl rfl rfl
    exact ⟨hkept.held, hkept.room⟩
  | fifoWrite data freeData r =>
    obtain rfl := Option.some.inj hstep
    exact kept_fifoWrite data freeData r (hok data rfl) (Eases.refl s)

/-- **The limit of the queue.** As long as there is room for every record when `fifo_write()` is called, no
more than `max_queue_size` megabytes are held in memory, and data is thrown away only if it would have been
more with the record. Where `PIPE_BUF` is not more than half the limit, this is exactly when the next
`fifo_write()` keeps to the limit and throws nothing away without need. -/
theorem queue_limit {reply : OpenReply} {r : Replies} {now : ℚ} {es : List (Event β)} {s : State β}
    (h : Machine.Runs (Machine.Meeting (KeepsLimit cfg) (Machine.Steps (step cfg))) (fifoStart cfg reply r now)
      es s) :
    s.held ≤ cfg.maxQueueBytes ∧
      (∀ e t, KeepsLimit cfg s e → step cfg s e = some t →
        t.held ≤ cfg.maxQueueBytes ∧ ThrowsForRoom cfg (e.incoming cfg s) s t) ∧
      (2 * cfg.pipeBuf ≤ cfg.maxQueueBytes → ∀ (data : List β) (freeData : Bool) (r : Replies),
        ((fifoWrite cfg data freeData r s).held ≤ cfg.maxQueueBytes ∧
          ThrowsForRoom cfg (some data) s (fifoWrite cfg data freeData r s)) ↔ FitsQueue cfg data.length s) := by
  have hstart : (fifoStart cfg reply r now : State β).held ≤ cfg.maxQueueBytes :=
    (eases_openCb true reply r (initial now)).held.trans (Nat.zero_le _)
  have hheld : s.held ≤ cfg.maxQueueBytes :=
    Machine.Runs.invariant (I := fun s => s.held ≤ cfg.maxQueueBytes)
      (fun _ _ _ hs hstep => (kept_step hs hstep.1 hstep.2).held) h hstart
  refine ⟨hheld, fun e t hok hstep => ?_, fun hpipe data freeData r => fitsQueue_iff hpipe data freeData r s⟩
  have hkept := kept_step hheld hok hstep
  exact ⟨hkept.held, hkept.room⟩

end

/-- Two records come in while the FIFO is closed. -/
theorem queue_limit_closed : ∃ s : State UInt8, s.held = 4 ∧ s.held ≤ (Config.standard false).maxQueueBytes := by
  obtain ⟨s, hs, hp⟩ := (Option.any_eq_true _ _).mp (by decide +kernel : Option.any
    (fun s => decide (s.held = 4))
    (Machine.run (Machine.guarded (KeepsLimit (Config.standard false)) (step (Config.standard false)))
      (fifoStart (Config.standard false) (.failed true) ⟨[], none, true, true⟩ 0 : State UInt8)
      [.fifoWrite (ascii "a\n") true ⟨[], none, true, true⟩,
        .fifoWrite (ascii "b\n") true ⟨[], none, true, true⟩]) = true)
  exact ⟨s, of_decide_eq_true hp, (queue_limit (Machine.runs_of_guarded hs)).1⟩

/-- Two records that come in while the FIFO is closed are queued if the second is not too large for the buffer. -/
theorem reachable_closed (cfg : Config) (a b : Bytes) (hfits : ¬ (0 < cfg.queueLimit ∧ cfg.queueLimit < b.length)) :
    ∃ (s : State UInt8) (r : Replies), Reachable cfg s ∧ Reachable cfg (fifoWrite cfg b true r s) ∧
      (fifoWrite cfg b true r s).outputSize = a.length ∧ (fifoWrite cfg b true r s).outputBuffer = b := by
  let r : Replies := ⟨[], none, true, true⟩
  let start : State UInt8 := fifoStart cfg (.failed true) r 0
  have hfirst : Reachable cfg (fifoWrite cfg a true r start) :=
    ⟨.failed true, r, 0, [.fifoWrite a true r], .cons rfl (.nil _)⟩
  have hsecond : Reachable cfg (fifoWrite cfg b true r (fifoWrite cfg a true r start)) :=
    ⟨.failed true, r, 0, [.fifoWrite a true r, .fifoWrite b true r], .cons rfl (.cons rfl (.nil _))⟩
  have hblock : fifoWrite cfg a true r start = { start with output := some a } :=
    fifoWrite_closed_empty rfl ⟨rfl, rfl⟩ a r
  have hbuffer : fifoWrite cfg b true r { start with output := some a } =
      { start with output := some a, outputBuffer := [] ++ b } := by
    refine fifoWrite_closed_append rfl (Option.some_ne_none a) (fun hthrows => hfits ⟨hthrows.1, ?_⟩) true r
    have hempty : ({ start with output := some a } : State UInt8).outputBuffer.length = 0 := rfl
    rw [Throws, hempty, Nat.zero_add] at hthrows
    exact hthrows.2
  rw [hblock] at hsecond
  refine ⟨{ start with output := some a }, r, hblock ▸ hfirst, hsecond, ?_, ?_⟩
  · rw [hbuffer]
    rfl
  · rw [hbuffer]
    rfl

/-- One byte and one megabyte come in while the FIFO is closed. Where the limit is one megabyte, both are held;
and where it is 2 ^ 44 + 1 megabytes, the next byte makes the megabyte be thrown away. -/
theorem not_queue_limit :
    (¬ ∀ (cfg : Config) (s : State UInt8), 0 < cfg.maxQueueSize → Reachable cfg s →
      ∀ (data : Bytes) (freeData : Bool) (r : Replies),
        (fifoWrite cfg data freeData r s).held ≤ cfg.maxQueueBytes) ∧
    ¬ ∀ (cfg : Config) (s : State UInt8), 0 < cfg.maxQueueSize → Reachable cfg s →
      ∀ (data : Bytes) (freeData : Bool) (r : Replies),
        ThrowsForRoom cfg (some data) s (fifoWrite cfg data freeData r s) := by
  have hsize : (List.replicate (2 ^ 20) (0 : UInt8)).length = 2 ^ 20 := List.length_replicate
  constructor
  · intro h
    let cfg : Config := ⟨false, 512, le_rfl, ascii "/tmp", 1⟩
    obtain ⟨s, r, hs, -, hblock, hbuffer⟩ := reachable_closed cfg [0] (List.replicate (2 ^ 20) 0)
      (by rw [hsize]; decide)
    have hheld := h cfg s Nat.one_pos hs (List.replicate (2 ^ 20) 0) true r
    rw [State.held, hblock, hbuffer, hsize] at hheld
    exact absurd hheld (by decide)
  · intro h
    let cfg : Config := ⟨false, 512, le_rfl, ascii "/tmp", 2 ^ 44 + 1⟩
    obtain ⟨s, r, -, hs, hblock, hbuffer⟩ := reachable_closed cfg [0] (List.replicate (2 ^ 20) 0)
      (by rw [hsize]; decide)
    have hroom := (throwsForRoom_fifoWrite_iff [0] true r _).mp (h cfg _ (Nat.succ_pos _) hs [0] true r)
    rw [Throws, State.held, hblock, hbuffer, hsize] at hroom
    have hne : List.replicate (2 ^ 20) (0 : UInt8) ≠ [] := by
      rw [← List.length_pos_iff, hsize]
      decide
    exact absurd (hroom (by decide) hne) (by decide)

end Fifo
end NscaNg
