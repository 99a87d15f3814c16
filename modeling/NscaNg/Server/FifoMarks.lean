/-
# Data of the command file writer, marked

The writer moves its data about without looking at it. So what it does with bytes it does with marked
bytes too (`map_step`): every run of the program is one in which each byte of a record carries the
number of the record, and each byte of a `PROCESS_FILE` command that of the dump file
(`exists_marked`).
-/
import NscaNg.Machine.Provenance
import NscaNg.Server.Fifo

namespace NscaNg
namespace Fifo

open Posix Libev Provenance

variable {β γ : Type}

/-! ### The same for other cells -/

def Message.map (f : β → γ) : Message β → Message γ
  | .noReader => .noReader
  | .cannotOpen => .cannotOpen
  | .noStatus => .noStatus
  | .notFifo => .notFifo
  | .opened => .opened
  | .cannotWriteFifo => .cannotWriteFifo
  | .loss reason data => .loss reason (data.map f)

def DumpFile.map (f : β → γ) (d : DumpFile β) : DumpFile γ := ⟨d.command, d.contents.map f⟩

def History.map (f : β → γ) (h : History β) : History γ where
  fifo := h.fifo.map f
  writes := h.writes.map (List.map f)
  files := h.files.map (DumpFile.map f)
  log := h.log.map (Message.map f)
  opened := h.opened
  closed := h.closed

def State.map (f : β → γ) (s : State β) : State γ where
  loop := s.loop
  isOpen := s.isOpen
  output := s.output.map (List.map f)
  outputBuffer := s.outputBuffer.map f
  dumpFile := s.dumpFile
  dumpFd := s.dumpFd
  request := s.request.map (List.map f)
  history := s.history.map f

/-- Other data is written. -/
def Event.mapData (g : List β → List γ) : Event β → Event γ
  | .advance time => .advance time
  | .ready w => .ready w
  | .expire w => .expire w
  | .openCb reply r => .openCb reply r
  | .writeCb replies => .writeCb replies
  | .asyncCb reply time close r r' => .asyncCb reply time close r r'
  | .idleCb d r => .idleCb d r
  | .timeoutCb d r => .timeoutCb d r
  | .fifoWrite data freeData r => .fifoWrite (g data) freeData r

section

variable (f : β → γ) (cfg : Config) (s : State β)

@[simp] theorem map_getD (o : Option (List β)) : (o.map (List.map f)).getD [] = (o.getD []).map f := by
  cases o <;> rfl

@[simp] theorem map_outputSize : (s.map f).outputSize = s.outputSize := by
  simp [State.outputSize, State.map]

@[simp] theorem map_outputBuffer_length : (s.map f).outputBuffer.length = s.outputBuffer.length := by
  simp [State.map]

theorem map_buffersAreEmpty : BuffersAreEmpty (s.map f) ↔ BuffersAreEmpty s := by
  simp [BuffersAreEmpty, State.map]

theorem map_buffersExceedPipeSize : BuffersExceedPipeSize cfg (s.map f) ↔ BuffersExceedPipeSize cfg s := by
  simp [BuffersExceedPipeSize]

theorem map_logged (m : Message β) : (s.logged m).map f = (s.map f).logged (m.map f) := by
  simp [State.map, State.logged, History.map]

theorem map_attempt : s.attempt.map f = (s.map f).attempt := by
  simp [State.map, State.attempt, History.map]

theorem map_send (n : ℕ) : (s.send n).map f = (s.map f).send n := by
  simp [State.map, State.send, History.map]

theorem map_filed (d : DumpFile β) : (s.filed d).map f = (s.map f).filed (d.map f) := by
  simp [State.map, State.filed, History.map]

theorem map_stop (w : Watcher) : (s.stop w).map f = (s.map f).stop w := rfl

theorem map_stopActive (w : Watcher) : (s.stopActive w).map f = (s.map f).stopActive w := by
  unfold State.stopActive
  split
  · rename_i hw
    exact (if_pos hw).symm
  · rename_i hw
    exact (if_neg hw).symm

theorem map_joinBuffers : (joinBuffers s).map f = joinBuffers (s.map f) := by
  unfold joinBuffers
  rw [map_outputBuffer_length]
  split
  · rfl
  · simp [State.map]

theorem map_nextOutput : (nextOutput s).map f = nextOutput (s.map f) := by
  unfold nextOutput
  cases h : s.output <;> simp [State.map, h]

theorem map_openDumpFile (mkstemp : Option Bytes) :
    openDumpFile cfg mkstemp (s.map f) =
      ((openDumpFile cfg mkstemp s).1.map f, (openDumpFile cfg mkstemp s).2) := by
  cases mkstemp <;> simp [openDumpFile, State.map, State.logged, History.map, Message.map]

theorem map_closeDumpFile (close : Bool) (data : List β) :
    closeDumpFile close (data.map f) (s.map f) =
      ((closeDumpFile close data s).1.map f, (closeDumpFile close data s).2) := by
  cases close <;> simp [closeDumpFile, State.map, State.logged, History.map, Message.map]

theorem map_writeFailed : (writeFailed s).map f = writeFailed (s.map f) := by
  simp [writeFailed, State.map, State.logged, State.stop, State.startTimer, History.map, Message.map]

theorem map_written (n : ℕ) : (written n s).map f = written n (s.map f) := by
  unfold written
  have hlen : (freeOutput ((s.map f).send n)).outputBuffer.length = (freeOutput (s.send n)).outputBuffer.length :=
    map_outputBuffer_length f s
  dsimp only
  rw [hlen]
  split
  · rw [map_stop, freeOutput, freeOutput, ← map_send]
    rfl
  · rw [freeOutput, freeOutput, ← map_send]
    rfl

theorem map_writeCb (replies : List WriteReply) : (writeCb cfg replies s).map f = writeCb cfg replies (s.map f) := by
  induction replies generalizing s with
  | nil =>
    unfold writeCb
    rw [← map_nextOutput, ← map_attempt]
  | cons reply replies ih =>
    unfold writeCb
    rw [← map_nextOutput, ← map_attempt]
    generalize (nextOutput s).attempt = s
    cases reply with
    | again => rfl
    | interrupted => rfl
    | failed => exact map_writeFailed f s
    | written more =>
      dsimp only
      rw [map_outputSize, ← map_written, map_outputBuffer_length]
      split
      · exact ih _
      · rfl

theorem map_asyncDumpData (r : Replies) : (asyncDumpData cfg r s).map f = asyncDumpData cfg r (s.map f) := by
  unfold asyncDumpData
  rw [← map_joinBuffers, map_openDumpFile]
  generalize openDumpFile cfg r.mkstemp (joinBuffers s) = p
  obtain ⟨s', created⟩ := p
  cases created with
  | false => rfl
  | true =>
    dsimp only
    split
    · simp [State.map, State.start]
    · have hlost : ((((s'.map f).start .async).logged
          (.loss .cannotQueue (((s'.map f).start .async).output.getD []))).stop .async) =
          (((s'.start .async).logged (.loss .cannotQueue ((s'.start .async).output.getD []))).stop .async).map f := by
        simp [State.map, State.start, State.stop, State.logged, History.map, Message.map]
      have hclose := map_closeDumpFile f
        (((s'.start .async).logged (.loss .cannotQueue ((s'.start .async).output.getD []))).stop .async) r.close []
      rw [hlost]
      rw [List.map_nil] at hclose
      rw [hclose]
      rfl

theorem map_dispatchData (r : Replies) : (dispatchData cfg r s).map f = dispatchData cfg r (s.map f) := by
  unfold dispatchData
  simp only [map_buffersExceedPipeSize]
  have hopen : (s.map f).isOpen = s.isOpen := rfl
  have hloop : (s.map f).loop = s.loop := rfl
  rw [hopen, hloop, ← map_stopActive]
  have hloop' : ((s.stopActive .write).map f).loop = (s.stopActive .write).loop := rfl
  rw [hloop']
  split
  · rfl
  split
  · split
    · rfl
    · exact map_writeCb f cfg (s.start .write) r.writes
  · split
    · split
      · rfl
      · exact map_asyncDumpData f cfg _ r
    · split
      · rfl
      · rfl

theorem map_throwAway (size : ℕ) : (throwAway cfg size s).map f = throwAway cfg size (s.map f) := by
  unfold throwAway
  rw [map_outputBuffer_length]
  split
  · simp [State.map, State.logged, History.map, Message.map]
  · rfl

theorem map_fifoWrite (data : List β) (freeData : Bool) (r : Replies) :
    (fifoWrite cfg data freeData r s).map f = fifoWrite cfg (data.map f) freeData r (s.map f) := by
  unfold fifoWrite
  simp only [map_buffersAreEmpty, List.length_map, ← map_throwAway]
  split
  · exact map_dispatchData f cfg _ r
  · generalize throwAway cfg data.length s = s'
    rw [map_dispatchData]
    simp [State.map]

theorem map_retryOpen : (retryOpen s).map f = retryOpen (s.map f) := by
  unfold retryOpen
  have hopen : (s.map f).isOpen = s.isOpen := rfl
  rw [hopen]
  split <;> rfl

theorem map_openCb (custom : Bool) (reply : OpenReply) (r : Replies) :
    (openCb cfg custom reply r s).map f = openCb cfg custom reply r (s.map f) := by
  have hfailed : ∀ m : Message β, (retryOpen ({ s with isOpen := false }.logged m)).map f =
      retryOpen ({ s.map f with isOpen := false }.logged (m.map f)) := by
    intro m
    rw [map_retryOpen, map_logged]
    rfl
  have hopened : ∀ s' : State β, (retryOpen (if BuffersAreEmpty s' then s' else dispatchData cfg r s')).map f =
      retryOpen (if BuffersAreEmpty (s'.map f) then s'.map f else dispatchData cfg r (s'.map f)) := by
    intro s'
    rw [map_retryOpen]
    simp only [map_buffersAreEmpty]
    split
    · rfl
    · rw [map_dispatchData]
  cases reply with
  | failed noReader => cases noReader <;> exact hfailed _
  | noStatus => exact hfailed _
  | notFifo => exact hfailed _
  | opened =>
    cases custom with
    | true => exact hopened _
    | false =>
      refine (hopened _).trans ?_
      simp [openCb, State.map, State.logged, History.map, Message.map]

theorem map_fifoStart (reply : OpenReply) (r : Replies) (now : ℚ) :
    (fifoStart cfg reply r now : State β).map f = fifoStart cfg reply r now :=
  map_openCb f cfg (initial now) true reply r

theorem map_dumpLoop (replies : List DumpReply) (output file : List β) (offset : ℕ) :
    dumpLoop (output.map f) replies offset (file.map f) = (dumpLoop output replies offset file).map (List.map f) := by
  induction replies generalizing offset file with
  | nil =>
    unfold dumpLoop
    rw [List.length_map]
    split <;> simp
  | cons reply replies ih =>
    unfold dumpLoop
    rw [List.length_map]
    split
    · rfl
    · cases reply with
      | failed => rfl
      | written n =>
        dsimp only
        rw [← ih]
        simp

end

section

variable [Cell β] [Cell γ] {f : β → γ}

/-- The commands are the same. -/
def Carries (f : β → γ) : Prop := ∀ n text, (Cell.command n text : List β).map f = Cell.command n text

variable (hf : Carries f) (cfg : Config) (s : State β)
include hf

theorem map_processDumpFile (time : ℕ) (close : Bool) (contents : List β) (r : Replies) :
    (processDumpFile cfg time close contents r s).map f =
      processDumpFile cfg time close (contents.map f) r (s.map f) := by
  unfold processDumpFile
  rw [map_closeDumpFile]
  have hcommand : makeProcessFileCommand time (s.map f) = makeProcessFileCommand time s := rfl
  rw [hcommand]
  generalize closeDumpFile close contents s = p
  obtain ⟨s', closed⟩ := p
  cases closed with
  | false => rfl
  | true =>
    have hlen : (s'.map f).history.files.length = s'.history.files.length := by simp [State.map, History.map]
    dsimp only
    rw [map_fifoWrite, hf, map_filed, hlen]
    rfl

theorem map_requestDone (reply : AioReply) (time : ℕ) (close : Bool) (r : Replies) :
    (requestDone cfg reply time close r s).map f = requestDone cfg reply time close r (s.map f) := by
  have hdata : (s.map f).request.getD [] = (s.request.getD []).map f := map_getD f s.request
  unfold requestDone
  rw [hdata]
  cases reply with
  | failed =>
    simp only [map_logged]
    rfl
  | wrote n =>
    simp only [List.length_map]
    split
    · simp only [map_logged]
      rfl
    · simp only [map_processDumpFile hf]
      rfl

theorem map_asyncCb (reply : AioReply) (time : ℕ) (close : Bool) (r r' : Replies) :
    (asyncCb cfg reply time close r r' s).map f = asyncCb cfg reply time close r r' (s.map f) := by
  unfold asyncCb
  rw [← map_requestDone hf]
  simp only [map_buffersExceedPipeSize]
  split
  · exact map_dispatchData f cfg _ r'
  · rfl

theorem map_syncDumpData (d : DumpReplies) (r : Replies) :
    (syncDumpData cfg d r s).map f = syncDumpData cfg d r (s.map f) := by
  unfold syncDumpData
  rw [← map_joinBuffers, map_openDumpFile]
  generalize openDumpFile cfg d.mkstemp (joinBuffers s) = p
  obtain ⟨s', created⟩ := p
  cases created with
  | false => rfl
  | true =>
    have hout : (s'.map f).output.getD [] = (s'.output.getD []).map f := map_getD f s'.output
    have hloop : dumpLoop ((s'.output.getD []).map f) d.writes 0 [] =
        (dumpLoop (s'.output.getD []) d.writes 0 []).map (List.map f) :=
      map_dumpLoop f d.writes (s'.output.getD []) [] 0
    dsimp only
    rw [hout, hloop]
    cases dumpLoop (s'.output.getD []) d.writes 0 [] with
    | none =>
      have hclose := map_closeDumpFile f
        (s'.logged (.loss (.cannotWrite (s'.dumpFile.getD [])) (s'.output.getD []))) d.close []
      rw [List.map_nil, map_logged] at hclose
      simp only [Option.map_none]
      exact (congrArg (fun p => freeOutput p.1) hclose).symm
    | some contents =>
      simp only [Option.map_some]
      rw [map_processDumpFile hf]
      rfl

theorem map_idleCb (d : DumpReplies) (r : Replies) : (idleCb cfg d r s).map f = idleCb cfg d r (s.map f) := by
  unfold idleCb
  rw [map_syncDumpData hf, map_stopActive, map_stop]

/-- The writer does with other cells what it does with these. -/
theorem map_step (e : Event β) :
    step cfg (s.map f) (e.mapData (List.map f)) = (step cfg s e).map (State.map f) := by
  have hinvoke : ∀ (w : Watcher) (callback : State β → State β) (callback' : State γ → State γ),
      (∀ u, (callback u).map f = callback' (u.map f)) →
        invoke w callback' (s.map f) = (invoke w callback s).map (State.map f) := by
    intro w callback callback' h
    have hloop : (s.map f).loop = s.loop := rfl
    unfold invoke
    rw [hloop]
    split
    · simp only [Option.map_some, h]
      rfl
    · rfl
  cases e with
  | advance time => rfl
  | ready w =>
    unfold step Event.mapData
    have hloop : (s.map f).loop = s.loop := rfl
    simp only [hloop]
    split <;> rfl
  | expire w =>
    unfold step Event.mapData
    have hloop : (s.map f).loop = s.loop := rfl
    simp only [hloop]
    split <;> rfl
  | openCb reply r => exact hinvoke _ _ _ fun u => map_openCb f cfg u false reply r
  | writeCb replies => exact hinvoke _ _ _ fun u => map_writeCb f cfg u replies
  | asyncCb reply time close r r' =>
    unfold step Event.mapData
    dsimp only
    split
    · exact hinvoke _ _ _ fun u => map_asyncCb hf cfg u reply time close r r'
    · rfl
  | idleCb d r =>
    unfold step Event.mapData
    dsimp only
    split
    · rfl
    · exact hinvoke _ _ _ fun u => map_idleCb hf cfg u d r
  | timeoutCb d r =>
    unfold step Event.mapData
    dsimp only
    split
    · rfl
    · exact hinvoke _ _ _ fun u => map_idleCb hf cfg u d r
  | fifoWrite data freeData r => exact congrArg some (map_fifoWrite f cfg s data freeData r).symm

end

/-! ### Marks -/

/-- What identifies the data that the writer moves about: a record has the number of the call that
brought it, and a command has that of the dump file. -/
inductive Id
  | record (k : ℕ)
  | command (n : ℕ)
  deriving DecidableEq

/-- A byte that is marked with the record or the command it belongs to. -/
abbrev Tagged := Mark Id UInt8

instance : Cell Tagged := ⟨fun n text => (⟨.command n, text⟩ : Item Id UInt8).marks⟩

theorem carries_value : Carries (Mark.value : Tagged → UInt8) := fun _ _ => map_value_marks _

/-- Records, numbered from `k` on. -/
def numberedFrom (k : ℕ) (rs : List Bytes) : List (Item Id UInt8) := (rs.zipIdx k).map fun p => ⟨.record p.2, p.1⟩

/-- The records of a run are numbered from `k` on, and marked. -/
def markFrom : ℕ → List (Event UInt8) → List (Event Tagged)
  | _, [] => []
  | k, e :: es =>
    e.mapData (fun data => (⟨.record k, data⟩ : Item Id UInt8).marks) :: markFrom (k + e.records.length) es

theorem mapData_mapData {f : List β → List γ} {g : List γ → List β} (hgf : ∀ data, g (f data) = data)
    (e : Event β) : (e.mapData f).mapData g = e := by
  cases e <;> simp [Event.mapData, hgf]

theorem forall₂_markFrom (k : ℕ) (es : List (Event UInt8)) :
    List.Forall₂ (fun e (e' : Event Tagged) => e'.mapData (List.map Mark.value) = e) es (markFrom k es) := by
  induction es generalizing k with
  | nil => exact .nil
  | cons e es ih => exact .cons (mapData_mapData (fun _ => map_value_marks _) e) (ih _)

theorem records_markFrom (k : ℕ) (es : List (Event UInt8)) :
    records (markFrom k es) = (numberedFrom k (records es)).map Item.marks := by
  induction es generalizing k with
  | nil => rfl
  | cons e es ih =>
    have ih' := ih (k + e.records.length)
    unfold records at ih' ⊢
    rw [markFrom, List.flatMap_cons, List.flatMap_cons, ih', numberedFrom, numberedFrom, List.zipIdx_append,
      List.map_append, List.map_append]
    cases e <;> rfl

/-- **Bytes can be marked.** Every run of the program on bytes is one on marked bytes, without the
marks. -/
theorem exists_marked {cfg : Config} {ok : State UInt8 → Event UInt8 → Prop} {m : State Tagged}
    {es : List (Event UInt8)} {k : ℕ} {t : State UInt8}
    (h : Machine.Runs (Machine.Meeting ok (Machine.Steps (step cfg))) (m.map Mark.value) es t) :
    ∃ m' : State Tagged, Machine.Runs (Machine.Meeting
      (fun u e => ok (u.map Mark.value) (e.mapData (List.map Mark.value))) (Machine.Steps (step cfg))) m
        (markFrom k es) m' ∧ m'.map Mark.value = t := by
  have hsim : ∀ (s : State UInt8) (u : State Tagged) (e : Event UInt8) (e' : Event Tagged) (t : State UInt8),
      u.map Mark.value = s → e'.mapData (List.map Mark.value) = e →
        Machine.Meeting ok (Machine.Steps (step cfg)) s e t →
          ∃ u', Machine.Meeting (fun u e => ok (u.map Mark.value) (e.mapData (List.map Mark.value)))
            (Machine.Steps (step cfg)) u e' u' ∧ u'.map Mark.value = t := by
    rintro _ u _ e t rfl rfl ⟨hok, hstep⟩
    have hmap := map_step carries_value cfg u e
    rw [Machine.Steps, hmap] at hstep
    obtain ⟨u', hu', rfl⟩ := Option.map_eq_some_iff.mp hstep
    exact ⟨u', ⟨hok, hu'⟩, rfl⟩
  exact h.simulates hsim (forall₂_markFrom k es) rfl

end Fifo
end NscaNg
