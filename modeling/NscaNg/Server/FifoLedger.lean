/-
# The ledger of the command file writer

What the writer is for, without its watchers: data that comes in is moved from place to place, until
the FIFO has it. A ledger says what is where, and `Move` how it may change: each move takes what is in
one place to another, as a whole. Every step of the writer is a sequence of such moves
(`moves_step`).
-/
import NscaNg.Server.FifoWatchers

namespace NscaNg
namespace Fifo

open Posix Libev

variable {β : Type} {cfg : Config} {s t : State β}

structure Ledger (β : Type) where
  fifo : List β
  request : List β
  output : List β
  outputBuffer : List β
  files : List (DumpFile β)
  log : List (Message β)
  writes : List (List β)

def State.ledger (s : State β) : Ledger β where
  fifo := s.history.fifo
  request := s.request.getD []
  output := s.output.getD []
  outputBuffer := s.outputBuffer
  files := s.history.files
  log := s.history.log
  writes := s.history.writes

/-- Data comes in: it is the block if nothing else waits, and is put into the buffer otherwise. -/
inductive Put (data : List β) (L : Ledger β) : Ledger β → Prop
  | output : L.output = [] → L.outputBuffer = [] → Put data L { L with output := data }
  | buffer : Put data L { L with outputBuffer := L.outputBuffer ++ data }

/-- The moves, and the records that come in with each. Where the writer is `prompt`, none comes in
while a request is on its way. -/
inductive Move [Cell β] (pipeBuf : ℕ) (prompt : Prop) (L : Ledger β) : List (List β) → Ledger β → Prop
  | note (m : Message β) : m.data = [] → Move pipeBuf prompt L [] { L with log := L.log ++ [m] }
  | join : Move pipeBuf prompt L [] { L with output := L.output ++ L.outputBuffer, outputBuffer := [] }
  | attempt : L.output.length ≤ pipeBuf → Move pipeBuf prompt L [] { L with writes := L.writes ++ [L.output] }
  | write : Move pipeBuf prompt L [] { L with fifo := L.fifo ++ L.output, output := [] }
  | queue : L.request = [] → L.outputBuffer = [] →
      Move pipeBuf prompt L [] { L with request := L.output, output := [] }
  | overflow (megabytes : ℕ) :
      Move pipeBuf prompt L []
        { L with log := L.log ++ [.loss (.throwingAway megabytes) L.outputBuffer], outputBuffer := [] }
  | abandon (reason : Loss) :
      Move pipeBuf prompt L [] { L with log := L.log ++ [.loss reason L.output], output := [] }
  | abandonRequest (reason : Loss) :
      Move pipeBuf prompt L [] { L with log := L.log ++ [.loss reason L.request], request := [] }
  | accept (data : List β) (L' : Ledger β) :
      (prompt → L.request = []) → Put data L L' → Move pipeBuf prompt L [data] L'
  | process (time : ℕ) (file : Bytes) (L' : Ledger β) :
      Put (Cell.command L.files.length (processFileCommand time file))
          { L with files := L.files ++ [⟨processFileCommand time file, L.request⟩], request := [] } L' →
        Move pipeBuf prompt L [] L'

/-- Moves one after the other. -/
inductive Moves [Cell β] (pipeBuf : ℕ) (prompt : Prop) : Ledger β → List (List β) → Ledger β → Prop
  | refl (L : Ledger β) : Moves pipeBuf prompt L [] L
  | step {L L' L'' : Ledger β} {new new' : List (List β)} :
      Move pipeBuf prompt L new L' → Moves pipeBuf prompt L' new' L'' → Moves pipeBuf prompt L (new ++ new') L''

section

variable [Cell β] {pipeBuf : ℕ} {prompt : Prop} {L L' L'' : Ledger β} {new new' : List (List β)}

theorem Moves.trans (h : Moves pipeBuf prompt L new L') (h' : Moves pipeBuf prompt L' new' L'') :
    Moves pipeBuf prompt L (new ++ new') L'' := by
  induction h with
  | refl => exact h'
  | step h1 _ ih =>
    rw [List.append_assoc]
    exact .step h1 (ih h')

theorem Move.moves (h : Move pipeBuf prompt L new L') : Moves pipeBuf prompt L new L' := by
  simpa using Moves.step h (.refl L')

/-- Nothing comes in with the moves that follow. -/
theorem Moves.then (h : Moves pipeBuf prompt L new L') (h' : Moves pipeBuf prompt L' [] L'') :
    Moves pipeBuf prompt L new L'' := by
  simpa using h.trans h'

theorem Move.then (h : Move pipeBuf prompt L new L') (h' : Moves pipeBuf prompt L' [] L'') :
    Moves pipeBuf prompt L new L'' :=
  h.moves.then h'

/-! ### Writing -/

theorem moves_nextOutput (s : State β) : Moves pipeBuf prompt s.ledger [] (nextOutput s).ledger := by
  unfold nextOutput
  split
  · exact .refl _
  · rename_i hout
    have hjoin : Move pipeBuf prompt s.ledger [] _ := .join
    simp only [State.ledger, hout, Option.getD_none, List.nil_append] at hjoin ⊢
    exact hjoin.moves

/-- A block that fits into the pipe is taken as a whole. -/
theorem moves_written (hfits : s.outputSize ≤ cfg.pipeBuf) (more : ℕ) :
    Moves pipeBuf prompt s.ledger [] (written (cfg.taken s.outputSize more) s).ledger := by
  have htaken : cfg.taken s.outputSize more = s.outputSize := if_pos hfits
  have hall : (s.output.getD []).take s.outputSize = s.output.getD [] := List.take_length
  rw [htaken]
  have hledger : (written s.outputSize s).ledger =
      { s.ledger with fifo := s.ledger.fifo ++ s.ledger.output, output := [] } := by
    unfold written
    dsimp only
    split <;> simp [State.ledger, State.send, freeOutput, State.stop, hall]
  rw [hledger]
  exact Move.write.moves

theorem moves_writeCb (replies : List WriteReply) (h : ¬ BuffersExceedPipeSize cfg s) :
    Moves cfg.pipeBuf prompt s.ledger [] (writeCb cfg replies s).ledger := by
  induction replies generalizing s with
  | nil =>
    have hfits := (not_buffersExceedPipeSize.mp (exceed_nextOutput h)).1
    exact (moves_nextOutput s).then (Move.attempt hfits).moves
  | cons reply replies ih =>
    have hfits := not_buffersExceedPipeSize.mp (exceed_nextOutput h)
    have hattempt : Moves cfg.pipeBuf prompt s.ledger [] (nextOutput s).attempt.ledger :=
      (moves_nextOutput s).then (Move.attempt hfits.1).moves
    have hfits' : (nextOutput s).attempt.outputSize ≤ cfg.pipeBuf ∧
        (nextOutput s).attempt.outputBuffer.length ≤ cfg.pipeBuf := hfits
    unfold writeCb
    generalize (nextOutput s).attempt = s' at hattempt hfits'
    cases reply with
    | again => exact hattempt
    | interrupted => exact hattempt
    | failed => exact hattempt.then (Move.note .cannotWriteFifo rfl).moves
    | written more =>
      have hwritten := hattempt.then (moves_written hfits'.1 more)
      have hsmall : ∀ n, ¬ BuffersExceedPipeSize cfg (written n s') := by
        intro n
        refine not_buffersExceedPipeSize.mpr ?_
        unfold written
        dsimp only
        split <;> exact ⟨Nat.zero_le _, hfits'.2⟩
      dsimp only
      split
      · exact hwritten.then (ih (hsmall _))
      · exact hwritten

/-! ### Dumps -/

theorem moves_joinBuffers (s : State β) : Moves pipeBuf prompt s.ledger [] (joinBuffers s).ledger := by
  unfold joinBuffers
  split
  · exact .refl _
  · exact Move.join.moves

omit [Cell β] in
theorem joinBuffers_request (s : State β) : (joinBuffers s).request = s.request := by
  unfold joinBuffers
  split <;> rfl

/-- Closing a file that is not needed any more loses nothing. -/
theorem moves_closeDumpFile (close : Bool) (s : State β) :
    Moves pipeBuf prompt s.ledger [] (closeDumpFile close [] s).1.ledger := by
  cases close with
  | false => exact (Move.note (.loss (.cannotClose (s.dumpFile.getD [])) []) rfl).moves
  | true => exact .refl _

omit [Cell β] in
theorem freeOutput_closeDumpFile (close : Bool) (data : List β) (s : State β) :
    freeOutput (closeDumpFile close data s).1 = (closeDumpFile close data (freeOutput s)).1 := by
  cases close <;> rfl

theorem moves_asyncDumpData (r : Replies) (hreq : s.request = none) :
    Moves pipeBuf prompt s.ledger [] (asyncDumpData cfg r s).ledger := by
  have hbuf := joinBuffers_outputBuffer s
  have hreq' := (joinBuffers_request s).trans hreq
  refine (moves_joinBuffers s).then ?_
  unfold asyncDumpData
  generalize joinBuffers s = s' at hbuf hreq'
  unfold openDumpFile
  cases r.mkstemp with
  | none => exact (Move.abandon _).moves
  | some suffix =>
    dsimp only
    split
    · have hqueue : Move pipeBuf prompt s'.ledger [] _ := .queue (by simp [State.ledger, hreq']) hbuf
      exact hqueue.moves
    · rw [freeOutput_closeDumpFile]
      refine Moves.then ?_ (moves_closeDumpFile r.close _)
      exact (Move.abandon .cannotQueue).moves

/-! ### Dispatching -/

omit [Cell β] in
theorem ledger_stopActive (s : State β) (w : Watcher) : (s.stopActive w).ledger = s.ledger := by
  unfold State.stopActive
  split <;> rfl

omit [Cell β] in
/-- Without its watcher there is no request. -/
theorem Orderly.idle (h : Orderly cfg s) (hidle : .async ∉ s.loop.active) : s.request = none := by
  cases hreq : s.request with
  | none => rfl
  | some data => exact absurd (h.async.mpr (by simp [hreq])) hidle

omit [Cell β] in
/-- Without AIO there is no request either. -/
theorem Orderly.idle_of_sync (h : Orderly cfg s) (haio : ¬ cfg.aio = true) : s.request = none := by
  cases hreq : s.request with
  | none => rfl
  | some data => exact absurd (h.aio (by simp [hreq])) haio

theorem moves_dispatchData (r : Replies) (h : Orderly cfg s) :
    Moves cfg.pipeBuf prompt s.ledger [] (dispatchData cfg r s).ledger := by
  unfold dispatchData
  split
  · exact .refl _
  split
  · rename_i hfits
    split
    · exact .refl _
    · have hstart : (s.start .write).ledger = s.ledger := rfl
      rw [← hstart]
      exact moves_writeCb _ hfits
  · rw [State.stopActive_eq s .write h.writePending]
    have hstop : (s.stop .write).ledger = s.ledger := rfl
    rw [← hstop]
    dsimp only
    split
    · split
      · exact .refl _
      · rename_i hidle
        exact moves_asyncDumpData r ((h.stop (w := .write) (by decide)).idle hidle)
    · split
      · exact .refl _
      · exact .refl _

/-- The buffer may have been thrown away. -/
def Overflowed (L L' : Ledger β) : Prop :=
  L' = L ∨ ∃ megabytes,
    L' = { L with log := L.log ++ [.loss (.throwingAway megabytes) L.outputBuffer], outputBuffer := [] }

theorem Overflowed.moves (h : Overflowed L L') : Moves pipeBuf prompt L [] L' := by
  rcases h with rfl | ⟨megabytes, rfl⟩
  · exact .refl _
  · exact (Move.overflow megabytes).moves

omit [Cell β] in
theorem overflowed_throwAway (cfg : Config) (size : ℕ) (s : State β) :
    Overflowed s.ledger (throwAway cfg size s).ledger := by
  unfold throwAway
  split
  · exact Or.inr ⟨_, rfl⟩
  · exact Or.inl rfl

omit [Cell β] in
theorem throwAway_request (size : ℕ) (s : State β) : (throwAway cfg size s).request = s.request := by
  unfold throwAway
  split <;> rfl

omit [Cell β] in
theorem orderly_throwAway (size : ℕ) (h : Orderly cfg s) : Orderly cfg (throwAway cfg size s) := by
  unfold throwAway
  split
  · exact (h.with_data s.output []).of_hand rfl
  · exact h

omit [Cell β] in
/-- `fifo_write()` may throw away what is in the buffer, takes the data in and dispatches it. -/
theorem fifoWrite_cases (data : List β) (freeData : Bool) (r : Replies) (h : Orderly cfg s) :
    ∃ (L : Ledger β) (u : State β), Overflowed s.ledger L ∧ L.request = s.ledger.request ∧ Put data L u.ledger ∧
      Orderly cfg u ∧ fifoWrite cfg data freeData r s = dispatchData cfg r u := by
  unfold fifoWrite
  split
  · rename_i hempty
    have hout : s.ledger.output = [] := by simp [State.ledger, hempty.1.1]
    have hbuf : s.ledger.outputBuffer = [] := List.eq_nil_of_length_eq_zero hempty.1.2
    exact ⟨s.ledger, _, Or.inl rfl, rfl, .output hout hbuf, h.with_data _ _, rfl⟩
  · refine ⟨(throwAway cfg data.length s).ledger, _, overflowed_throwAway _ _ _, ?_, .buffer,
      (orderly_throwAway data.length h).with_data _ _, rfl⟩
    exact congrArg (Option.getD · []) (throwAway_request data.length s)

theorem moves_fifoWrite (data : List β) (freeData : Bool) (r : Replies) (h : Orderly cfg s)
    (hprompt : prompt → s.request = none) :
    Moves cfg.pipeBuf prompt s.ledger [data] (fifoWrite cfg data freeData r s).ledger := by
  obtain ⟨L, u, hover, hreq, hput, hu, heq⟩ := fifoWrite_cases data freeData r h
  have haccept : Move cfg.pipeBuf prompt L [data] u.ledger :=
    .accept data _ (fun hp => by rw [hreq, State.ledger, hprompt hp]; rfl) hput
  rw [heq]
  exact hover.moves.trans (haccept.then (moves_dispatchData r hu))

/-! ### The end of a dump -/

/-- The dump file takes the place of the request, or the data is given up. -/
theorem moves_processDumpFile (time : ℕ) (close : Bool) (r : Replies) (h : Orderly cfg s)
    (hL : s.ledger = { L with request := [] }) :
    Moves cfg.pipeBuf prompt L [] (processDumpFile cfg time close L.request r s).ledger := by
  cases close with
  | false =>
    have hclosed : (processDumpFile cfg time false L.request r s).ledger =
        { s.ledger with log := s.ledger.log ++ [.loss (.cannotClose (s.dumpFile.getD [])) L.request] } := rfl
    rw [hclosed, hL]
    exact (Move.abandonRequest _).moves
  | true =>
    let text := processFileCommand time (s.dumpFile.getD [])
    let s' := (closeDumpFile true L.request s).1.filed ⟨text, L.request⟩
    have hs' : s'.ledger = { L with files := L.files ++ [⟨text, L.request⟩], request := [] } := by
      have hfiled : s'.ledger = { s.ledger with files := s.ledger.files ++ [⟨text, L.request⟩] } := rfl
      rw [hfiled, hL]
    have hlen : s.history.files.length = L.files.length := congrArg (fun L : Ledger β => L.files.length) hL
    have ho : Orderly cfg s' := h.of_hand rfl
    obtain ⟨L', u, hover, -, hput, hu, heq⟩ := fifoWrite_cases (Cell.command L.files.length text) true r ho
    have hwrite : processDumpFile cfg time true L.request r s =
        fifoWrite cfg (Cell.command L.files.length text) true r s' := by
      rw [← hlen]
      rfl
    rw [hwrite, heq]
    refine Moves.then ?_ (moves_dispatchData r hu)
    rw [hs'] at hover
    rcases hover with rfl | ⟨megabytes, rfl⟩
    · exact (Move.process time _ _ hput).moves
    · exact (Move.overflow megabytes).then (Move.process time _ _ hput).moves

theorem moves_requestDone (reply : AioReply) (time : ℕ) (close : Bool) (r : Replies) (h : Flowing cfg s) :
    Moves cfg.pipeBuf prompt s.ledger [] (requestDone cfg reply time close r s).ledger := by
  have ho := h.answered.toOrderly
  unfold requestDone
  cases reply with
  | failed => exact (Move.abandonRequest _).moves
  | wrote n =>
    dsimp only
    split
    · exact (Move.abandonRequest _).moves
    · exact moves_processDumpFile time close r ho rfl

theorem moves_asyncCb (reply : AioReply) (time : ℕ) (close : Bool) (r r' : Replies) (h : Flowing cfg s) :
    Moves cfg.pipeBuf prompt s.ledger [] (asyncCb cfg reply time close r r' s).ledger := by
  have hdone : Moves cfg.pipeBuf prompt s.ledger [] _ := moves_requestDone reply time close r h
  unfold asyncCb
  dsimp only
  split
  · exact hdone.then (moves_dispatchData r' (flowing_requestDone reply time close r h).toOrderly)
  · exact hdone

omit [Cell β] in
/-- If the dump file is written without an error, all of the block is in it. -/
theorem dumpLoop_eq_some {output : List β} {replies : List DumpReply} {offset : ℕ} {contents : List β}
    (h : dumpLoop output replies offset (output.take offset) = some contents) : contents = output := by
  induction replies generalizing offset with
  | nil =>
    unfold dumpLoop at h
    split at h
    · rename_i hle
      rw [List.take_of_length_le hle] at h
      exact (Option.some.inj h).symm
    · rw [List.take_append_drop] at h
      exact (Option.some.inj h).symm
  | cons reply replies ih =>
    unfold dumpLoop at h
    split at h
    · rename_i hle
      rw [List.take_of_length_le hle] at h
      exact (Option.some.inj h).symm
    · cases reply with
      | failed => cases h
      | written n =>
        dsimp only at h
        rw [← List.take_add] at h
        exact ih h

theorem moves_idleCb (d : DumpReplies) (r : Replies) (h : Orderly cfg s) (hreq : s.request = none) :
    Moves cfg.pipeBuf prompt s.ledger [] (idleCb cfg d r s).ledger := by
  have hledger : ((s.stop .idle).stopActive .timeout).ledger = s.ledger := ledger_stopActive _ _
  have ho : Orderly cfg ((s.stop .idle).stopActive .timeout) := by
    unfold State.stopActive
    split
    · exact (h.stop (by decide)).stop (by decide)
    · exact h.stop (by decide)
  have hreq' : ((s.stop .idle).stopActive .timeout).request = none := by
    unfold State.stopActive
    split <;> exact hreq
  unfold idleCb
  rw [← hledger]
  generalize (s.stop .idle).stopActive .timeout = s at ho hreq'
  have hbuf := joinBuffers_outputBuffer s
  have ho' := orderly_joinBuffers ho
  have hreq := (joinBuffers_request s).trans hreq'
  refine (moves_joinBuffers s).then ?_
  unfold syncDumpData
  generalize joinBuffers s = s' at hbuf ho' hreq
  unfold openDumpFile
  cases d.mkstemp with
  | none => exact (Move.abandon _).moves
  | some suffix =>
    dsimp only
    split
    · rw [freeOutput_closeDumpFile]
      refine Moves.then ?_ (moves_closeDumpFile d.close _)
      exact (Move.abandon _).moves
    · rename_i contents hloop
      have hcontents := dumpLoop_eq_some hloop
      have hqueue : Move cfg.pipeBuf prompt s'.ledger [] _ := .queue (by simp [State.ledger, hreq]) hbuf
      refine hqueue.then ?_
      subst hcontents
      refine moves_processDumpFile (L := { s'.ledger with request := s'.ledger.output, output := [] })
        d.time d.close r ((ho'.with_data none s'.outputBuffer).of_hand rfl) ?_
      simp [State.ledger, freeOutput, hreq]

/-! ### Steps -/

omit [Cell β] in
theorem ledger_retryOpen (s : State β) : (retryOpen s).ledger = s.ledger := by
  unfold retryOpen
  split <;> rfl

theorem moves_openCb (custom : Bool) (reply : OpenReply) (r : Replies) (h : Orderly cfg s) :
    Moves cfg.pipeBuf prompt s.ledger [] (openCb cfg custom reply r s).ledger := by
  have hfailed : ∀ m : Message β, m.data = [] →
      Moves cfg.pipeBuf prompt s.ledger [] (retryOpen ({ s with isOpen := false }.logged m)).ledger := by
    intro m hm
    rw [ledger_retryOpen]
    exact (Move.note m hm).moves
  have hopened : ∀ s' : State β, Orderly cfg s' → Moves cfg.pipeBuf prompt s'.ledger []
      (retryOpen (if BuffersAreEmpty s' then s' else dispatchData cfg r s')).ledger := by
    intro s' ho
    rw [ledger_retryOpen]
    split
    · exact .refl _
    · exact moves_dispatchData r ho
  have ho : Orderly cfg { s with isOpen := true, loop := s.loop.ioSet .write .write } :=
    ⟨fun _ => rfl, by simpa using h.writePending, by simpa using h.async, by simpa using h.asyncPending, h.aio⟩
  cases reply with
  | failed noReader => cases noReader <;> exact hfailed _ rfl
  | noStatus => exact hfailed _ rfl
  | notFifo => exact hfailed _ rfl
  | opened =>
    cases custom with
    | true => exact hopened _ ho
    | false =>
      let s' : State β :=
        { ({ s with isOpen := true } : State β).logged .opened with loop := s.loop.ioSet .write .write }
      have hnote : Moves cfg.pipeBuf prompt s.ledger [] s'.ledger := (Move.note .opened rfl).moves
      exact hnote.then (hopened s' (ho.of_hand rfl))

/-- **Every step is a sequence of moves.** -/
theorem moves_step {e : Event β} (hs : Armed cfg s) (h : step cfg s e = some t)
    (hprompt : prompt → e.records ≠ [] → s.request = none) :
    Moves cfg.pipeBuf prompt s.ledger e.records t.ledger := by
  cases e with
  | advance time =>
    obtain rfl := Option.some.inj h
    exact .refl _
  | ready w =>
    obtain ⟨-, h⟩ := Option.ite_none_right_eq_some.mp h
    obtain rfl := Option.some.inj h
    exact .refl _
  | expire w =>
    obtain ⟨-, h⟩ := Option.ite_none_right_eq_some.mp h
    obtain rfl := Option.some.inj h
    exact .refl _
  | openCb reply r =>
    obtain ⟨-, rfl⟩ := invoke_eq_some h
    exact moves_openCb (s := { s with loop := s.loop.take .reopen }) false reply r (hs.toOrderly.take .reopen)
  | writeCb replies =>
    obtain ⟨hp, rfl⟩ := invoke_eq_some h
    exact moves_writeCb (s := { s with loop := s.loop.take .write }) replies (hs.small (hs.writePending hp))
  | asyncCb reply time close r r' =>
    obtain ⟨-, h⟩ := Option.ite_none_right_eq_some.mp h
    obtain ⟨-, rfl⟩ := invoke_eq_some h
    exact moves_asyncCb reply time close r r' (hs.take (w := .async) (by decide)).toFlowing
  | idleCb d r =>
    obtain ⟨haio, h⟩ := Option.ite_none_left_eq_some.mp h
    obtain ⟨-, rfl⟩ := invoke_eq_some h
    have hreq := hs.toOrderly.idle_of_sync haio
    exact moves_idleCb d r (hs.take (w := .idle) (by decide)).toOrderly hreq
  | timeoutCb d r =>
    obtain ⟨haio, h⟩ := Option.ite_none_left_eq_some.mp h
    obtain ⟨-, rfl⟩ := invoke_eq_some h
    have hreq := hs.toOrderly.idle_of_sync haio
    exact moves_idleCb d r (hs.take (w := .timeout) (by decide)).toOrderly hreq
  | fifoWrite data freeData r =>
    obtain rfl := Option.some.inj h
    exact moves_fifoWrite data freeData r hs.toOrderly fun hp => hprompt hp (by simp [Event.records])

/-- The records of a run come in with its moves. -/
theorem moves_runs {R : State β → Event β → State β → Prop} {es : List (Event β)}
    (hR : ∀ s e t, Armed cfg s → R s e t → step cfg s e = some t ∧ (prompt → e.records ≠ [] → s.request = none))
    (hs : Armed cfg s) (h : Machine.Runs R s es t) :
    Moves cfg.pipeBuf prompt s.ledger (records es) t.ledger := by
  induction h with
  | nil => exact .refl _
  | cons h1 _ ih =>
    obtain ⟨hstep, hprompt⟩ := hR _ _ _ hs h1
    exact (moves_step hs hstep hprompt).trans (ih (armed_step hs hstep))

def Ledger.empty : Ledger β := ⟨[], [], [], [], [], [], []⟩

theorem moves_fifoStart (cfg : Config) (reply : OpenReply) (r : Replies) (now : ℚ) :
    Moves cfg.pipeBuf prompt Ledger.empty [] (fifoStart cfg reply r now : State β).ledger :=
  moves_openCb (s := initial now) true reply r (orderly_initial cfg now)

end

end Fifo
end NscaNg
