/-
# The dump files of the command file writer

A dump that fails early gives its file back at once, and a complete one before its command is written.
While an AIO request is on its way, its file is the only one in use (`Tidy`). But a request that fails,
or writes less than it was given, leaves its file open for good: `async_cb()` closes that of a complete
request only. So the writer cleans up in every run whose requests are completed (`cleaned_up`).
-/
import NscaNg.Server.FifoWatchers

namespace NscaNg
namespace Fifo

open Posix Libev

variable {β : Type} {cfg : Config} {s t : State β}

/-! ### The file in use -/

/-- The part of the state that is about dump files. -/
structure Dumps where
  opened : ℕ
  closed : List ℕ
  file : Option Bytes
  fd : Option ℕ
  inFlight : Bool

def State.dumps (s : State β) : Dumps :=
  ⟨s.history.opened, s.history.closed, s.dumpFile, s.dumpFd, s.request.isSome⟩

namespace Dumps

/-- Each descriptor that was opened has been closed once, and there is no name. -/
structure CleanedUp (d : Dumps) : Prop where
  closed : d.closed = List.range d.opened
  file : d.file = none

/-- Only the last descriptor that was opened has not been closed. -/
def InUse (d : Dumps) : Prop := ∃ fd, d.fd = some fd ∧ d.opened = fd + 1 ∧ d.closed = List.range fd

/-- A file is in use while a request is on its way, and no longer. -/
def Tidy (d : Dumps) : Prop := if d.inFlight then d.InUse else d.CleanedUp

theorem Tidy.cleanedUp {d : Dumps} (h : d.Tidy) (hd : d.inFlight = false) : d.CleanedUp := by
  rwa [Tidy, hd, if_neg Bool.false_ne_true] at h

theorem Tidy.inUse {d : Dumps} (h : d.Tidy) (hd : d.inFlight = true) : d.InUse := by
  rwa [Tidy, hd, if_pos rfl] at h

theorem CleanedUp.tidy {d : Dumps} (h : d.CleanedUp) (hd : d.inFlight = false) : d.Tidy := by
  rwa [Tidy, hd, if_neg Bool.false_ne_true]

end Dumps

/-! ### What has nothing to do with dump files -/

theorem dumps_nextOutput (s : State β) : (nextOutput s).dumps = s.dumps := by
  unfold nextOutput
  split <;> rfl

theorem dumps_written (n : ℕ) (s : State β) : (written n s).dumps = s.dumps := by
  unfold written
  dsimp only
  split <;> rfl

theorem dumps_writeCb (replies : List WriteReply) (s : State β) : (writeCb cfg replies s).dumps = s.dumps := by
  induction replies generalizing s with
  | nil => exact dumps_nextOutput s
  | cons reply replies ih =>
    have hnext : (nextOutput s).attempt.dumps = s.dumps := dumps_nextOutput s
    unfold writeCb
    cases reply with
    | again => exact hnext
    | interrupted => exact hnext
    | failed => exact hnext
    | written more =>
      dsimp only
      split
      · rw [ih, dumps_written, hnext]
      · rw [dumps_written, hnext]

theorem dumps_joinBuffers (s : State β) : (joinBuffers s).dumps = s.dumps := by
  unfold joinBuffers
  split <;> rfl

theorem dumps_stopActive (w : Watcher) (s : State β) : (s.stopActive w).dumps = s.dumps := by
  unfold State.stopActive
  split <;> rfl

theorem dumps_retryOpen (s : State β) : (retryOpen s).dumps = s.dumps := by
  unfold retryOpen
  split <;> rfl

/-! ### Opening and closing -/

theorem openDumpFile_cases (cfg : Config) (mkstemp : Option Bytes) (h : s.dumps.CleanedUp) :
    (openDumpFile cfg mkstemp s).1.request = s.request ∧
      if (openDumpFile cfg mkstemp s).2 then (openDumpFile cfg mkstemp s).1.dumps.InUse
      else (openDumpFile cfg mkstemp s).1.dumps.CleanedUp := by
  cases mkstemp with
  | none => exact ⟨rfl, ⟨h.closed, rfl⟩⟩
  | some suffix => exact ⟨rfl, ⟨s.history.opened, rfl, rfl, h.closed⟩⟩

/-- The file is closed, whether or not `close()` reports an error. -/
theorem closeDumpFile_inUse (close : Bool) (data : List β) (h : s.dumps.InUse) :
    (closeDumpFile close data s).1.dumps.CleanedUp ∧ (closeDumpFile close data s).1.request = s.request := by
  obtain ⟨fd, hfd, hopened, hclosed⟩ := h
  have hlist : s.history.closed ++ s.dumpFd.toList = List.range s.history.opened := by
    rw [show s.history.closed = List.range fd from hclosed, show s.dumpFd = some fd from hfd,
      show s.history.opened = fd + 1 from hopened, List.range_succ]
    rfl
  cases close with
  | true => exact ⟨⟨hlist, rfl⟩, rfl⟩
  | false => exact ⟨⟨hlist, rfl⟩, rfl⟩

/-! ### Dumps -/

/-- A dump starts with all files closed. -/
theorem cleanedUp_joinBuffers (hidle : s.request = none) (h : s.dumps.Tidy) :
    (joinBuffers s).dumps.CleanedUp ∧ (joinBuffers s).request = none := by
  have hjoined := dumps_joinBuffers s
  have hflight : (joinBuffers s).dumps.inFlight = false := by
    rw [hjoined, State.dumps, hidle]
    rfl
  refine ⟨(hjoined ▸ h).cleanedUp hflight, ?_⟩
  exact Option.isSome_eq_false_iff.mp hflight |> Option.isNone_iff_eq_none.mp

theorem tidy_asyncDumpData (r : Replies) (hidle : s.request = none) (h : s.dumps.Tidy) :
    (asyncDumpData cfg r s).dumps.Tidy := by
  obtain ⟨hclean, hrequest⟩ := cleanedUp_joinBuffers hidle h
  obtain ⟨hsame, hfile⟩ := openDumpFile_cases cfg r.mkstemp hclean
  unfold asyncDumpData
  generalize openDumpFile cfg r.mkstemp (joinBuffers s) = p at hsame hfile
  obtain ⟨s', created⟩ := p
  rw [hrequest] at hsame
  dsimp only at hsame hfile
  cases created with
  | false =>
    have hflight : (freeOutput s').dumps.inFlight = false := congrArg Option.isSome hsame
    exact Dumps.CleanedUp.tidy hfile hflight
  | true =>
    dsimp only
    split
    · exact hfile
    · have hopen : ((s'.start .async).logged (.loss .cannotQueue ((s'.start .async).output.getD []))).dumps.InUse := hfile
      obtain ⟨hclosed, hr⟩ := closeDumpFile_inUse r.close [] (s := (((s'.start .async).logged
        (.loss .cannotQueue ((s'.start .async).output.getD []))).stop .async)) hopen
      exact Dumps.CleanedUp.tidy hclosed (congrArg Option.isSome (hr.trans hsame))

theorem tidy_dispatchData (r : Replies) (hasync : .async ∉ s.loop.active → s.request = none) (h : s.dumps.Tidy) :
    (dispatchData cfg r s).dumps.Tidy := by
  unfold dispatchData
  split
  · exact h
  split
  · split
    · exact h
    · rw [dumps_writeCb]
      exact h
  · have hstop : (s.stopActive .write).dumps.Tidy := by rwa [dumps_stopActive]
    dsimp only
    split
    · split
      · exact hstop
      · rename_i hoff
        refine tidy_asyncDumpData r ?_ hstop
        have hact : .async ∈ (s.stopActive .write).loop.active ↔ .async ∈ s.loop.active := by
          unfold State.stopActive
          split
          · simp [State.stop]
          · rfl
        have hrequest : (s.stopActive .write).request = s.request := by
          unfold State.stopActive
          split <;> rfl
        rw [hrequest]
        exact hasync (mt hact.mpr hoff)
    · split
      · exact hstop
      · exact hstop

theorem tidy_fifoWrite (data : List β) (freeData : Bool) (r : Replies)
    (hasync : .async ∉ s.loop.active → s.request = none) (h : s.dumps.Tidy) :
    (fifoWrite cfg data freeData r s).dumps.Tidy := by
  unfold fifoWrite
  split
  · exact tidy_dispatchData r hasync h
  · have hsame : (throwAway cfg data.length s).dumps = s.dumps ∧
        (throwAway cfg data.length s).loop = s.loop ∧ (throwAway cfg data.length s).request = s.request := by
      unfold throwAway
      split <;> exact ⟨rfl, rfl, rfl⟩
    obtain ⟨hdumps, hloop, hrequest⟩ := hsame
    refine tidy_dispatchData r ?_ ?_
    · show .async ∉ (throwAway cfg data.length s).loop.active → (throwAway cfg data.length s).request = none
      rwa [hloop, hrequest]
    · show (throwAway cfg data.length s).dumps.Tidy
      rwa [hdumps]

theorem tidy_openCb (custom : Bool) (reply : OpenReply) (r : Replies)
    (hasync : .async ∉ s.loop.active → s.request = none) (h : s.dumps.Tidy) :
    (openCb cfg custom reply r s).dumps.Tidy := by
  have hfailed : ∀ m : Message β, (retryOpen ({ s with isOpen := false }.logged m)).dumps.Tidy := by
    intro m
    rw [dumps_retryOpen]
    exact h
  cases reply with
  | failed noReader => exact hfailed _
  | noStatus => exact hfailed _
  | notFifo => exact hfailed _
  | opened =>
    unfold openCb
    dsimp only
    rw [dumps_retryOpen]
    have hopened : ∀ u : State β, u.loop.active = s.loop.active → u.request = s.request → u.dumps = s.dumps →
        (if BuffersAreEmpty u then u else dispatchData cfg r u).dumps.Tidy := by
      intro u hact hrequest hdumps
      split
      · rwa [hdumps]
      · refine tidy_dispatchData r ?_ (hdumps ▸ h)
        rwa [hact, hrequest]
    cases custom with
    | true => exact hopened _ (Loop.ioSet_active _ _ _) rfl rfl
    | false => exact hopened _ (Loop.ioSet_active _ _ _) rfl rfl

section

variable [Cell β]

/-- A file that is complete is closed, and then its command is written. -/
theorem tidy_processDumpFile (time : ℕ) (close : Bool) (contents : List β) (r : Replies) (hidle : s.request = none)
    (h : s.dumps.InUse) : (processDumpFile cfg time close contents r s).dumps.Tidy := by
  obtain ⟨hclean, hrequest⟩ := closeDumpFile_inUse close contents h
  rw [hidle] at hrequest
  have htidy : (closeDumpFile close contents s).1.dumps.Tidy := hclean.tidy (congrArg Option.isSome hrequest)
  cases close with
  | false => exact htidy
  | true => exact tidy_fifoWrite _ _ _ (fun _ => hrequest) htidy

/-- A request that is complete gives its file back. -/
theorem tidy_requestDone (cfg : Config) (time : ℕ) (close : Bool) (r : Replies) (hflight : s.request.isSome = true)
    (h : s.dumps.Tidy) :
    (requestDone cfg (.wrote (s.request.getD []).length) time close r s).dumps.Tidy := by
  have huse : ({ s.stop .async with request := none } : State β).dumps.InUse := h.inUse hflight
  unfold requestDone
  dsimp only
  rw [if_neg (not_not.mpr rfl)]
  exact tidy_processDumpFile time close (s.request.getD []) r rfl huse

theorem tidy_idleCb (d : DumpReplies) (r : Replies) (hidle : s.request = none) (h : s.dumps.Tidy) :
    (idleCb cfg d r s).dumps.Tidy := by
  have hstop : ((s.stop .idle).stopActive .timeout).dumps.Tidy ∧
      ((s.stop .idle).stopActive .timeout).request = none := by
    rw [dumps_stopActive]
    refine ⟨h, ?_⟩
    unfold State.stopActive
    split <;> exact hidle
  unfold idleCb
  generalize (s.stop .idle).stopActive .timeout = u at hstop
  obtain ⟨hclean, hrequest⟩ := cleanedUp_joinBuffers hstop.2 hstop.1
  obtain ⟨hsame, hfile⟩ := openDumpFile_cases cfg d.mkstemp hclean
  unfold syncDumpData
  generalize openDumpFile cfg d.mkstemp (joinBuffers u) = p at hsame hfile
  obtain ⟨s', created⟩ := p
  rw [hrequest] at hsame
  dsimp only at hsame hfile
  cases created with
  | false => exact Dumps.CleanedUp.tidy hfile (congrArg Option.isSome hsame)
  | true =>
    dsimp only
    split
    · obtain ⟨hclosed, hr⟩ := closeDumpFile_inUse d.close []
        (s := s'.logged (.loss (.cannotWrite (s'.dumpFile.getD [])) (s'.output.getD []))) hfile
      exact Dumps.CleanedUp.tidy hclosed (congrArg Option.isSome (hr.trans hsame))
    · exact tidy_processDumpFile d.time d.close _ r hsame hfile

/-! ### Steps -/

/-- A request that is done has written what it was given. -/
def Completed (s : State β) : Event β → Prop
  | .asyncCb reply _ _ _ _ => reply = .wrote (s.request.getD []).length
  | .advance _ | .ready _ | .expire _ | .openCb _ _ | .writeCb _ | .idleCb _ _ | .timeoutCb _ _
  | .fifoWrite _ _ _ => True

instance decidableCompleted (s : State β) : ∀ e, Decidable (Completed s e)
  | .asyncCb reply _ _ _ _ => decidable_of_iff (reply = .wrote (s.request.getD []).length) Iff.rfl
  | .advance _ | .ready _ | .expire _ | .openCb _ _ | .writeCb _ | .idleCb _ _ | .timeoutCb _ _
  | .fifoWrite _ _ _ => .isTrue trivial

/-- A file is in use in a request only, along with watchers that fit the data. -/
theorem tidy_step {e : Event β} (hs : Armed cfg s) (htidy : s.dumps.Tidy) (hdone : Completed s e)
    (h : step cfg s e = some t) : t.dumps.Tidy := by
  have hasync : .async ∉ s.loop.active → s.request = none := fun hoff => by
    simpa using mt hs.async.mpr hoff
  cases e with
  | advance time =>
    obtain rfl := Option.some.inj h
    exact htidy
  | ready w =>
    obtain ⟨-, h⟩ := Option.ite_none_right_eq_some.mp h
    obtain rfl := Option.some.inj h
    exact htidy
  | expire w =>
    obtain ⟨-, h⟩ := Option.ite_none_right_eq_some.mp h
    obtain rfl := Option.some.inj h
    exact htidy
  | openCb reply r =>
    obtain ⟨-, rfl⟩ := invoke_eq_some h
    exact tidy_openCb false reply r hasync htidy
  | writeCb replies =>
    obtain ⟨-, rfl⟩ := invoke_eq_some h
    rw [dumps_writeCb]
    exact htidy
  | asyncCb reply time close r r' =>
    obtain ⟨-, h⟩ := Option.ite_none_right_eq_some.mp h
    obtain ⟨hp, rfl⟩ := invoke_eq_some h
    have hflow := (hs.take (w := .async) (by decide)).toFlowing
    have hflight := hs.async.mp (hs.asyncPending hp)
    obtain rfl : reply = .wrote (s.request.getD []).length := hdone
    have htidy' := tidy_requestDone cfg time close r (s := { s with loop := s.loop.take .async }) hflight htidy
    have hasync' := (flowing_requestDone (.wrote (s.request.getD []).length) time close r hflow).async
    unfold asyncCb
    dsimp only
    split
    · exact tidy_dispatchData r' (fun hoff => by simpa using mt hasync'.mpr hoff) htidy'
    · exact htidy'
  | idleCb d r =>
    obtain ⟨haio, h⟩ := Option.ite_none_left_eq_some.mp h
    obtain ⟨-, rfl⟩ := invoke_eq_some h
    exact tidy_idleCb d r (by simpa using mt hs.aio haio) htidy
  | timeoutCb d r =>
    obtain ⟨haio, h⟩ := Option.ite_none_left_eq_some.mp h
    obtain ⟨-, rfl⟩ := invoke_eq_some h
    exact tidy_idleCb d r (by simpa using mt hs.aio haio) htidy
  | fifoWrite data freeData r =>
    obtain rfl := Option.some.inj h
    exact tidy_fifoWrite data freeData r hasync htidy

end

/-- A record that does not fit into the pipe, and the end of the request for it. -/
def dumped (reply : AioReply) : List (Event UInt8) :=
  [.fifoWrite (List.replicate 513 0) true ⟨[], some (ascii "abcdef"), true, true⟩, .ready .async,
    .asyncCb reply 0 true ⟨[.again], none, true, true⟩ ⟨[], none, true, true⟩]

end Fifo
end NscaNg
