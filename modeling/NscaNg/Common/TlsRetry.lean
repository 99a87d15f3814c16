/-
# Calls that are to be repeated

OpenSSL wants a call that ended with `WANT_READ` or `WANT_WRITE` to be repeated with the same
arguments. The arguments of a call are computed from the state when the call is made, so what is kept
is that the state still says what the last call did if that is to be repeated (`Repeatable`). A
request that is made meanwhile would change it; `tls_read()` does not allow that while the read watcher
is active, and its users do not do it either when a timeout has stopped the watcher (`Completes`).
-/
import Mathlib.Data.List.Chain
import NscaNg.Common.TlsOutput
import NscaNg.Common.TlsPending

namespace NscaNg
namespace Tls

open Posix Libev

variable {η : Type}

/-- If the first call is to be repeated, the second one repeats it. -/
def Repeats (c c' : SslCall) : Prop := c.Retry → c'.args = c.args

def OutputCall.write? : OutputCall → Option SslCall
  | .write call => some call
  | .drain _ => none

/-- The calls of `SSL_write()` among these. -/
def writesOf (l : List OutputCall) : List SslCall := l.filterMap OutputCall.write?

/-- A read operation is not followed by another one before it has been completed: `tls_read()` refuses
that while the watcher is active, and after a timeout the users of the connection see to it. -/
def Completes (x : Traced η) : Event η → Prop
  | .tlsRead _ _ => .read ∈ x.conn.loop.active ∨ ∀ c ∈ x.reads.getLast?, ¬ c.Retry
  | _ => True

instance decidableRetry (c : SslCall) : Decidable c.Retry := by
  unfold SslCall.Retry
  infer_instance

instance decidableCompletes (x : Traced η) : (e : Event η) → Decidable (Completes x e)
  | .tlsRead _ _ => inferInstanceAs (Decidable (.read ∈ x.conn.loop.active ∨ ∀ c ∈ x.reads.getLast?, ¬ c.Retry))
  | .advance _ | .ready _ | .expire | .acceptSslCb _ | .readCb _ | .writeCb _ | .shutdownCb _ | .timeoutCb
  | .tlsWrite _ _ | .tlsWriteLine _ | .tlsShutdown | .tlsOnError _ | .tlsOnTimeout _ | .tlsOnLineTooLong _ =>
    instDecidableTrue

/-! ### Lists of calls -/

theorem chain_cons {c : SslCall} {l : List SslCall} (hc : ¬ c.Retry) (hl : l.IsChain Repeats) :
    (c :: l).IsChain Repeats := .cons hl fun _ _ hr => absurd hr hc

/-- A call that is to be repeated is not the first one if that went well. -/
theorem mem_getLast_cons {c c' : SslCall} {l : List SslCall} (hc : ¬ c.Retry) (h : c' ∈ (c :: l).getLast?)
    (hr : c'.Retry) : c' ∈ l.getLast? := by
  rw [List.getLast?_cons, Option.mem_some_iff] at h
  cases hl : l.getLast? with
  | none =>
    rw [hl, Option.getD_none] at h
    exact absurd (h ▸ hr) hc
  | some d => simpa [hl] using h

theorem not_retry_ok (block offset : ℕ) (num : ℤ) : ¬ SslCall.Retry ⟨block, offset, num, none⟩ := by
  simp [SslCall.Retry]

/-! ### Reading -/

/-- The arguments of the next call of `SSL_read()`. -/
def State.readArgs (s : State η) (block : ℕ) : ℕ × ℕ × ℤ :=
  match s.readMode with
  | .readLine => (block, 0, toInt s.inputSize)
  | .readBytes => (block, s.inputOffset, toInt (s.inputSize - s.inputOffset))

/-- The calls of `SSL_read()` that a callback makes in the state `s`, and what comes of them. -/
structure ReadsOn (block : ℕ) (l : List SslCall) (s : State η) (result : State η × Option Bytes) : Prop where
  chain : l.IsChain Repeats
  first : ¬ Answerable s → l.head?.map SslCall.args = some (s.readArgs block)
  last : ∀ c ∈ l.getLast?, c.Retry → result.2 = none ∧ result.1.input.isSome ∧ ¬ Answerable result.1 ∧
    c.args = result.1.readArgs block

theorem readArgs_of_side {s t : State η} (h : t.inputSide = s.inputSide) (block : ℕ) :
    t.readArgs block = s.readArgs block := by
  simp only [State.inputSide, InputSide.mk.injEq] at h
  unfold State.readArgs
  rw [h.2.2.1, h.2.2.2.1, h.2.2.2.2.1]

theorem isSome_input_of_side {s t : State η} (h : t.inputSide = s.inputSide) :
    t.input.isSome = s.input.isSome := congrArg (fun i => i.input.isSome) h

/-- A call that fails is the last one. -/
theorem readsOn_error {s : State η} {block offset : ℕ} {num : ℤ} (hin : s.input.isSome) (hs : ¬ Answerable s)
    (hargs : s.readArgs block = (block, offset, num)) (e : SslError) :
    ReadsOn block [⟨block, offset, num, some e⟩] s (checkTlsError .read e s, none) := by
  have hside := inputSide_checkTlsError .read e s
  refine ⟨.singleton _, fun _ => by rw [hargs]; rfl, fun c hc _ => ⟨rfl, ?_, ?_, ?_⟩⟩
  · exact (isSome_input_of_side hside).trans hin
  · exact mt (answerable_of_side hside).mp hs
  · obtain rfl : _ = c := by simpa using hc
    exact ((readArgs_of_side hside block).trans hargs).symm

theorem ReadsOn.cons {s u : State η} {block offset : ℕ} {num : ℤ} {l : List SslCall}
    {result : State η × Option Bytes} (h : ReadsOn block l u result)
    (hargs : s.readArgs block = (block, offset, num)) :
    ReadsOn block (⟨block, offset, num, none⟩ :: l) s result :=
  ⟨chain_cons (not_retry_ok _ _ _) h.chain, fun _ => by rw [hargs]; rfl,
    fun c hc hr => h.last c (mem_getLast_cons (not_retry_ok _ _ _) hc hr) hr⟩

theorem readsOn_readLineLoop (block : ℕ) (replies : List SslRead) {s : State η} (hmode : s.readMode = .readLine)
    (hin : s.input.isSome) : ReadsOn block (readLineCalls block replies s) s (readLineLoop replies s) := by
  have hargs : ∀ s : State η, s.readMode = .readLine → s.readArgs block = (block, 0, toInt s.inputSize) := by
    intro s hmode
    rw [State.readArgs, hmode]
  fun_induction readLineLoop replies s with
  | case1 replies s line rest hline =>
    have hmem : Answerable s := by
      refine ⟨hmode, Or.inl ?_⟩
      by_contra hc
      rw [bufferReadLine_eq_none.mpr hc] at hline
      cases hline
    unfold readLineCalls
    rw [hline]
    exact ⟨.nil, fun hc => absurd hmem hc, fun c hc => (by cases hc)⟩
  | case2 replies s hline hlong =>
    unfold readLineCalls
    rw [hline, if_pos hlong]
    exact ⟨.nil, fun hc => absurd ⟨hmode, Or.inr hlong⟩ hc, fun c hc => (by cases hc)⟩
  | case3 s hline hlong =>
    have hs : ¬ Answerable s := fun h => h.2.elim (bufferReadLine_eq_none.mp hline) hlong
    unfold readLineCalls
    rw [hline, if_neg hlong]
    exact readsOn_error hin hs (hargs s hmode) .wantRead
  | case4 s hline hlong reply replies e he =>
    have hs : ¬ Answerable s := fun h => h.2.elim (bufferReadLine_eq_none.mp hline) hlong
    unfold readLineCalls
    rw [hline, if_neg hlong]
    dsimp only
    rw [he]
    exact readsOn_error hin hs (hargs s hmode) e
  | case5 s hline hlong reply replies bytes hbytes ih =>
    unfold readLineCalls
    rw [hline, if_neg hlong]
    dsimp only
    rw [hbytes]
    exact (ih hmode rfl).cons (hargs s hmode)

theorem readsOn_readBytesLoop (block : ℕ) (replies : List SslRead) {s : State η} (hmode : s.readMode = .readBytes)
    (hin : s.input.isSome) : ReadsOn block (readBytesCalls block replies s) s (readBytesLoop replies s) := by
  have hargs : ∀ s : State η, s.readMode = .readBytes →
      s.readArgs block = (block, s.inputOffset, toInt (s.inputSize - s.inputOffset)) := by
    intro s hmode
    rw [State.readArgs, hmode]
  have hs : ∀ s : State η, s.readMode = .readBytes → ¬ Answerable s := by
    intro s hmode h
    exact absurd (h.1.symm.trans hmode) (by decide)
  fun_induction readBytesLoop replies s with
  | case1 s => exact readsOn_error hin (hs s hmode) (hargs s hmode) .wantRead
  | case2 s reply replies e he =>
    unfold readBytesCalls
    rw [he]
    exact readsOn_error hin (hs s hmode) (hargs s hmode) e
  | case3 s reply replies bytes hbytes hlt ih =>
    unfold readBytesCalls
    rw [hbytes]
    dsimp only
    rw [if_pos hlt]
    exact (ih hmode rfl).cons (hargs s hmode)
  | case4 s reply replies bytes hbytes hge =>
    unfold readBytesCalls
    rw [hbytes]
    dsimp only
    rw [if_neg hge]
    refine ⟨.singleton _, fun _ => by rw [hargs s hmode]; rfl, fun c hc hr => ?_⟩
    obtain rfl : _ = c := by simpa using hc
    exact absurd hr (not_retry_ok _ _ _)

/-! The calls do not depend on the event loop, and not on what is in the block. -/

theorem readLineCalls_loop (block : ℕ) (replies : List SslRead) (s : State η) (loop : Loop Watcher) (time : ℚ)
    (input : Option Bytes) :
    readLineCalls block replies { s with loop := loop, lastActivity := time, input := input } =
      readLineCalls block replies s := by
  induction replies generalizing s input with
  | nil =>
    unfold readLineCalls
    rfl
  | cons reply replies ih =>
    unfold readLineCalls
    dsimp only
    split
    · rfl
    · split
      · rfl
      · split
        · rfl
        · rename_i bytes _
          exact congrArg _ (ih (s.receiveLine bytes) _)

theorem readBytesCalls_loop (block : ℕ) (replies : List SslRead) (s : State η) (loop : Loop Watcher) (time : ℚ)
    (input : Option Bytes) :
    readBytesCalls block replies { s with loop := loop, lastActivity := time, input := input } =
      readBytesCalls block replies s := by
  induction replies generalizing s input with
  | nil => rfl
  | cons reply replies ih =>
    unfold readBytesCalls
    dsimp only
    split
    · rfl
    · rename_i bytes _
      split
      · exact congrArg _ (ih (s.receiveBytes bytes) _)
      · rfl

theorem readCalls_loop (block : ℕ) (replies : List SslRead) (s : State η) (loop : Loop Watcher) (time : ℚ) :
    readCalls block replies { s with loop := loop, lastActivity := time } = readCalls block replies s := by
  unfold readCalls
  dsimp only
  split
  · exact readLineCalls_loop block replies s loop time s.input
  · exact readBytesCalls_loop block replies s loop time s.input

theorem readsOn_readData (block : ℕ) (replies : List SslRead) (s : State η) :
    ReadsOn block (readCalls block replies s) s (readData replies s) := by
  cases hmode : s.readMode with
  | readLine =>
    have hcalls : readCalls block replies s = readLineCalls block replies s := by
      unfold readCalls
      rw [hmode]
    have h := readsOn_readLineLoop block replies (s := { s with input := some (s.input.getD []) }) hmode rfl
    rw [readLineCalls_loop block replies s s.loop s.lastActivity, ← hcalls] at h
    rw [readData_of_line hmode]
    exact ⟨h.chain, h.first, h.last⟩
  | readBytes =>
    have hcalls : readCalls block replies s = readBytesCalls block replies s := by
      unfold readCalls
      rw [hmode]
    have h := readsOn_readBytesLoop block replies (s := { s with input := some (s.input.getD []) }) hmode rfl
    rw [readBytesCalls_loop block replies s s.loop s.lastActivity, ← hcalls] at h
    rw [readData_of_bytes hmode]
    exact ⟨h.chain, h.first, h.last⟩

/-- What the state says about the last call of `SSL_read()` if that is to be repeated. -/
def NextRead (l : List SslCall) (block : ℕ) (s : State η) : Prop :=
  ∀ c ∈ l.getLast?, c.Retry → s.input.isSome ∧ ¬ Answerable s ∧ c.args = s.readArgs block

theorem NextRead.of_side {l : List SslCall} {block : ℕ} {s t : State η} (h : t.inputSide = s.inputSide)
    (hs : NextRead l block s) : NextRead l block t := by
  intro c hc hr
  obtain ⟨hin, hans, hargs⟩ := hs c hc hr
  exact ⟨(isSome_input_of_side h).trans hin, mt (answerable_of_side h).mp hans,
    hargs.trans (readArgs_of_side h block).symm⟩

/-- The calls of a callback go on from those before it. -/
theorem NextRead.append {l l' : List SslCall} {block : ℕ} {s : State η} {result : State η × Option Bytes}
    (hs : NextRead l block s) (hl : l.IsChain Repeats) (h : ReadsOn (s.inputBlock block) l' s result) :
    (l ++ l').IsChain Repeats ∧
      ∀ c ∈ (l ++ l').getLast?, c.Retry → result.2 = none ∧ result.1.input.isSome ∧ ¬ Answerable result.1 ∧
        c.args = result.1.readArgs (s.inputBlock block) := by
  have hblock : s.input.isSome → s.inputBlock block = block := by
    intro hin
    obtain ⟨b, hb⟩ := Option.isSome_iff_exists.mp hin
    rw [State.inputBlock, hb]
  constructor
  · refine hl.append h.chain fun c hc c' hc' hr => ?_
    obtain ⟨hin, hans, hargs⟩ := hs c hc hr
    have hfirst := h.first hans
    rw [Option.mem_def.mp hc', Option.map_some, Option.some.injEq, hblock hin] at hfirst
    exact hfirst.trans hargs.symm
  · intro c hc hr
    cases l' with
    | nil =>
      rw [List.append_nil] at hc
      have hfirst := h.first (hs c hc hr).2.1
      cases hfirst
    | cons d l' =>
      rw [List.getLast?_append_of_ne_nil _ (List.cons_ne_nil d l')] at hc
      exact h.last c hc hr

theorem nextRead_readCb {l : List SslCall} {block : ℕ} {s t : State η} {replies : List SslRead}
    (hl : l.IsChain Repeats) (hs : NextRead l block s) (h : stepAlive s (.readCb replies) = some t) :
    (l ++ readCalls (s.inputBlock block) replies s).IsChain Repeats ∧
      NextRead (l ++ readCalls (s.inputBlock block) replies s) (s.inputBlock block) t := by
  obtain ⟨-, rfl⟩ := invoke_eq_some h
  have hcalls : readCalls (s.inputBlock block) replies
      (resetWatcherState .write { s with loop := s.loop.take .read }).touch = readCalls (s.inputBlock block) replies s :=
    readCalls_loop _ _ s _ _
  have hside : ((resetWatcherState .write { s with loop := s.loop.take .read }).touch).inputSide =
      s.inputSide := (frame_resetWatcherState (v := .read) .write _).side
  have hblock : (resetWatcherState .write { s with loop := s.loop.take .read }).touch.inputBlock block =
      s.inputBlock block := rfl
  unfold readCb
  generalize (resetWatcherState .write { s with loop := s.loop.take .read }).touch = u at hcalls hside hblock
  rw [← hcalls, ← hblock]
  have happ := (hs.of_side hside).append hl (readsOn_readData (u.inputBlock block) replies u)
  refine ⟨happ.1, ?_⟩
  intro c hc hr
  obtain ⟨hnone, hlast⟩ := happ.2 c hc hr
  split
  · rename_i t data heq
    rw [heq] at hnone
    cases hnone
  · rename_i t heq
    rw [heq] at hlast
    exact hlast

/-! ### Writing -/

/-- The arguments of the next call of `SSL_write()`, if there is a block. -/
def State.writeArgs (s : State η) (block : ℕ) : ℕ × ℕ × ℤ :=
  (block, s.outputOffset, toInt (s.outputSize - s.outputOffset))

/-- The calls of `SSL_write()` that a callback makes in the state `s`, from the first block on, and the
state and the last block then. -/
structure WritesOn (l : List SslCall) (s : State η) (first : ℕ) (t : State η) (last : ℕ) : Prop where
  chain : l.IsChain Repeats
  head : s.output.isSome → l.head?.map SslCall.args = some (s.writeArgs first)
  last : ∀ c ∈ l.getLast?, c.Retry → t.output.isSome ∧ c.args = t.writeArgs last

theorem writeArgs_of_side {s t : State η} (h : t.outputSide = s.outputSide) (block : ℕ) :
    t.writeArgs block = s.writeArgs block := by
  simp only [State.outputSide, OutputSide.mk.injEq] at h
  unfold State.writeArgs
  rw [h.2.2.1, h.2.2.2.1]

theorem isSome_output_of_side {s t : State η} (h : t.outputSide = s.outputSide) :
    t.output.isSome = s.output.isSome := congrArg (fun o => o.output.isSome) h

theorem outputSide_checkTlsError (w : Watcher) (e : SslError) (s : State η) :
    (checkTlsError w e s).outputSide = s.outputSide := by
  cases e with
  | wantRead => rfl
  | wantWrite => rfl
  | interrupted => rfl
  | failed => exact (beside_tlsError s).side

/-- There is a block to write from, and if there was one, it is the same. -/
theorem nextOutput_block (s : State η) (blocks : ℕ) : (nextOutput s).output.isSome ∧
    (s.output.isSome → (nextOutput s).writeArgs (s.outputBlock blocks) = s.writeArgs blocks) := by
  cases hout : s.output with
  | some b =>
    have hnext : nextOutput s = s := by simp only [nextOutput, hout]
    have hblock : s.outputBlock blocks = blocks := by simp only [State.outputBlock, hout]
    rw [hnext, hblock]
    exact ⟨by rw [hout]; rfl, fun _ => rfl⟩
  | none =>
    have hnext : (nextOutput s).output = some s.outputBuffer := by simp only [nextOutput, hout]
    exact ⟨by rw [hnext]; rfl, fun hc => (by cases hc)⟩

/-- A call that went well comes before others. -/
theorem WritesOn.cons {l : List SslCall} {s u t : State η} {blocks last : ℕ}
    (h : WritesOn l u (s.outputBlock blocks) t last) : WritesOn
      (⟨s.outputBlock blocks, (nextOutput s).outputOffset,
        toInt ((nextOutput s).outputSize - (nextOutput s).outputOffset), none⟩ :: l) s blocks t last :=
  ⟨chain_cons (not_retry_ok _ _ _) h.chain, fun hout => congrArg some ((nextOutput_block s blocks).2 hout),
    fun c hc hr => h.last c (mem_getLast_cons (not_retry_ok _ _ _) hc hr) hr⟩

/-- A call that fails is the last one. -/
theorem writesOn_error (blocks : ℕ) (s : State η) (e : SslError) : WritesOn
    [⟨s.outputBlock blocks, (nextOutput s).outputOffset,
      toInt ((nextOutput s).outputSize - (nextOutput s).outputOffset), some e⟩] s blocks
    (checkTlsError .write e (nextOutput s)) (s.outputBlock blocks) := by
  obtain ⟨hsome, hsame⟩ := nextOutput_block s blocks
  have hside := outputSide_checkTlsError .write e (nextOutput s)
  refine ⟨.singleton _, fun hout => congrArg some (hsame hout), fun c hc _ => ⟨?_, ?_⟩⟩
  · exact (isSome_output_of_side hside).trans hsome
  · obtain rfl : _ = c := by simpa using hc
    exact (writeArgs_of_side hside _).symm

/-- After the last call of a block there is none to be repeated. -/
theorem writesOn_done (blocks : ℕ) (s t : State η) : WritesOn
    [⟨s.outputBlock blocks, (nextOutput s).outputOffset,
      toInt ((nextOutput s).outputSize - (nextOutput s).outputOffset), none⟩] s blocks t (s.outputBlock blocks) := by
  refine ⟨.singleton _, fun hout => congrArg some ((nextOutput_block s blocks).2 hout), fun c hc hr => ?_⟩
  obtain rfl : _ = c := by simpa using hc
  exact absurd hr (not_retry_ok _ _ _)

@[simp] theorem writesOf_write (c : SslCall) (l : List OutputCall) : writesOf (.write c :: l) = c :: writesOf l := rfl

theorem writesOf_append (l l' : List OutputCall) : writesOf (l ++ l') = writesOf l ++ writesOf l' :=
  List.filterMap_append

theorem writesOf_drain (shutdown : Bool) (unsent : Bytes) :
    writesOf (if shutdown then [.drain unsent] else []) = [] := by
  cases shutdown <;> rfl

theorem writesOn_writeCalls (blocks : ℕ) (replies : List SslWrite) (s : State η) :
    WritesOn (writesOf (writeCalls blocks replies s).1) s blocks (writeLoop replies s)
      (writeCalls blocks replies s).2 := by
  induction replies generalizing blocks s with
  | nil => exact writesOn_error blocks s .wantWrite
  | cons reply replies ih =>
    unfold writeCalls writeLoop
    dsimp only
    cases sslWrite (toInt ((nextOutput s).outputSize - (nextOutput s).outputOffset)) reply with
    | error e => exact writesOn_error blocks s e
    | ok n =>
      by_cases hlt : (n : ℤ) < toInt ((nextOutput s).outputSize - (nextOutput s).outputOffset)
      · simp only [hlt, if_true, writesOf_write]
        exact (ih (s.outputBlock blocks) _).cons
      · by_cases hempty : ((nextOutput s).send n).outputBuffer.length = 0
        · simp only [hlt, hempty, if_true, if_false, writesOf_write, writesOf_drain]
          exact writesOn_done blocks s _
        · simp only [hlt, hempty, if_false, writesOf_write]
          exact (ih (s.outputBlock blocks) _).cons

theorem nextOutput_loop (s : State η) (loop : Loop Watcher) (time : ℚ) :
    nextOutput { s with loop := loop, lastActivity := time } =
      { nextOutput s with loop := loop, lastActivity := time } := by
  cases hout : s.output <;> simp only [nextOutput, hout]

theorem writeCalls_loop (blocks : ℕ) (replies : List SslWrite) (s : State η) (loop : Loop Watcher) (time : ℚ) :
    writeCalls blocks replies { s with loop := loop, lastActivity := time } = writeCalls blocks replies s := by
  induction replies generalizing blocks s with
  | nil =>
    unfold writeCalls
    rw [nextOutput_loop]
    rfl
  | cons reply replies ih =>
    unfold writeCalls
    rw [nextOutput_loop]
    dsimp only
    cases sslWrite (toInt ((nextOutput s).outputSize - (nextOutput s).outputOffset)) reply with
    | error e => rfl
    | ok n =>
      by_cases hlt : (n : ℤ) < toInt ((nextOutput s).outputSize - (nextOutput s).outputOffset)
      · have hmore := ih (s.outputBlock blocks)
          { (nextOutput s).send n with outputOffset := ((nextOutput s).send n).outputOffset + n }
        simp only [hlt, if_true]
        exact congrArg (fun more => (OutputCall.write _ :: more.1, more.2)) hmore
      · have hmore := ih (s.outputBlock blocks)
          { (nextOutput s).send n with output := none, outputSize := 0, outputOffset := 0 }
        by_cases hempty : (nextOutput s).outputBuffer.length = 0
        · simp only [hlt, hempty, State.send, if_true, if_false]
          rfl
        · simp only [hlt, hempty, State.send, if_false]
          exact congrArg (fun more => (OutputCall.write _ :: more.1, more.2)) hmore

/-- What the state says about the last call of `SSL_write()` if that is to be repeated. -/
def NextWrite (l : List SslCall) (block : ℕ) (s : State η) : Prop :=
  ∀ c ∈ l.getLast?, c.Retry → s.output.isSome ∧ c.args = s.writeArgs block

theorem NextWrite.of_side {l : List SslCall} {block : ℕ} {s t : State η} (h : t.outputSide = s.outputSide)
    (hs : NextWrite l block s) : NextWrite l block t := by
  intro c hc hr
  obtain ⟨hout, hargs⟩ := hs c hc hr
  exact ⟨(isSome_output_of_side h).trans hout, hargs.trans (writeArgs_of_side h block).symm⟩

/-- The calls of a callback go on from those before it. -/
theorem NextWrite.append {l l' : List SslCall} {block last : ℕ} {s t : State η} (hs : NextWrite l block s)
    (hl : l.IsChain Repeats) (h : WritesOn l' s block t last) (hne : l' ≠ []) :
    (l ++ l').IsChain Repeats ∧ NextWrite (l ++ l') last t := by
  constructor
  · refine hl.append h.chain fun c hc c' hc' hr => ?_
    obtain ⟨hout, hargs⟩ := hs c hc hr
    have hfirst := h.head hout
    rw [Option.mem_def.mp hc', Option.map_some, Option.some.injEq] at hfirst
    exact hfirst.trans hargs.symm
  · intro c hc hr
    rw [List.getLast?_append_of_ne_nil _ hne] at hc
    exact h.last c hc hr

theorem writesOf_writeCalls_ne (blocks : ℕ) (replies : List SslWrite) (s : State η) :
    writesOf (writeCalls blocks replies s).1 ≠ [] := by
  cases replies with
  | nil => exact List.cons_ne_nil _ _
  | cons reply replies =>
    unfold writeCalls
    dsimp only
    split
    · exact List.cons_ne_nil _ _
    · split
      · exact List.cons_ne_nil _ _
      · split <;> exact List.cons_ne_nil _ _

theorem nextWrite_writeCb {l : List SslCall} {blocks : ℕ} {s t : State η} {replies : List SslWrite}
    (hl : l.IsChain Repeats) (hs : NextWrite l blocks s) (h : stepAlive s (.writeCb replies) = some t) :
    (l ++ writesOf (writeCalls blocks replies s).1).IsChain Repeats ∧
      NextWrite (l ++ writesOf (writeCalls blocks replies s).1) (writeCalls blocks replies s).2 t := by
  obtain ⟨-, rfl⟩ := invoke_eq_some h
  have hcalls : writeCalls blocks replies
      (resetWatcherState .read { s with loop := s.loop.take .write }).touch = writeCalls blocks replies s :=
    writeCalls_loop _ _ s _ _
  have hside : ((resetWatcherState .read { s with loop := s.loop.take .write }).touch).outputSide =
      s.outputSide := rfl
  unfold writeCb
  generalize (resetWatcherState .read { s with loop := s.loop.take .write }).touch = u at hcalls hside
  rw [← hcalls]
  exact (hs.of_side hside).append hl (writesOn_writeCalls blocks replies u) (writesOf_writeCalls_ne _ _ _)

/-- More output leaves a block alone. -/
theorem block_writeBuffered (data : Bytes) (s : State η) (block : ℕ) :
    (writeBuffered data s).output = s.output ∧ (writeBuffered data s).writeArgs block = s.writeArgs block := by
  have hside := armWrite_side { s with outputBuffer := s.outputBuffer ++ data }
  exact ⟨congrArg OutputSide.output hside, writeArgs_of_side hside block⟩

theorem NextWrite.writeBuffered {l : List SslCall} {block : ℕ} {s : State η} (hs : NextWrite l block s)
    (data : Bytes) : NextWrite l block (writeBuffered data s) := by
  intro c hc hr
  obtain ⟨hout, hargs⟩ := hs c hc hr
  obtain ⟨hout', hargs'⟩ := block_writeBuffered data s block
  exact ⟨hout' ▸ hout, hargs.trans hargs'.symm⟩

theorem NextWrite.tlsWrite {l : List SslCall} {blocks : ℕ} {s : State η} (hs : NextWrite l blocks s)
    (data : Bytes) (freeData : Bool) : NextWrite l
      (if s.output = none ∧ s.outputBuffer.length = 0 ∧ freeData then blocks + 1 else blocks)
      (tlsWrite data freeData s) := by
  unfold Tls.tlsWrite
  split
  · rename_i hfree
    intro c hc hr
    have hout := (hs c hc hr).1
    rw [hfree.1] at hout
    cases hout
  · exact hs.writeBuffered data

/-! ### Steps -/

/-- The calls of `SSL_read()` keep the rule, and the state says what is to be repeated. -/
structure ReadsRepeatable (x : Traced η) : Prop where
  chain : x.reads.IsChain Repeats
  next : NextRead x.reads x.inputBlocks x.conn

/-- The calls of `SSL_write()` keep the rule, and the state says what is to be repeated. -/
structure WritesRepeatable (x : Traced η) : Prop where
  fed : IoFed x.conn
  chain : (writesOf x.output).IsChain Repeats
  next : NextWrite (writesOf x.output) x.outputBlocks x.conn

/-- **One step of reading.** -/
theorem reads_step {x y : Traced η} {e : Event η} (hx : ReadsRepeatable x) (hok : Completes x e)
    (h : tracedStep x e = some y) : ReadsRepeatable y := by
  obtain ⟨hstep, hy⟩ := tracedStep_eq_some h
  obtain ⟨-, -, halive⟩ := step_eq_some hstep
  rcases e.aside_or with haside | ⟨replies, rfl⟩ | ⟨replies, rfl⟩ | ⟨handler, size, rfl⟩
  · obtain ⟨hreads, hblocks⟩ : y.reads = x.reads ∧ y.inputBlocks = x.inputBlocks := by
      rw [hy]
      cases e <;> first | exact haside.elim | exact ⟨rfl, rfl⟩
    have hside := (frame_stepAlive (Or.inl rfl) haside halive).side
    refine ⟨hreads ▸ hx.chain, ?_⟩
    rw [hreads, hblocks]
    exact hx.next.of_side hside
  · rw [hy]
    obtain ⟨hchain, hnext⟩ := nextRead_readCb hx.chain hx.next halive
    exact ⟨hchain, hnext⟩
  · obtain ⟨-, hconn⟩ := invoke_eq_some halive
    have hside : y.conn.inputSide = x.conn.inputSide := hconn ▸ (frame_writeCb replies x.conn).side
    rw [hy]
    exact ⟨hx.chain, hx.next.of_side hside⟩
  · have hconn : y.conn = tlsRead handler size x.conn := (Option.some.inj halive).symm
    rw [hy, hconn]
    refine ⟨hx.chain, ?_⟩
    rcases hok with hact | hnone
    · have hdied : tlsRead handler size x.conn = { x.conn with died := true } := if_pos hact
      rw [hdied]
      exact hx.next.of_side (s := x.conn) rfl
    · exact fun c hc hr => absurd hr (hnone c hc)

/-- **One step of writing.** -/
theorem writes_step {x y : Traced η} {e : Event η} (hx : WritesRepeatable x)
    (h : tracedStep x e = some y) : WritesRepeatable y := by
  obtain ⟨hstep, hy⟩ := tracedStep_eq_some h
  have hfed := ioFed_step hx.fed hstep
  obtain ⟨-, -, halive⟩ := step_eq_some hstep
  by_cases haside : e.OutputAside
  · obtain ⟨hout, hblocks⟩ : y.output = x.output ∧ y.outputBlocks = x.outputBlocks := by
      rw [hy]
      cases e <;> first | exact haside.elim | exact ⟨rfl, rfl⟩
    refine ⟨hfed, hout ▸ hx.chain, ?_⟩
    rw [hout, hblocks]
    exact hx.next.of_side (beside_stepAlive hx.fed haside halive).side
  · cases e with
    | writeCb replies =>
      obtain ⟨hchain, hnext⟩ := nextWrite_writeCb hx.chain hx.next halive
      rw [← writesOf_append] at hchain hnext
      rw [hy] at hfed ⊢
      exact ⟨hfed, hchain, hnext⟩
    | tlsWrite data freeData =>
      have hconn : y.conn = tlsWrite data freeData x.conn := (Option.some.inj halive).symm
      have hnext := hx.next.tlsWrite data freeData
      rw [← hconn] at hnext
      rw [hy] at hfed ⊢
      exact ⟨hfed, hx.chain, hnext⟩
    | tlsWriteLine string =>
      have hconn : y.conn = tlsWriteLine string x.conn := (Option.some.inj halive).symm
      have hnext : NextWrite (writesOf x.output) x.outputBlocks (tlsWriteLine string x.conn) :=
        (hx.next.writeBuffered string).writeBuffered lineTerminator
      rw [← hconn] at hnext
      rw [hy] at hfed ⊢
      exact ⟨hfed, hx.chain, hnext⟩
    | tlsShutdown =>
      have hconn : y.conn = tlsShutdown x.conn := (Option.some.inj halive).symm
      have hwrites : writesOf (x.output ++ (if .write ∈ x.conn.loop.active then [] else [.drain x.conn.unsent])) =
          writesOf x.output := by
        rw [writesOf_append]
        split <;> exact List.append_nil _
      have hnext := hx.next.of_side (outputSide_tlsShutdown x.conn)
      rw [← hconn, ← hwrites] at hnext
      rw [hy] at hfed ⊢
      exact ⟨hfed, hwrites.symm ▸ hx.chain, hnext⟩
    | timeoutCb =>
      obtain ⟨-, hconn⟩ := invoke_eq_some halive
      have hside : y.conn.outputSide = x.conn.outputSide :=
        hconn ▸ outputSide_timeoutCb { x.conn with loop := x.conn.loop.take .timeout }
      have hnext := hx.next.of_side hside
      rw [hy] at hfed ⊢
      exact ⟨hfed, hx.chain, hnext⟩
    | _ => exact absurd trivial haside

/-- **OpenSSL's calls are repeated as they were made.** After a call of `SSL_read()` that is to be
repeated, the next one has the same arguments, and so it is with `SSL_write()`. -/
theorem calls_repeated {es : List (Event η)} {x : Traced η} :
    (Traces Completes es x → x.reads.IsChain Repeats) ∧
    (Traces (fun _ _ => True) es x → (writesOf x.output).IsChain Repeats) := by
  constructor
  · intro h
    have hx : ReadsRepeatable x := h.invariant (fun _ _ => ⟨.nil, fun c hc => (by cases hc)⟩)
      (fun x e y hx hok h => reads_step hx hok h)
    exact hx.chain
  · intro h
    have hx : WritesRepeatable x := h.invariant (fun _ hs => ⟨hs.ioFed, .nil, fun c hc => (by cases hc)⟩)
      (fun x e y hx _ h => writes_step hx h)
    exact hx.chain

/-- Bytes are read and a block is written in pieces, and more is queued in between. -/
theorem calls_repeated_okay : ∃ x : Traced Unit, x.reads.IsChain Repeats ∧ (writesOf x.output).IsChain Repeats ∧
    x.reads.length = 3 ∧ (writesOf x.output).length = 4 := by
  obtain ⟨x, hx, hp⟩ := (Option.any_eq_true _ _).mp (by decide +kernel : Option.any
    (fun x => decide (x.reads.length = 3 ∧ (writesOf x.output).length = 4))
    (Machine.run (Machine.guarded Completes tracedStep) (.start (accepted () 5 0))
      [.ready .init, .acceptSslCb (.established true), .tlsRead () 4, .tlsWrite (ascii "OK") true,
        .readCb [.data (ch 'M') (ascii "O")], .writeCb [.sent 0, .error .wantRead], .tlsWriteLine (ascii "AY"),
        .readCb [.data (ch 'I') (ascii "N")], .writeCb [.sent 0, .sent 9]]) = true)
  obtain ⟨hreads, hwrites⟩ := of_decide_eq_true hp
  have htraces := traces_of_run hx
  have hany : Traces (fun _ _ => True) _ x := htraces.mono fun _ _ _ => trivial
  exact ⟨x, calls_repeated.1 htraces, calls_repeated.2 hany, hreads, hwrites⟩

end Tls
end NscaNg
