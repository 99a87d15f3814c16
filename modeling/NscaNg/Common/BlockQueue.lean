/-
# A buffer is a queue of bytes

Each operation on a buffer does to the bytes in its blocks what it does to a plain list (`step_queue`),
so every sequence of operations on a new buffer gives the results it gives on an empty list
(`buffer_queue`).
-/
import NscaNg.Common.BlockChain

namespace NscaNg
namespace Blocks

open Posix Memory

/-! ### Searching -/

/-- The position of a character, counted from this number on, or 0. -/
def positionOf (character : UInt8) (bytes : Bytes) (pos : ℕ) : ℕ :=
  if character ∈ bytes then pos + bytes.idxOf character else 0

theorem findInBlock_eq (character : UInt8) (bytes : Bytes) (pos : ℕ) : findInBlock character bytes pos =
    if character ∈ bytes then .inl (pos + bytes.idxOf character) else .inr (pos + bytes.length) := by
  induction bytes generalizing pos with
  | nil => rfl
  | cons x xs ih =>
    unfold findInBlock
    by_cases hx : x = character
    · rw [if_pos hx, if_pos (hx ▸ List.mem_cons_self), hx, List.idxOf_cons_self, Nat.add_zero]
    · have hmem : character ∈ x :: xs ↔ character ∈ xs := by simp [Ne.symm hx]
      rw [if_neg hx, ih]
      by_cases hxs : character ∈ xs
      · rw [if_pos hxs, if_pos (hmem.mpr hxs), List.idxOf_cons_ne _ hx]
        congr 1
        omega
      · rw [if_neg hxs, if_neg (mt hmem.mp hxs), List.length_cons]
        congr 1
        omega

theorem positionOf_append (character : UInt8) (bytes more : Bytes) (pos : ℕ) :
    positionOf character (bytes ++ more) pos =
      if character ∈ bytes then pos + bytes.idxOf character
      else positionOf character more (pos + bytes.length) := by
  unfold positionOf
  by_cases h : character ∈ bytes
  · rw [if_pos h, if_pos (List.mem_append_left _ h), List.idxOf_append_of_mem h]
  · have hmem : character ∈ bytes ++ more ↔ character ∈ more := by simp [h]
    rw [if_neg h]
    by_cases hmore : character ∈ more
    · rw [if_pos hmore, if_pos (hmem.mpr hmore), List.idxOf_append_of_notMem h, Nat.add_assoc]
    · rw [if_neg hmore, if_neg (mt hmem.mp hmore)]

/-- From a block behind the first one on. -/
theorem findLoop_rest {buf : Buffer} {front : List (ℕ × Block)} {a : ℕ} {b : Block} {p : Option ℕ} {blocks : ℕ}
    (character : UInt8) (pos : ℕ) (hlast : buf.last = some a)
    (hl : Linked Block.next buf.heap p (front ++ [(a, b)])) (hne : ∀ x ∈ front.map Prod.fst, x ≠ a)
    (hfirst : ∀ x ∈ (front ++ [(a, b)]).map Prod.fst, some x ≠ buf.first) (hblocks : front.length < blocks) :
    findLoop buf character blocks p pos = some (positionOf character (written front b buf.endOffset) pos) := by
  obtain ⟨n, rfl⟩ : ∃ n, blocks = n + 1 := ⟨blocks - 1, by omega⟩
  induction front generalizing p pos n with
  | nil =>
    cases hl with
    | cons hcell hrest =>
      have hnext : b.next = none := by
        generalize hq : b.next = q at hrest
        cases hrest
        rfl
      have hwritten : written [] b buf.endOffset = b.data.bytes.take buf.endOffset := rfl
      unfold findLoop
      simp only [hcell, Option.bind_eq_bind, Option.bind_some, if_neg (hfirst a List.mem_cons_self), hlast, if_true,
        List.drop_zero, findInBlock_eq, hnext, hwritten]
      unfold positionOf
      by_cases hmem : character ∈ b.data.bytes.take buf.endOffset
      · simp only [if_pos hmem]
      · simp only [if_neg hmem]
        unfold findLoop
        rfl
  | cons blk front ih =>
    cases hl with
    | cons hcell hrest =>
      rename_i x c
      have hxa : some x ≠ some a := fun hc => hne x List.mem_cons_self (Option.some.inj hc)
      have hall : c.data.bytes.take blockSize = c.data.bytes := List.take_of_length_le (le_of_eq c.data.length)
      have hwritten : written ((x, c) :: front) b buf.endOffset = c.data.bytes ++ written front b buf.endOffset := by
        simp [written, dataOf]
      obtain ⟨m, rfl⟩ : ∃ m, n = m + 1 := ⟨n - 1, by rw [List.length_cons] at hblocks; omega⟩
      have hrec := fun pos => ih (p := c.next) pos hrest (fun y hy => hne y (List.mem_cons_of_mem _ hy))
        (fun y hy => hfirst y (List.mem_cons_of_mem _ hy)) m (by rw [List.length_cons] at hblocks; omega)
      unfold findLoop
      simp only [hcell, Option.bind_eq_bind, Option.bind_some, if_neg (hfirst x List.mem_cons_self), hlast, if_neg hxa,
        hall, List.drop_zero, findInBlock_eq, hwritten, positionOf_append]
      by_cases hmem : character ∈ c.data.bytes
      · simp only [if_pos hmem]
      · simp only [if_neg hmem]
        exact hrec _

/-- **`buffer_find_char()`** finds the first one. -/
theorem bufferFindChar_queue {buf : Buffer} {queue : Bytes} (h : Holds buf queue) (character : UInt8) :
    bufferFindChar buf character = some (NscaNg.bufferFindChar queue character) := by
  have hposition : NscaNg.bufferFindChar queue character = positionOf character queue 1 := by
    rw [NscaNg.bufferFindChar, positionOf, Nat.add_comm]
  rw [hposition]
  unfold bufferFindChar
  cases h with
  | empty hb =>
    rw [hb.first]
    unfold findLoop
    rfl
  | @blocks front a b hc =>
    have hl := hc.linked
    have hnodup := hl.nodup
    have hbound := hl.length_le
    rw [List.length_append, List.length_singleton] at hbound
    obtain ⟨n, hn⟩ : ∃ n, buf.heap.bound = n + 1 := ⟨buf.heap.bound - 1, by omega⟩
    rw [hn]
    cases front with
    | nil =>
      obtain ⟨hfirst, hnext⟩ : buf.first = some a ∧ b.next = none := by
        refine ⟨?_, hl.next_last⟩
        generalize hp : buf.first = p at hl
        cases hl
        rfl
      have hwritten : written [] b buf.endOffset = b.data.bytes.take buf.endOffset := rfl
      rw [hfirst, hwritten]
      unfold findLoop positionOf
      simp only [hc.cells_last, Option.bind_eq_bind, Option.bind_some, hfirst, hc.last, if_true, findInBlock_eq, hnext]
      by_cases hmem : character ∈ (b.data.bytes.take buf.endOffset).drop buf.startOffset
      · simp only [if_pos hmem]
      · simp only [if_neg hmem]
        unfold findLoop
        rfl
    | cons blk front =>
      obtain ⟨x, c⟩ := blk
      rw [List.cons_append] at hl hnodup
      obtain ⟨hfirst, hcell, hrest⟩ : buf.first = some x ∧ buf.heap.cells x = some c ∧
          Linked Block.next buf.heap c.next (front ++ [(a, b)]) := by
        generalize hp : buf.first = p at hl
        cases hl with
        | cons hc hrest => exact ⟨rfl, hc, hrest⟩
      rw [List.map_cons, List.nodup_cons] at hnodup
      have hstart := hc.startOffset
      have hxa : some x ≠ some a := fun heq => hc.ne_of_front List.mem_cons_self (Option.some.inj heq)
      have hall : c.data.bytes.take blockSize = c.data.bytes := List.take_of_length_le (le_of_eq c.data.length)
      have hwritten : written ((x, c) :: front) b buf.endOffset = c.data.bytes ++ written front b buf.endOffset := by
        simp [written, dataOf]
      have hleft : front.length < n := by
        rw [List.length_cons] at hbound
        omega
      have hrec := fun pos => findLoop_rest character pos hc.last hrest
        (fun y hy => hc.ne_of_front (List.mem_cons_of_mem _ hy))
        (fun y hy heq => hnodup.1 (Option.some.inj (heq.trans hfirst) ▸ hy)) hleft
      rw [hwritten, List.drop_append_of_le_length (by rw [c.data.length]; omega), positionOf_append, hfirst]
      unfold findLoop
      simp only [hcell, Option.bind_eq_bind, Option.bind_some, hfirst, hc.last, if_true, if_neg hxa, hall,
        findInBlock_eq]
      by_cases hmem : character ∈ c.data.bytes.drop buf.startOffset
      · simp only [if_pos hmem]
      · simp only [if_neg hmem]
        exact hrec _

theorem bufferFindChar_le (queue : Bytes) (character : UInt8) :
    NscaNg.bufferFindChar queue character ≤ queue.length := by
  unfold NscaNg.bufferFindChar
  split
  · rename_i hmem
    exact List.idxOf_lt_length_of_mem hmem
  · exact Nat.zero_le _

/-! ### The operations on a list -/

/-- Up to the first terminator, which becomes a NUL. -/
def queueReadChunk (queue : Bytes) (terminator : UInt8) : Option (Bytes × Bytes) :=
  match NscaNg.bufferFindChar queue terminator with
  | 0 => none
  | size => some ((queue.take size).set (size - 1) 0, queue.drop size)

/-- What becomes of the queue when a string may be taken from it. -/
def takeString (queue : Bytes) : Option (Bytes × Bytes) → Result × Bytes
  | none => (.string none, queue)
  | some (string, rest) => (.string (some string), rest)

/-- An operation on a list of bytes: what is appended goes to the end, and what is read comes from the
front. -/
def queueStep (queue : Bytes) : Op → Result × Bytes
  | .append input => (.none, queue ++ input)
  | .read size => (.bytes (min size queue.length) (queue.take size), queue.drop size)
  | .readAlloc size => (.bytes (min size queue.length) (queue.take size), queue.drop size)
  | .readLine => takeString queue (NscaNg.bufferReadLine queue)
  | .readChunk terminator => takeString queue (queueReadChunk queue terminator)
  | .slurp => (.bytes queue.length queue, [])
  | .size => (.size queue.length, queue)

def queueRun : Bytes → List Op → List Result × Bytes
  | queue, [] => ([], queue)
  | queue, op :: ops =>
    let (result, queue) := queueStep queue op
    let (results, queue) := queueRun queue ops
    (result :: results, queue)

theorem readLine_queue {buf : Buffer} {queue : Bytes} (h : IsQueue buf queue) :
    ∃ line buf', bufferReadLine buf = some (line, buf') ∧
      stringOf line = (takeString queue (NscaNg.bufferReadLine queue)).1 ∧
      IsQueue buf' (takeString queue (NscaNg.bufferReadLine queue)).2 := by
  have hle := bufferFindChar_le queue newline
  unfold bufferReadLine NscaNg.bufferReadLine
  simp only [bufferFindChar_queue h.holds, Option.bind_eq_bind, Option.bind_some]
  cases hsize : NscaNg.bufferFindChar queue newline with
  | zero => exact ⟨none, buf, if_pos rfl, rfl, h⟩
  | succ n =>
    obtain ⟨mem, buf', hread, hmem, hlen, hq⟩ := bufferReadAlloc_queue h (n + 1)
    have hmin : min (n + 1) queue.length = n + 1 := Nat.min_eq_left (hsize ▸ hle)
    have htake : (queue.take (n + 1)).length = n + 1 := by rw [List.length_take, hmin]
    rw [hmin] at hread hmem
    have hget : mem.getD (n + 1 - 2) 0 = (queue.take (n + 1)).getD (n + 1 - 2) 0 := by
      rw [← hmem, List.getD_eq_getElem?_getD, List.getD_eq_getElem?_getD, List.getElem?_take_of_lt (by omega)]
    simp only [Nat.succ_ne_zero, if_false, hread, Option.bind_some, hget, terminateLine, htake]
    split
    · refine ⟨some (n + 1, mem.set (n + 1 - 2) 0), buf', rfl, ?_, hq⟩
      simp only [stringOf, takeString, Option.map_some, List.take_set, hmem]
    · refine ⟨some (n + 1, mem.set (n + 1 - 1) 0), buf', rfl, ?_, hq⟩
      simp only [stringOf, takeString, Option.map_some, List.take_set, hmem]

theorem readChunk_queue {buf : Buffer} {queue : Bytes} (h : IsQueue buf queue) (terminator : UInt8) :
    ∃ chunk buf', bufferReadChunk buf terminator = some (chunk, buf') ∧
      stringOf chunk = (takeString queue (queueReadChunk queue terminator)).1 ∧
      IsQueue buf' (takeString queue (queueReadChunk queue terminator)).2 := by
  have hle := bufferFindChar_le queue terminator
  unfold bufferReadChunk queueReadChunk
  simp only [bufferFindChar_queue h.holds, Option.bind_eq_bind, Option.bind_some]
  cases hsize : NscaNg.bufferFindChar queue terminator with
  | zero => exact ⟨none, buf, if_pos rfl, rfl, h⟩
  | succ n =>
    obtain ⟨mem, buf', hread, hmem, hlen, hq⟩ := bufferReadAlloc_queue h (n + 1)
    have hmin : min (n + 1) queue.length = n + 1 := Nat.min_eq_left (hsize ▸ hle)
    rw [hmin] at hread hmem
    simp only [Nat.succ_ne_zero, if_false, hread, Option.bind_some]
    refine ⟨some (n + 1, mem.set (n + 1 - 1) 0), buf', rfl, ?_, hq⟩
    simp only [stringOf, takeString, Option.map_some, List.take_set, hmem]

/-- **One operation.** -/
theorem step_queue (junk : ℕ → Data) {buf : Buffer} {queue : Bytes} (h : IsQueue buf queue) (op : Op) :
    ∃ buf', step junk buf op = some ((queueStep queue op).1, buf') ∧ IsQueue buf' (queueStep queue op).2 := by
  cases op with
  | append input =>
    obtain ⟨buf', happend, hq⟩ := bufferAppend_queue junk h input
    exact ⟨buf', by rw [step, happend]; rfl, hq⟩
  | read size =>
    obtain ⟨buf', hread, hq⟩ := bufferRead_queue h size
    exact ⟨buf', by rw [step, hread]; rfl, hq⟩
  | readAlloc size =>
    obtain ⟨mem, buf', hread, hmem, -, hq⟩ := bufferReadAlloc_queue h size
    refine ⟨buf', ?_, hq⟩
    rw [step, hread, Option.map_some]
    dsimp only
    rw [hmem]
    rfl
  | readLine =>
    obtain ⟨line, buf', hread, hstring, hq⟩ := readLine_queue h
    refine ⟨buf', ?_, hq⟩
    rw [step, hread, Option.map_some]
    dsimp only
    rw [hstring]
    rfl
  | readChunk terminator =>
    obtain ⟨chunk, buf', hread, hstring, hq⟩ := readChunk_queue h terminator
    refine ⟨buf', ?_, hq⟩
    rw [step, hread, Option.map_some]
    dsimp only
    rw [hstring]
    rfl
  | slurp =>
    obtain ⟨mem, buf', hread, hmem, -, hq⟩ := bufferReadAlloc_queue h queue.length
    rw [Nat.min_self, List.take_length] at hmem
    rw [Nat.min_self] at hread
    rw [List.drop_length] at hq
    refine ⟨buf', ?_, hq⟩
    rw [step, bufferSlurp, h.size, hread, Option.map_some]
    dsimp only
    rw [hmem]
    rfl
  | size => exact ⟨buf, by rw [step, bufferSize, h.size]; rfl, h⟩

theorem run_queue (junk : ℕ → Data) {buf : Buffer} {queue : Bytes} (h : IsQueue buf queue) (ops : List Op) :
    ∃ buf', run junk buf ops = some ((queueRun queue ops).1, buf') ∧ IsQueue buf' (queueRun queue ops).2 := by
  induction ops generalizing buf queue with
  | nil => exact ⟨buf, rfl, h⟩
  | cons op ops ih =>
    obtain ⟨buf₁, hstep, h₁⟩ := step_queue junk h op
    obtain ⟨buf₂, hrun, h₂⟩ := ih h₁
    refine ⟨buf₂, ?_, h₂⟩
    rw [run, hstep]
    dsimp only
    rw [hrun]
    rfl

/-- **A buffer is a queue of bytes.** Operations on a new buffer give the results they give on an empty
list of bytes: no assertion fails, and the blocks are all there when they are used. The blocks hold the
bytes of the list, the size is the number of bytes, and there are no blocks when there are no bytes. -/
theorem buffer_queue (junk : ℕ → Data) (ops : List Op) :
    ∃ buf, run junk bufferNew ops = some ((queueRun [] ops).1, buf) ∧ Holds buf (queueRun [] ops).2 ∧
      buf.size = (queueRun [] ops).2.length ∧
      ((queueRun [] ops).2 = [] → buf.first = none ∧ buf.last = none ∧ ∀ x, buf.heap.cells x = none) := by
  have hnew : NoBlocks bufferNew := ⟨rfl, rfl, fun _ => rfl, rfl⟩
  obtain ⟨buf, hrun, hq⟩ := run_queue junk ⟨.empty hnew, rfl, fun _ => hnew⟩ ops
  refine ⟨buf, hrun, hq.holds, hq.size, fun hempty => ?_⟩
  have hb := hq.empty hempty
  exact ⟨hb.first, hb.last, hb.cells⟩

end Blocks
end NscaNg
