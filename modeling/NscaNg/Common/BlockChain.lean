/-
# What a chain of blocks holds

The chain of blocks of a buffer holds bytes (`Holds`): those of all blocks one after the other, without
the ones in front of `startOffset` and behind `endOffset`. Bytes that are appended go to the end of
these, and what is read comes from the front (`bufferAppend_queue`, `bufferRead_queue`), also if a block
is given away instead of a copy of its data (`bufferReadAlloc_queue`).
-/
import NscaNg.Common.Blocks

namespace NscaNg
namespace Blocks

open Posix Memory

/-! ### What a chain holds -/

/-- The data of blocks. -/
def dataOf (blocks : List (ℕ × Block)) : Bytes := blocks.flatMap fun blk => blk.2.data.bytes

/-- What has been written to blocks and a last one. -/
def written (front : List (ℕ × Block)) (b : Block) (endOffset : ℕ) : Bytes :=
  dataOf front ++ b.data.bytes.take endOffset

/-- These are the blocks of a buffer. -/
structure Chain (buf : Buffer) (front : List (ℕ × Block)) (a : ℕ) (b : Block) : Prop where
  linked : Linked Block.next buf.heap buf.first (front ++ [(a, b)])
  last : buf.last = some a
  only : ∀ x c, buf.heap.cells x = some c → x ∈ (front ++ [(a, b)]).map Prod.fst
  startOffset : buf.startOffset < blockSize
  endOffset : buf.endOffset ≤ blockSize
  inside : buf.startOffset ≤ (written front b buf.endOffset).length

/-- There are no blocks. -/
structure NoBlocks (buf : Buffer) : Prop where
  first : buf.first = none
  last : buf.last = none
  cells : ∀ x, buf.heap.cells x = none
  startOffset : buf.startOffset = 0

/-- The bytes in the blocks of a buffer. -/
inductive Holds (buf : Buffer) : Bytes → Prop
  | empty : NoBlocks buf → Holds buf []
  | blocks {front : List (ℕ × Block)} {a : ℕ} {b : Block} : Chain buf front a b →
      Holds buf ((written front b buf.endOffset).drop buf.startOffset)

/-- A buffer between two operations. -/
structure IsQueue (buf : Buffer) (queue : Bytes) : Prop where
  holds : Holds buf queue
  size : buf.size = queue.length
  empty : queue = [] → NoBlocks buf

/-! The size is another matter. -/

theorem NoBlocks.resize {buf : Buffer} (h : NoBlocks buf) (size : ℕ) : NoBlocks { buf with size := size } :=
  ⟨h.first, h.last, h.cells, h.startOffset⟩

theorem Holds.resize {buf : Buffer} {queue : Bytes} (h : Holds buf queue) (size : ℕ) :
    Holds { buf with size := size } queue := by
  cases h with
  | empty hb => exact .empty (hb.resize size)
  | blocks hc =>
    have hc' : Chain { buf with size := size } _ _ _ :=
      ⟨hc.linked, hc.last, hc.only, hc.startOffset, hc.endOffset, hc.inside⟩
    exact .blocks hc'

theorem length_dataOf (blocks : List (ℕ × Block)) : (dataOf blocks).length = blockSize * blocks.length := by
  induction blocks with
  | nil => rfl
  | cons blk blocks ih =>
    have hlen := blk.2.data.length
    rw [dataOf, List.flatMap_cons, List.length_append, ← dataOf, ih, hlen, List.length_cons]
    ring

theorem length_written (front : List (ℕ × Block)) (b : Block) {endOffset : ℕ} (h : endOffset ≤ blockSize) :
    (written front b endOffset).length = blockSize * front.length + endOffset := by
  rw [written, List.length_append, length_dataOf, List.length_take, b.data.length, Nat.min_eq_left h]

theorem Data.store_eq_some {d : Data} {offset : ℕ} {bytes : Bytes} (h : offset + bytes.length ≤ blockSize) :
    ∃ d', d.store offset bytes = some d' ∧ d'.bytes.take (offset + bytes.length) = d.bytes.take offset ++ bytes := by
  refine ⟨_, dif_pos h, ?_⟩
  have hlen : (d.bytes.take offset ++ bytes).length = offset + bytes.length := by
    rw [List.length_append, List.length_take, d.length, Nat.min_eq_left (by omega)]
  exact List.take_left' hlen

/-! ### Appending -/

variable (junk : ℕ → Data)

theorem Chain.ne_of_front {buf : Buffer} {front : List (ℕ × Block)} {a : ℕ} {b : Block} (h : Chain buf front a b)
    {x : ℕ} (hx : x ∈ front.map Prod.fst) : x ≠ a := by
  have hnodup := h.linked.nodup
  rw [List.map_append, List.nodup_append] at hnodup
  exact hnodup.2.2 x hx a (List.mem_singleton.mpr rfl)

theorem Chain.cells_last {buf : Buffer} {front : List (ℕ × Block)} {a : ℕ} {b : Block} (h : Chain buf front a b) :
    buf.heap.cells a = some b := h.linked.mem (List.mem_append_right _ (List.mem_singleton.mpr rfl))

/-- A block is added to those that there are. -/
theorem blockAdd_chain {buf : Buffer} {front : List (ℕ × Block)} {a : ℕ} {b : Block} (h : Chain buf front a b) :
    ∃ buf', blockAdd junk buf = some buf' ∧
      Chain { buf' with endOffset := 0 } (front ++ [(a, { b with next := some buf.heap.bound })]) buf.heap.bound
        ⟨junk buf.heap.bound, none⟩ ∧ buf'.size = buf.size ∧ buf'.startOffset = buf.startOffset := by
  have hcell := h.cells_last
  have hbound := Heap.lt_bound hcell
  have hcell' : (buf.heap.alloc ⟨junk buf.heap.bound, none⟩).cells a = some b :=
    (Heap.alloc_of_ne (Nat.ne_of_lt hbound) _).trans hcell
  obtain ⟨heap, hmodify, hself, hother⟩ := Heap.modify_eq_some (f := fun b : Block =>
    some { b with next := some buf.heap.bound }) hcell' rfl
  have hfirst : ∃ x, buf.first = some x := by
    cases hp : buf.first with
    | none =>
      have hl := h.linked
      rw [hp] at hl
      generalize hl' : front ++ [(a, b)] = l at hl
      cases hl
      exact absurd hl' (by simp)
    | some x => exact ⟨x, rfl⟩
  obtain ⟨x, hx⟩ := hfirst
  have hnew : heap.cells buf.heap.bound = some ⟨junk buf.heap.bound, none⟩ :=
    (hother _ (Nat.ne_of_gt hbound)).trans (Heap.alloc_bound _ _)
  refine ⟨{ buf with heap := heap, last := some buf.heap.bound }, ?_, ?_, rfl, rfl⟩
  · unfold blockAdd
    rw [hx, h.last]
    simp only [Option.bind_eq_bind, Option.bind_some]
    rw [hmodify]
    rfl
  · refine ⟨?_, rfl, fun y c hy => ?_, h.startOffset, Nat.zero_le _, ?_⟩
    · rw [List.append_assoc]
      refine h.linked.extend (fun y hy => ?_) hself (.cons hnew .nil)
      have hya := h.ne_of_front hy
      obtain ⟨⟨z, c⟩, hz, rfl⟩ := List.mem_map.mp hy
      have hzb := Heap.lt_bound (h.linked.mem (List.mem_append_left _ hz))
      exact (hother z hya).trans (Heap.alloc_of_ne (Nat.ne_of_lt hzb) _)
    · by_cases hyb : y = buf.heap.bound
      · rw [hyb]
        exact List.mem_map.mpr ⟨_, List.mem_append_right _ List.mem_cons_self, rfl⟩
      · have hold : y ∈ (front ++ [(a, b)]).map Prod.fst := by
          by_cases hya : y = a
          · rw [hya]
            exact List.mem_map.mpr ⟨_, List.mem_append_right _ List.mem_cons_self, rfl⟩
          · rw [show heap.cells y = buf.heap.cells y from (hother y hya).trans (Heap.alloc_of_ne hyb _)] at hy
            exact h.only y c hy
        rw [List.map_append] at hold ⊢
        rw [List.map_append]
        exact List.mem_append_left _ hold
    · rw [length_written _ _ (Nat.zero_le _), List.length_append, List.length_singleton]
      have hstart := h.startOffset
      dsimp only
      rw [Nat.mul_add]
      omega

/-- There is a last block with room for more after `makeRoom`, and it holds what it held. -/
theorem makeRoom_holds {buf : Buffer} {queue : Bytes} (h : Holds buf queue) : ∃ buf' front a b,
    makeRoom junk buf = some buf' ∧ Chain buf' front a b ∧ buf'.size = buf.size ∧
      queue = (written front b buf'.endOffset).drop buf'.startOffset ∧
      buf.available = blockSize - buf'.endOffset := by
  cases h with
  | empty hb =>
    have hroom : buf.room = 0 := by
      unfold Buffer.room
      rw [hb.last]
    have hadd : makeRoom junk buf = some { buf with
        heap := buf.heap.alloc ⟨junk buf.heap.bound, none⟩
        first := some buf.heap.bound
        last := some buf.heap.bound
        endOffset := 0 } := by
      unfold makeRoom blockAdd
      rw [if_pos hroom, hb.first]
      rfl
    refine ⟨_, [], buf.heap.bound, ⟨junk buf.heap.bound, none⟩, hadd, ?_, rfl, ?_, ?_⟩
    · refine ⟨.cons (Heap.alloc_bound _ _) .nil, rfl, fun x c hx => ?_, ?_, Nat.zero_le _, ?_⟩
      · by_contra hne
        have hxne : x ≠ buf.heap.bound := fun hc => hne (hc ▸ List.mem_singleton.mpr rfl)
        rw [Heap.alloc_of_ne hxne, hb.cells x] at hx
        cases hx
      · exact lt_of_eq_of_lt hb.startOffset (by decide)
      · exact le_of_eq_of_le hb.startOffset (Nat.zero_le _)
    · simp [written, dataOf]
    · rw [Buffer.available, if_pos hroom]
      rfl
  | @blocks front a b hc =>
    by_cases hroom : buf.room = 0
    · have hfull : buf.endOffset = blockSize := by
        have hle := hc.endOffset
        simp only [Buffer.room, hc.last] at hroom
        omega
      obtain ⟨buf', hadd, hc', hsize, hstart⟩ := blockAdd_chain junk hc
      refine ⟨{ buf' with endOffset := 0 }, _, _, _, ?_, hc', hsize, ?_, ?_⟩
      · rw [makeRoom, if_pos hroom, hadd]
        rfl
      · have hall : b.data.bytes.take blockSize = b.data.bytes :=
          List.take_of_length_le (le_of_eq b.data.length)
        simp [written, dataOf, hfull, hall, hstart]
      · rw [Buffer.available, if_pos hroom]
        rfl
    · refine ⟨buf, front, a, b, if_neg hroom, hc, rfl, rfl, ?_⟩
      rw [Buffer.available, if_neg hroom, Buffer.room, hc.last]

/-- The last block is replaced by one that holds more. -/
theorem Chain.store {buf : Buffer} {front : List (ℕ × Block)} {a : ℕ} {b : Block} (h : Chain buf front a b)
    {input : Bytes} (hlen : buf.endOffset + input.length ≤ blockSize) : ∃ heap b',
      (buf.heap.modify a fun b => (b.data.store buf.endOffset input).map fun d => { b with data := d }) = some heap ∧
      Chain { buf with heap := heap, endOffset := buf.endOffset + input.length } front a b' ∧
      written front b' (buf.endOffset + input.length) = written front b buf.endOffset ++ input := by
  obtain ⟨d, hstore, htake⟩ := Data.store_eq_some (d := b.data) hlen
  have hcell := h.cells_last
  obtain ⟨heap, hmodify, hself, hother⟩ := Heap.modify_eq_some (f := fun b : Block =>
    (b.data.store buf.endOffset input).map fun d => { b with data := d }) hcell (by rw [hstore]; rfl)
  have hwritten : written front { b with data := d } (buf.endOffset + input.length) =
      written front b buf.endOffset ++ input := by
    rw [written, written, htake, List.append_assoc]
  refine ⟨heap, { b with data := d }, hmodify, ⟨?_, h.last, fun x c hx => ?_, h.startOffset, hlen, ?_⟩, hwritten⟩
  · have hnext : b.next = none := h.linked.next_last
    refine h.linked.extend (fun x hx => hother x (h.ne_of_front hx)) hself ?_
    rw [show Block.next { b with data := d } = none from hnext]
    exact .nil
  · have hold : x ∈ (front ++ [(a, b)]).map Prod.fst := by
      by_cases hxa : x = a
      · rw [hxa]
        exact List.mem_map.mpr ⟨_, List.mem_append_right _ List.mem_cons_self, rfl⟩
      · rw [hother x hxa] at hx
        exact h.only x c hx
    rw [List.map_append] at hold ⊢
    exact hold
  · have hin := h.inside
    dsimp only
    rw [hwritten, List.length_append]
    omega

theorem appendPiece_holds {buf : Buffer} {queue : Bytes} (h : Holds buf queue) (input : Bytes)
    (hlen : input.length ≤ buf.available) :
    ∃ buf', appendPiece junk buf input = some buf' ∧ Holds buf' (queue ++ input) ∧ buf'.size = buf.size := by
  obtain ⟨buf', front, a, b, hroom, hc, hsize, hqueue, havailable⟩ := makeRoom_holds junk h
  have hfit : buf'.endOffset + input.length ≤ blockSize := by
    have hle := hc.endOffset
    omega
  obtain ⟨heap, b', hmodify, hc', hwritten⟩ := hc.store hfit
  refine ⟨{ buf' with heap := heap, endOffset := buf'.endOffset + input.length }, ?_, ?_, hsize⟩
  · unfold appendPiece
    rw [hroom]
    simp only [Option.bind_eq_bind, Option.bind_some]
    rw [hc.last]
    simp only [Option.bind_some]
    rw [hmodify]
    rfl
  · have hholds := Holds.blocks hc'
    dsimp only at hholds
    rw [hwritten, List.drop_append_of_le_length hc.inside, ← hqueue] at hholds
    exact hholds

theorem appendLoop_holds {buf : Buffer} {queue : Bytes} (input : Bytes) (h : Holds buf queue) :
    ∃ buf', appendLoop junk buf input = some buf' ∧ Holds buf' (queue ++ input) ∧ buf'.size = buf.size ∧
      (input = [] → buf' = buf) := by
  -- by induction on the length of what is left
  induction hn : input.length using Nat.strong_induction_on generalizing buf queue input with
  | _ n ih =>
    cases input with
    | nil =>
      unfold appendLoop
      exact ⟨buf, rfl, by rwa [List.append_nil], rfl, fun _ => rfl⟩
    | cons x xs =>
      have hpos := available_pos buf
      obtain ⟨buf₁, hpiece, hholds, hsize⟩ := appendPiece_holds junk h ((x :: xs).take buf.available)
        (List.length_take_le _ _)
      have hlt : ((x :: xs).drop buf.available).length < n := by
        rw [List.length_drop, ← hn, List.length_cons]
        omega
      obtain ⟨buf₂, hloop, hholds', hsize', -⟩ := ih _ hlt ((x :: xs).drop buf.available) hholds rfl
      refine ⟨buf₂, ?_, ?_, hsize'.trans hsize, fun hc => absurd hc (List.cons_ne_nil x xs)⟩
      · rw [appendLoop, hpiece]
        exact hloop
      · rw [List.append_assoc, List.take_append_drop] at hholds'
        exact hholds'

/-- **`buffer_append()`** puts bytes at the end. -/
theorem bufferAppend_queue {buf : Buffer} {queue : Bytes} (h : IsQueue buf queue) (input : Bytes) :
    ∃ buf', bufferAppend junk buf input = some buf' ∧ IsQueue buf' (queue ++ input) := by
  obtain ⟨buf', hloop, hholds, hsize, hnil⟩ := appendLoop_holds junk input h.holds
  refine ⟨{ buf' with size := buf'.size + input.length }, by rw [bufferAppend, hloop]; rfl,
    hholds.resize _, ?_, fun hempty => ?_⟩
  · dsimp only
    rw [hsize, h.size, List.length_append]
  · obtain ⟨hq, hi⟩ := List.append_eq_nil_iff.mp hempty
    rw [hnil hi]
    exact (h.empty hq).resize _

/-! ### Reading -/

/-- The only block is removed. -/
theorem blockRemove_only {buf : Buffer} {a : ℕ} {b : Block} (h : Chain buf [] a b) (offset : ℕ) :
    ∃ buf', blockRemove { buf with startOffset := offset } = some buf' ∧ NoBlocks { buf' with startOffset := 0 } ∧
      buf'.size = buf.size := by
  have hl := h.linked
  obtain ⟨hfirst, hnext⟩ : buf.first = some a ∧ b.next = none := by
    refine ⟨?_, h.linked.next_last⟩
    generalize hp : buf.first = p at hl
    cases hl
    rfl
  refine ⟨{ buf with heap := buf.heap.free a, first := none, last := none, startOffset := offset }, ?_, ?_, rfl⟩
  · simp only [blockRemove, hfirst, h.cells_last, hnext, Option.bind_eq_bind, Option.bind_some, if_true]
  · refine ⟨rfl, rfl, fun x => ?_, rfl⟩
    by_cases hxa : x = a
    · rw [hxa]
      exact Heap.free_self _ a
    · dsimp only
      rw [Heap.free_of_ne hxa]
      by_contra hc
      obtain ⟨c, hc⟩ := Option.ne_none_iff_exists'.mp hc
      exact hxa (List.mem_singleton.mp (h.only x c hc))

/-- The first of several blocks is removed. -/
theorem blockRemove_first {buf : Buffer} {front : List (ℕ × Block)} {x a : ℕ} {c b : Block}
    (h : Chain buf ((x, c) :: front) a b) (offset : ℕ) :
    ∃ buf', blockRemove { buf with startOffset := offset } = some buf' ∧
      Chain { buf' with startOffset := 0 } front a b ∧ buf'.size = buf.size ∧ buf'.endOffset = buf.endOffset := by
  have hl := h.linked
  have hnodup := hl.nodup
  obtain ⟨hfirst, hcell, hrest⟩ : buf.first = some x ∧ buf.heap.cells x = some c ∧
      Linked Block.next buf.heap c.next (front ++ [(a, b)]) := by
    rw [List.cons_append] at hl
    generalize hp : buf.first = p at hl
    cases hl with
    | cons hc hrest => exact ⟨rfl, hc, hrest⟩
  have hnext : c.next ≠ none := by
    intro hnone
    rw [hnone] at hrest
    generalize hl' : front ++ [(a, b)] = l at hrest
    cases hrest
    exact absurd hl' (by simp)
  rw [List.cons_append, List.map_cons, List.nodup_cons] at hnodup
  refine ⟨{ buf with heap := buf.heap.free x, first := c.next, startOffset := offset }, ?_, ?_, rfl, rfl⟩
  · simp only [blockRemove, hfirst, hcell, hnext, Option.bind_eq_bind, Option.bind_some, if_false]
  · refine ⟨hrest.congr fun y hy => ?_, h.last, fun y d hy => ?_, Nat.zero_lt_succ _, h.endOffset, Nat.zero_le _⟩
    · exact Heap.free_of_ne fun hyx => hnodup.1 (hyx ▸ hy)
    · have hyx : y ≠ x := by
        intro hyx
        rw [hyx, show (buf.heap.free x).cells x = none from Heap.free_self _ x] at hy
        cases hy
      rw [show (buf.heap.free x).cells y = buf.heap.cells y from Heap.free_of_ne hyx] at hy
      have hmem := h.only y d hy
      rw [List.cons_append, List.map_cons] at hmem
      exact (List.mem_cons.mp hmem).resolve_left hyx

/-- The first block has the first bytes. -/
theorem Chain.head {buf : Buffer} {front : List (ℕ × Block)} {a : ℕ} {b : Block} (h : Chain buf front a b) :
    ∃ x c, buf.first = some x ∧ buf.heap.cells x = some c ∧ ∀ n ≤ blockSize - buf.startOffset,
      n ≤ ((written front b buf.endOffset).drop buf.startOffset).length →
        (c.data.bytes.drop buf.startOffset).take n =
          ((written front b buf.endOffset).drop buf.startOffset).take n := by
  have hl := h.linked
  have hstart := h.startOffset
  cases front with
  | nil =>
    have hfirst : buf.first = some a := by
      generalize hp : buf.first = p at hl
      cases hl
      rfl
    refine ⟨a, b, hfirst, h.cells_last, fun n _ hn => ?_⟩
    have hwritten : written [] b buf.endOffset = b.data.bytes.take buf.endOffset := rfl
    rw [hwritten, List.length_drop, List.length_take] at hn
    rw [hwritten, List.drop_take, List.take_take, Nat.min_eq_left (by omega)]
  | cons blk front =>
    obtain ⟨x, c⟩ := blk
    have hc := c.data.length
    obtain ⟨hfirst, hcell⟩ : buf.first = some x ∧ buf.heap.cells x = some c := by
      rw [List.cons_append] at hl
      generalize hp : buf.first = p at hl
      cases hl with
      | cons hc _ => exact ⟨rfl, hc⟩
    refine ⟨x, c, hfirst, hcell, fun n hblock _ => ?_⟩
    have hwritten : written ((x, c) :: front) b buf.endOffset = c.data.bytes ++ written front b buf.endOffset := by
      simp [written, dataOf]
    rw [hwritten, List.drop_append_of_le_length (by omega), List.take_append_of_le_length]
    rw [List.length_drop]
    omega

theorem readPiece_holds {buf : Buffer} {queue : Bytes} {n : ℕ} (h : Holds buf queue)
    (hblock : n ≤ blockSize - buf.startOffset) (hn : n ≤ queue.length) (hpos : 0 < n) :
    ∃ buf', readPiece buf n = some (queue.take n, buf') ∧ Holds buf' (queue.drop n) ∧ buf'.size = buf.size := by
  cases h with
  | empty hb =>
    rw [List.length_nil] at hn
    omega
  | @blocks front a b hc =>
    obtain ⟨x, c, hfirst, hcell, hout⟩ := hc.head
    have hstart := hc.startOffset
    have hend := hc.endOffset
    have hlen := length_written front b hc.endOffset
    have hn' := hn
    rw [List.length_drop, hlen] at hn'
    rw [List.drop_drop]
    unfold readPiece
    simp only [hfirst, hcell, Option.bind_eq_bind, Option.bind_some, hout n hblock hn]
    by_cases hfull : buf.startOffset + n = blockSize
    · cases front with
      | nil =>
        obtain ⟨buf', hremove, hb, hsize⟩ := blockRemove_only hc (buf.startOffset + n)
        rw [hfirst] at hremove
        refine ⟨{ buf' with startOffset := 0 }, ?_, ?_, hsize⟩
        · rw [if_pos hfull, hremove]
          rfl
        · have hnil : (written [] b buf.endOffset).drop (buf.startOffset + n) = [] := by
            rw [List.drop_eq_nil_iff, hlen, List.length_nil]
            omega
          rw [hnil]
          exact .empty hb
      | cons blk front =>
        obtain ⟨buf', hremove, hc', hsize, hoffset⟩ := blockRemove_first hc (buf.startOffset + n)
        rw [hfirst] at hremove
        refine ⟨{ buf' with startOffset := 0 }, ?_, ?_, hsize⟩
        · rw [if_pos hfull, hremove]
          rfl
        · have hwritten : written (blk :: front) b buf.endOffset =
              blk.2.data.bytes ++ written front b buf.endOffset := by simp [written, dataOf]
          have hholds := Holds.blocks hc'
          dsimp only at hholds
          rw [List.drop_zero] at hholds
          rw [hwritten, hfull, List.drop_left' blk.2.data.length, ← hoffset]
          exact hholds
    · refine ⟨{ buf with startOffset := buf.startOffset + n }, ?_, ?_, rfl⟩
      · rw [if_neg hfull, hfirst]
      · have hc' : Chain { buf with startOffset := buf.startOffset + n } front a b :=
          ⟨hc.linked, hc.last, hc.only, by dsimp only; omega, hc.endOffset, by dsimp only; omega⟩
        exact .blocks hc'

theorem readLoop_holds {buf : Buffer} {queue : Bytes} {todo : ℕ} (h : Holds buf queue) (hn : todo ≤ queue.length) :
    ∃ buf', readLoop buf todo = some (queue.take todo, buf') ∧ Holds buf' (queue.drop todo) ∧
      buf'.size = buf.size := by
  induction todo using Nat.strong_induction_on generalizing buf queue with
  | _ todo ih =>
    unfold readLoop
    by_cases hzero : todo = 0
    · rw [if_pos hzero, hzero]
      exact ⟨buf, rfl, h, rfl⟩
    · have hstart : blockSize - buf.startOffset ≠ 0 := by
        cases h with
        | empty hb =>
          rw [hb.startOffset]
          decide
        | blocks hc =>
          have hlt := hc.startOffset
          omega
      obtain ⟨n, hdef⟩ : ∃ n, n = min todo (blockSize - buf.startOffset) := ⟨_, rfl⟩
      rw [if_neg hzero, if_neg hstart, ← hdef]
      obtain ⟨buf₁, hpiece, hholds, hsize⟩ := readPiece_holds h (n := n) (by omega) (by omega) (by omega)
      obtain ⟨buf₂, hloop, hholds', hsize'⟩ := ih (todo - n) (by omega) hholds (by rw [List.length_drop]; omega)
      refine ⟨buf₂, ?_, ?_, hsize'.trans hsize⟩
      · rw [hpiece]
        dsimp only
        rw [hloop, Option.map_some]
        have htake : queue.take todo = queue.take n ++ (queue.drop n).take (todo - n) := by
          rw [← List.take_add]
          congr 1
          omega
        rw [htake]
      · rw [List.drop_drop, show n + (todo - n) = todo by omega] at hholds'
        exact hholds'

/-- When all bytes have been read, there is one block at most. -/
theorem Holds.drained {buf : Buffer} (h : Holds buf []) : NoBlocks buf ∨ ∃ a b, Chain buf [] a b := by
  generalize hq : ([] : Bytes) = queue at h
  cases h with
  | empty hb => exact Or.inl hb
  | @blocks front a b hc =>
    have hstart := hc.startOffset
    have hlen := length_written front b hc.endOffset
    rw [eq_comm, List.drop_eq_nil_iff, hlen] at hq
    cases front with
    | nil => exact Or.inr ⟨a, b, hc⟩
    | cons blk front =>
      rw [List.length_cons, Nat.mul_add] at hq
      omega

/-- **`buffer_read()`** takes bytes from the beginning. -/
theorem bufferRead_queue {buf : Buffer} {queue : Bytes} (h : IsQueue buf queue) (size : ℕ) :
    ∃ buf', bufferRead buf size = some (min size queue.length, queue.take size, buf') ∧
      IsQueue buf' (queue.drop size) := by
  obtain ⟨total, hdef⟩ : ∃ total, total = min size buf.size := ⟨_, rfl⟩
  have htotal : total = min size queue.length := h.size ▸ hdef
  have hle : total ≤ queue.length := htotal ▸ Nat.min_le_right size queue.length
  obtain ⟨buf₁, hloop, hholds, hsize⟩ := readLoop_holds h.holds hle
  have htake : queue.take total = queue.take size := by
    rw [htotal, ← List.take_eq_take_min]
  have hdrop : queue.drop total = queue.drop size := by
    by_cases hle : size ≤ queue.length
    · rw [htotal, Nat.min_eq_left hle]
    · rw [htotal, Nat.min_eq_right (by omega), List.drop_length, List.drop_eq_nil_of_le (by omega)]
  have hleft : buf₁.size - total = (queue.drop size).length := by
    rw [hsize, h.size, List.length_drop]
    omega
  rw [hdrop] at hholds
  rw [htake] at hloop
  unfold bufferRead
  dsimp only
  rw [← hdef, ← htotal, hloop]
  simp only [Option.bind_eq_bind, Option.bind_some, hleft]
  generalize queue.drop size = rest at hholds
  have hholds' := hholds.resize rest.length
  by_cases hempty : rest = []
  · subst hempty
    rcases hholds.drained with hb | ⟨a, b, hc⟩
    · refine ⟨{ buf₁ with size := 0 }, if_neg fun hc => hc.2 hb.first, hholds', rfl, fun _ => hb.resize 0⟩
    · obtain ⟨x, c, hfirst, -⟩ := hc.head
      have hc' : Chain { buf₁ with size := 0 } [] a b :=
        ⟨hc.linked, hc.last, hc.only, hc.startOffset, hc.endOffset, hc.inside⟩
      obtain ⟨buf₂, hremove, hb, hsize'⟩ := blockRemove_only hc' buf₁.startOffset
      refine ⟨{ buf₂ with startOffset := 0 }, ?_, .empty hb, hsize', fun _ => hb⟩
      rw [if_pos ⟨rfl, by rw [hfirst]; exact Option.some_ne_none x⟩]
      change (blockRemove { buf₁ with size := 0 }).bind _ = _
      rw [hremove]
      rfl
  · have hne : rest.length ≠ 0 := fun hc => hempty (List.length_eq_zero_iff.mp hc)
    refine ⟨{ buf₁ with size := rest.length }, if_neg fun hc => hne hc.1, hholds', rfl, fun hc => absurd hc hempty⟩

/-- A buffer whose first block is its last one has no other. -/
theorem Chain.only_block {buf : Buffer} {front : List (ℕ × Block)} {a : ℕ} {b : Block} (h : Chain buf front a b)
    (hone : buf.first = buf.last) : front = [] := by
  cases front with
  | nil => rfl
  | cons blk front =>
    have hl := h.linked
    rw [List.cons_append, hone, h.last] at hl
    have hne := h.ne_of_front (x := blk.1) (List.mem_cons_self)
    cases hl
    exact absurd rfl hne

/-- A block is detached only when its data is what is asked for, and nothing is left then. -/
theorem blockDetach_queue {buf : Buffer} {queue : Bytes} (h : IsQueue buf queue) (size : ℕ) :
    blockDetach buf size = some (none, buf) ∨
      ∃ mem buf', blockDetach buf size = some (some mem, buf') ∧ size = queue.length ∧ mem.take size = queue ∧
        size ≤ mem.length ∧ IsQueue buf' [] := by
  obtain ⟨hholds, hsize, -⟩ := h
  unfold blockDetach
  cases hholds with
  | empty hb =>
    rw [hb.first]
    exact Or.inl rfl
  | @blocks front a b hc =>
    obtain ⟨x, c, hfirst, -⟩ := hc.head
    by_cases hone : buf.first = buf.last ∧ buf.startOffset = 0 ∧ buf.size = size
    · obtain rfl := hc.only_block hone.1
      have hxa : x = a := Option.some.inj (hfirst.symm.trans (hone.1.trans hc.last))
      have hqueue : (written [] b buf.endOffset).drop buf.startOffset = b.data.bytes.take buf.endOffset := by
        rw [hone.2.1]
        rfl
      have hend := hc.endOffset
      have hlen := b.data.length
      rw [hqueue, hone.2.2, List.length_take, hlen, Nat.min_eq_left hend] at hsize
      refine Or.inr ⟨b.data.bytes, ⟨buf.heap.free a, none, none, 0, 0, 0⟩, ?_, ?_, ?_, ?_, ?_⟩
      · rw [hfirst] at hone
        rw [hfirst]
        dsimp only
        rw [if_pos hone, hxa, hc.cells_last]
        rfl
      · rw [hqueue, List.length_take, hlen, Nat.min_eq_left hend, hsize]
      · rw [hqueue, hsize]
      · rw [hlen, hsize]
        exact hend
      · have hb : NoBlocks ⟨buf.heap.free a, none, none, 0, 0, 0⟩ := by
          refine ⟨rfl, rfl, fun y => ?_, rfl⟩
          by_cases hya : y = a
          · rw [hya]
            exact Heap.free_self _ a
          · dsimp only
            rw [Heap.free_of_ne hya]
            by_contra hcell
            obtain ⟨d, hd⟩ := Option.ne_none_iff_exists'.mp hcell
            exact hya (List.mem_singleton.mp (hc.only y d hd))
        exact ⟨.empty hb, rfl, fun _ => hb⟩
    · refine Or.inl ?_
      rw [hfirst] at hone
      rw [hfirst]
      exact if_neg hone

/-- **`buffer_read_alloc()`** takes bytes from the beginning, with or without a copy. -/
theorem bufferReadAlloc_queue {buf : Buffer} {queue : Bytes} (h : IsQueue buf queue) (size : ℕ) :
    ∃ mem buf', bufferReadAlloc buf size = some (min size queue.length, mem, buf') ∧
      mem.take (min size queue.length) = queue.take size ∧ min size queue.length ≤ mem.length ∧
      IsQueue buf' (queue.drop size) := by
  unfold bufferReadAlloc
  rcases blockDetach_queue h size with hnone | ⟨mem, buf', hdetach, hsize, hmem, hlen, hq⟩
  · obtain ⟨buf', hread, hq⟩ := bufferRead_queue h size
    refine ⟨queue.take size, buf', ?_, ?_, ?_, hq⟩
    · rw [hnone]
      exact hread
    · exact List.take_of_length_le (by rw [List.length_take])
    · rw [List.length_take]
  · refine ⟨mem, buf', ?_, ?_, ?_, ?_⟩
    · rw [hdetach, hsize, Nat.min_self]
      rfl
    · rw [hsize, Nat.min_self, ← hsize, hmem, hsize, List.take_length]
    · omega
    · rw [hsize, List.drop_length]
      exact hq

end Blocks
end NscaNg
