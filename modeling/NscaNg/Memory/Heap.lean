/-
# Linked cells in a heap

A heap has cells at addresses. Where a cell leads on to the next one, the cells from an address on are a
list (`Linked`), which ends with a null pointer. There is only one such list (`Linked.unique`), no
address is in it twice (`Linked.nodup`), and changes elsewhere in the heap leave it alone
(`Linked.congr`).
-/
import Mathlib.Data.Finset.Card
import Mathlib.Data.List.Nodup

namespace Memory

variable {α : Type}

/-- Cells at addresses, of which those from `bound` on have not been given out yet. -/
structure Heap (α : Type) where
  cells : ℕ → Option α
  bound : ℕ
  fresh : ∀ a, bound ≤ a → cells a = none

namespace Heap

def empty : Heap α := ⟨fun _ => none, 0, fun _ _ => rfl⟩

/-- The next address is given out, for this cell. -/
def alloc (h : Heap α) (c : α) : Heap α where
  cells a := if a = h.bound then some c else h.cells a
  bound := h.bound + 1
  fresh a ha := by
    rw [if_neg (by omega)]
    exact h.fresh a (by omega)

def free (h : Heap α) (a : ℕ) : Heap α where
  cells b := if b = a then none else h.cells b
  bound := h.bound
  fresh b hb := by
    split
    · rfl
    · exact h.fresh b hb

/-- The cell at an address is changed, if there is one and it can be. -/
def modify (h : Heap α) (a : ℕ) (f : α → Option α) : Option (Heap α) :=
  match hc : h.cells a with
  | none => none
  | some c =>
    match f c with
    | none => none
    | some c' => some
        { cells := fun b => if b = a then some c' else h.cells b
          bound := h.bound
          fresh := fun b hb => by
            have hfree := h.fresh b hb
            rw [if_neg (fun hba => by rw [hba, hc] at hfree; cases hfree), hfree] }

theorem alloc_bound (h : Heap α) (c : α) : (h.alloc c).cells h.bound = some c := if_pos rfl

theorem alloc_of_ne {h : Heap α} {a : ℕ} (ha : a ≠ h.bound) (c : α) : (h.alloc c).cells a = h.cells a := if_neg ha

theorem free_self (h : Heap α) (a : ℕ) : (h.free a).cells a = none := if_pos rfl

theorem free_of_ne {h : Heap α} {a b : ℕ} (hb : b ≠ a) : (h.free a).cells b = h.cells b := if_neg hb

theorem modify_eq_some {h : Heap α} {a : ℕ} {c c' : α} {f : α → Option α} (hc : h.cells a = some c)
    (hf : f c = some c') : ∃ h', h.modify a f = some h' ∧ h'.cells a = some c' ∧ ∀ b ≠ a, h'.cells b = h.cells b := by
  unfold modify
  split
  · rename_i hnone
    rw [hc] at hnone
    cases hnone
  · rename_i d hd
    obtain rfl : c = d := Option.some.inj (hc.symm.trans hd)
    rw [hf]
    exact ⟨_, rfl, if_pos rfl, fun b hb => if_neg hb⟩

theorem lt_bound {h : Heap α} {a : ℕ} {c : α} (hc : h.cells a = some c) : a < h.bound := by
  by_contra hge
  rw [h.fresh a (by omega)] at hc
  cases hc

end Heap

/-- The cells from an address on. -/
inductive Linked (next : α → Option ℕ) (h : Heap α) : Option ℕ → List (ℕ × α) → Prop
  | nil : Linked next h none []
  | cons {a : ℕ} {c : α} {l : List (ℕ × α)} : h.cells a = some c → Linked next h (next c) l →
      Linked next h (some a) ((a, c) :: l)

variable {next : α → Option ℕ} {h h' : Heap α} {p : Option ℕ} {l : List (ℕ × α)}

theorem Linked.unique {l' : List (ℕ × α)} (hl : Linked next h p l) (hl' : Linked next h p l') : l = l' := by
  induction hl generalizing l' with
  | nil =>
    cases hl'
    rfl
  | cons hc _ ih =>
    cases hl' with
    | cons hc' hrest =>
      obtain rfl := Option.some.inj (hc.symm.trans hc')
      rw [ih hrest]

theorem Linked.mem (hl : Linked next h p l) {a : ℕ} {c : α} (hm : (a, c) ∈ l) : h.cells a = some c := by
  induction hl with
  | nil => cases hm
  | cons hc _ ih =>
    rcases List.mem_cons.mp hm with heq | hm
    · cases heq
      exact hc
    · exact ih hm

/-- The list goes on in the same way from each of its cells. -/
theorem Linked.suffix {front : List (ℕ × α)} {a : ℕ} {c : α} (hl : Linked next h p (front ++ (a, c) :: l)) :
    Linked next h (some a) ((a, c) :: l) := by
  induction front generalizing p with
  | nil =>
    cases hl with
    | cons hc hrest => exact .cons hc hrest
  | cons d front ih =>
    cases hl with
    | cons _ hrest => exact ih hrest

theorem Linked.next_last {a : ℕ} {c : α} (hl : Linked next h p (l ++ [(a, c)])) : next c = none := by
  cases hl.suffix with
  | cons _ hrest =>
    generalize next c = q at hrest
    cases hrest
    rfl

theorem Linked.nodup (hl : Linked next h p l) : (l.map Prod.fst).Nodup := by
  induction hl with
  | nil => exact List.nodup_nil
  | @cons a c l hc hrest ih =>
    refine List.nodup_cons.mpr ⟨fun hm => ?_, ih⟩
    -- the list would go on from the second cell as it does from the first one
    obtain ⟨⟨b, d⟩, hbd, rfl⟩ := List.mem_map.mp hm
    obtain rfl : c = d := Option.some.inj (hc.symm.trans (hrest.mem hbd))
    obtain ⟨front, back, rfl⟩ := List.append_of_mem hbd
    have heq := hrest.suffix.unique (.cons hc hrest)
    have hlen := congrArg List.length heq
    simp only [List.length_cons, List.length_append] at hlen
    omega

theorem Linked.length_le (hl : Linked next h p l) : l.length ≤ h.bound := by
  have hsub : (l.map Prod.fst).toFinset ⊆ Finset.range h.bound := by
    intro a ha
    obtain ⟨⟨b, c⟩, hm, rfl⟩ := List.mem_map.mp (List.mem_toFinset.mp ha)
    exact Finset.mem_range.mpr (Heap.lt_bound (hl.mem hm))
  have hcard := Finset.card_le_card hsub
  rw [List.toFinset_card_of_nodup hl.nodup, Finset.card_range, List.length_map] at hcard
  exact hcard

/-- Changes elsewhere leave the list alone. -/
theorem Linked.congr (hl : Linked next h p l) (hsame : ∀ a ∈ l.map Prod.fst, h'.cells a = h.cells a) :
    Linked next h' p l := by
  induction hl with
  | nil => exact .nil
  | cons hc _ ih =>
    refine .cons ((hsame _ List.mem_cons_self).trans hc) (ih fun a ha => hsame a (List.mem_cons_of_mem _ ha))

/-- The last cell is changed, and others may follow it now. -/
theorem Linked.extend {a : ℕ} {c c' : α} {more : List (ℕ × α)} (hl : Linked next h p (l ++ [(a, c)]))
    (hsame : ∀ b ∈ l.map Prod.fst, h'.cells b = h.cells b) (hc' : h'.cells a = some c')
    (hmore : Linked next h' (next c') more) : Linked next h' p (l ++ (a, c') :: more) := by
  induction l generalizing p with
  | nil =>
    cases hl with
    | cons _ _ => exact .cons hc' hmore
  | cons d l ih =>
    cases hl with
    | cons hd hrest =>
      exact .cons ((hsame _ List.mem_cons_self).trans hd)
        (ih hrest fun b hb => hsame b (List.mem_cons_of_mem _ hb))

end Memory
