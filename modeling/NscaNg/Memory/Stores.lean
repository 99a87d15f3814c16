/-
# Stores into a block

A function that fills a block of memory makes stores, each of a byte at an index of the block. Nothing
keeps an index inside the block (`Inside`), and what has not been stored is not known: after the stores a
cell holds the byte that was stored there last, if any (`content`), and a range of cells can be told only
if something was stored in each of them (`load`).
-/
import Mathlib.Data.List.Basic
import Mathlib.Tactic

namespace Memory

/-- Stores in their order: an index, which may lie outside the block, and the byte for it. -/
abbrev Stores := List (ℤ × UInt8)

/-- All stores are to a block of so many bytes. -/
def Inside (size : ℕ) (stores : Stores) : Prop := ∀ w ∈ stores, 0 ≤ w.1 ∧ w.1 < size

instance (size : ℕ) (stores : Stores) : Decidable (Inside size stores) :=
  inferInstanceAs (Decidable (∀ w ∈ stores, 0 ≤ w.1 ∧ w.1 < size))

/-- Bytes are stored one behind the other, from an index on. -/
def storeAll : ℤ → List UInt8 → Stores
  | _, [] => []
  | i, b :: bs => (i, b) :: storeAll (i + 1) bs

/-- What has been stored at an index last. -/
def content : Stores → ℤ → Option UInt8
  | [], _ => none
  | w :: stores, i => (content stores i).or (if w.1 = i then some w.2 else none)

/-- So many bytes from an index on, if all of them have been stored. -/
def load (stores : Stores) : ℤ → ℕ → Option (List UInt8)
  | _, 0 => some []
  | i, n + 1 => (content stores i).bind fun b => (load stores (i + 1) n).map (b :: ·)

/-! ### Where the stores go -/

theorem inside_append {size : ℕ} {s t : Stores} : Inside size (s ++ t) ↔ Inside size s ∧ Inside size t :=
  List.forall_mem_append

theorem inside_cons {size : ℕ} {w : ℤ × UInt8} {s : Stores} :
    Inside size (w :: s) ↔ (0 ≤ w.1 ∧ w.1 < size) ∧ Inside size s := List.forall_mem_cons

theorem inside_nil (size : ℕ) : Inside size [] := fun _ hw => absurd hw List.not_mem_nil

theorem Inside.mono {m n : ℕ} {s : Stores} (h : Inside m s) (hmn : m ≤ n) : Inside n s := fun w hw =>
  ⟨(h w hw).1, (h w hw).2.trans_le (Int.ofNat_le.mpr hmn)⟩

theorem inside_storeAll {size : ℕ} {i : ℤ} {bs : List UInt8} (h0 : 0 ≤ i) (h : i + bs.length ≤ size) :
    Inside size (storeAll i bs) := by
  induction bs generalizing i with
  | nil => exact inside_nil size
  | cons b bs ih =>
    rw [List.length_cons] at h
    refine inside_cons.mpr ⟨⟨h0, by omega⟩, ih (by omega) (by omega)⟩

theorem length_storeAll (i : ℤ) (bs : List UInt8) : (storeAll i bs).length = bs.length := by
  induction bs generalizing i with
  | nil => rfl
  | cons b bs ih => rw [storeAll, List.length_cons, List.length_cons, ih]

theorem storeAll_append (i : ℤ) (s t : List UInt8) :
    storeAll i (s ++ t) = storeAll i s ++ storeAll (i + s.length) t := by
  induction s generalizing i with
  | nil => simp [storeAll]
  | cons b s ih =>
    rw [List.cons_append, storeAll, storeAll, ih, List.cons_append, List.length_cons, Nat.cast_succ,
      Int.add_assoc, Int.add_comm 1]

/-! ### What they leave -/

theorem content_append (s t : Stores) (i : ℤ) : content (s ++ t) i = (content t i).or (content s i) := by
  induction s with
  | nil => simp [content]
  | cons w s ih => rw [List.cons_append, content, content, ih, Option.or_assoc]

theorem content_storeAll_of_lt {i j : ℤ} (h : j < i) (bs : List UInt8) : content (storeAll i bs) j = none := by
  induction bs generalizing i with
  | nil => rfl
  | cons b bs ih =>
    rw [storeAll, content, ih (by omega), if_neg (show ¬ i = j by omega)]
    rfl

theorem content_storeAll (i : ℤ) (bs : List UInt8) (k : ℕ) : content (storeAll i bs) (i + k) = bs[k]? := by
  induction bs generalizing i k with
  | nil => rfl
  | cons b bs ih =>
    cases k with
    | zero => simp [storeAll, content, content_storeAll_of_lt (show i < i + 1 by omega)]
    | succ k =>
      have hk : i + ((k + 1 : ℕ) : ℤ) = i + 1 + k := by push_cast; omega
      rw [hk, storeAll, content, ih, if_neg (show ¬ i = i + 1 + k by omega), Option.or_none, List.getElem?_cons_succ]

theorem content_storeAll_of_le {i j : ℤ} {bs : List UInt8} (h : i + bs.length ≤ j) :
    content (storeAll i bs) j = none := by
  obtain ⟨k, rfl⟩ : ∃ k : ℕ, j = i + k := ⟨(j - i).toNat, by omega⟩
  rw [content_storeAll, List.getElem?_eq_none]
  omega

theorem load_eq_some_iff {stores : Stores} {i : ℤ} {n : ℕ} {bs : List UInt8} :
    load stores i n = some bs ↔ bs.length = n ∧ ∀ k < n, content stores (i + k) = bs[k]? := by
  induction n generalizing i bs with
  | zero =>
    rw [load, Option.some.injEq, eq_comm, List.length_eq_zero_iff]
    exact ⟨fun h => ⟨h, fun k hk => absurd hk (Nat.not_lt_zero k)⟩, And.left⟩
  | succ n ih =>
    rw [load, Option.bind_eq_some_iff]
    constructor
    · rintro ⟨b, hb, hrest⟩
      obtain ⟨rest, hr, rfl⟩ := Option.map_eq_some_iff.mp hrest
      obtain ⟨hlen, hcells⟩ := ih.mp hr
      refine ⟨by rw [List.length_cons, hlen], fun k hk => ?_⟩
      cases k with
      | zero => simpa using hb
      | succ k =>
        rw [List.getElem?_cons_succ, ← hcells k (by omega)]
        congr 1
        push_cast
        omega
    · rintro ⟨hlen, hcells⟩
      cases bs with
      | nil => cases hlen
      | cons b rest =>
        refine ⟨b, by simpa using hcells 0 (Nat.succ_pos n), ?_⟩
        rw [Option.map_eq_some_iff]
        refine ⟨rest, ih.mpr ⟨by simpa using hlen, fun k hk => ?_⟩, rfl⟩
        have h := hcells (k + 1) (by omega)
        rw [List.getElem?_cons_succ] at h
        rw [← h]
        congr 1
        push_cast
        omega

/-- What was stored is there, whatever was stored before. -/
theorem load_storeAll (before : Stores) (i : ℤ) (bs : List UInt8) :
    load (before ++ storeAll i bs) i bs.length = some bs := by
  refine load_eq_some_iff.mpr ⟨rfl, fun k hk => ?_⟩
  rw [content_append, content_storeAll, List.getElem?_eq_getElem hk]
  rfl

/-- A range that can be told can be told up to any point. -/
theorem load_take {stores : Stores} {i : ℤ} {m n : ℕ} {bs : List UInt8} (h : load stores i n = some bs) (hm : m ≤ n) :
    load stores i m = some (bs.take m) := by
  obtain ⟨hlen, hcells⟩ := load_eq_some_iff.mp h
  refine load_eq_some_iff.mpr ⟨by rw [List.length_take, hlen, Nat.min_eq_left hm], fun k hk => ?_⟩
  rw [hcells k (by omega), List.getElem?_take_of_lt hk]

/-- Bytes that are stored over the end of others. -/
theorem load_overwrite (i : ℤ) (s t u : List UInt8) :
    load (storeAll i (s ++ t) ++ storeAll (i + s.length) u) i (s.length + u.length) = some (s ++ u) := by
  refine load_eq_some_iff.mpr ⟨List.length_append, fun k hk => ?_⟩
  rw [content_append, content_storeAll]
  rcases lt_or_ge k s.length with hlt | hge
  · rw [content_storeAll_of_lt (by omega), Option.none_or, List.getElem?_append_left hlt, List.getElem?_append_left hlt]
  · obtain ⟨d, rfl⟩ := Nat.exists_eq_add_of_le hge
    have hcell : content (storeAll (i + s.length) u) (i + (s.length + d : ℕ)) = u[d]? := by
      rw [← content_storeAll (i + s.length) u d]
      congr 1
      push_cast
      omega
    have hu : (s ++ u)[s.length + d]? = u[d]? := by
      rw [List.getElem?_append_right (by omega), Nat.add_sub_cancel_left]
    have hd : d < u.length := by omega
    rw [hcell, hu, List.getElem?_eq_getElem hd, Option.some_or]

/-- A range with a cell in it that was never stored cannot be told. -/
theorem load_eq_none {stores : Stores} {i : ℤ} {n k : ℕ} (hk : k < n) (h : content stores (i + k) = none) :
    load stores i n = none := by
  by_contra hne
  obtain ⟨bs, hbs⟩ := Option.ne_none_iff_exists'.mp hne
  obtain ⟨hlen, hcells⟩ := load_eq_some_iff.mp hbs
  have hcell := hcells k hk
  rw [h, List.getElem?_eq_getElem (by omega)] at hcell
  cases hcell

end Memory
