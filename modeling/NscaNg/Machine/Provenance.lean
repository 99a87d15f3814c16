/-
# Where data comes from

To say what becomes of a piece of data that is cut up and glued together with others, each of its
values is marked with the piece it belongs to and its place in it. A list of marks is whole if it
consists of complete pieces. If whole lists hold the marks of some pieces once each, every piece is in
one place, and in no other (`inOnePlace`). A piece that stands for others can be replaced by them
(`substitute`).
-/
import Mathlib.Data.List.Nodup
import Mathlib.Data.List.Flatten
import Mathlib.Data.List.Perm.Basic
import Mathlib.Tactic

namespace Provenance

variable {ι α : Type}

/-- A piece of data, and what identifies it. -/
structure Item (ι α : Type) where
  id : ι
  content : List α
  deriving DecidableEq

/-- A value and where it comes from. -/
structure Mark (ι α : Type) where
  item : Item ι α
  offset : ℕ
  value : α
  deriving DecidableEq

/-- A piece with every value marked. -/
def Item.marks (i : Item ι α) : List (Mark ι α) := i.content.zipIdx.map fun p => ⟨i, p.2, p.1⟩

/-- Pieces one after the other. -/
def glue (is : List (Item ι α)) : List (Mark ι α) := is.flatMap Item.marks

/-- A list that consists of complete pieces. -/
def Whole (l : List (Mark ι α)) : Prop := ∃ is, l = glue is

/-- The piece stands, whole, in one of the places, and nothing of it is anywhere else. -/
def InOnePlace (places : List (List (Mark ι α))) (i : Item ι α) : Prop :=
  ∃ earlier later before after, places = earlier ++ (before ++ i.marks ++ after) :: later ∧
    ∀ x ∈ earlier.flatten ++ before ++ after ++ later.flatten, x.item ≠ i

/-! ### Marks -/

variable {i : Item ι α} {is js : List (Item ι α)} {l l' : List (Mark ι α)} {x : Mark ι α}

@[simp] theorem length_marks (i : Item ι α) : i.marks.length = i.content.length := by simp [Item.marks]

@[simp] theorem map_value_marks (i : Item ι α) : i.marks.map Mark.value = i.content := by
  simp [Item.marks, Function.comp_def]

theorem item_of_mem_marks (h : x ∈ i.marks) : x.item = i := by
  obtain ⟨p, -, rfl⟩ := List.mem_map.mp h
  rfl

theorem map_offset_marks (i : Item ι α) : i.marks.map Mark.offset = List.range i.content.length := by
  simp [Item.marks, Function.comp_def, List.range_eq_range']

theorem exists_mark (h : i.content ≠ []) : ∃ x, x ∈ i.marks := by
  refine List.exists_mem_of_length_pos ?_
  rw [length_marks]
  exact List.length_pos_of_ne_nil h

theorem nodup_marks (i : Item ι α) : i.marks.Nodup := by
  refine List.Nodup.of_map Mark.offset ?_
  rw [map_offset_marks]
  exact List.nodup_range

@[simp] theorem glue_nil : glue ([] : List (Item ι α)) = [] := rfl

@[simp] theorem glue_append (is js : List (Item ι α)) : glue (is ++ js) = glue is ++ glue js :=
  List.flatMap_append

@[simp] theorem glue_singleton (i : Item ι α) : glue [i] = i.marks := by simp [glue]

theorem map_value_glue (is : List (Item ι α)) : (glue is).map Mark.value = is.flatMap Item.content := by
  simp [glue, List.map_flatMap]

theorem mem_glue : x ∈ glue is ↔ x.item ∈ is ∧ x ∈ x.item.marks := by
  constructor
  · intro h
    obtain ⟨i, hi, hx⟩ := List.mem_flatMap.mp h
    rw [item_of_mem_marks hx]
    exact ⟨hi, hx⟩
  · intro h
    exact List.mem_flatMap.mpr ⟨x.item, h⟩

theorem nodup_glue (h : is.Nodup) : (glue is).Nodup := by
  refine List.nodup_flatMap.mpr ⟨fun i _ => nodup_marks i, h.imp fun hne => ?_⟩
  intro x hx hx'
  exact hne ((item_of_mem_marks hx).symm.trans (item_of_mem_marks hx'))

/-! ### Whole lists -/

theorem Whole.nil : Whole ([] : List (Mark ι α)) := ⟨[], rfl⟩

theorem whole_marks (i : Item ι α) : Whole i.marks := ⟨[i], (glue_singleton i).symm⟩

theorem whole_glue (is : List (Item ι α)) : Whole (glue is) := ⟨is, rfl⟩

theorem Whole.append (h : Whole l) (h' : Whole l') : Whole (l ++ l') := by
  obtain ⟨is, rfl⟩ := h
  obtain ⟨js, rfl⟩ := h'
  exact ⟨is ++ js, (glue_append is js).symm⟩

theorem Whole.flatten {places : List (List (Mark ι α))} (h : ∀ c ∈ places, Whole c) : Whole places.flatten := by
  induction places with
  | nil => exact Whole.nil
  | cons c places ih =>
    have hc := h c (by simp)
    have hrest := ih fun d hd => h d (by simp [hd])
    rw [List.flatten_cons]
    exact hc.append hrest

/-- All of a piece is in a whole list that has something of it. -/
theorem Whole.marks_subset (h : Whole l) (hx : x ∈ l) : x.item.marks ⊆ l := by
  obtain ⟨is, rfl⟩ := h
  intro y hy
  have hy' := item_of_mem_marks hy
  exact mem_glue.mpr ⟨by rw [hy']; exact (mem_glue.mp hx).1, by rw [hy']; exact hy⟩

/-- **One place for each piece.** Where every place is whole, and all of them together hold what was
cut up, each piece that is not empty is in one place only. -/
theorem inOnePlace {places : List (List (Mark ι α))} {created : List (Item ι α)} (hwhole : ∀ c ∈ places, Whole c)
    (hperm : places.flatten.Perm (glue created)) (hnodup : created.Nodup) (hi : i ∈ created)
    (hne : i.content ≠ []) : InOnePlace places i := by
  obtain ⟨x, hx⟩ := exists_mark hne
  have hxi := item_of_mem_marks hx
  have hmem : x ∈ places.flatten := hperm.mem_iff.mpr (List.mem_flatMap.mpr ⟨i, hi, hx⟩)
  obtain ⟨c, hc, hxc⟩ := List.mem_flatten.mp hmem
  obtain ⟨earlier, later, rfl⟩ := List.append_of_mem hc
  obtain ⟨is, rfl⟩ := hwhole c hc
  have his : i ∈ is := hxi ▸ (mem_glue.mp hxc).1
  obtain ⟨js, ks, rfl⟩ := List.append_of_mem his
  have hsplit : glue (js ++ i :: ks) = glue js ++ i.marks ++ glue ks := by simp [glue]
  have hrest : Whole (earlier.flatten ++ glue js ++ glue ks ++ later.flatten) := by
    have hearlier := Whole.flatten fun d hd => hwhole d (List.mem_append_left _ hd)
    have hlater := Whole.flatten fun d hd => hwhole d (List.mem_append_right earlier (List.mem_cons_of_mem _ hd))
    exact ((hearlier.append (whole_glue js)).append (whole_glue ks)).append hlater
  refine ⟨earlier, later, glue js, glue ks, by rw [hsplit], fun y hy hyi => ?_⟩
  have hxrest := hrest.marks_subset hy (hyi.symm ▸ hx)
  -- the marks of the pieces are all different
  have hall : (i.marks ++ (earlier.flatten ++ glue js ++ glue ks ++ later.flatten)).Nodup := by
    refine List.Perm.nodup ?_ (nodup_glue hnodup)
    refine List.Perm.trans hperm.symm ?_
    rw [List.flatten_append, List.flatten_cons, hsplit]
    simpa only [List.append_assoc] using
      List.perm_append_comm_assoc (earlier.flatten ++ glue js) i.marks (glue ks ++ later.flatten)
  exact List.disjoint_of_nodup_append hall hx hxrest

/-! ### Pieces that stand for others -/

section

variable [DecidableEq ι]

/-- The pieces with this name are replaced. -/
def substitute (name : ι) (contents l : List (Mark ι α)) : List (Mark ι α) :=
  l.flatMap fun x => if x.item.id = name then (if x.offset = 0 then contents else []) else [x]

/-- Names are replaced by what they stand for, the last one first. -/
def expand : List (ι × List (Mark ι α)) → List (Mark ι α) → List (Mark ι α)
  | [], l => l
  | (name, contents) :: table, l => substitute name contents (expand table l)

variable {name : ι} {contents : List (Mark ι α)} {table : List (ι × List (Mark ι α))}

theorem substitute_append (name : ι) (contents l l' : List (Mark ι α)) :
    substitute name contents (l ++ l') = substitute name contents l ++ substitute name contents l' :=
  List.flatMap_append

theorem substitute_of_ne (h : ∀ x ∈ l, x.item.id ≠ name) : substitute name contents l = l := by
  induction l with
  | nil => rfl
  | cons x l ih =>
    have hx := h x (by simp)
    have ih' := ih fun y hy => h y (by simp [hy])
    unfold substitute at ih' ⊢
    rw [List.flatMap_cons, ih', if_neg hx]
    rfl

theorem substitute_marks (contents : List (Mark ι α)) (hid : i.id = name) (hne : i.content ≠ []) :
    substitute name contents i.marks = contents := by
  obtain ⟨id, content⟩ := i
  subst hid
  cases content with
  | nil => exact absurd rfl hne
  | cons a as =>
    have hrest : ∀ k, (as.zipIdx (k + 1)).flatMap
        (fun p => if p.2 = 0 then contents else []) = [] := by
      intro k
      refine List.flatMap_eq_nil_iff.mpr fun p hp => if_neg ?_
      have := List.le_snd_of_mem_zipIdx hp
      omega
    have h := hrest 0
    simp only [substitute, Item.marks, List.zipIdx_cons, List.map_cons, List.flatMap_cons, List.flatMap_map]
    simpa using h

theorem expand_append (table : List (ι × List (Mark ι α))) (l l' : List (Mark ι α)) :
    expand table (l ++ l') = expand table l ++ expand table l' := by
  induction table with
  | nil => rfl
  | cons p table ih => rw [expand, ih, substitute_append, expand, expand]

theorem expand_snoc (table : List (ι × List (Mark ι α))) (name : ι) (contents l : List (Mark ι α)) :
    expand (table ++ [(name, contents)]) l = expand table (substitute name contents l) := by
  induction table with
  | nil => rfl
  | cons p table ih => rw [List.cons_append, expand, ih, expand]

/-- Pieces that stand for nothing else stay as they are. -/
theorem expand_of_ne (h : ∀ x ∈ l, ∀ p ∈ table, x.item.id ≠ p.1) : expand table l = l := by
  induction table with
  | nil => rfl
  | cons p table ih =>
    rw [expand, ih fun x hx q hq => h x hx q (by simp [hq])]
    exact substitute_of_ne fun x hx => h x hx p (by simp)

end

end Provenance
