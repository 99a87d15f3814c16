/-
# POSIX extended regular expressions

The expressions a pattern compiles to, and what they match. A match is read in its context:
`Matches r pre mid post` says that `r` matches the bytes `mid` of the text `pre ++ mid ++ post`,
so that `^` and `$` can see the ends of the text. The flags are those of
`REG_EXTENDED | REG_NOSUB`: without `REG_NEWLINE`, `.` and `[^...]` match a newline like any
other byte, and `^` and `$` hold at the two ends of the text only. Only whether there is a match
counts, so leftmost and longest do not come in.

`search` is the decision procedure, by enumeration of the ways an expression matches a beginning
of the text (`splits`); it agrees with the meaning (`search_iff`).
-/
import NscaNg.Posix.CString

namespace Posix

/-- A regular expression. A bracket expression is the list of its ranges. -/
inductive Ere
  | eps
  | chr (c : UInt8)
  | any
  | bracket (neg : Bool) (items : List (UInt8 × UInt8))
  | bol
  | eol
  | cat (a b : Ere)
  | alt (a b : Ere)
  | star (a : Ere)
  deriving DecidableEq, Repr

/-- A byte is in a bracket expression if it lies in one of the ranges, or in none for `[^...]`. -/
def inBracket (neg : Bool) (items : List (UInt8 × UInt8)) (c : UInt8) : Bool :=
  neg != items.any fun r => r.1 ≤ c && c ≤ r.2

/-- Any number of matches one after the other. -/
inductive Star (R : Bytes → Bytes → Bytes → Prop) : Bytes → Bytes → Bytes → Prop
  | nil (pre post : Bytes) : Star R pre [] post
  | cons {pre m₁ m₂ post : Bytes} :
      R pre m₁ (m₂ ++ post) → Star R (pre ++ m₁) m₂ post → Star R pre (m₁ ++ m₂) post

/-- The expression matches `mid` between `pre` and `post`. -/
def Ere.Matches : Ere → Bytes → Bytes → Bytes → Prop
  | .eps, _, mid, _ => mid = []
  | .chr c, _, mid, _ => mid = [c]
  | .any, _, mid, _ => ∃ c, mid = [c]
  | .bracket neg items, _, mid, _ => ∃ c, mid = [c] ∧ inBracket neg items c = true
  | .bol, pre, mid, _ => mid = [] ∧ pre = []
  | .eol, _, mid, post => mid = [] ∧ post = []
  | .cat a b, pre, mid, post =>
    ∃ m₁ m₂, mid = m₁ ++ m₂ ∧ a.Matches pre m₁ (m₂ ++ post) ∧ b.Matches (pre ++ m₁) m₂ post
  | .alt a b, pre, mid, post => a.Matches pre mid post ∨ b.Matches pre mid post
  | .star a, pre, mid, post => Star a.Matches pre mid post

/-- The expression matches somewhere in the text. -/
def Ere.Search (r : Ere) (text : Bytes) : Prop :=
  ∃ pre mid post, text = pre ++ mid ++ post ∧ r.Matches pre mid post

/-- The expression matches the whole of the text. -/
def Ere.Full (r : Ere) (text : Bytes) : Prop := r.Matches [] text []

/-! ### Context

What matches in the middle of a text also matches when the text around is cut off: that can only
make `^` and `$` hold in more places. -/

theorem Star.mono {R R' : Bytes → Bytes → Bytes → Prop} {o o' : Bytes}
    (h : ∀ pre mid post, R (o ++ pre) mid (post ++ o') → R' pre mid post) {pre mid post : Bytes} :
    Star R (o ++ pre) mid (post ++ o') → Star R' pre mid post := by
  generalize hp : o ++ pre = p
  generalize hq : post ++ o' = q
  intro hs
  induction hs generalizing pre with
  | nil => exact .nil _ _
  | @cons p m₁ m₂ q h1 _ ih =>
    subst hp hq
    refine .cons (h _ _ _ ?_) (ih (by simp) rfl)
    simpa using h1

theorem Ere.Matches.cut {r : Ere} {o pre mid post o' : Bytes} :
    r.Matches (o ++ pre) mid (post ++ o') → r.Matches pre mid post := by
  induction r generalizing pre mid post with
  | eps | chr | any | bracket => exact id
  | bol =>
    rintro ⟨rfl, h⟩
    exact ⟨rfl, (List.append_eq_nil_iff.mp h).2⟩
  | eol =>
    rintro ⟨rfl, h⟩
    exact ⟨rfl, (List.append_eq_nil_iff.mp h).1⟩
  | cat a b iha ihb =>
    rintro ⟨m₁, m₂, rfl, h1, h2⟩
    refine ⟨m₁, m₂, rfl, iha (by simpa using h1), ihb (by simpa using h2)⟩
  | alt a b iha ihb => exact Or.imp iha ihb
  | star a ih => exact Star.mono fun _ _ _ => ih

/-- What is matched somewhere is matched in full. -/
theorem Ere.Matches.full {r : Ere} {pre mid post : Bytes} (h : r.Matches pre mid post) : r.Full mid := by
  have h' : r.Matches (pre ++ []) mid ([] ++ post) := by simpa using h
  exact h'.cut

/-- The expression has no `^` and no `$`. -/
def Ere.anchorFree : Ere → Bool
  | .eps | .chr _ | .any | .bracket _ _ => true
  | .bol | .eol => false
  | .cat a b | .alt a b => a.anchorFree && b.anchorFree
  | .star a => a.anchorFree

/-- The context does not matter for an expression without anchors. -/
theorem Ere.Matches.move {r : Ere} (hr : r.anchorFree = true) {pre mid post : Bytes}
    (h : r.Matches pre mid post) (pre' post' : Bytes) : r.Matches pre' mid post' := by
  induction r generalizing pre mid post pre' post' with
  | eps | chr | any | bracket => exact h
  | bol | eol => simp [Ere.anchorFree] at hr
  | cat a b iha ihb =>
    obtain ⟨ha, hb⟩ := Bool.and_eq_true_iff.mp hr
    obtain ⟨m₁, m₂, rfl, h1, h2⟩ := h
    exact ⟨m₁, m₂, rfl, iha ha h1 _ _, ihb hb h2 _ _⟩
  | alt a b iha ihb =>
    obtain ⟨ha, hb⟩ := Bool.and_eq_true_iff.mp hr
    exact h.imp (fun h1 => iha ha h1 _ _) (fun h2 => ihb hb h2 _ _)
  | star a ih =>
    induction h generalizing pre' with
    | nil => exact .nil _ _
    | cons h1 _ ih2 => exact .cons (ih hr h1 _ _) (ih2 _)

/-- What the expression matches does not contain `c`. -/
def Ere.avoids (c : UInt8) : Ere → Bool
  | .eps | .bol | .eol => true
  | .chr d => d ≠ c
  | .any => false
  | .bracket neg items => !inBracket neg items c
  | .cat a b | .alt a b => a.avoids c && b.avoids c
  | .star a => a.avoids c

theorem Ere.Matches.notMem {r : Ere} {c : UInt8} (hr : r.avoids c = true) {pre mid post : Bytes}
    (h : r.Matches pre mid post) : c ∉ mid := by
  induction r generalizing pre mid post with
  | eps => simp_all [Ere.Matches]
  | bol | eol => simp [h.1]
  | chr d =>
    obtain rfl : mid = [d] := h
    intro hm
    obtain rfl := List.mem_singleton.mp hm
    simp [Ere.avoids] at hr
  | any => simp [Ere.avoids] at hr
  | bracket neg items =>
    obtain ⟨d, rfl, hd⟩ := h
    rintro hm
    obtain rfl := List.mem_singleton.mp hm
    simp [Ere.avoids, hd] at hr
  | cat a b iha ihb =>
    obtain ⟨ha, hb⟩ := Bool.and_eq_true_iff.mp hr
    obtain ⟨m₁, m₂, rfl, h1, h2⟩ := h
    simp [iha ha h1, ihb hb h2]
  | alt a b iha ihb =>
    obtain ⟨ha, hb⟩ := Bool.and_eq_true_iff.mp hr
    exact h.elim (iha ha) (ihb hb)
  | star a ih =>
    induction h with
    | nil => simp
    | cons h1 _ ih2 => simp [ih hr h1, ih2]

/-! ### Concatenation

A branch is the list of its pieces. -/

/-- The pieces one after the other. -/
def seq (ps : List Ere) : Ere := ps.foldr .cat .eps

@[simp] theorem matches_seq_nil {pre mid post : Bytes} :
    (seq []).Matches pre mid post ↔ mid = [] := Iff.rfl

theorem matches_seq_cons {p : Ere} {ps : List Ere} {pre mid post : Bytes} :
    (seq (p :: ps)).Matches pre mid post ↔
      ∃ m₁ m₂, mid = m₁ ++ m₂ ∧ p.Matches pre m₁ (m₂ ++ post) ∧ (seq ps).Matches (pre ++ m₁) m₂ post :=
  Iff.rfl

theorem matches_seq_append {ps qs : List Ere} {pre mid post : Bytes} :
    (seq (ps ++ qs)).Matches pre mid post ↔
      ∃ m₁ m₂, mid = m₁ ++ m₂ ∧ (seq ps).Matches pre m₁ (m₂ ++ post) ∧
        (seq qs).Matches (pre ++ m₁) m₂ post := by
  induction ps generalizing pre mid with
  | nil => simp
  | cons p ps ih =>
    simp only [List.cons_append, matches_seq_cons, ih]
    constructor
    · rintro ⟨m₁, _, rfl, h1, m₂, m₃, rfl, h2, h3⟩
      exact ⟨m₁ ++ m₂, m₃, by simp, ⟨m₁, m₂, rfl, by simpa using h1, h2⟩, by simpa using h3⟩
    · rintro ⟨_, m₃, rfl, ⟨m₁, m₂, rfl, h1, h2⟩, h3⟩
      exact ⟨m₁, m₂ ++ m₃, by simp, by simpa using h1, m₂, m₃, rfl, h2, by simpa using h3⟩

/-- The pieces of a text matched byte for byte. -/
def literal (text : Bytes) : List Ere := text.map .chr

theorem matches_literal {text pre mid post : Bytes} :
    (seq (literal text)).Matches pre mid post ↔ mid = text := by
  induction text generalizing pre mid with
  | nil => simp [literal]
  | cons c cs ih =>
    simp only [literal, List.map_cons, matches_seq_cons] at ih ⊢
    constructor
    · rintro ⟨_, m₂, rfl, rfl, h⟩
      rw [ih.mp h]
      rfl
    · rintro rfl
      exact ⟨[c], cs, rfl, rfl, ih.mpr rfl⟩

/-! ### The decision procedure -/

/-- The ways `f` matches any number of times from the beginning of the text; only the last of
the `fuel` rounds stops because of `fuel`, and a round that takes nothing is never needed. -/
def starSplits (f : Bytes → Bytes → List (Bytes × Bytes)) : ℕ → Bytes → Bytes → List (Bytes × Bytes)
  | 0, _, text => [([], text)]
  | fuel + 1, pre, text =>
    ([], text) :: ((f pre text).filter fun p => !p.1.isEmpty).flatMap fun p =>
      (starSplits f fuel (pre ++ p.1) p.2).map fun q => (p.1 ++ q.1, q.2)

/-- One byte that satisfies `p`, and the rest. -/
def oneByte (p : UInt8 → Bool) : Bytes → List (Bytes × Bytes)
  | [] => []
  | x :: text => if p x then [([x], text)] else []

/-- The ways the expression matches a beginning of `text`, `pre` being what stands before: what
it matches and what is left. -/
def Ere.splits : Ere → Bytes → Bytes → List (Bytes × Bytes)
  | .eps, _, text => [([], text)]
  | .chr c, _, text => oneByte (· = c) text
  | .any, _, text => oneByte (fun _ => true) text
  | .bracket neg items, _, text => oneByte (inBracket neg items) text
  | .bol, pre, text => if pre.isEmpty then [([], text)] else []
  | .eol, _, text => if text.isEmpty then [([], text)] else []
  | .cat a b, pre, text =>
    (a.splits pre text).flatMap fun p => (b.splits (pre ++ p.1) p.2).map fun q => (p.1 ++ q.1, q.2)
  | .alt a b, pre, text => a.splits pre text ++ b.splits pre text
  | .star a, pre, text => starSplits a.splits text.length pre text

/-- Whether the expression matches from somewhere in `text` on, `pre` being what stands before. -/
def Ere.searchFrom (r : Ere) : Bytes → Bytes → Bool
  | pre, [] => !(r.splits pre []).isEmpty
  | pre, x :: text => !(r.splits pre (x :: text)).isEmpty || r.searchFrom (pre ++ [x]) text

/-- Whether the expression matches somewhere in the text. -/
def Ere.search (r : Ere) (text : Bytes) : Bool := r.searchFrom [] text

theorem mem_starSplits {f : Bytes → Bytes → List (Bytes × Bytes)} {R : Bytes → Bytes → Bytes → Prop}
    (hf : ∀ pre text mid post, (mid, post) ∈ f pre text ↔ text = mid ++ post ∧ R pre mid post) :
    ∀ (fuel : ℕ) (pre text mid post : Bytes), text.length ≤ fuel →
      ((mid, post) ∈ starSplits f fuel pre text ↔ text = mid ++ post ∧ Star R pre mid post) := by
  intro fuel
  induction fuel with
  | zero =>
    intro pre text mid post hl
    have ht : text = [] := List.length_eq_zero_iff.mp (by omega)
    subst ht
    simp only [starSplits, List.mem_singleton, Prod.mk.injEq]
    constructor
    · rintro ⟨rfl, rfl⟩
      exact ⟨rfl, .nil _ _⟩
    · rintro ⟨h, -⟩
      simpa using h.symm
  | succ fuel ih =>
    intro pre text mid post hl
    simp only [starSplits, List.mem_cons, Prod.mk.injEq, List.mem_flatMap, List.mem_filter,
      List.mem_map, Prod.exists, Bool.not_eq_true', List.isEmpty_eq_false_iff]
    constructor
    · rintro (⟨rfl, rfl⟩ | ⟨m, t, ⟨hm, hne⟩, m', t', hm', rfl, rfl⟩)
      · exact ⟨rfl, .nil _ _⟩
      · obtain ⟨rfl, hR⟩ := (hf _ _ _ _).mp hm
        have hpos : 0 < m.length := List.length_pos_iff.mpr hne
        have hlt : t.length ≤ fuel := by
          simp only [List.length_append] at hl
          omega
        obtain ⟨rfl, hs⟩ := (ih _ _ _ _ hlt).mp hm'
        exact ⟨by simp, .cons hR hs⟩
    · rintro ⟨rfl, hs⟩
      -- the first round that takes something is the one the search tries
      induction hs with
      | nil => exact Or.inl ⟨rfl, rfl⟩
      | @cons pre m₁ m₂ post h1 h2 ih2 =>
        by_cases hne : m₁ = []
        · subst hne
          simpa using ih2 (by simpa using hl)
        · refine Or.inr ⟨m₁, m₂ ++ post, ⟨(hf _ _ _ _).mpr ⟨by simp, h1⟩, hne⟩, m₂, post, ?_, rfl, rfl⟩
          have hpos : 0 < m₁.length := List.length_pos_iff.mpr hne
          refine (ih _ _ _ _ ?_).mpr ⟨rfl, h2⟩
          simp only [List.length_append] at hl ⊢
          omega

theorem mem_oneByte {p : UInt8 → Bool} {text mid post : Bytes} :
    (mid, post) ∈ oneByte p text ↔ text = mid ++ post ∧ ∃ c, mid = [c] ∧ p c = true := by
  cases text with
  | nil =>
    simp only [oneByte, List.not_mem_nil, List.nil_eq, List.append_eq_nil_iff, false_iff]
    rintro ⟨⟨rfl, -⟩, c, h, -⟩
    simp at h
  | cons x text =>
    simp only [oneByte]
    constructor
    · intro h
      split at h <;> rename_i hx
      · obtain ⟨rfl, rfl⟩ := Prod.mk.injEq .. ▸ List.mem_singleton.mp h
        exact ⟨rfl, x, rfl, hx⟩
      · simp at h
    · rintro ⟨h, c, rfl, hc⟩
      obtain ⟨rfl, rfl⟩ : x = c ∧ text = post := by simpa using h
      simp [hc]

theorem mem_unit {text mid post : Bytes} :
    (mid, post) ∈ [(([] : Bytes), text)] ↔ text = mid ++ post ∧ mid = [] := by
  simp only [List.mem_singleton, Prod.mk.injEq]
  constructor
  · rintro ⟨rfl, rfl⟩
    exact ⟨rfl, rfl⟩
  · rintro ⟨rfl, rfl⟩
    exact ⟨rfl, rfl⟩

theorem mem_splits {r : Ere} {pre text mid post : Bytes} :
    (mid, post) ∈ r.splits pre text ↔ text = mid ++ post ∧ r.Matches pre mid post := by
  induction r generalizing pre text mid post with
  | eps => exact mem_unit
  | chr c => simp [Ere.splits, Ere.Matches, mem_oneByte]
  | any => simp [Ere.splits, Ere.Matches, mem_oneByte]
  | bracket neg items => simp [Ere.splits, Ere.Matches, mem_oneByte]
  | bol =>
    simp only [Ere.splits, Ere.Matches]
    by_cases hp : pre = []
    · simp only [hp, List.isEmpty_nil, if_true, mem_unit, and_true]
    · simp [hp]
  | eol =>
    simp only [Ere.splits, Ere.Matches]
    by_cases ht : text = []
    · subst ht
      simp only [List.isEmpty_nil, if_true, mem_unit, List.nil_eq, List.append_eq_nil_iff]
      tauto
    · simp only [List.isEmpty_iff, ht, if_false, List.not_mem_nil, false_iff]
      rintro ⟨h, rfl, rfl⟩
      exact ht h
  | cat a b iha ihb =>
    simp only [Ere.splits, Ere.Matches, List.mem_flatMap, List.mem_map, Prod.exists, iha, ihb,
      Prod.mk.injEq]
    constructor
    · rintro ⟨m, t, ⟨rfl, h1⟩, m', t', ⟨rfl, h2⟩, rfl, rfl⟩
      exact ⟨by simp, m, m', rfl, h1, h2⟩
    · rintro ⟨rfl, m, m', rfl, h1, h2⟩
      exact ⟨m, m' ++ post, ⟨by simp, h1⟩, m', post, ⟨rfl, h2⟩, rfl, rfl⟩
  | alt a b iha ihb =>
    simp only [Ere.splits, Ere.Matches, List.mem_append, iha, ihb]
    tauto
  | star a ih =>
    exact mem_starSplits (f := a.splits) (R := a.Matches) (fun _ _ _ _ => ih) _ _ _ _ _ (le_refl _)

instance (r : Ere) (pre mid post : Bytes) : Decidable (r.Matches pre mid post) :=
  decidable_of_iff ((mid, post) ∈ r.splits pre (mid ++ post)) (mem_splits.trans (and_iff_right rfl))

instance (r : Ere) (text : Bytes) : Decidable (r.Full text) :=
  inferInstanceAs (Decidable (r.Matches [] text []))

theorem splits_nonempty {r : Ere} {pre text : Bytes} : (!(r.splits pre text).isEmpty) = true ↔
    ∃ mid post, text = mid ++ post ∧ r.Matches pre mid post := by
  rw [Bool.not_eq_true', List.isEmpty_eq_false_iff]
  constructor
  · intro h
    obtain ⟨⟨mid, post⟩, hm⟩ := List.exists_mem_of_ne_nil _ h
    exact ⟨mid, post, mem_splits.mp hm⟩
  · rintro ⟨mid, post, h⟩
    exact List.ne_nil_of_mem (mem_splits.mpr h)

theorem searchFrom_iff {r : Ere} {pre text : Bytes} : r.searchFrom pre text = true ↔
    ∃ skip mid post, text = skip ++ mid ++ post ∧ r.Matches (pre ++ skip) mid post := by
  induction text generalizing pre with
  | nil =>
    rw [Ere.searchFrom, splits_nonempty]
    constructor
    · rintro ⟨mid, post, h, hm⟩
      exact ⟨[], mid, post, by simpa using h, by simpa using hm⟩
    · rintro ⟨skip, mid, post, h, hm⟩
      simp only [List.nil_eq, List.append_eq_nil_iff] at h
      obtain ⟨⟨rfl, rfl⟩, rfl⟩ := h
      exact ⟨[], [], rfl, by simpa using hm⟩
  | cons x text ih =>
    rw [Ere.searchFrom, Bool.or_eq_true, splits_nonempty, ih]
    constructor
    · rintro (⟨mid, post, h, hm⟩ | ⟨skip, mid, post, rfl, hm⟩)
      · exact ⟨[], mid, post, by simpa using h, by simpa using hm⟩
      · exact ⟨x :: skip, mid, post, rfl, by simpa using hm⟩
    · rintro ⟨skip, mid, post, h, hm⟩
      cases skip with
      | nil => exact Or.inl ⟨mid, post, by simpa using h, by simpa using hm⟩
      | cons y skip =>
        simp only [List.cons_append, List.cons.injEq] at h
        obtain ⟨rfl, rfl⟩ := h
        exact Or.inr ⟨skip, mid, post, rfl, by simpa using hm⟩

/-- The search decides whether there is a match. -/
theorem search_iff {r : Ere} {text : Bytes} : r.search text = true ↔ r.Search text := by
  rw [Ere.search, searchFrom_iff]
  simp only [List.nil_append, Ere.Search]

end Posix
