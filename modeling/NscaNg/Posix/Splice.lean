/-
# A pattern between other expressions

What the compiled expression of a text matches when a pattern was written into the middle of it.
The first alternative of the pattern goes with what stands in front, the last one with what stands
behind, and nothing holds the others (`search_glue`). So a pattern may match astray. Where none of
its alternatives does, not even by what it can spare, one of them matches in its place
(`placed_of_search_glue`).
-/
import NscaNg.Posix.Regcomp

namespace Posix

/-! ### Anchors left out -/

/-- The expression with its `^` and `$` left out. -/
def Ere.bare : Ere → Ere
  | .bol | .eol => .eps
  | .cat a b => .cat a.bare b.bare
  | .alt a b => .alt a.bare b.bare
  | .star a => .star a.bare
  | r => r

/-- The expression has no `$`. -/
def Ere.eolFree : Ere → Bool
  | .eps | .chr _ | .any | .bracket _ _ | .bol => true
  | .eol => false
  | .cat a b | .alt a b => a.eolFree && b.eolFree
  | .star a => a.eolFree

theorem Star.imp {R R' : Bytes → Bytes → Bytes → Prop}
    (h : ∀ pre mid post, R pre mid post → R' pre mid post) {pre mid post : Bytes}
    (hs : Star R pre mid post) : Star R' pre mid post := by
  induction hs with
  | nil => exact .nil _ _
  | cons h1 _ ih => exact .cons (h _ _ _ h1) ih

/-- Anchors only keep an expression from matching. -/
theorem Ere.Matches.bare {r : Ere} {pre mid post : Bytes} (h : r.Matches pre mid post) :
    r.bare.Matches pre mid post := by
  induction r generalizing pre mid post with
  | eps | chr | any | bracket => exact h
  | bol | eol => exact h.1
  | cat a b iha ihb =>
    obtain ⟨m₁, m₂, rfl, h1, h2⟩ := h
    exact ⟨m₁, m₂, rfl, iha h1, ihb h2⟩
  | alt a b iha ihb => exact h.imp iha ihb
  | star a ih => exact h.imp fun _ _ _ => ih

/-- What stands behind does not matter for an expression without `$`. -/
theorem Ere.Matches.moveEnd {r : Ere} (hr : r.eolFree = true) {pre mid post : Bytes}
    (h : r.Matches pre mid post) (post' : Bytes) : r.Matches pre mid post' := by
  induction r generalizing pre mid post post' with
  | eps | chr | any | bracket | bol => exact h
  | eol => simp [Ere.eolFree] at hr
  | cat a b iha ihb =>
    obtain ⟨ha, hb⟩ := Bool.and_eq_true_iff.mp hr
    obtain ⟨m₁, m₂, rfl, h1, h2⟩ := h
    exact ⟨m₁, m₂, rfl, iha ha h1 _, ihb hb h2 _⟩
  | alt a b iha ihb =>
    obtain ⟨ha, hb⟩ := Bool.and_eq_true_iff.mp hr
    exact h.imp (fun h1 => iha ha h1 _) (fun h2 => ihb hb h2 _)
  | star a ih =>
    induction h with
    | nil => exact .nil _ _
    | cons h1 _ ih2 => exact .cons (ih hr h1 _) ih2

/-! ### What a match can spare -/

/-- The expression matches `mid ++ extra` and could do without `extra`: that is matched by the last
rounds of a repetition or by an option, behind which nothing is matched. -/
def Ere.Spares : Ere → Bytes → Bytes → Bytes → Bytes → Prop
  | .cat a b, pre, mid, extra, post =>
    (∃ m₁ m₂, mid = m₁ ++ m₂ ∧ a.Matches pre m₁ (m₂ ++ extra ++ post) ∧ b.Spares (pre ++ m₁) m₂ extra post) ∨
    (a.Spares pre mid extra post ∧ b.Matches (pre ++ mid ++ extra) [] post)
  | .alt a b, pre, mid, extra, post =>
    a.Spares pre mid extra post ∨ b.Spares pre mid extra post ∨
    (mid = [] ∧ (Ere.alt a b).Matches pre [] (extra ++ post) ∧ (Ere.alt a b).Matches pre extra post)
  | .star a, pre, mid, extra, post =>
    (Ere.star a).Matches pre mid (extra ++ post) ∧ (Ere.star a).Matches (pre ++ mid) extra post
  | r, pre, mid, extra, post => extra = [] ∧ r.Matches pre mid post

/-- Nothing can always be spared. -/
theorem Ere.Matches.spares {r : Ere} {pre mid post : Bytes} (h : r.Matches pre mid post) :
    r.Spares pre mid [] post := by
  induction r generalizing pre mid with
  | eps | chr | any | bracket | bol | eol => exact ⟨rfl, h⟩
  | cat a b _ ihb =>
    obtain ⟨m₁, m₂, rfl, h1, h2⟩ := h
    exact Or.inl ⟨m₁, m₂, rfl, by simpa using h1, ihb h2⟩
  | alt a b iha ihb => exact h.elim (fun h1 => Or.inl (iha h1)) (fun h2 => Or.inr (Or.inl (ihb h2)))
  | star a => exact ⟨h, .nil _ _⟩

/-- A match of nothing that is not at the beginning of the text can be anywhere. -/
theorem Ere.Matches.move_nil {r : Ere} {pre post : Bytes} (h : r.Matches pre [] post) (hpre : pre ≠ [])
    (pre' : Bytes) : r.Matches pre' [] post := by
  induction r generalizing post with
  | eps | chr | any | bracket | eol => exact h
  | bol => exact absurd h.2 hpre
  | cat a b iha ihb =>
    obtain ⟨m₁, m₂, he, h1, h2⟩ := h
    obtain ⟨rfl, rfl⟩ := List.append_eq_nil_iff.mp he.symm
    exact ⟨[], [], rfl, iha (by simpa using h1), by simpa using ihb (by simpa using h2)⟩
  | alt a b iha ihb => exact h.imp iha ihb
  | star a => exact .nil _ _

/-- What stands behind a match may end earlier. -/
theorem Ere.Matches.cutEnd {r : Ere} {pre mid post : Bytes} (post' : Bytes)
    (h : r.Matches pre mid (post ++ post')) : r.Matches pre mid post :=
  Ere.Matches.cut (o := []) h

/-- What is left when the rest is spared is matched as well, at the end of a text. -/
theorem Ere.Spares.matches {r : Ere} {pre mid extra post : Bytes} (h : r.Spares pre mid extra post) :
    r.Matches pre mid [] := by
  induction r generalizing pre mid with
  | eps | chr | any | bracket | bol | eol => exact h.2.cutEnd post
  | cat a b iha ihb =>
    rcases h with ⟨m₁, m₂, rfl, h1, h2⟩ | ⟨h1, h2⟩
    · exact ⟨m₁, m₂, rfl, Ere.Matches.cutEnd (extra ++ post) (by simpa using h1), ihb h2⟩
    · refine ⟨mid, [], by simp, by simpa using iha h1, Ere.Matches.cutEnd post ?_⟩
      by_cases he : extra = []
      · simpa [he] using h2
      · exact h2.move_nil (by simp [he]) _
  | alt a b iha ihb =>
    rcases h with h | h | ⟨rfl, h, -⟩
    · exact Or.inl (iha h)
    · exact Or.inr (ihb h)
    · exact h.cutEnd (extra ++ post)
  | star a => exact h.1.cutEnd (extra ++ post)

/-! ### What stands around -/

/-- `^` and a text. -/
def anchored (text : Bytes) : List Ere := .bol :: literal text

theorem matches_anchored {text pre mid post : Bytes} :
    (seq (anchored text)).Matches pre mid post ↔ pre = [] ∧ mid = text := by
  rw [anchored, matches_seq_cons]
  constructor
  · rintro ⟨_, m, rfl, ⟨rfl, rfl⟩, h⟩
    exact ⟨rfl, matches_literal.mp h⟩
  · rintro ⟨rfl, rfl⟩
    exact ⟨[], mid, rfl, ⟨rfl, rfl⟩, matches_literal.mpr rfl⟩

theorem star_oneByte {r : Ere} {p : UInt8 → Prop}
    (hr : ∀ pre mid post, r.Matches pre mid post ↔ ∃ c, mid = [c] ∧ p c) {pre mid post : Bytes} :
    (Ere.star r).Matches pre mid post ↔ ∀ c ∈ mid, p c := by
  constructor
  · intro h
    induction h with
    | nil => simp
    | cons h1 _ ih =>
      obtain ⟨c, rfl, hc⟩ := (hr _ _ _).mp h1
      simpa [hc] using ih
  · intro h
    induction mid generalizing pre with
    | nil => exact .nil _ _
    | cons c mid ih =>
      obtain ⟨hc, hmid⟩ := List.forall_mem_cons.mp h
      have hone : r.Matches pre [c] (mid ++ post) := (hr _ _ _).mpr ⟨c, rfl, hc⟩
      exact .cons hone (ih hmid)

/-- `r+` for an expression of one byte. -/
theorem matches_plus_oneByte {r : Ere} {p : UInt8 → Prop}
    (hr : ∀ pre mid post, r.Matches pre mid post ↔ ∃ c, mid = [c] ∧ p c) {pre mid post : Bytes} :
    (r.rep 1 none).Matches pre mid post ↔ mid ≠ [] ∧ ∀ c ∈ mid, p c := by
  change (seq [r, .star r]).Matches pre mid post ↔ _
  simp only [matches_seq_cons, matches_seq_nil, star_oneByte hr, hr]
  constructor
  · rintro ⟨_, _, rfl, ⟨c, rfl, hc⟩, m, _, rfl, hm, rfl⟩
    exact ⟨by simp, by simpa [hc] using hm⟩
  · rintro ⟨hne, hall⟩
    obtain ⟨c, m, rfl⟩ := List.exists_cons_of_ne_nil hne
    obtain ⟨hc, hm⟩ := List.forall_mem_cons.mp hall
    exact ⟨[c], m, rfl, ⟨c, rfl, hc⟩, m, [], by simp, hm, rfl⟩

/-- `.+`. -/
theorem matches_plus_any {pre mid post : Bytes} :
    (Ere.any.rep 1 none).Matches pre mid post ↔ mid ≠ [] := by
  simpa using matches_plus_oneByte (r := .any) (p := fun _ => True) (by simp [Ere.Matches])

/-- `c?`. -/
theorem matches_opt_chr {c : UInt8} {pre mid post : Bytes} :
    ((Ere.chr c).rep 0 (some 1)).Matches pre mid post ↔ mid = [c] ∨ mid = [] := by
  change (seq [.alt (.chr c) .eps]).Matches pre mid post ↔ _
  simp only [matches_seq_cons, matches_seq_nil, Ere.Matches]
  constructor
  · rintro ⟨m, _, rfl, h, rfl⟩
    simpa using h
  · intro h
    exact ⟨mid, [], by simp, h, rfl⟩

/-- An optional `c` and `$`. -/
def optEnd (c : UInt8) : List Ere := [(Ere.chr c).rep 0 (some 1), .eol]

theorem matches_optEnd {c : UInt8} {pre mid post : Bytes} :
    (seq (optEnd c)).Matches pre mid post ↔ post = [] ∧ (mid = [c] ∨ mid = []) := by
  simp only [optEnd, matches_seq_cons, matches_seq_nil, matches_opt_chr, Ere.Matches]
  constructor
  · rintro ⟨m, _, rfl, h, _, _, rfl, ⟨rfl, hp⟩, rfl⟩
    exact ⟨by simpa using hp, by simpa using h⟩
  · rintro ⟨rfl, h⟩
    exact ⟨mid, [], by simp, h, [], [], rfl, ⟨rfl, rfl⟩, rfl⟩

/-- `c` and `.+`. -/
def field (c : UInt8) : List Ere := [.chr c, Ere.any.rep 1 none]

theorem matches_field {c : UInt8} {pre mid post : Bytes} :
    (seq (field c)).Matches pre mid post ↔ ∃ m, mid = c :: m ∧ m ≠ [] := by
  simp only [field, matches_seq_cons, matches_seq_nil, matches_plus_any, Ere.Matches]
  constructor
  · rintro ⟨_, _, rfl, rfl, m, _, rfl, h, rfl⟩
    exact ⟨m, by simp, h⟩
  · rintro ⟨m, rfl, h⟩
    exact ⟨[c], m, rfl, rfl, m, [], by simp, h, rfl⟩

/-- `c.+` to the end: the optional byte before the end makes no difference. -/
theorem matches_field_optEnd {c d : UInt8} {pre mid post : Bytes} :
    (seq (field c ++ optEnd d)).Matches pre mid post ↔ post = [] ∧ ∃ m, mid = c :: m ∧ m ≠ [] := by
  simp only [matches_seq_append, matches_field, matches_optEnd]
  constructor
  · rintro ⟨_, m', rfl, ⟨m, rfl, hm⟩, hp, -⟩
    exact ⟨hp, m ++ m', by simp, by simp [hm]⟩
  · rintro ⟨rfl, m, rfl, hm⟩
    exact ⟨c :: m, [], by simp, ⟨m, rfl, hm⟩, rfl, Or.inr rfl⟩

/-! ### The alternatives of the larger expression -/

/-- An alternative of the pattern matches `mid` between `pre` and `post`, where what was written in
front of the pattern is joined to its first alternative only, what was written behind it to its last
one only, and nothing to the others. -/
def Regex.Torn (re : Regex) (front back : Bytes → Prop) (b : List Ere) (pre mid post : Bytes) : Prop :=
  ∃ init tail, re = init ++ b :: tail ∧ (seq b).Matches pre mid post ∧
    (init = [] → front pre) ∧ (tail = [] → back post)

theorem Regex.Torn.of_single {b c : List Ere} {front back : Bytes → Prop} {pre mid post : Bytes} :
    Regex.Torn [b] front back c pre mid post → c = b ∧ (seq b).Matches pre mid post ∧ front pre ∧ back post := by
  rintro ⟨init, tail, he, hm, hf, hk⟩
  obtain ⟨rfl, rfl, rfl⟩ : init = [] ∧ c = b ∧ tail = [] := by
    cases init <;> simp_all
  exact ⟨rfl, hm, hf rfl, hk rfl⟩

/-- In front of a pattern, the expression asks for a beginning that satisfies `front`. -/
def Ere.Opens (r : Ere) (front : Bytes → Prop) : Prop :=
  ∀ pre rest, (∃ p q, pre = p ++ q ∧ r.Matches p q rest) ↔ front pre

/-- Behind a pattern, the expression asks for a rest that satisfies `back`. -/
def Ere.Closes (r : Ere) (back : Bytes → Prop) : Prop :=
  ∀ pre post, (∃ q p, post = q ++ p ∧ r.Matches pre q p) ↔ back post

theorem search_seq_append {ps qs : List Ere} {text : Bytes} : (seq (ps ++ qs)).Search text ↔
    ∃ pre x y post, text = pre ++ x ++ y ++ post ∧ (seq ps).Matches pre x (y ++ post) ∧
      (seq qs).Matches (pre ++ x) y post := by
  simp only [Ere.Search, matches_seq_append]
  constructor
  · rintro ⟨pre, _, post, rfl, x, y, rfl, h1, h2⟩
    exact ⟨pre, x, y, post, by simp, h1, h2⟩
  · rintro ⟨pre, x, y, post, rfl, h1, h2⟩
    exact ⟨pre, x ++ y, post, by simp, x, y, rfl, h1, h2⟩

theorem search_front {a b : List Ere} {front : Bytes → Prop} (ha : (seq a).Opens front) {text : Bytes} :
    (seq (a ++ b)).Search text ↔
      ∃ pre mid post, text = pre ++ mid ++ post ∧ (seq b).Matches pre mid post ∧ front pre := by
  rw [search_seq_append]
  constructor
  · rintro ⟨pre, x, y, post, rfl, h1, h2⟩
    exact ⟨pre ++ x, y, post, rfl, h2, (ha _ _).mp ⟨pre, x, rfl, h1⟩⟩
  · rintro ⟨pre', y, post, rfl, h2, hf⟩
    obtain ⟨pre, x, rfl, h1⟩ := (ha pre' (y ++ post)).mpr hf
    exact ⟨pre, x, y, post, rfl, h1, h2⟩

theorem search_back {b c : List Ere} {back : Bytes → Prop} (hc : (seq c).Closes back) {text : Bytes} :
    (seq (b ++ c)).Search text ↔
      ∃ pre mid post, text = pre ++ mid ++ post ∧ (seq b).Matches pre mid post ∧ back post := by
  rw [search_seq_append]
  constructor
  · rintro ⟨pre, x, y, post, rfl, h1, h2⟩
    exact ⟨pre, x, y ++ post, by simp, h1, (hc _ _).mp ⟨y, post, rfl, h2⟩⟩
  · rintro ⟨pre, x, post', rfl, h1, hk⟩
    obtain ⟨y, post, rfl, h2⟩ := (hc (pre ++ x) post').mpr hk
    exact ⟨pre, x, y, post, by simp, h1, h2⟩

section Glued

variable {a c : List Ere} {re : Regex} {front back : Bytes → Prop}

/-- A pattern between other expressions: its first alternative goes with what stands in front, its
last one with what stands behind. -/
theorem search_glue (ha : (seq a).Opens front) (hc : (seq c).Closes back) (hre : re ≠ []) {text : Bytes} :
    Regex.Search (glue [a] (glue re [c])) text ↔
      ∃ b pre mid post, text = pre ++ mid ++ post ∧ re.Torn front back b pre mid post := by
  obtain ⟨bs, d, rfl⟩ := (List.eq_nil_or_concat re).resolve_left hre
  simp only [List.concat_eq_append, glue_concat]
  cases bs with
  | nil =>
    have hg : glue [a] ([] ++ [d ++ c]) = [a ++ (d ++ c)] := rfl
    simp only [hg, Regex.Search, List.mem_singleton, exists_eq_left, search_front ha]
    constructor
    · rintro ⟨pre, _, post, rfl, hm, hf⟩
      obtain ⟨mid, y, rfl, h1, h2⟩ := matches_seq_append.mp hm
      exact ⟨d, pre, mid, y ++ post, by simp, [], [], rfl, h1, fun _ => hf,
        fun _ => (hc _ _).mp ⟨y, post, rfl, h2⟩⟩
    · rintro ⟨b, pre, mid, post, rfl, ht⟩
      obtain ⟨rfl, hm, hf, hb⟩ := ht.of_single
      obtain ⟨y, p, rfl, h2⟩ := (hc (pre ++ mid) post).mpr hb
      exact ⟨pre, mid ++ y, p, by simp, matches_seq_append.mpr ⟨mid, y, rfl, hm, h2⟩, hf⟩
  | cons b bs =>
    have hg : glue [a] (b :: bs ++ [d ++ c]) = (a ++ b) :: (bs ++ [d ++ c]) := rfl
    simp only [hg, Regex.Search, List.mem_cons, List.mem_append, List.not_mem_nil, or_false, or_and_right,
      exists_or, exists_eq_left]
    constructor
    · rintro (h | ⟨e, he, pre, mid, post, rfl, hm⟩ | h)
      · obtain ⟨pre, mid, post, rfl, hm, hf⟩ := (search_front ha).mp h
        exact ⟨b, pre, mid, post, rfl, [], bs ++ [d], rfl, hm, fun _ => hf, fun h => absurd h (by simp)⟩
      · obtain ⟨init, tail, rfl⟩ := List.append_of_mem he
        exact ⟨e, pre, mid, post, rfl, b :: init, tail ++ [d], by simp, hm, fun h => absurd h (by simp),
          fun h => absurd h (by simp)⟩
      · obtain ⟨pre, mid, post, rfl, hm, hb⟩ := (search_back hc).mp h
        exact ⟨d, pre, mid, post, rfl, b :: bs, [], rfl, hm, fun h => absurd h (by simp), fun _ => hb⟩
    · rintro ⟨e, pre, mid, post, rfl, init, tail, he, hm, hf, hb⟩
      cases init with
      | nil =>
        obtain ⟨rfl, rfl⟩ := List.cons.inj he
        exact Or.inl ((search_front ha).mpr ⟨pre, mid, post, rfl, hm, hf rfl⟩)
      | cons b' init =>
        obtain ⟨rfl, hrest⟩ := List.cons.inj he
        rcases List.eq_nil_or_concat tail with rfl | ⟨tail, f, rfl⟩
        · obtain ⟨rfl, hlast⟩ := List.append_inj' hrest rfl
          obtain rfl := List.singleton_inj.mp hlast
          exact Or.inr (Or.inr ((search_back hc).mpr ⟨pre, mid, post, rfl, hm, hb rfl⟩))
        · have he' : bs ++ [d] = (init ++ e :: tail) ++ [f] := by simpa using hrest
          obtain ⟨rfl, -⟩ := List.append_inj' he' rfl
          exact Or.inr (Or.inl ⟨e, by simp, pre, mid, post, rfl, hm⟩)

/-- An alternative that matches between what was written around the pattern is found, torn or not. -/
theorem search_glue_of_mem (ha : (seq a).Opens front) (hc : (seq c).Closes back) {b : List Ere} (hb : b ∈ re)
    {pre mid post : Bytes} (hm : (seq b).Matches pre mid post) (hf : front pre) (hk : back post) :
    Regex.Search (glue [a] (glue re [c])) (pre ++ mid ++ post) := by
  obtain ⟨init, tail, rfl⟩ := List.append_of_mem hb
  exact (search_glue ha hc (by simp)).mpr
    ⟨b, pre, mid, post, rfl, init, tail, rfl, hm, fun _ => hf, fun _ => hk⟩

/-- An alternative of the pattern matches astray: not in its place, also when all that the match can
spare is left out of it. The place says what may stand in front of a match, in it and behind it. -/
def Regex.Astray (re : Regex) (front back : Bytes → Prop) (place : List Ere → Bytes → Bytes → Bytes → Prop)
    (text : Bytes) : Prop :=
  ∃ b pre mid post, text = pre ++ mid ++ post ∧ re.Torn front back b pre mid post ∧
    ¬ ∃ m extra, mid = m ++ extra ∧ (seq b).Spares pre m extra post ∧ place b pre m (extra ++ post)

variable {place : List Ere → Bytes → Bytes → Bytes → Prop} {text : Bytes}

/-- A match astray is a match of the larger expression. -/
theorem search_glue_of_astray (ha : (seq a).Opens front) (hc : (seq c).Closes back) (hre : re ≠ [])
    (h : re.Astray front back place text) : Regex.Search (glue [a] (glue re [c])) text := by
  obtain ⟨b, pre, mid, post, rfl, ht, -⟩ := h
  exact (search_glue ha hc hre).mpr ⟨b, pre, mid, post, rfl, ht⟩

/-- Where no alternative matches astray, one of them matches in its place. -/
theorem placed_of_search_glue (ha : (seq a).Opens front) (hc : (seq c).Closes back) (hre : re ≠ [])
    (h : Regex.Search (glue [a] (glue re [c])) text) (hno : ¬ re.Astray front back place text) :
    ∃ b ∈ re, ∃ pre m rest, text = pre ++ m ++ rest ∧ place b pre m rest ∧ (seq b).Matches pre m [] := by
  obtain ⟨b, pre, mid, post, rfl, ht⟩ := (search_glue ha hc hre).mp h
  have hplaced : ∃ m extra, mid = m ++ extra ∧ (seq b).Spares pre m extra post ∧ place b pre m (extra ++ post) := by
    by_contra hn
    exact hno ⟨b, pre, mid, post, rfl, ht, hn⟩
  obtain ⟨m, extra, rfl, hs, hp⟩ := hplaced
  obtain ⟨init, tail, rfl, -⟩ := ht
  exact ⟨b, by simp, pre, m, extra ++ post, by simp, hp, hs.matches⟩

end Glued

theorem spares_seq_append {ps qs : List Ere} {pre m₁ m₂ extra post : Bytes}
    (h1 : (seq ps).Matches pre m₁ (m₂ ++ extra ++ post)) (h2 : (seq qs).Spares (pre ++ m₁) m₂ extra post) :
    (seq (ps ++ qs)).Spares pre (m₁ ++ m₂) extra post := by
  induction ps generalizing pre m₁ with
  | nil =>
    obtain rfl := matches_seq_nil.mp h1
    simpa using h2
  | cons p ps ih =>
    obtain ⟨x, y, rfl, hx, hy⟩ := matches_seq_cons.mp h1
    have hs : (seq (ps ++ qs)).Spares (pre ++ x) (y ++ m₂) extra post := ih (by simpa using hy) (by simpa using h2)
    exact Or.inl ⟨x, y ++ m₂, by simp, by simpa using hx, hs⟩

/-- `.*` can spare anything. -/
theorem spares_star_any {pre mid extra post : Bytes} :
    (seq [Ere.any.rep 0 none]).Spares pre mid extra post := by
  have hall : ∀ pre mid post, (Ere.star .any).Matches pre mid post := by
    intro pre mid post
    exact (star_oneByte (r := .any) (p := fun _ => True) (by simp [Ere.Matches])).mpr fun _ _ => trivial
  exact Or.inr ⟨Or.inr ⟨⟨hall _ _ _, hall _ _ _⟩, rfl⟩, rfl⟩

end Posix
