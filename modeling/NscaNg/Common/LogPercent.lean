/-
# The percent signs of a log message

`vlog()` puts a single percent sign into `out_fmt` for `%%`, and `vsnprintf()` takes it for the start of a
conversion. So the message is what the format says exactly for the formats without `%%` of which the loop
loses no byte (`vlog_text_iff`). That any other format can be told from its message is seen by counting:
`vsnprintf()` prints no more percent signs than the format asks for, and as many only if each `%%` stands in
front of a conversion, which is then printed as it is written (`kept_of_tokenize`).
-/
import NscaNg.Common.LogFormat
import NscaNg.Posix.PrintfUniform

namespace NscaNg.Common

open Posix Memory
open Posix.Printf (Piece Conversion Arg Layout Uniform tokenize tokenizeFrom expand vprintf isModifier)

variable {F : Type}

/-- For a format with these tokens and any arguments, `vlog()` makes the text that the format stands for, with
the text of the error for each `%m` and a percent sign for each `%%`. -/
def TextPreserved (real : Layout → UInt8 → F → Bytes) (err inFmt : Bytes) (ts : List Piece) : Prop :=
  ∀ args text, expand real (some err) ts args = some text → vprintf real (outFmt err inFmt) args = some text

/-- The tokens with the text of the error written out. -/
def plain (err : Bytes) (ts : List Piece) : List Piece :=
  ts.flatMap fun t => if t = .errno then err.map .literal else [t]

/-- Tokens that print the same wherever they are read. -/
def Plain (t : Piece) : Prop := t.Proper ∧ t ≠ .errno

/-- What `vsnprintf()` reads if each `%%` is followed by a conversion. -/
def broken : List Piece → List Piece
  | [] => []
  | .percent :: .conversion c :: ts => .percent :: ((c.mods ++ [c.letter]).map .literal ++ broken ts)
  | t :: ts => t :: broken ts

/-- The conversions that follow a `%%`. -/
def destroyed : List Piece → List Conversion
  | [] => []
  | .percent :: .conversion c :: ts => c :: destroyed ts
  | _ :: ts => destroyed ts

/-- As many percent signs are read as there are in the tokens. -/
def Kept (qs ts : List Piece) : Prop := ts = broken qs ∧ (destroyed qs).length = qs.count .percent

/-! ### Writing the error out -/

theorem rewritten_plain (err : Bytes) (ts : List Piece) : rewritten [] (plain err ts) = rewritten err ts := by
  have hliterals : ∀ text : Bytes, rewritten [] (text.map Piece.literal) = text := by
    intro text
    rw [rewritten, List.flatMap_map]
    exact List.flatMap_singleton' text
  induction ts with
  | nil => rfl
  | cons t ts ih =>
    rw [plain, List.flatMap_cons, rewritten, List.flatMap_append, rewritten, List.flatMap_cons]
    congr 1
    by_cases ht : t = .errno
    · rw [if_pos ht, ht]
      exact hliterals err
    · rw [if_neg ht]
      cases t with
      | errno => exact absurd rfl ht
      | literal c => rfl
      | percent => rfl
      | conversion c => exact List.append_nil _

theorem plain_of_tokenize {err inFmt : Bytes} {ts : List Piece} (herr : ch '%' ∉ err)
    (hts : tokenize inFmt = some ts) : ∀ t ∈ plain err ts, Plain t := by
  intro t ht
  obtain ⟨s, hs, ht⟩ := List.mem_flatMap.mp ht
  split at ht
  · obtain ⟨c, hc, rfl⟩ := List.mem_map.mp ht
    exact ⟨fun h => herr (h ▸ hc), fun h => nomatch h⟩
  · next hne =>
    rw [List.mem_singleton.mp ht]
    exact ⟨Printf.proper_tokenizeFrom hts s hs, hne⟩

theorem count_literals (text : Bytes) : (text.map Piece.literal).count .percent = 0 := by
  rw [List.count_eq_zero]
  intro h
  obtain ⟨c, -, hc⟩ := List.mem_map.mp h
  cases hc

theorem count_plain (err : Bytes) (ts : List Piece) : (plain err ts).count .percent = ts.count .percent := by
  induction ts with
  | nil => rfl
  | cons t ts ih =>
    rw [plain, List.flatMap_cons, List.count_append, List.count_cons, Nat.add_comm]
    congr 1
    by_cases ht : t = .errno
    · rw [if_pos ht, count_literals, ht]
      rfl
    · rw [if_neg ht, List.count_singleton]

theorem image_literals (u : Uniform F) (real : Layout → UInt8 → F → Bytes) (err text : Bytes) :
    u.image real err (text.map Piece.literal) = text := by
  rw [Uniform.image, List.flatMap_map]
  exact List.flatMap_singleton' text

theorem image_plain (u : Uniform F) (real : Layout → UInt8 → F → Bytes) (err : Bytes) (ts : List Piece) :
    u.image real err (plain err ts) = u.image real err ts := by
  induction ts with
  | nil => rfl
  | cons t ts ih =>
    rw [plain, List.flatMap_cons, Uniform.image, List.flatMap_append, Uniform.image, List.flatMap_cons]
    congr 1
    by_cases ht : t = .errno
    · rw [if_pos ht, ht]
      exact image_literals u real err err
    · rw [if_neg ht]
      exact List.append_nil _

theorem expand_plain (real : Layout → UInt8 → F → Bytes) (err : Bytes) (ts : List Piece) (args : List (Arg F)) :
    expand real none (plain err ts) args = expand real (some err) ts args := by
  have hliterals : ∀ (text : Bytes) (rest : List Piece) (args : List (Arg F)),
      expand real none (text.map Piece.literal ++ rest) args = (expand real none rest args).map (text ++ ·) := by
    intro text rest args
    induction text with
    | nil => simp
    | cons c text ih =>
      rw [List.map_cons, List.cons_append, expand, ih, Option.map_map]
      rfl
  induction ts generalizing args with
  | nil => rfl
  | cons t ts ih =>
    rw [plain, List.flatMap_cons]
    cases t with
    | errno =>
      rw [if_pos rfl, hliterals]
      exact congrArg (Option.map (err ++ ·)) (ih args)
    | literal c => exact congrArg (Option.map (c :: ·)) (ih args)
    | percent => exact congrArg (Option.map (ch '%' :: ·)) (ih args)
    | conversion c =>
      show (c.print real args).bind _ = (c.print real args).bind _
      congr 1
      funext r
      exact congrArg (Option.map (r.1 ++ ·)) (ih r.2)

/-! ### What `vsnprintf()` reads -/

theorem rewritten_cons (err : Bytes) (t : Piece) (ts : List Piece) :
    rewritten err (t :: ts) = rewritePiece err t ++ rewritten err ts := rfl

theorem broken_cons {t : Piece} (h : t ≠ .percent) (ts : List Piece) : broken (t :: ts) = t :: broken ts := by
  cases t with
  | percent => exact absurd rfl h
  | literal c => rfl
  | errno => rfl
  | conversion c => rfl

theorem destroyed_cons {t : Piece} (h : t ≠ .percent) (ts : List Piece) : destroyed (t :: ts) = destroyed ts := by
  cases t with
  | percent => exact absurd rfl h
  | literal c => rfl
  | errno => rfl
  | conversion c => rfl

theorem Kept.cons {qs ts : List Piece} (h : Kept qs ts) {t : Piece} (ht : t ≠ .percent) : Kept (t :: qs) (t :: ts) :=
  ⟨by rw [broken_cons ht, h.1], by rw [destroyed_cons ht, h.2, List.count_cons_of_ne ht]⟩

/-- Behind a percent sign and modifiers, a scan that meets a percent sign has read a `%%`. -/
theorem tokenizeFrom_percent {mods s : Bytes} {ts : List Piece} (h : tokenizeFrom (some mods) (ch '%' :: s) = some ts) :
    mods = [] ∧ ∃ rest, tokenizeFrom none s = some rest ∧ ts = .percent :: rest := by
  rw [tokenizeFrom, if_neg (by decide)] at h
  obtain ⟨t, ht, hmap⟩ := Option.bind_eq_some_iff.mp h
  obtain ⟨rest, hrest, rfl⟩ := Option.map_eq_some_iff.mp hmap
  obtain ⟨hmods, rfl⟩ := Printf.pieceOf_percent ht
  exact ⟨hmods, rest, hrest, rfl⟩

/-- **No more percent signs are read than there are.** As many are read only if the conversions behind them are
broken; with a percent sign in front there may be one more. -/
theorem kept_of_tokenize {qs : List Piece} (hqs : ∀ t ∈ qs, Plain t) :
    (∀ ts, tokenizeFrom none (rewritten [] qs) = some ts → ts.count .percent < qs.count .percent ∨
      ts.count .percent = qs.count .percent ∧ Kept qs ts) ∧
    ∀ mods ts, tokenizeFrom (some mods) (rewritten [] qs) = some ts → ts.count .percent ≤ qs.count .percent ∨
      ts.count .percent = qs.count .percent + 1 ∧ mods = [] ∧ Kept (.percent :: qs) ts := by
  induction qs with
  | nil =>
    refine ⟨fun ts hts => ?_, fun mods ts hts => ?_⟩
    · rw [← Option.some.inj hts]
      exact Or.inr ⟨rfl, rfl, rfl⟩
    · cases hts
  | cons q qs ih =>
    obtain ⟨⟨hproper, herrno⟩, hqs⟩ := List.forall_mem_cons.mp hqs
    obtain ⟨hnormal, hpercent⟩ := ih hqs
    -- a token that is read as it is
    have hread : ∀ ts, q ≠ .percent → (∃ rest, tokenizeFrom none (rewritten [] qs) = some rest ∧ ts = q :: rest) →
        ts.count .percent < (q :: qs).count .percent ∨
          ts.count .percent = (q :: qs).count .percent ∧ Kept (q :: qs) ts := by
      rintro ts hq ⟨rest, hrest, rfl⟩
      rw [List.count_cons_of_ne hq, List.count_cons_of_ne hq]
      exact (hnormal rest hrest).imp_right fun h => ⟨h.1, h.2.cons hq⟩
    cases q with
    | errno => exact absurd rfl herrno
    | literal c =>
      have hc : c ≠ ch '%' := hproper
      have hq : Piece.literal c ≠ .percent := by simp
      rw [List.count_cons_of_ne hq] at hread ⊢
      refine ⟨fun ts hts => hread ts hq ?_, fun mods ts hts => Or.inl ?_⟩
      · rw [rewritten_cons, show rewritePiece [] (.literal c) = [c] from rfl, List.singleton_append, tokenizeFrom,
          if_neg hc] at hts
        obtain ⟨rest, hrest, rfl⟩ := Option.map_eq_some_iff.mp hts
        exact ⟨rest, hrest, rfl⟩
      · rw [rewritten_cons, show rewritePiece [] (.literal c) = [c] from rfl, List.singleton_append,
          tokenizeFrom] at hts
        split at hts
        · rcases hpercent _ ts hts with h | ⟨-, h, -⟩
          · exact h
          · exact absurd h (by simp)
        · obtain ⟨t, ht, hmap⟩ := Option.bind_eq_some_iff.mp hts
          obtain ⟨rest, hrest, rfl⟩ := Option.map_eq_some_iff.mp hmap
          rw [List.count_cons_of_ne (Printf.ne_percent_of_pieceOf hc ht)]
          rcases hnormal rest hrest with h | ⟨h, -⟩
          · exact h.le
          · exact h.le
    | percent =>
      rw [List.count_cons_self]
      refine ⟨fun ts hts => ?_, fun mods ts hts => Or.inl ?_⟩
      · rw [rewritten_cons, show rewritePiece [] .percent = [ch '%'] from rfl, List.singleton_append, tokenizeFrom,
          if_pos rfl] at hts
        exact (hpercent [] ts hts).imp Nat.lt_succ_of_le fun h => ⟨h.1, h.2.2⟩
      · obtain ⟨-, rest, hrest, rfl⟩ := tokenizeFrom_percent hts
        rw [List.count_cons_self]
        rcases hnormal rest hrest with h | ⟨h, -⟩
        · omega
        · omega
    | conversion c =>
      have hq : Piece.conversion c ≠ .percent := by simp
      rw [List.count_cons_of_ne hq] at hread ⊢
      refine ⟨fun ts hts => hread ts hq ?_, fun mods ts hts => ?_⟩
      · rw [rewritten_cons, rewritePiece, Piece.source, Printf.tokenizeFrom_conversion] at hts
        obtain ⟨rest, hrest, rfl⟩ := Option.map_eq_some_iff.mp hts
        exact ⟨rest, hrest, rfl⟩
      · have hform : rewritten [] (.conversion c :: qs) = ch '%' :: (c.mods ++ [c.letter] ++ rewritten [] qs) := rfl
        rw [hform] at hts
        obtain ⟨hmods, rest, hrest, rfl⟩ := tokenizeFrom_percent hts
        rw [Printf.tokenizeFrom_literals (percent_notMem_mods c)] at hrest
        obtain ⟨tail, htail, rfl⟩ := Option.map_eq_some_iff.mp hrest
        rw [List.count_cons_self, List.count_append, count_literals, Nat.zero_add]
        rcases hnormal tail htail with h | ⟨h, hkept⟩
        · exact Or.inl h
        · refine Or.inr ⟨by omega, hmods, ?_, ?_⟩
          · rw [broken, hkept.1]
          · rw [destroyed, List.length_cons, hkept.2, List.count_cons_self, List.count_cons_of_ne hq]

/-- Without a `%%` the rewritten form is read as the tokens it was made of. -/
theorem tokenize_rewritten {qs : List Piece} (hqs : ∀ t ∈ qs, Plain t) (hpercent : .percent ∉ qs) :
    tokenize (rewritten [] qs) = some qs := by
  induction qs with
  | nil => rfl
  | cons q qs ih =>
    obtain ⟨⟨hproper, herrno⟩, hqs⟩ := List.forall_mem_cons.mp hqs
    rw [List.mem_cons, not_or] at hpercent
    have hrest := ih hqs hpercent.2
    cases q with
    | errno => exact absurd rfl herrno
    | percent => exact absurd rfl hpercent.1
    | literal c =>
      rw [rewritten_cons, rewritePiece, List.singleton_append, tokenize, tokenizeFrom, if_neg hproper]
      exact congrArg (Option.map _) hrest
    | conversion c =>
      rw [rewritten_cons, rewritePiece, Piece.source, tokenize, Printf.tokenizeFrom_conversion]
      exact congrArg (Option.map _) hrest

/-! ### What it prints -/

/-- The text of a conversion in the format. -/
def form (c : Conversion) : Bytes := c.mods ++ [c.letter]

theorem letter_mem_form (c : Conversion) : c.letter ∈ form c := List.mem_append_right _ (List.mem_singleton.mpr rfl)

theorem image_append (u : Uniform F) (real : Layout → UInt8 → F → Bytes) (err : Bytes) (ts ts' : List Piece) :
    u.image real err (ts ++ ts') = u.image real err ts ++ u.image real err ts' := List.flatMap_append

/-- A broken conversion is printed as it is written in place of its text. -/
theorem perm_broken (u : Uniform F) (real : Layout → UInt8 → F → Bytes) (err : Bytes) (qs : List Piece) :
    (u.image real err (broken qs) ++ (destroyed qs).flatMap (u.text real)).Perm
      (u.image real err qs ++ (destroyed qs).flatMap form) := by
  rw [List.perm_iff_count]
  intro b
  fun_induction broken qs with
  | case1 => rfl
  | case2 c qs ih =>
    have hbroken : u.image real err (.percent :: ((c.mods ++ [c.letter]).map .literal ++ broken qs)) =
        ch '%' :: (form c ++ u.image real err (broken qs)) := by
      rw [← image_literals u real err (form c), ← image_append]
      rfl
    have hqs : u.image real err (.percent :: .conversion c :: qs) =
        ch '%' :: (u.text real c ++ u.image real err qs) := rfl
    rw [hbroken, hqs, destroyed, List.flatMap_cons, List.flatMap_cons]
    simp only [List.count_append, List.count_cons] at ih ⊢
    omega
  | case3 t qs hne ih =>
    have hdestroyed : destroyed (t :: qs) = destroyed qs := by
      cases t with
      | percent =>
        cases qs with
        | nil => rfl
        | cons q qs =>
          cases q with
          | conversion c => exact absurd rfl (hne c qs rfl)
          | literal c => rfl
          | percent => rfl
          | errno => rfl
      | literal c => rfl
      | errno => rfl
      | conversion c => rfl
    have hcons : ∀ ts, u.image real err (t :: ts) = u.pieceText real err t ++ u.image real err ts := fun _ => rfl
    rw [hdestroyed, hcons, hcons]
    simp only [List.count_append] at ih ⊢
    omega

/-- The percent signs of a text of which the conversions print none. -/
theorem count_image {u : Uniform F} {real : Layout → UInt8 → F → Bytes} {err : Bytes} {ts : List Piece}
    (herr : ch '%' ∉ err) (hts : ∀ t ∈ ts, t.Proper) (hu : ∀ c, ch '%' ∉ u.text real c) :
    (u.image real err ts).count (ch '%') = ts.count .percent := by
  induction ts with
  | nil => rfl
  | cons t ts ih =>
    obtain ⟨ht, hts⟩ := List.forall_mem_cons.mp hts
    have hcons : u.image real err (t :: ts) = u.pieceText real err t ++ u.image real err ts := rfl
    rw [hcons, List.count_append, ih hts, List.count_cons, Nat.add_comm]
    congr 1
    cases t with
    | percent => rfl
    | literal c => exact List.count_eq_zero.mpr fun h => ht (List.mem_singleton.mp h).symm
    | errno => exact List.count_eq_zero.mpr herr
    | conversion c => exact List.count_eq_zero.mpr (hu c)

section Preserved

variable {real : Layout → UInt8 → F → Bytes} {err inFmt : Bytes} {ts : List Piece}

/-- If the text is preserved then `out_fmt` prints it for the same arguments of each type. -/
theorem TextPreserved.images (h : TextPreserved real err inFmt ts) :
    ∃ ts', tokenize (outFmt err inFmt) = some ts' ∧
      ∀ u : Uniform F, u.image real err ts' = u.image real err ts := by
  have hprint : ∀ u : Uniform F, ∃ ts', tokenize (outFmt err inFmt) = some ts' ∧
      u.image real err ts' = u.image real err ts := by
    intro u
    obtain ⟨ts', hts', htext⟩ := Option.bind_eq_some_iff.mp (h _ _ (Printf.expand_uniform u real err ts))
    exact ⟨ts', hts', (Printf.expand_of_has (Printf.has_pieceArgs u ts) htext).symm⟩
  obtain ⟨ts', hts', -⟩ := hprint ⟨0, .nan false, [], 0⟩
  refine ⟨ts', hts', fun u => ?_⟩
  obtain ⟨ts'', hts'', himage⟩ := hprint u
  rw [hts'] at hts''
  rw [Option.some.inj hts'']
  exact himage

/-- Then `vsnprintf()` reads as many percent signs as the format has. -/
theorem TextPreserved.count (h : TextPreserved real err inFmt ts) (herr : ch '%' ∉ err)
    (hts : tokenize inFmt = some ts) {ts' : List Piece} (hts' : tokenize (outFmt err inFmt) = some ts') :
    ts'.count .percent = ts.count .percent := by
  obtain ⟨ts'', hts'', himages⟩ := h.images
  rw [hts'] at hts''
  obtain rfl := Option.some.inj hts''
  have hu : ∀ c, ch '%' ∉ (Printf.blank F (ch 's')).text real c :=
    Printf.notMem_text_blank (by decide) (Or.inr rfl)
  rw [← count_image herr (Printf.proper_tokenizeFrom hts') hu, himages,
    count_image herr (Printf.proper_tokenizeFrom hts) hu]

/-- If nothing is lost there is no `%%`: the first conversion that one breaks can be told by its letter. -/
theorem TextPreserved.percent_notMem (h : TextPreserved real err inFmt ts) (herr : ch '%' ∉ err)
    (hts : tokenize inFmt = some ts) (hout : outFmt err inFmt = rewritten err ts) : .percent ∉ ts := by
  obtain ⟨ts', hts', himages⟩ := h.images
  have hcount := h.count herr hts hts'
  rw [hout, ← rewritten_plain] at hts'
  rw [← count_plain err ts] at hcount
  rcases (kept_of_tokenize (plain_of_tokenize herr hts)).1 ts' hts' with hlt | ⟨-, hbroken, hdestroyed⟩
  · omega
  · have hperm : ∀ u : Uniform F, ((destroyed (plain err ts)).flatMap (u.text real)).Perm
        ((destroyed (plain err ts)).flatMap form) := by
      intro u
      have hperm := perm_broken u real err (plain err ts)
      rw [← hbroken, himages, ← image_plain] at hperm
      exact (List.perm_append_left_iff _).mp hperm
    cases hd : destroyed (plain err ts) with
    | nil =>
      rw [hd, List.length_nil, count_plain] at hdestroyed
      exact List.count_eq_zero.mp hdestroyed.symm
    | cons c rest =>
      have hmem : c.letter ∈ (destroyed (plain err ts)).flatMap form :=
        List.mem_flatMap.mpr ⟨c, hd ▸ List.mem_cons_self, letter_mem_form c⟩
      obtain ⟨d, -, hletter⟩ := List.mem_flatMap.mp ((hperm (Printf.blank F c.letter)).mem_iff.mpr hmem)
      exact absurd hletter (Printf.notMem_text_blank c.letter_mem (Or.inl rfl) d)

end Preserved

/-! ### The byte that is lost -/

/-- A byte behind a format stands for itself. -/
theorem tokenizeFrom_snoc {state : Option Bytes} {s : Bytes} {ts : List Piece} (h : tokenizeFrom state s = some ts)
    {b : UInt8} (hb : b ≠ ch '%') : tokenizeFrom state (s ++ [b]) = some (ts ++ [.literal b]) := by
  fun_induction tokenizeFrom state s generalizing ts with
  | case1 =>
    rw [← Option.some.inj h, List.nil_append, tokenizeFrom, if_neg hb]
    rfl
  | case2 => cases h
  | case3 s ih =>
    rw [List.cons_append, tokenizeFrom, if_pos rfl]
    exact ih h
  | case4 c s hc ih =>
    obtain ⟨rest, hrest, rfl⟩ := Option.map_eq_some_iff.mp h
    rw [List.cons_append, tokenizeFrom, if_neg hc, ih hrest]
    rfl
  | case5 mods c s hc ih =>
    rw [List.cons_append, tokenizeFrom, if_pos hc]
    exact ih h
  | case6 mods c s hc ih =>
    obtain ⟨t, ht, hmap⟩ := Option.bind_eq_some_iff.mp h
    obtain ⟨rest, hrest, rfl⟩ := Option.map_eq_some_iff.mp hmap
    rw [List.cons_append, tokenizeFrom, if_neg hc, ht, Option.bind_some, ih hrest]
    rfl

/-- Only a `%%` ends in a percent sign. -/
theorem eq_snoc_of_rewritten {qs : List Piece} (hqs : ∀ t ∈ qs, Plain t) {s : Bytes}
    (h : s ++ [ch '%'] = rewritten [] qs) : ∃ front, qs = front ++ [.percent] ∧ s = rewritten [] front := by
  rcases List.eq_nil_or_concat qs with rfl | ⟨front, q, rfl⟩
  · exact absurd h (by simp [rewritten])
  · rw [List.concat_eq_append] at h hqs ⊢
    rw [rewritten, List.flatMap_append, List.flatMap_singleton] at h
    obtain ⟨hproper, herrno⟩ := hqs q (List.mem_append_right _ (List.mem_singleton.mpr rfl))
    cases q with
    | errno => exact absurd rfl herrno
    | literal c =>
      obtain ⟨-, hc⟩ := List.append_inj' h rfl
      exact absurd (List.singleton_inj.mp hc).symm hproper
    | percent => exact ⟨front, rfl, (List.append_inj' h rfl).1⟩
    | conversion c =>
      rw [rewritePiece, Piece.source, ← List.cons_append, ← List.append_assoc] at h
      obtain ⟨-, hc⟩ := List.append_inj' h rfl
      exact absurd (List.singleton_inj.mp hc).symm (Printf.ne_percent_of_mem_letters _ c.letter_mem)

theorem length_le_count {cs : List Conversion} {b : UInt8} (h : ∀ c ∈ cs, b ∈ form c) :
    cs.length ≤ (cs.flatMap form).count b := by
  induction cs with
  | nil => exact Nat.zero_le _
  | cons c cs ih =>
    obtain ⟨hc, hcs⟩ := List.forall_mem_cons.mp h
    have hone : 0 < (form c).count b := List.count_pos_iff.mpr hc
    have hrest := ih hcs
    rw [List.length_cons, List.flatMap_cons, List.count_append]
    omega

/-- If a byte and what conversions print are always the bytes they are written with, then there is one
conversion, and the byte is its letter. -/
theorem eq_singleton_of_perm {real : Layout → UInt8 → F → Bytes} {cs : List Conversion} {b : UInt8}
    (h : ∀ u : Uniform F, (b :: cs.flatMap (u.text real)).Perm (cs.flatMap form)) : ∃ c, cs = [c] ∧ c.letter = b := by
  have hblank : ∀ letter ∈ Printf.letters, letter ∉ cs.flatMap ((Printf.blank F letter).text real) := by
    intro letter hletter hmem
    obtain ⟨c, -, hc⟩ := List.mem_flatMap.mp hmem
    exact Printf.notMem_text_blank hletter (Or.inl rfl) c hc
  have hletter : ∀ c ∈ cs, c.letter = b := by
    intro c hc
    have hmem : c.letter ∈ cs.flatMap form := List.mem_flatMap.mpr ⟨c, hc, letter_mem_form c⟩
    rcases List.mem_cons.mp ((h (Printf.blank F c.letter)).mem_iff.mpr hmem) with hb | hmem
    · exact hb
    · exact absurd hmem (hblank _ c.letter_mem)
  cases cs with
  | nil => exact absurd (h ⟨0, .nan false, [], 0⟩).length_eq (by simp)
  | cons c cs =>
    have hc : c.letter = b := hletter c List.mem_cons_self
    have hcount := (h (Printf.blank F b)).count_eq b
    have hlength := length_le_count fun d hd => hletter d hd ▸ letter_mem_form d
    rw [List.count_cons_self, List.count_eq_zero.mpr (hblank b (hc ▸ c.letter_mem))] at hcount
    rw [← hcount, List.length_cons] at hlength
    refine ⟨c, ?_, hc⟩
    rw [List.length_eq_zero_iff.mp (by omega : cs.length = 0)]

section Preserved

variable {real : Layout → UInt8 → F → Bytes} {err inFmt : Bytes} {ts : List Piece}

/-- **A byte that is lost is missed**: the text is not preserved. -/
theorem TextPreserved.not_lost (h : TextPreserved real err inFmt ts) (herr : ch '%' ∉ err)
    (hts : tokenize inFmt = some ts) (b : UInt8) : outFmt err inFmt ++ [b] ≠ rewritten err ts := by
  intro hout
  obtain ⟨ts', hts', himages⟩ := h.images
  have hcount := h.count herr hts hts'
  have hplain := plain_of_tokenize herr hts
  rw [← rewritten_plain] at hout
  rw [← count_plain err ts] at hcount
  by_cases hb : b = ch '%'
  · rw [hb] at hout
    obtain ⟨front, hfront, hout⟩ := eq_snoc_of_rewritten hplain hout
    rw [hfront] at hplain hcount
    rw [hout] at hts'
    rw [List.count_append, List.count_singleton_self] at hcount
    rcases (kept_of_tokenize fun t ht => hplain t (List.mem_append_left _ ht)).1 ts' hts' with hlt | ⟨heq, -⟩
    · omega
    · omega
  · have hread := tokenizeFrom_snoc hts' hb
    rw [hout] at hread
    rcases (kept_of_tokenize hplain).1 _ hread with hlt | ⟨-, hbroken, -⟩
    · rw [List.count_append, List.count_singleton, if_neg (by simp)] at hlt
      omega
    · have hperm : ∀ u : Uniform F, (b :: (destroyed (plain err ts)).flatMap (u.text real)).Perm
          ((destroyed (plain err ts)).flatMap form) := by
        intro u
        have hperm := perm_broken u real err (plain err ts)
        rw [← hbroken, image_append, himages, ← image_plain, List.append_assoc] at hperm
        exact (List.perm_append_left_iff _).mp hperm
      obtain ⟨c, hc, hletter⟩ := eq_singleton_of_perm hperm
      obtain ⟨u, hu⟩ := Printf.exists_not_perm real c
      have hperm := hperm u
      rw [hc, List.flatMap_singleton, List.flatMap_singleton, form, hletter] at hperm
      have hcons : (b :: c.mods).Perm (c.mods ++ [b]) := (List.perm_append_singleton b c.mods).symm
      exact hu ((List.perm_cons b).mp (hcons.trans hperm.symm))

/-- **`vlog()` makes the text of a format** exactly if the format has no `%%` and the loop loses no byte of it. -/
theorem textPreserved_iff (herr : ch '%' ∉ err) (hts : tokenize inFmt = some ts)
    (hfits : (rewritten err ts).length < 512) :
    TextPreserved real err inFmt ts ↔ .percent ∉ ts ∧ ¬ LastByteAlone err ts := by
  obtain ⟨hwhole, hlost⟩ := outFmt_eq hts hfits
  constructor
  · intro h
    have halone : ¬ LastByteAlone err ts := fun halone => by
      obtain ⟨b, hb⟩ := hlost halone
      exact h.not_lost herr hts b hb
    exact ⟨h.percent_notMem herr hts (hwhole halone), halone⟩
  · rintro ⟨hpercent, halone⟩ args text htext
    have hnot : .percent ∉ plain err ts := by
      rw [← List.count_eq_zero, count_plain, List.count_eq_zero]
      exact hpercent
    rw [vprintf, hwhole halone, ← rewritten_plain, tokenize_rewritten (plain_of_tokenize herr hts) hnot,
      Option.bind_some, expand_plain, htext]

end Preserved

/-- **`vlog()`**: whatever the format is, its stores stay inside the two buffers and leave a string in each. If
the format is one of `printf()`, the text of the error has no percent sign and the rewritten form fits, then
the text is the one the format stands for, for all arguments, exactly if the format has no `%%` and no last
byte is lost. -/
theorem vlog_text_iff (real : Layout → UInt8 → F → Bytes) (err inFmt : Bytes) :
    VlogSafe err inFmt ∧ ∀ ts, tokenize inFmt = some ts → ch '%' ∉ err → (rewritten err ts).length < 512 →
      (TextPreserved real err inFmt ts ↔ .percent ∉ ts ∧ ¬ LastByteAlone err ts) :=
  ⟨vlog_safe err inFmt, fun _ hts herr hfits => textPreserved_iff herr hts hfits⟩

/-- What `%f` prints for a whole number. -/
def printWhole (l : Layout) (_ : UInt8) (n : ℕ) : Bytes := l.number (l.sign false) (decimal n ++ ascii ".000000")

/-- The message of the server for a command file that cannot be opened. -/
theorem vlog_text_open :
    ∃ ts, tokenize (ascii "Cannot open %s: %m") = some ts ∧
      TextPreserved printWhole (ascii "No such file or directory") (ascii "Cannot open %s: %m") ts := by
  let ts : List Piece := (ascii "Cannot open ").map .literal ++
    .conversion ⟨[], ch 's', List.forall_mem_nil _, by decide, by decide⟩ :: ((ascii ": ").map .literal ++ [.errno])
  have hts : tokenize (ascii "Cannot open %s: %m") = some ts := by decide +kernel
  have hcond : .percent ∉ ts ∧ ¬ LastByteAlone (ascii "No such file or directory") ts := by decide +kernel
  exact ⟨ts, hts, ((vlog_text_iff printWhole _ _).2 ts hts (by decide +kernel) (by decide +kernel)).mpr hcond⟩

/-- `%%%d` stands for a percent sign and a number, but the number is not printed. -/
theorem not_vlog_text :
    ¬ ∀ (err inFmt : Bytes) (ts : List Piece), tokenize inFmt = some ts → ch '%' ∉ err →
      (rewritten err ts).length < 512 → TextPreserved printWhole err inFmt ts := by
  intro h
  have htext := h (ascii "Success") (ascii "%%%d")
    [.percent, .conversion ⟨[], ch 'd', List.forall_mem_nil _, by decide, by decide⟩]
    (by decide +kernel) (by decide +kernel) (by decide +kernel) [.int 5] (ascii "%5") (by decide +kernel)
  have hvlog : vprintf printWhole (outFmt (ascii "Success") (ascii "%%%d")) [.int 5] = some (ascii "%d") := by
    decide +kernel
  rw [hvlog] at htext
  exact absurd htext (by decide)

end NscaNg.Common
