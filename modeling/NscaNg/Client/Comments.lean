/-
# Comments in the configuration file

A line with a comment behind its setting means what it means without, unless the hash mark stands
directly behind a value without quotes: there the loop that copies the value has already stepped over
it, and what follows is not looked at as a comment (`parseLine_comment_iff`).
-/
import NscaNg.Client.Quoting

namespace NscaNg.Client

open Posix

/-- A value as it is written, where a quote sign of zero says that there are no quotes. -/
def written (quoteSign : UInt8) (text : Bytes) : Bytes :=
  if quoteSign = 0 then text else quoteSign :: text ++ [quoteSign]

/-- The text of a value, with what stands behind it: without quotes it goes up to a blank, a hash mark or
the end of the line. -/
structure WellWritten (quoteSign : UInt8) (text value behind : Bytes) : Prop where
  sign : quoteSign = 0 ∨ quoteSign = ch '"' ∨ quoteSign = ch '\''
  decoded : decode quoteSign false text = some value
  unquoted : quoteSign = 0 → text ≠ [] ∧ text.head? ≠ some (ch '"') ∧ text.head? ≠ some (ch '\'') ∧
    ∀ c, behind.head? = some c → c = ch ' ' ∨ c = ch '\t'

section

variable {cfg : List Conf} {located : Bytes → Bytes} {c : Conf} {quoteSign : UInt8} {text value behind : Bytes}

/-! ### The end of the line -/

theorem ends_comment (h : (skipWhitespace behind).head? ≠ some (ch '#')) (comment : Bytes) :
    Ends (skipWhitespace (behind ++ ch '#' :: comment)) ↔ Ends (skipWhitespace behind) := by
  obtain ⟨blanks, hsplit, hblanks⟩ := skipWhitespace_split behind
  have hskip : skipWhitespace (behind ++ ch '#' :: comment) =
      skipWhitespace (skipWhitespace behind ++ ch '#' :: comment) := by
    rw [hsplit, List.append_assoc, skipWhitespace_append hblanks, ← hsplit]
  rw [hskip]
  cases htoken : skipWhitespace behind with
  | nil =>
    rw [List.nil_append, skipWhitespace_of_head (by decide)]
    exact iff_of_true (.inr rfl) (.inl rfl)
  | cons d token =>
    rw [htoken] at h
    rw [List.cons_append, skipWhitespace_of_head (skipWhitespace_head htoken)]
    refine iff_of_false (not_or.mpr ⟨List.cons_ne_nil _ _, ?_⟩) (not_or.mpr ⟨List.cons_ne_nil _ _, h⟩)
    exact h

theorem checkEnd_comment (h : (skipWhitespace behind).head? ≠ some (ch '#')) (value comment : Bytes) :
    checkEnd located cfg c (some (value, behind ++ ch '#' :: comment)) =
      checkEnd located cfg c (some (value, behind)) := by
  simp only [checkEnd, ends_comment h]

/-! ### The value -/

/-- The loop stops behind the closing quote. -/
theorem parseValue_closed (hquote : quoteSign = ch '"' ∨ quoteSign = ch '\'')
    (h : decode quoteSign false text = some value) (rest : Bytes) :
    parseValue located cfg c (skipWhitespace (quoteSign :: text ++ [quoteSign] ++ rest)) =
      checkEnd located cfg c (if value.length ≤ 2046 then some (value, rest) else none) := by
  have hsign : quoteSign ≠ ch '#' ∧ ¬ (quoteSign = ch ' ' ∨ quoteSign = ch '\t') := by
    rcases hquote with rfl | rfl
    · decide
    · decide
  have hline : quoteSign :: text ++ [quoteSign] ++ rest = quoteSign :: (text ++ quoteSign :: rest) := by simp
  rw [hline, skipWhitespace_of_head hsign.2, parseValue, if_neg hsign.1, if_pos hquote,
    copyValue_text h [] (Nat.zero_le _), List.length_nil, Nat.zero_add, List.nil_append, copyValue]
  by_cases hlen : value.length ≤ 2046
  · rw [if_pos (by omega), if_neg (by omega), if_neg Bool.false_ne_true, if_pos (.inl rfl), if_pos hlen]
  · rw [if_neg hlen]
    by_cases hfull : value.length ≤ 2047
    · rw [if_pos hfull, if_pos (by omega)]
    · rw [if_neg hfull]

/-- Without quotes, the loop stops at what is behind the value. -/
theorem parseValue_unquoted (h : WellWritten 0 text value behind) (rest : Bytes) :
    parseValue located cfg c (skipWhitespace (text ++ rest)) =
      checkEnd located cfg c (if value.length ≤ 2047 then copyValue 0 false value rest else none) := by
  obtain ⟨hne, hdouble, hsingle, -⟩ := h.unquoted rfl
  have hdecoded := h.decoded
  obtain ⟨first, tail, rfl⟩ := List.exists_cons_of_ne_nil hne
  rw [List.head?_cons, Ne, Option.some.injEq] at hdouble hsingle
  have hstart : ¬ (first = 0 ∨ (0 : UInt8) = 0 ∧ (first = ch '#' ∨ first = ch ' ' ∨ first = ch '\t')) := by
    intro hc
    rw [decode, if_pos hc] at hdecoded
    cases hdecoded
  simp only [true_and, not_or] at hstart
  have hcopy := copyValue_text hdecoded [] (Nat.zero_le _) rest
  rw [List.length_nil, Nat.zero_add, List.nil_append] at hcopy
  rw [List.cons_append, skipWhitespace_of_head (not_or.mpr hstart.2.2), parseValue, if_neg hstart.2.1,
    if_neg (not_or.mpr ⟨hdouble, hsingle⟩), ← List.cons_append, hcopy]

/-- Without quotes, the character behind the value is stepped over. -/
theorem copyValue_stop {d : UInt8} (h : d = ch '#' ∨ d = ch ' ' ∨ d = ch '\t') (value rest : Bytes) :
    copyValue 0 false value (d :: rest) = if 2047 ≤ value.length then none else some (value, rest) := by
  have hstop : d = 0 ∨ (0 : UInt8) = 0 ∧ (d = ch '#' ∨ d = ch ' ' ∨ d = ch '\t') := .inr ⟨rfl, h⟩
  rw [copyValue, if_neg Bool.false_ne_true, if_pos hstop]

end

/-- A value is saved, or there is a message about a number. -/
theorem saveValue_ne {path : Bytes} {lineNumber : ℕ} {cfg : List Conf} {key : Bytes} {c : Conf}
    (hfind : cfg.find? (·.key = key) = some c) (value : Bytes) {message : Bytes} (hmessage : message.head? ≠ some (ch 'N')) :
    saveValue (located path lineNumber) cfg c value ≠ .error (located path lineNumber message) := by
  rw [saveValue_of_find hfind]
  cases c.value with
  | string s => exact fun hc => by cases hc
  | integer i =>
    simp only
    split
    · intro hc
      have hsame := List.append_cancel_left (Except.error.inj hc)
      rw [← hsame] at hmessage
      exact hmessage rfl
    · exact fun hc => by cases hc

/-- **Comments.** A setting whose value is well written, and a hash mark behind it that is not in quotes
or escaped: the line has the same result as the line cut off before the hash mark, if and only if the
hash mark does not stand directly behind a value without quotes; or the value has room and behind the
hash mark the line ends or goes on with another one; or the value has no room anyway. -/
theorem parseLine_comment_iff (path : Bytes) (lineNumber : ℕ) {cfg : List Conf} (hcfg : Layout cfg)
    (kind : Bytes × Bool) (hkind : kind ∈ confDefaults.map Conf.kind) {before between behind gap : Bytes}
    (hbefore : Blank before) (hbetween : Blank between) (hbehind : Blank behind) {quoteSign : UInt8}
    {text value : Bytes} (hwritten : WellWritten quoteSign text value gap)
    (hgap : (skipWhitespace gap).head? ≠ some (ch '#')) (comment : Bytes) :
    parseLine (located path lineNumber) cfg (before ++ (kind.1 ++ (between ++ ch '=' ::
          (behind ++ (written quoteSign text ++ (gap ++ ch '#' :: comment)))))) =
        parseLine (located path lineNumber) cfg (before ++ (kind.1 ++ (between ++ ch '=' ::
          (behind ++ (written quoteSign text ++ gap))))) ↔
      (quoteSign = 0 → gap = [] →
        value.length ≤ 2046 ∧ Ends (skipWhitespace comment) ∨ 2048 ≤ value.length) := by
  obtain ⟨c, hfind, -, hparse⟩ := parseLine_setting (located path lineNumber) hcfg hkind hbefore hbetween hbehind
  rw [hparse, hparse]
  by_cases hsign : quoteSign = 0
  · subst hsign
    have hblank := (hwritten.unquoted rfl).2.2.2
    rw [written, if_pos rfl, parseValue_unquoted hwritten, parseValue_unquoted hwritten]
    cases gap with
    | cons b gap =>
      have hb := hblank b rfl
      have hgap' : (skipWhitespace gap).head? ≠ some (ch '#') := by
        rwa [← List.singleton_append, skipWhitespace_append (by simpa using hb)] at hgap
      rw [List.cons_append, copyValue_stop (.inr hb), copyValue_stop (.inr hb)]
      refine iff_of_true ?_ fun _ hc => absurd hc (List.cons_ne_nil _ _)
      split
      · split
        · rfl
        · exact checkEnd_comment hgap' value comment
      · rfl
    | nil =>
      have hcut : copyValue 0 false value [] = some (value, []) := rfl
      rw [List.nil_append, copyValue_stop (.inl rfl), hcut]
      by_cases hlong : 2048 ≤ value.length
      · rw [if_neg (by omega), if_neg (by omega)]
        exact iff_of_true rfl fun _ _ => .inr hlong
      · have hroom : value.length ≤ 2047 := by omega
        have hend : checkEnd (located path lineNumber) cfg c (some (value, [])) =
            saveValue (located path lineNumber) cfg c value := by
          rw [checkEnd, if_pos (.inl rfl)]
        rw [if_pos hroom, if_pos hroom, hend]
        by_cases hfull : 2047 ≤ value.length
        · rw [if_pos hfull]
          refine iff_of_false (fun hc => saveValue_ne hfind value (by simp [ascii]; decide) hc.symm) fun hc => ?_
          rcases hc rfl rfl with hc | hc
          · omega
          · exact hlong hc
        · rw [if_neg hfull, checkEnd]
          by_cases hcomment : Ends (skipWhitespace comment)
          · rw [if_pos hcomment]
            exact iff_of_true rfl fun _ _ => .inl ⟨by omega, hcomment⟩
          · rw [if_neg hcomment]
            refine iff_of_false (fun hc => saveValue_ne hfind value (by simp [ascii]; decide) hc.symm) fun hc => ?_
            rcases hc rfl rfl with hc | hc
            · exact hcomment hc.2
            · exact hlong hc
  · have hquote := hwritten.sign.resolve_left hsign
    rw [written, if_neg hsign, parseValue_closed hquote hwritten.decoded, parseValue_closed hquote hwritten.decoded]
    refine iff_of_true ?_ fun hc => absurd hc hsign
    split
    · exact checkEnd_comment hgap value comment
    · rfl

/-- A hash mark in quotes, and a comment directly behind them. -/
theorem parseLine_comment_password :
    parseLine (located (ascii "f") 2) confDefaults
        ([] ++ (ascii "password" ++ (ascii " " ++ ch '=' ::
          ([] ++ (written (ch '\'') (ascii "a#\\'b") ++ ([] ++ ch '#' :: ascii "c d")))))) =
      parseLine (located (ascii "f") 2) confDefaults
        ([] ++ (ascii "password" ++ (ascii " " ++ ch '=' :: ([] ++ (written (ch '\'') (ascii "a#\\'b") ++ []))))) ↔
      (ch '\'' = 0 → ([] : Bytes) = [] →
        (ascii "a#'b").length ≤ 2046 ∧ Ends (skipWhitespace (ascii "c d")) ∨ 2048 ≤ (ascii "a#'b").length) :=
  parseLine_comment_iff (ascii "f") 2 rfl (ascii "password", true) (by decide) (by decide)
    (by decide) (by decide) ⟨by decide, by decide, by decide⟩ (by decide) (ascii "c d")

/-- Directly behind a value without quotes, a comment is an error. -/
theorem not_parseLine_comment :
    ¬ ∀ comment, parseLine (located (ascii "f") 1) confDefaults (ascii "port=1" ++ ch '#' :: comment) =
      parseLine (located (ascii "f") 1) confDefaults (ascii "port=1") := by
  intro h
  have hsame := h (ascii "x")
  exact absurd hsame (by decide)

end NscaNg.Client
