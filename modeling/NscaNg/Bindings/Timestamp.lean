/-
# Timestamps in the Perl module

`has_timestamp_prefix()` of `src/perl/client.c` is to tell a command that begins with a timestamp, in square
brackets and of one to nine digits as its comment says, from one without a timestamp and from one with a
broken one. It lets `strtol()` read the digits and looks at `errno` afterwards, but `errno` is as earlier
calls have left it, and `strtol()` reads more than nine digits (`hasTimestampPrefix_iff`).
-/
import NscaNg.Bindings.Submission

namespace NscaNg.Bindings

open Posix Memory Client

/-- What the comment says: 0 for a string that does not start with a bracket, 1 for a match of
`\[\d{1,9}\]`, and -1 otherwise. -/
def timestampPattern (s : Bytes) : ℤ :=
  let digits := s.tail.takeWhile isDigit
  if s.head? ≠ some (ch '[') then 0
  else if 1 ≤ digits.length ∧ digits.length ≤ 9 ∧ (s.tail.drop digits.length).head? = some (ch ']') then 1
  else -1

/-- The string begins with digits in brackets. -/
def Bracketed (s : Bytes) : Prop :=
  s.head? = some (ch '[') ∧ s.tail.takeWhile isDigit ≠ [] ∧ (s.tail.dropWhile isDigit).head? = some (ch ']')

instance (s : Bytes) : Decidable (Bracketed s) := inferInstanceAs (Decidable (_ ∧ _ ∧ _))

/-- The digits in the brackets are as many as the comment allows and `errno` is 0; or they are more, and
`errno` or the range of a `long` gives that away. -/
def Reliable (errno : ℤ) (s : Bytes) : Prop :=
  Bracketed s →
    if (s.tail.takeWhile isDigit).length ≤ 9 then errno = 0
    else errno ≠ 0 ∨ 2 ^ 63 ≤ decimalValue (s.tail.takeWhile isDigit)

instance (errno : ℤ) (s : Bytes) : Decidable (Reliable errno s) := inferInstanceAs (Decidable (_ → ite _ _ _))

/-! ### What `strtol()` reads -/

theorem decimalValue_lt {digits : Bytes} (h : ∀ c ∈ digits, isDigit c = true) :
    decimalValue digits < 10 ^ digits.length := by
  induction digits using List.reverseRecOn with
  | nil => exact Nat.one_pos
  | append_singleton digits c ih =>
    have hinit := ih fun d hd => h d (List.mem_append_left _ hd)
    have hlast := h c (by simp)
    have h9 : (ch '9').toNat = 57 := rfl
    simp only [isDigit, Bool.decide_and, Bool.and_eq_true, decide_eq_true_eq, UInt8.le_iff_toNat_le, h9] at hlast
    rw [decimalValue_snoc, List.length_append, List.length_singleton, pow_succ]
    omega

theorem takeWhile_ne_nil_iff {p : UInt8 → Bool} {s : Bytes} (h0 : p 0 = false) :
    s.takeWhile p ≠ [] ↔ p (s.headD 0) = true := by
  cases s with
  | nil => simp [h0]
  | cons c s =>
    cases hc : p c with
    | true => simp [hc]
    | false => simp [hc]

/-- `strtol()` on a string that begins with a digit. -/
theorem strtolErrno_digit (errno : ℤ) {s : Bytes} (h : isDigit (s.headD 0) = true) :
    strtolErrno errno s =
      (if decimalValue (s.takeWhile isDigit) < 2 ^ 63 then errno else erange, s.dropWhile isDigit) := by
  have hne : s.takeWhile isDigit ≠ [] := (takeWhile_ne_nil_iff (by decide)).mpr h
  cases s with
  | nil => exact absurd rfl hne
  | cons c rest =>
    have hc : isDigit c = true := h
    have hspace : (c :: rest).dropWhile isSpace = c :: rest :=
      List.dropWhile_cons_of_neg (by simp [isSpace_of_isDigit hc])
    have hminus : c ≠ ch '-' := fun he => by rw [he] at hc; exact absurd hc (by decide)
    have hplus : c ≠ ch '+' := fun he => by rw [he] at hc; exact absurd hc (by decide)
    have hsign : signOf (c :: rest) = (1, c :: rest) := by rw [signOf, if_neg hminus, if_neg hplus]
    rw [strtolErrno, hspace, hsign]
    simp only [if_neg hne, one_mul]
    have hrange : (-2 ^ 63 ≤ (decimalValue ((c :: rest).takeWhile isDigit) : ℤ) ∧
        (decimalValue ((c :: rest).takeWhile isDigit) : ℤ) < 2 ^ 63) ↔
          decimalValue ((c :: rest).takeWhile isDigit) < 2 ^ 63 := by omega
    simp only [hrange]

/-- What `has_timestamp_prefix()` answers to a string that begins with a bracket. -/
theorem hasTimestampPrefix_bracket (errno : ℤ) {s : Bytes} (hs : s.head? = some (ch '[')) :
    hasTimestampPrefix errno s =
      if Bracketed s ∧ decimalValue (s.tail.takeWhile isDigit) < 2 ^ 63 ∧ errno = 0 then 1 else -1 := by
  have hdigit := takeWhile_ne_nil_iff (p := isDigit) (s := s.tail) (by decide)
  unfold hasTimestampPrefix
  rw [if_neg (not_not.mpr hs)]
  by_cases hd : isDigit (s.tail.headD 0) = true
  · rw [if_neg (not_not.mpr hd), strtolErrno_digit errno hd]
    have herange : erange ≠ 0 := by decide
    by_cases hv : decimalValue (s.tail.takeWhile isDigit) < 2 ^ 63
    · simp only [if_pos hv]
      by_cases he : errno = 0
      · rw [if_neg (not_not.mpr he)]
        by_cases hb : (s.tail.dropWhile isDigit).head? = some (ch ']')
        · rw [if_pos hb, if_pos ⟨⟨hs, hdigit.mpr hd, hb⟩, hv, he⟩]
        · rw [if_neg hb, if_neg fun h => hb h.1.2.2]
      · rw [if_pos he, if_neg fun h => he h.2.2]
    · simp only [if_neg hv]
      rw [if_pos herange, if_neg fun h => hv h.2.1]
  · rw [if_pos hd, if_neg fun h => hd (hdigit.mp h.1.2.1)]

theorem drop_length_takeWhile (p : UInt8 → Bool) (s : Bytes) : s.drop (s.takeWhile p).length = s.dropWhile p := by
  conv_lhs => arg 2; rw [← List.takeWhile_append_dropWhile (p := p) (l := s)]
  exact List.drop_left' rfl

theorem timestampPattern_bracket {s : Bytes} (hs : s.head? = some (ch '[')) :
    timestampPattern s = if Bracketed s ∧ (s.tail.takeWhile isDigit).length ≤ 9 then 1 else -1 := by
  unfold timestampPattern
  simp only [if_neg (not_not.mpr hs), drop_length_takeWhile]
  by_cases hb : Bracketed s
  · have hpos : 1 ≤ (s.tail.takeWhile isDigit).length := List.length_pos_iff.mpr hb.2.1
    simp only [hb, hb.2.2, hpos, true_and, and_true]
  · rw [if_neg, if_neg fun h => hb h.1]
    rintro ⟨hpos, -, hclose⟩
    exact hb ⟨hs, List.length_pos_iff.mp hpos, hclose⟩

/-- Without a bracket neither looks further. -/
theorem hasTimestampPrefix_of_ne (errno : ℤ) {s : Bytes} (hs : s.head? ≠ some (ch '[')) :
    hasTimestampPrefix errno s = 0 ∧ timestampPattern s = 0 := ⟨if_pos hs, if_pos hs⟩

/-- Nine digits fit into a `long`. -/
theorem decimalValue_takeWhile_lt {s : Bytes} (h : (s.takeWhile isDigit).length ≤ 9) :
    decimalValue (s.takeWhile isDigit) < 2 ^ 63 := by
  have hlt : decimalValue (s.takeWhile isDigit) < _ := decimalValue_lt fun c hc => List.mem_takeWhile_imp hc
  have hpow : 10 ^ (s.takeWhile isDigit).length ≤ 10 ^ 9 := Nat.pow_le_pow_right (by decide) h
  exact lt_of_lt_of_le hlt (hpow.trans (by decide))

theorem hasTimestampPrefix_eq_iff (errno : ℤ) (s : Bytes) :
    hasTimestampPrefix errno s = timestampPattern s ↔ Reliable errno s := by
  by_cases hs : s.head? = some (ch '[')
  · rw [hasTimestampPrefix_bracket errno hs, timestampPattern_bracket hs]
    unfold Reliable
    by_cases hb : Bracketed s
    · by_cases h9 : (s.tail.takeWhile isDigit).length ≤ 9
      · have hv := decimalValue_takeWhile_lt h9
        by_cases he : errno = 0
        · rw [if_pos ⟨hb, hv, he⟩, if_pos ⟨hb, h9⟩]
          simp [h9, he]
        · simp [hb, h9, he]
      · by_cases he : errno = 0
        · simp [hb, h9, he]
        · simp [hb, h9, he]
    · simp [hb]
  · have hnone := hasTimestampPrefix_of_ne errno hs
    rw [hnone.1, hnone.2]
    exact ⟨fun _ hb => absurd hb.1 hs, fun _ => rfl⟩

/-! ### What is refused -/

theorem errstr_transmit (x : Exchange) (cmd : Bytes) (stores : Stores) (len : ℤ) :
    (transmit x cmd stores len).errstr = none := by
  unfold transmit
  split_ifs <;> rfl

theorem errstr_deliver (x : Exchange) (stores : Stores) (len : ℤ) : (Perl.deliver x stores len).errstr = none := by
  unfold Perl.deliver
  split
  · rfl
  · exact errstr_transmit _ _ _ _

theorem errstr_terminate (x : Exchange) (stores : Stores) : (Perl.terminate x stores).errstr = none := by
  unfold Perl.terminate
  split
  · rfl
  · split
    · rfl
    · split
      · exact errstr_deliver _ _ _
      · exact errstr_deliver _ _ _

theorem hasTimestampPrefix_cases (errno : ℤ) (s : Bytes) :
    hasTimestampPrefix errno s = 0 ∨ hasTimestampPrefix errno s = 1 ∨ hasTimestampPrefix errno s = -1 := by
  by_cases hs : s.head? = some (ch '[')
  · rw [hasTimestampPrefix_bracket errno hs]
    split
    · exact .inr (.inl rfl)
    · exact .inr (.inr rfl)
  · exact .inl (hasTimestampPrefix_of_ne errno hs).1

/-- `nscang_client_send_command()` refuses a command for its timestamp exactly if the answer is -1. -/
theorem refused_iff (errno : ℤ) (now : ℕ) (x : Exchange) (command : Bytes) :
    (Perl.sendCommand errno now x command).errstr ≠ none ↔ hasTimestampPrefix errno command = -1 := by
  unfold Perl.sendCommand
  rcases hasTimestampPrefix_cases errno command with h | h | h
  · rw [if_pos h, errstr_terminate, h]
    decide
  · rw [if_neg (by rw [h]; decide), if_pos h, errstr_terminate, h]
    decide
  · rw [if_neg (by rw [h]; decide), if_neg (by rw [h]; decide), h]
    simp

/-- Without a bracket there is nothing to refuse, and with one there are two answers. -/
theorem refusal_iff (errno : ℤ) (s : Bytes) :
    (hasTimestampPrefix errno s = -1 ↔ timestampPattern s = -1) ↔
      hasTimestampPrefix errno s = timestampPattern s := by
  by_cases hs : s.head? = some (ch '[')
  · rw [hasTimestampPrefix_bracket errno hs, timestampPattern_bracket hs]
    split <;> split <;> decide
  · have hnone := hasTimestampPrefix_of_ne errno hs
    rw [hnone.1, hnone.2]
    decide

/-- **Timestamps.** For every command and every value `errno` was left at, `has_timestamp_prefix()` answers
what its comment says, and `nscang_client_send_command()` refuses the command accordingly, exactly if a
match leaves `errno` to be 0 and digits too many for one are given away by `errno` or the range of a `long`;
and the answer is the same for all values of `errno` exactly if the string does not begin with a `long` in
brackets. -/
theorem hasTimestampPrefix_iff (errno : ℤ) (now : ℕ) (x : Exchange) (s : Bytes) :
    (hasTimestampPrefix errno s = timestampPattern s ↔ Reliable errno s) ∧
      (((Perl.sendCommand errno now x s).errstr ≠ none ↔ timestampPattern s = -1) ↔ Reliable errno s) ∧
      ((∀ errno₁ errno₂, hasTimestampPrefix errno₁ s = hasTimestampPrefix errno₂ s) ↔
        ¬ (Bracketed s ∧ decimalValue (s.tail.takeWhile isDigit) < 2 ^ 63)) := by
  refine ⟨hasTimestampPrefix_eq_iff errno s, ?_, ?_⟩
  · rw [refused_iff, refusal_iff, hasTimestampPrefix_eq_iff]
  · constructor
    · rintro h ⟨hb, hv⟩
      have h01 := h 0 1
      rw [hasTimestampPrefix_bracket 0 hb.1, hasTimestampPrefix_bracket 1 hb.1, if_pos ⟨hb, hv, rfl⟩,
        if_neg (by simp)] at h01
      exact absurd h01 (by decide)
    · intro h errno₁ errno₂
      by_cases hs : s.head? = some (ch '[')
      · rw [hasTimestampPrefix_bracket errno₁ hs, hasTimestampPrefix_bracket errno₂ hs,
          if_neg fun hc => h ⟨hc.1, hc.2.1⟩, if_neg fun hc => h ⟨hc.1, hc.2.1⟩]
      · rw [(hasTimestampPrefix_of_ne errno₁ hs).1, (hasTimestampPrefix_of_ne errno₂ hs).1]

/-- A well-formed timestamp after a call that left `EAGAIN` behind, and one with ten digits. -/
theorem not_reliable_eagain :
    (hasTimestampPrefix 11 (ascii "[1] x") = -1 ∧ hasTimestampPrefix 0 (ascii "[1] x") = 1 ∧
        timestampPattern (ascii "[1] x") = 1) ∧
      hasTimestampPrefix 0 (ascii "[1700000000] x") = 1 ∧ timestampPattern (ascii "[1700000000] x") = -1 := by
  decide

end NscaNg.Bindings
