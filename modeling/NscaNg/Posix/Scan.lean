/-
# Comparing, splitting and reading C strings

`strncasecmp()` and `strcasecmp()`, `strtok()` called again and again on one string, and
`atoi()`, on the list of a string's bytes without its NUL. `atoi()` is `strtol()` with a 64-bit
`long`, narrowed to an `int`: it takes as much of the string as it can read, and leaves the rest
alone. What `printf()` makes of a number is read as this number (`decimalValue_decimal`).

`Words` says what the tokens of a string are (`strtokAll_eq_iff`).
-/
import NscaNg.Posix.CString

namespace Posix

/-! ### Comparing without case -/

/-- `tolower()` in the C locale. -/
def toLower (c : UInt8) : UInt8 := if ch 'A' ≤ c ∧ c ≤ ch 'Z' then c + 32 else c

/-- `strncasecmp()`; the end of a string is its NUL. -/
def strncasecmp : Bytes → Bytes → ℕ → ℤ
  | _, _, 0 => 0
  | [], [], _ + 1 => 0
  | x :: _, [], _ + 1 => (toLower x).toNat
  | [], y :: _, _ + 1 => -((toLower y).toNat : ℤ)
  | x :: xs, y :: ys, n + 1 =>
    if toLower x = toLower y then strncasecmp xs ys n else ((toLower x).toNat : ℤ) - (toLower y).toNat

/-- `strcasecmp()`. -/
def strcasecmp (s t : Bytes) : ℤ := strncasecmp s t (s.length + t.length + 1)

theorem toLower_ne_zero {c : UInt8} (h : c ≠ 0) : toLower c ≠ 0 := by
  unfold toLower
  split
  · rename_i hc
    intro h0
    have hle : c.toNat ≤ 90 := UInt8.le_iff_toNat_le.mp hc.2
    have hsum := congrArg UInt8.toNat h0
    rw [UInt8.toNat_add] at hsum
    have h32 : (32 : UInt8).toNat = 32 := rfl
    have hz : (0 : UInt8).toNat = 0 := rfl
    rw [h32, hz] at hsum
    omega
  · exact h

/-- A string that is compared for its whole length is equal to what the other one starts with. -/
theorem strncasecmp_eq_zero_iff {s : Bytes} (hs : 0 ∉ s) (t : Bytes) :
    strncasecmp s t s.length = 0 ↔ (t.take s.length).map toLower = s.map toLower := by
  induction s generalizing t with
  | nil => simp [strncasecmp]
  | cons x xs ih =>
    rw [List.mem_cons, not_or] at hs
    have hx : toLower x ≠ 0 := toLower_ne_zero (Ne.symm hs.1)
    cases t with
    | nil =>
      have hpos : (toLower x).toNat ≠ 0 := fun h0 => hx (UInt8.toNat_inj.mp h0)
      simpa [strncasecmp] using hpos
    | cons y ys =>
      simp only [List.length_cons, strncasecmp, List.take_succ_cons, List.map_cons, List.cons.injEq]
      by_cases hxy : toLower x = toLower y
      · rw [if_pos hxy, ih hs.2, hxy]
        simp
      · have hne : (toLower x).toNat ≠ (toLower y).toNat := fun h0 => hxy (UInt8.toNat_inj.mp h0)
        rw [if_neg hxy]
        constructor
        · intro h0
          omega
        · intro h0
          exact absurd h0.1.symm hxy

/-! ### Tokens -/

/-- `strtok()`: the next token, and what stands behind the delimiter that ends it. -/
def strtok (delimiters : Bytes) (s : Bytes) : Option (Bytes × Bytes) :=
  match s.dropWhile (· ∈ delimiters) with
  | [] => none
  | start => some (start.takeWhile (· ∉ delimiters), (start.dropWhile (· ∉ delimiters)).tail)

/-- The tokens that repeated calls of `strtok()` give, of which there are at most `n`. -/
def strtokAll (delimiters : Bytes) : ℕ → Bytes → List Bytes
  | 0, _ => []
  | n + 1, s =>
    match strtok delimiters s with
    | none => []
    | some (token, rest) => token :: strtokAll delimiters n rest

/-- The string is made of these words, with delimiters between them, and perhaps before the first
and behind the last. -/
inductive Words (delimiters : Bytes) : Bytes → List Bytes → Prop
  | nil {gap : Bytes} : (∀ c ∈ gap, c ∈ delimiters) → Words delimiters gap []
  | cons {gap word rest : Bytes} {words : List Bytes} : (∀ c ∈ gap, c ∈ delimiters) → word ≠ [] →
      (∀ c ∈ word, c ∉ delimiters) → (∀ c ∈ rest.head?, c ∈ delimiters) → Words delimiters rest words →
      Words delimiters (gap ++ word ++ rest) (word :: words)

section

variable {delimiters : Bytes}

theorem dropWhile_gap {gap : Bytes} (h : ∀ c ∈ gap, c ∈ delimiters) (s : Bytes) :
    (gap ++ s).dropWhile (· ∈ delimiters) = s.dropWhile (· ∈ delimiters) := by
  rw [List.dropWhile_append_of_pos]
  simpa using h

theorem strtok_gap {gap : Bytes} (h : ∀ c ∈ gap, c ∈ delimiters) : strtok delimiters gap = none := by
  have hdrop := dropWhile_gap h []
  rw [List.append_nil] at hdrop
  unfold strtok
  rw [hdrop]
  rfl

theorem strtok_word {gap word rest : Bytes} (hgap : ∀ c ∈ gap, c ∈ delimiters) (hne : word ≠ [])
    (hword : ∀ c ∈ word, c ∉ delimiters) (hrest : ∀ c ∈ rest.head?, c ∈ delimiters) :
    strtok delimiters (gap ++ word ++ rest) = some (word, rest.tail) := by
  obtain ⟨c, cs, rfl⟩ := List.exists_cons_of_ne_nil hne
  have hc : c ∉ delimiters := hword c List.mem_cons_self
  have hstart : (gap ++ (c :: cs) ++ rest).dropWhile (· ∈ delimiters) = c :: cs ++ rest := by
    rw [List.append_assoc, dropWhile_gap hgap]
    simp [hc]
  have hend : ∀ p : UInt8 → Bool, (∀ c ∈ rest.head?, p c = false) →
      rest.takeWhile p = [] ∧ rest.dropWhile p = rest := by
    intro p hp
    cases rest with
    | nil => exact ⟨rfl, rfl⟩
    | cons x xs =>
      have hx : p x = false := hp x rfl
      exact ⟨by simp [hx], by simp [hx]⟩
  obtain ⟨htake, hdrop⟩ := hend (· ∉ delimiters) fun c hc => by simpa using hrest c hc
  have hall : ∀ x ∈ c :: cs, decide (x ∉ delimiters) = true := fun x hx => by simpa using hword x hx
  unfold strtok
  rw [hstart]
  change some (((c :: cs) ++ rest).takeWhile (· ∉ delimiters),
    (((c :: cs) ++ rest).dropWhile (· ∉ delimiters)).tail) = _
  rw [List.takeWhile_append_of_pos hall, List.dropWhile_append_of_pos hall, htake, hdrop, List.append_nil]

/-- What `strtok()` finds is the first word, with a gap before it. -/
theorem strtok_eq_some {s token rest : Bytes} (h : strtok delimiters s = some (token, rest)) :
    ∃ gap tail, s = gap ++ token ++ tail ∧ (∀ c ∈ gap, c ∈ delimiters) ∧ token ≠ [] ∧
      (∀ c ∈ token, c ∉ delimiters) ∧ (∀ c ∈ tail.head?, c ∈ delimiters) ∧ rest = tail.tail := by
  unfold strtok at h
  split at h
  · cases h
  · rename_i start hne
    cases h
    refine ⟨s.takeWhile (· ∈ delimiters), (s.dropWhile (· ∈ delimiters)).dropWhile (· ∉ delimiters),
      ?_, ?_, ?_, ?_, ?_, rfl⟩
    · rw [List.append_assoc, List.takeWhile_append_dropWhile, List.takeWhile_append_dropWhile]
    · intro c hc
      simpa using List.mem_takeWhile_imp hc
    · obtain ⟨c, cs, hcs⟩ := List.exists_cons_of_ne_nil hne
      have hc : ¬ c ∈ delimiters := by
        have hhead := List.head?_dropWhile_not (· ∈ delimiters) s
        rw [hcs] at hhead
        simpa using hhead
      rw [hcs]
      simp [hc]
    · intro c hc
      simpa using List.mem_takeWhile_imp hc
    · intro c hc
      have hhead := List.head?_dropWhile_not (· ∉ delimiters) (s.dropWhile (· ∈ delimiters))
      rw [hc] at hhead
      simpa using hhead

theorem strtok_eq_none {s : Bytes} (h : strtok delimiters s = none) : ∀ c ∈ s, c ∈ delimiters := by
  unfold strtok at h
  split at h
  · rename_i hnil
    simpa using List.dropWhile_eq_nil_iff.mp hnil
  · cases h

/-- A gap may be put before the first word, or be taken away there. -/
theorem Words.tail {s : Bytes} {words : List Bytes} (h : ∀ c ∈ s.head?, c ∈ delimiters) :
    Words delimiters s words ↔ Words delimiters s.tail words := by
  cases s with
  | nil => rfl
  | cons c cs =>
    have hc : c ∈ delimiters := h c rfl
    constructor
    · intro hw
      generalize hs : c :: cs = s at hw
      cases hw with
      | nil hgap =>
        subst hs
        exact .nil fun x hx => hgap x (List.mem_cons_of_mem _ hx)
      | @cons gap word rest words hgap hne hword hrest hwords =>
        cases gap with
        | nil =>
          obtain ⟨x, xs, rfl⟩ := List.exists_cons_of_ne_nil hne
          cases hs
          exact absurd hc (hword c List.mem_cons_self)
        | cons x xs =>
          cases hs
          exact .cons (fun y hy => hgap y (List.mem_cons_of_mem _ hy)) hne hword hrest hwords
    · intro hw
      cases hw with
      | nil hgap =>
        refine .nil fun x hx => ?_
        rcases List.mem_cons.mp hx with rfl | hx
        · exact hc
        · exact hgap x hx
      | @cons gap word rest words hgap hne hword hrest hwords =>
        have hgap' : ∀ x ∈ c :: gap, x ∈ delimiters := by
          intro x hx
          rcases List.mem_cons.mp hx with rfl | hx
          · exact hc
          · exact hgap x hx
        exact .cons hgap' hne hword hrest hwords

/-- **Tokens.** Repeated calls of `strtok()` give the words of the string. -/
theorem strtokAll_eq_iff {n : ℕ} {s : Bytes} {words : List Bytes} (hn : s.length < n) :
    strtokAll delimiters n s = words ↔ Words delimiters s words := by
  induction n generalizing s words with
  | zero => omega
  | succ n ih =>
    unfold strtokAll
    split
    · rename_i hnone
      have hgap := strtok_eq_none hnone
      constructor
      · rintro rfl
        exact .nil hgap
      · intro hw
        cases hw with
        | nil _ => rfl
        | cons hgap' hne hword hrest _ =>
          rw [strtok_word hgap' hne hword hrest] at hnone
          cases hnone
    · rename_i token rest hsome
      obtain ⟨gap, tail, rfl, hgap, hne, hword, htail, rfl⟩ := strtok_eq_some hsome
      have hlen : tail.tail.length < n := by
        have hpos := List.length_pos_iff.mpr hne
        rw [List.length_append, List.length_append] at hn
        rw [List.length_tail]
        omega
      constructor
      · rintro rfl
        exact .cons hgap hne hword htail ((Words.tail htail).mpr ((ih hlen).mp rfl))
      · intro hw
        generalize hs : gap ++ token ++ tail = s at hw hsome
        cases hw with
        | nil hgap' =>
          rw [strtok_gap hgap'] at hsome
          cases hsome
        | cons hgap' hne' hword' hrest' hwords =>
          rw [strtok_word hgap' hne' hword' hrest', Option.some.injEq, Prod.mk.injEq] at hsome
          obtain ⟨rfl, htl⟩ := hsome
          rw [(ih hlen).mpr (htl ▸ (Words.tail hrest').mp hwords)]

end

/-! ### Numbers -/

/-- `isspace()` in the C locale. -/
def isSpace (c : UInt8) : Bool := c = ch ' ' ∨ (9 ≤ c ∧ c ≤ 13)

/-- `isdigit()`. -/
def isDigit (c : UInt8) : Bool := ch '0' ≤ c ∧ c ≤ ch '9'

/-- The number that digits stand for. -/
def decimalValue (digits : Bytes) : ℕ := digits.foldl (fun v c => 10 * v + (c.toNat - 48)) 0

/-- `strtol()` with a base of 10 and a 64-bit `long`. -/
def strtol (s : Bytes) : ℤ :=
  match s.dropWhile isSpace with
  | [] => 0
  | c :: cs =>
    if c = ch '-' then max (-(decimalValue (cs.takeWhile isDigit) : ℤ)) (-2 ^ 63)
    else if c = ch '+' then min (decimalValue (cs.takeWhile isDigit) : ℤ) (2 ^ 63 - 1)
    else min (decimalValue ((c :: cs).takeWhile isDigit) : ℤ) (2 ^ 63 - 1)

/-- `atoi()`. -/
def atoi (s : Bytes) : ℤ := (strtol s).bmod (2 ^ 32)

theorem isSpace_of_isDigit {c : UInt8} (h : isDigit c = true) : isSpace c = false := by
  simp only [isDigit, isSpace, ch, Bool.decide_and, Bool.and_eq_true, decide_eq_true_eq, UInt8.le_iff_toNat_le,
    decide_eq_false_iff_not, not_or, not_and] at h ⊢
  have h0 : (UInt8.ofNat '0'.toNat).toNat = 48 := rfl
  have h9 : (UInt8.ofNat '9'.toNat).toNat = 57 := rfl
  rw [h0, h9] at h
  refine ⟨?_, fun _ => ?_⟩
  · rintro rfl
    exact absurd h (by decide)
  · change ¬ c.toNat ≤ 13
    omega

/-- A numeral is read as its value, as far as a `long` goes. -/
theorem strtol_digits {s : Bytes} (h : ∀ c ∈ s, isDigit c = true) :
    strtol s = min (decimalValue s : ℤ) (2 ^ 63 - 1) := by
  cases s with
  | nil => rfl
  | cons c cs =>
    have hc := h c List.mem_cons_self
    have hdrop : (c :: cs).dropWhile isSpace = c :: cs := by simp [isSpace_of_isDigit hc]
    have hminus : c ≠ ch '-' := by rintro rfl; exact absurd hc (by decide)
    have hplus : c ≠ ch '+' := by rintro rfl; exact absurd hc (by decide)
    unfold strtol
    rw [hdrop]
    simp only [if_neg hminus, if_neg hplus]
    rw [List.takeWhile_eq_self_iff.mpr h]

/-- A numeral is read as its value exactly if an `int` can hold that. -/
theorem atoi_digits_iff {s : Bytes} (h : ∀ c ∈ s, isDigit c = true) :
    atoi s = decimalValue s ↔ decimalValue s < 2 ^ 31 := by
  unfold atoi
  rw [strtol_digits h, Int.bmod_def]
  constructor
  · intro heq
    split at heq <;> omega
  · intro hlt
    have hmin : min (decimalValue s : ℤ) (2 ^ 63 - 1) = decimalValue s := by omega
    rw [hmin]
    split <;> omega

/-! ### Numerals -/

/-- The digits of a number, of which there are no more than `n`. -/
def decimalDigits : ℕ → ℕ → Bytes
  | 0, _ => []
  | n + 1, v => (if v < 10 then [] else decimalDigits n (v / 10)) ++ [UInt8.ofNat (48 + v % 10)]

/-- A number as `printf()` writes it for `%u` or `%lu`. -/
def decimal (v : ℕ) : Bytes := decimalDigits (v + 1) v

theorem decimalValue_snoc (digits : Bytes) (c : UInt8) :
    decimalValue (digits ++ [c]) = 10 * decimalValue digits + (c.toNat - 48) := by
  simp [decimalValue, List.foldl_append]

theorem toNat_digit (v : ℕ) : (UInt8.ofNat (48 + v % 10)).toNat = 48 + v % 10 := by
  rw [UInt8.toNat_ofNat']
  omega

theorem decimalValue_decimalDigits {n v : ℕ} (h : v < n) : decimalValue (decimalDigits n v) = v := by
  induction n generalizing v with
  | zero => omega
  | succ n ih =>
    rw [decimalDigits, decimalValue_snoc, toNat_digit]
    by_cases hv : v < 10
    · rw [if_pos hv]
      show 10 * 0 + (48 + v % 10 - 48) = v
      omega
    · rw [if_neg hv, ih (by omega)]
      omega

theorem decimalValue_decimal (v : ℕ) : decimalValue (decimal v) = v := decimalValue_decimalDigits (Nat.lt_succ_self v)

theorem isDigit_decimalDigits (n v : ℕ) : ∀ c ∈ decimalDigits n v, isDigit c = true := by
  induction n generalizing v with
  | zero => exact fun c hc => absurd hc List.not_mem_nil
  | succ n ih =>
    intro c hc
    rw [decimalDigits, List.mem_append, List.mem_singleton] at hc
    rcases hc with hc | rfl
    · split at hc
      · cases hc
      · exact ih _ c hc
    · have h0 : (ch '0').toNat = 48 := rfl
      have h9 : (ch '9').toNat = 57 := rfl
      simp only [isDigit, Bool.decide_and, Bool.and_eq_true, decide_eq_true_eq, UInt8.le_iff_toNat_le, toNat_digit, h0, h9]
      omega

theorem isDigit_decimal (v : ℕ) : ∀ c ∈ decimal v, isDigit c = true := isDigit_decimalDigits _ v

theorem decimal_ne_nil (v : ℕ) : decimal v ≠ [] := by
  unfold decimal decimalDigits
  exact List.append_ne_nil_of_right_ne_nil _ (List.cons_ne_nil _ _)

/-- A number that an `int` can hold is read as what was written. -/
theorem atoi_decimal {v : ℕ} (h : v < 2 ^ 31) : atoi (decimal v) = v := by
  have hvalue := decimalValue_decimal v
  rw [(atoi_digits_iff (isDigit_decimal v)).mpr (by rw [hvalue]; exact h), hvalue]

end Posix
