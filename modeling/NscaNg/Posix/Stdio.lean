/-
# Strings in buffers of fixed size

What `snprintf()` and `strncpy()` store at the start of a buffer, and what `strlen()` finds there.
`snprintf()` cuts the text off so that its NUL has room, and returns the length the whole text has, which
an `int` must be able to say; `strncpy()` stores exactly as many bytes as it is told, and a NUL only if
the string is shorter.
-/
import NscaNg.Memory.Stores
import NscaNg.Posix.Scan

namespace Posix

open Memory

/-- The stores of `snprintf(buffer, size, ...)` for a text. -/
def snprintf (size : ℕ) (text : Bytes) : Stores := storeAll 0 (text.take (size - 1) ++ [0])

/-- What `snprintf()` returns. -/
def snprintfResult (text : Bytes) : ℤ := if text.length < 2 ^ 31 then text.length else -1

/-- The stores of `strncpy(buffer, source, n)`. -/
def strncpy (source : Bytes) (n : ℕ) : Stores := storeAll 0 ((source ++ List.replicate n 0).take n)

/-- `strlen()` from an index on, over at most so many cells: `none` if it finds no NUL in them, or a cell
that was never stored. -/
def strlen (stores : Stores) : ℕ → ℤ → Option ℕ
  | 0, _ => none
  | n + 1, i => (content stores i).bind fun c => if c = 0 then some 0 else (strlen stores n (i + 1)).map (· + 1)

/-- `%d`. -/
def decimalInt (v : ℤ) : Bytes := if v < 0 then ch '-' :: decimal v.natAbs else decimal v.natAbs

theorem length_decimalDigits_le {k v : ℕ} (h : v < 10 ^ (k + 1)) (n : ℕ) : (decimalDigits n v).length ≤ k + 1 := by
  induction k generalizing n v with
  | zero =>
    cases n with
    | zero => exact Nat.zero_le _
    | succ n =>
      rw [decimalDigits, if_pos (by omega)]
      exact le_refl 1
  | succ k ih =>
    cases n with
    | zero => exact Nat.zero_le _
    | succ n =>
      rw [decimalDigits, List.length_append, List.length_singleton]
      by_cases hv : v < 10
      · rw [if_pos hv]
        exact Nat.succ_le_succ (Nat.zero_le _)
      · rw [if_neg hv]
        have hdiv : v / 10 < 10 ^ (k + 1) := by
          rw [Nat.div_lt_iff_lt_mul (by decide)]
          exact h
        exact Nat.succ_le_succ (ih hdiv n)

/-- A number below a power of ten has no more digits than that says. -/
theorem length_decimal_le {k v : ℕ} (h : v < 10 ^ (k + 1)) : (decimal v).length ≤ k + 1 :=
  length_decimalDigits_le h _

theorem decimalInt_natCast (v : ℕ) : decimalInt v = decimal v := by
  rw [decimalInt, if_neg (by omega), Int.natAbs_natCast]

theorem length_snprintf_text {size : ℕ} (h : 0 < size) (text : Bytes) :
    (text.take (size - 1) ++ [0]).length ≤ size := by
  rw [List.length_append, List.length_take, List.length_singleton]
  omega

theorem inside_snprintf {size : ℕ} (h : 0 < size) (text : Bytes) : Inside size (snprintf size text) :=
  inside_storeAll (le_refl 0) (by have := length_snprintf_text h text; omega)

/-- Nothing is stored behind the size. -/
theorem content_snprintf_of_le {size k : ℕ} (h : 0 < size) (hk : size ≤ k) (text : Bytes) :
    content (snprintf size text) k = none := by
  have hlen := length_snprintf_text h text
  exact content_storeAll_of_le (by rw [Int.zero_add]; exact_mod_cast hlen.trans hk)

theorem length_strncpy_text (source : Bytes) (n : ℕ) : ((source ++ List.replicate n 0).take n).length = n := by
  rw [List.length_take, List.length_append, List.length_replicate]
  omega

/-- `strlen()` of a string that is there. -/
theorem strlen_of_load {stores : Stores} {i : ℤ} {n : ℕ} {text : Bytes} (h0 : 0 ∉ text)
    (h : load stores i (text.length + 1) = some (text ++ [0])) (hn : text.length < n) :
    strlen stores n i = some text.length := by
  induction text generalizing i n with
  | nil =>
    obtain ⟨m, rfl⟩ := Nat.exists_eq_add_of_lt hn
    have hcell : content stores i = some 0 := by simpa using (load_eq_some_iff.mp h).2 0 (by simp)
    rw [strlen, hcell]
    rfl
  | cons c text ih =>
    obtain ⟨m, rfl⟩ : ∃ m, n = m + 1 := ⟨n - 1, by rw [List.length_cons] at hn; omega⟩
    rw [List.mem_cons, not_or] at h0
    obtain ⟨b, hb, hrest⟩ := Option.bind_eq_some_iff.mp h
    obtain ⟨rest, hload, hcons⟩ := Option.map_eq_some_iff.mp hrest
    obtain ⟨rfl, rfl⟩ := List.cons.inj hcons
    rw [strlen, hb, Option.bind_some, if_neg (Ne.symm h0.1), ih h0.2 hload (by simpa using hn)]
    rfl

end Posix
