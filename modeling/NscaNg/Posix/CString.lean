/-
# Bytes and C strings

A buffer is the list of its bytes. The C string a buffer holds is what stands before its first
NUL (`cstr`), and the functions of `<string.h>` see nothing else: `strchr` and `strrchr` return
the tail of the string that starts at the byte they find, as the pointer they return in C does.
-/
import Mathlib.Data.List.TakeWhile
import Mathlib.Tactic

namespace Posix

/-- The bytes of a buffer or of a string. -/
abbrev Bytes := List UInt8

/-- The bytes of a string constant. -/
def ascii (s : String) : Bytes := s.toList.map fun c => UInt8.ofNat c.toNat

/-- The byte of a character constant. -/
def ch (c : Char) : UInt8 := UInt8.ofNat c.toNat

/-- The newline byte. -/
abbrev newline : UInt8 := 10

/-- The C string a NUL-terminated buffer holds: the bytes before its first NUL. -/
def cstr (buf : Bytes) : Bytes := buf.takeWhile (· ≠ 0)

/-- `strchr(s, c)`: the tail of `s` from the first `c` on, `none` for a null pointer. -/
def strchr : Bytes → UInt8 → Option Bytes
  | [], _ => none
  | x :: xs, c => if x = c then some (x :: xs) else strchr xs c

/-- `strrchr(s, c)`: the tail of `s` from the last `c` on, `none` for a null pointer. -/
def strrchr : Bytes → UInt8 → Option Bytes
  | [], _ => none
  | x :: xs, c =>
    match strrchr xs c with
    | some t => some t
    | none => if x = c then some (x :: xs) else none

/-! ### What ends a string -/

theorem cstr_terminated (data rest : Bytes) : cstr (data ++ 0 :: rest) = cstr data := by
  induction data with
  | nil => simp [cstr]
  | cons x xs ih =>
    by_cases hx : x = 0
    · simp [cstr, hx]
    · simpa [cstr, hx] using ih

theorem nul_notMem_cstr (buf : Bytes) : 0 ∉ cstr buf := fun h => by
  simpa using List.mem_takeWhile_imp h

theorem cstr_prefix (buf : Bytes) : cstr buf <+: buf := List.takeWhile_prefix _

/-- A string reaches the end of its buffer exactly if the buffer has no NUL. -/
theorem cstr_eq_self_iff (buf : Bytes) : cstr buf = buf ↔ 0 ∉ buf := by
  constructor
  · intro h
    rw [← h]
    exact nul_notMem_cstr buf
  · intro h
    refine List.takeWhile_eq_self_iff.mpr fun x hx => ?_
    have hx0 : x ≠ 0 := fun h0 => h (h0 ▸ hx)
    simpa using hx0

/-! ### Searching -/

theorem strchr_eq_none {s : Bytes} {c : UInt8} : strchr s c = none ↔ c ∉ s := by
  induction s with
  | nil => simp [strchr]
  | cons x xs ih =>
    by_cases h : x = c
    · simp [strchr, h]
    · simp [strchr, h, ih, Ne.symm h]

/-- What `strchr` finds is the first `c`. -/
theorem strchr_eq_some {s t : Bytes} {c : UInt8} :
    strchr s c = some t ↔ ∃ pre tail, s = pre ++ c :: tail ∧ c ∉ pre ∧ t = c :: tail := by
  induction s with
  | nil => simp [strchr]
  | cons x xs ih =>
    by_cases h : x = c
    · subst h
      simp only [strchr, if_true, Option.some.injEq]
      constructor
      · rintro rfl
        exact ⟨[], xs, by simp⟩
      · rintro ⟨pre, tail, he, hpre, rfl⟩
        cases pre with
        | nil => simpa using he
        | cons y ys => simp_all
    · simp only [strchr, if_neg h, ih]
      constructor
      · rintro ⟨pre, tail, rfl, hpre, rfl⟩
        exact ⟨x :: pre, tail, rfl, by simpa [Ne.symm h] using hpre, rfl⟩
      · rintro ⟨pre, tail, he, hpre, rfl⟩
        cases pre with
        | nil => simp_all
        | cons y ys => exact ⟨ys, tail, by simp_all, by simp_all, rfl⟩

theorem strchr_append {pre : Bytes} {c : UInt8} (h : c ∉ pre) (tail : Bytes) :
    strchr (pre ++ c :: tail) c = some (c :: tail) :=
  strchr_eq_some.mpr ⟨pre, tail, rfl, h, rfl⟩

theorem strrchr_eq_none {s : Bytes} {c : UInt8} : strrchr s c = none ↔ c ∉ s := by
  induction s with
  | nil => simp [strrchr]
  | cons x xs ih =>
    simp only [strrchr, List.mem_cons, not_or]
    cases h : strrchr xs c with
    | some t => simp_all
    | none =>
      have hxs : c ∉ xs := ih.mp h
      by_cases hx : x = c
      · simp [hx]
      · simp [hx, hxs, Ne.symm hx]

end Posix
