/-
# Skipping and cutting

The string functions of `src/common/util.c` that both programs use. A string is the list of its
bytes without the NUL.
-/
import NscaNg.Posix.CString

namespace NscaNg

open Posix

/-- `skip_whitespace()`. -/
def skipWhitespace (string : Bytes) : Bytes := string.dropWhile fun c => c = ch ' ' ∨ c = ch '\t'

theorem skipWhitespace_split (s : Bytes) : ∃ blanks, s = blanks ++ skipWhitespace s ∧
    ∀ c ∈ blanks, c = ch ' ' ∨ c = ch '\t' := by
  refine ⟨_, List.takeWhile_append_dropWhile.symm, fun c hc => ?_⟩
  simpa using List.mem_takeWhile_imp hc

theorem skipWhitespace_append {blanks : Bytes} (h : ∀ c ∈ blanks, c = ch ' ' ∨ c = ch '\t') (s : Bytes) :
    skipWhitespace (blanks ++ s) = skipWhitespace s :=
  List.dropWhile_append_of_pos fun c hc => by simpa using h c hc

theorem skipWhitespace_of_head {c : UInt8} (h : ¬ (c = ch ' ' ∨ c = ch '\t')) (s : Bytes) :
    skipWhitespace (c :: s) = c :: s := by
  unfold skipWhitespace
  rw [List.dropWhile_cons_of_neg (by simpa using h)]

theorem skipWhitespace_head {s rest : Bytes} {c : UInt8} (h : skipWhitespace s = c :: rest) :
    ¬ (c = ch ' ' ∨ c = ch '\t') := by
  have hhead := List.head?_dropWhile_not (fun c => decide (c = ch ' ' ∨ c = ch '\t')) s
  rw [show s.dropWhile (fun c => decide (c = ch ' ' ∨ c = ch '\t')) = c :: rest from h] at hhead
  simpa using hhead

namespace Util

/-- `skip_newlines()`. -/
def skipNewlines (string : Bytes) : Bytes := string.dropWhile fun c => c = ch '\r' ∨ c = newline

/-- `chomp()`: a newline at the end goes. -/
def chomp (string : Bytes) : Bytes := if string.getLast? = some newline then string.dropLast else string

theorem skipNewlines_suffix (s : Bytes) : skipNewlines s <:+ s := List.dropWhile_suffix _

/-- What is left does not begin with a CR or a newline. -/
theorem skipNewlines_head {s rest : Bytes} {c : UInt8} (h : skipNewlines s = c :: rest) :
    c ≠ ch '\r' ∧ c ≠ newline := by
  have hhead := List.head?_dropWhile_not (fun c => decide (c = ch '\r' ∨ c = newline)) s
  rw [show s.dropWhile (fun c => decide (c = ch '\r' ∨ c = newline)) = c :: rest from h] at hhead
  simpa using hhead

theorem skipNewlines_of_head {c : UInt8} (h : c ≠ ch '\r' ∧ c ≠ newline) (s : Bytes) :
    skipNewlines (c :: s) = c :: s := by
  unfold skipNewlines
  rw [List.dropWhile_cons_of_neg (by simpa using h)]

theorem skipNewlines_ne_nil {s : Bytes} {c : UInt8} (hmem : c ∈ s) (h : c ≠ ch '\r' ∧ c ≠ newline) :
    skipNewlines s ≠ [] := by
  intro hnil
  have hall := List.dropWhile_eq_nil_iff.mp hnil c hmem
  simp [h.1, h.2] at hall

theorem skipNewlines_append {s : Bytes} (h : skipNewlines s ≠ []) (t : Bytes) :
    skipNewlines (s ++ t) = skipNewlines s ++ t := by
  unfold skipNewlines at h ⊢
  rw [List.dropWhile_append, if_neg (by simpa using h)]

theorem chomp_newline (s : Bytes) : chomp (s ++ [newline]) = s := by
  unfold chomp
  rw [List.getLast?_concat, if_pos rfl, List.dropLast_concat]

theorem chomp_isPrefix (s : Bytes) : chomp s <+: s := by
  unfold chomp
  split
  · exact List.dropLast_prefix s
  · exact List.prefix_rfl

theorem mem_of_mem_chomp_skipNewlines {s : Bytes} {c : UInt8} (h : c ∈ chomp (skipNewlines s)) : c ∈ s :=
  (skipNewlines_suffix s).subset ((chomp_isPrefix _).subset h)

end Util

end NscaNg
