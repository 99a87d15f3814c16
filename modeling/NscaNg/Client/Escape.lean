/-
# The loops of `escape()`

`src/client/parse.c`: `escape()` goes over its input twice. The first loop counts the bytes the encoding
takes, and the block is allocated; the second stores them, with an output pointer that is moved in the
loop's header and, for a character that is escaped, in its body as well. The two agree
(`length_escapeStores`), the block then holds `escape` of the input (`escaped_eq`), and `unescape` gets the
input back (`unescape_escape`).
-/
import NscaNg.Memory.Stores
import NscaNg.Client.Parse

namespace NscaNg.Client

open Posix Memory

/-- The first loop of `escape()`, with the `size` so far. -/
def escapeSize : Bytes → ℕ → ℕ
  | [], size => size
  | c :: input, size => escapeSize input (if c = ch '\\' ∨ c = newline then size + 1 else size)

/-- The second loop of `escape()`, with the index `out` stands at, and the NUL that ends the string. -/
def escapeStores : Bytes → ℤ → Stores
  | [], out => [(out, 0)]
  | c :: input, out =>
    if c = ch '\\' then (out, ch '\\') :: (out + 1, ch '\\') :: escapeStores input (out + 1 + 1)
    else if c = newline then (out, ch '\\') :: (out + 1, ch 'n') :: escapeStores input (out + 1 + 1)
    else (out, c) :: escapeStores input (out + 1)

/-- The size `escape()` asks `xmalloc()` for. -/
def escapeBlock (input : Bytes) : ℕ := escapeSize input (input.length + 1)

/-- What is in the block that `escape()` returns. -/
def escaped (input : Bytes) : Option Bytes := load (escapeStores input 0) 0 (escapeBlock input)

/-- Two backslashes are a backslash, a backslash and an `n` are a newline, from left to right. -/
def unescape : Bytes → Option Bytes
  | [] => some []
  | c :: rest =>
    if c ≠ ch '\\' then (unescape rest).map (c :: ·)
    else
      match rest with
      | [] => none
      | d :: rest =>
        if d = ch '\\' then (unescape rest).map (ch '\\' :: ·)
        else if d = ch 'n' then (unescape rest).map (newline :: ·)
        else none

/-! ### The loops -/

theorem escapeSize_eq (input : Bytes) (size : ℕ) :
    escapeSize input size = size + input.countP fun c => c = ch '\\' ∨ c = newline := by
  induction input generalizing size with
  | nil => rfl
  | cons c input ih =>
    rw [escapeSize, ih, List.countP_cons]
    simp only [decide_eq_true_eq]
    split <;> omega

theorem escapeBlock_eq (input : Bytes) : escapeBlock input = escapedSize input := escapeSize_eq input _

/-- The second loop stores the bytes of the encoding one behind the other. -/
theorem escapeStores_eq (input : Bytes) (out : ℤ) :
    escapeStores input out = storeAll out (escape input ++ [0]) := by
  induction input generalizing out with
  | nil => rfl
  | cons c input ih =>
    have happ : escape (c :: input) = escapeCharacter c ++ escape input := List.flatMap_cons
    rw [escapeStores, happ, escapeCharacter]
    by_cases hb : c = ch '\\'
    · rw [if_pos hb, if_pos hb, ih]
      rfl
    · by_cases hn : c = newline
      · rw [if_neg hb, if_pos hn, if_neg hb, if_pos hn, ih]
        rfl
      · rw [if_neg hb, if_neg hn, if_neg hb, if_neg hn, ih]
        rfl

theorem length_escapeStores (input : Bytes) : (escapeStores input 0).length = escapeBlock input := by
  rw [escapeStores_eq, length_storeAll, List.length_append, List.length_singleton, length_escape, escapeBlock_eq]

theorem inside_escapeStores (input : Bytes) : Inside (escapeBlock input) (escapeStores input 0) := by
  have hlen := length_escapeStores input
  rw [escapeStores_eq] at hlen ⊢
  rw [length_storeAll] at hlen
  refine inside_storeAll (le_refl 0) ?_
  rw [hlen, Int.zero_add]

/-- The block holds the encoding, and the NUL that ends it. -/
theorem escaped_eq (input : Bytes) : escaped input = some (escape input ++ [0]) := by
  have hlen := length_escapeStores input
  rw [escapeStores_eq, length_storeAll] at hlen
  rw [escaped, escapeStores_eq, ← hlen]
  exact load_storeAll [] 0 _

/-! ### Decoding -/

/-- What was written for a character is decoded to it, whatever comes next. -/
theorem unescape_escapeCharacter (c : UInt8) (rest : Bytes) :
    unescape (escapeCharacter c ++ rest) = (unescape rest).map (c :: ·) := by
  unfold escapeCharacter
  by_cases hb : c = ch '\\'
  · rw [if_pos hb, hb]
    rfl
  · by_cases hn : c = newline
    · rw [if_neg hb, if_pos hn, hn]
      rfl
    · rw [if_neg hb, if_neg hn, List.singleton_append, unescape.eq_def]
      exact if_pos hb

theorem unescape_escape (input : Bytes) : unescape (escape input) = some input := by
  induction input with
  | nil => rfl
  | cons c input ih =>
    have happ : escape (c :: input) = escapeCharacter c ++ escape input := List.flatMap_cons
    rw [happ, unescape_escapeCharacter, ih]
    rfl

theorem escape_injective : Function.Injective escape := fun s t h => by
  have hd := congrArg unescape h
  rw [unescape_escape, unescape_escape] at hd
  exact Option.some.inj hd

/-- **`escape()` is a faithful encoder.** Its second loop stores as many bytes as its first loop has
counted, all of them inside the block, which then holds a string without a newline, terminated by the last
byte; the string can be decoded, which gives the input back; and no other input has the same encoding. -/
theorem escape_faithful (input : Bytes) (hinput : 0 ∉ input) :
    (escapeStores input 0).length = escapeBlock input ∧ Inside (escapeBlock input) (escapeStores input 0) ∧
      (∃ text, escaped input = some (text ++ [0]) ∧ 0 ∉ text ∧ newline ∉ text ∧ unescape text = some input) ∧
      ∀ other, 0 ∉ other → escaped other = escaped input → other = input := by
  refine ⟨length_escapeStores input, inside_escapeStores input, ?_, ?_⟩
  · exact ⟨escape input, escaped_eq input, nul_notMem_escape hinput, newline_notMem_escape input, unescape_escape input⟩
  · intro other _ h
    rw [escaped_eq, escaped_eq, Option.some.injEq] at h
    exact escape_injective (List.append_cancel_right h)

/-- A backslash before an `n`, and a newline. -/
theorem escape_faithful_backslash_n :
    (escapeStores (ascii "\\n" ++ [newline]) 0).length = escapeBlock (ascii "\\n" ++ [newline]) ∧
      escaped (ascii "\\n" ++ [newline]) = some (ascii "\\\\n\\n" ++ [0]) :=
  ⟨(escape_faithful (ascii "\\n" ++ [newline]) (by decide)).1, by decide⟩

end NscaNg.Client
