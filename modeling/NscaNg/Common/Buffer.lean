/-
# Buffers

The operations of `src/common/buffer.c` that the connections and the command file use, on the
bytes a buffer holds.
-/
import NscaNg.Posix.CString

namespace NscaNg

open Posix

/-- `buffer_find_char()`: the position of the first such byte, counted from 1, or 0. -/
def bufferFindChar (buf : Bytes) (character : UInt8) : ℕ :=
  if character ∈ buf then buf.idxOf character + 1 else 0

/-- What `buffer_read_line()` does to a line it has read: the terminator becomes a NUL. -/
def terminateLine (line : Bytes) : Bytes :=
  if 2 ≤ line.length ∧ line.getD (line.length - 2) 0 = ch '\r' then line.set (line.length - 2) 0
  else line.set (line.length - 1) 0

/-- `buffer_read_line()`: the line, and what is left. -/
def bufferReadLine (buf : Bytes) : Option (Bytes × Bytes) :=
  match bufferFindChar buf newline with
  | 0 => none
  | size => some (terminateLine (buf.take size), buf.drop size)

theorem bufferReadLine_eq_none {buf : Bytes} : bufferReadLine buf = none ↔ newline ∉ buf := by
  unfold bufferReadLine bufferFindChar
  by_cases h : newline ∈ buf <;> simp [h]

theorem bufferReadLine_line {line : Bytes} (h : newline ∉ line) (rest : Bytes) :
    bufferReadLine (line ++ newline :: rest) = some (terminateLine (line ++ [newline]), rest) := by
  have hidx : (line ++ newline :: rest).idxOf newline = line.length := by
    rw [List.idxOf_append_of_notMem h]
    simp
  have hfind : bufferFindChar (line ++ newline :: rest) newline = line.length + 1 := by
    rw [bufferFindChar, if_pos (by simp), hidx]
  have hsplit : line ++ newline :: rest = (line ++ [newline]) ++ rest := by simp
  unfold bufferReadLine
  rw [hfind]
  have htake : (line ++ newline :: rest).take (line.length + 1) = line ++ [newline] := by
    rw [hsplit, List.take_left' (by simp)]
  have hdrop : (line ++ newline :: rest).drop (line.length + 1) = rest := by
    rw [hsplit, List.drop_left' (by simp)]
  simp only [htake, hdrop]

theorem exists_line {buf : Bytes} (h : newline ∈ buf) :
    ∃ line rest, buf = line ++ newline :: rest ∧ newline ∉ line := by
  obtain ⟨line, rest, hb, hl⟩ := List.eq_append_cons_of_mem h
  exact ⟨line, rest, hb, hl⟩

/-- More bytes behind a complete line do not change it. -/
theorem bufferReadLine_append {buf line rest : Bytes} (h : bufferReadLine buf = some (line, rest))
    (more : Bytes) : bufferReadLine (buf ++ more) = some (line, rest ++ more) := by
  have hmem : newline ∈ buf := by
    by_contra hc
    rw [bufferReadLine_eq_none.mpr hc] at h
    cases h
  obtain ⟨l, r, rfl, hl⟩ := exists_line hmem
  rw [bufferReadLine_line hl] at h
  rw [List.append_assoc, List.cons_append, bufferReadLine_line hl]
  cases h
  rfl

/-! ### Chunks -/

/-- `buffer_read_chunk()`: the chunk with a NUL for its terminator, and what is left. -/
def bufferReadChunk (buf : Bytes) (terminator : UInt8) : Option (Bytes × Bytes) :=
  match bufferFindChar buf terminator with
  | 0 => none
  | size => some ((buf.take size).set (size - 1) 0, buf.drop size)

theorem bufferReadChunk_eq_none {buf : Bytes} {terminator : UInt8} :
    bufferReadChunk buf terminator = none ↔ terminator ∉ buf := by
  unfold bufferReadChunk bufferFindChar
  by_cases h : terminator ∈ buf <;> simp [h]

theorem bufferReadChunk_chunk {chunk : Bytes} {terminator : UInt8} (h : terminator ∉ chunk) (rest : Bytes) :
    bufferReadChunk (chunk ++ terminator :: rest) terminator = some (chunk ++ [0], rest) := by
  have hfind : bufferFindChar (chunk ++ terminator :: rest) terminator = chunk.length + 1 := by
    rw [bufferFindChar, if_pos (by simp), List.idxOf_append_of_notMem h, List.idxOf_cons_self]
  have hsplit : chunk ++ terminator :: rest = (chunk ++ [terminator]) ++ rest := by simp
  have hset : (chunk ++ [terminator]).set chunk.length 0 = chunk ++ [0] := by
    rw [List.set_append_right _ _ (Nat.le_refl _), Nat.sub_self]
    rfl
  unfold bufferReadChunk
  rw [hfind, hsplit]
  show some (((chunk ++ [terminator] ++ rest).take (chunk.length + 1)).set chunk.length 0,
    (chunk ++ [terminator] ++ rest).drop (chunk.length + 1)) = _
  rw [List.take_left' (by simp), List.drop_left' (by simp), hset]

/-- What `buffer_read_chunk()` finds stands before the first terminator. -/
theorem bufferReadChunk_eq_some {buf chunk rest : Bytes} {terminator : UInt8}
    (h : bufferReadChunk buf terminator = some (chunk, rest)) :
    ∃ data, terminator ∉ data ∧ buf = data ++ terminator :: rest ∧ chunk = data ++ [0] := by
  have hmem : terminator ∈ buf := by
    by_contra hc
    rw [bufferReadChunk_eq_none.mpr hc] at h
    cases h
  obtain ⟨data, tail, rfl, hdata⟩ := List.eq_append_cons_of_mem hmem
  rw [bufferReadChunk_chunk hdata] at h
  cases h
  exact ⟨data, hdata, rfl, rfl⟩

end NscaNg
