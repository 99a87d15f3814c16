/-
# The lines of the configuration file

`read_conf_line()` of `src/client/conf.c` with `xfgets()` of `lib/wrappers.c`. A line is read into a
buffer that is doubled when it is full. `pos` is how far the line goes; for a continuation it is
moved back over the backslash and the newline, and the next line is read from there on. At the end
the buffer is cut to `pos + 1` bytes.

The buffer is the list of its bytes up to the last NUL that was stored: what stands behind that is
never looked at. The size for `fgets()` is an `int`.
-/
import NscaNg.Posix.CString

namespace NscaNg.Client

open Posix

/-- The bytes up to the first newline and with it, as far as so many go. -/
def upToNewline : ℕ → Bytes → Bytes
  | 0, _ => []
  | _ + 1, [] => []
  | n + 1, c :: cs => if c = newline then [c] else c :: upToNewline n cs

/-- `fgets()`: what is read, and what is left of the file; `none` for a null pointer. -/
def fgets (size : ℤ) (file : Bytes) : Option (Bytes × Bytes) :=
  if size ≤ 0 ∨ file = [] then none
  else some (upToNewline (size - 1).toNat file, file.drop (upToNewline (size - 1).toNat file).length)

/-- A size as the `int` that `xfgets()` is given. -/
def toInt (size : ℕ) : ℤ := (BitVec.ofNat 32 size).toInt

/-- The variables of `read_conf_line()`, the file and the line number. -/
structure LineState where
  file : Bytes
  line : Bytes
  pos : ℕ
  size : ℕ
  lineNumber : ℕ
  deriving DecidableEq

namespace LineState

/-- What `fgets()` returned is stored, and the length of it is taken. -/
def store (s : LineState) : Option (Bytes × Bytes) → ℕ × LineState
  | none => (0, s)
  | some (input, file) => ((cstr input).length, { s with file := file, line := s.line.take s.pos ++ input ++ [0] })

/-- `len = xfgets(line + pos, (int)(size - pos), f)`. -/
def xfgets (s : LineState) : ℕ × LineState := s.store (fgets (toInt (s.size - s.pos)) s.file)

/-- The `else` branch: a line was read, and may be continued on the next one. -/
def lineRead (readOn : LineState → LineState) (s : LineState) : LineState :=
  if 2 ≤ s.pos ∧ s.line.getD (s.pos - 2) 0 = ch '\\' then
    readOn { s with pos := s.pos - 2, lineNumber := s.lineNumber + 1 }
  else if 2 ≤ s.pos ∧ s.line.getD (s.pos - 2) 0 = ch '\r' then
    { s with
      line := (s.line.set (s.pos - 2) newline).set (s.pos - 1) 0
      pos := s.pos - 1
      lineNumber := s.lineNumber + 1 }
  else { s with lineNumber := s.lineNumber + 1 }

/-- What the loop does with the bytes it has read, if any. -/
def loopBody (readOn : LineState → LineState) : ℕ × LineState → LineState
  | (0, s) => s
  | (len + 1, s) =>
    let s : LineState := { s with pos := s.pos + (len + 1) }
    if s.line.getD (s.pos - 1) 0 ≠ newline ∧ s.pos = s.size - 1 then readOn { s with size := s.size * 2 }
    else s.lineRead readOn

/-- The loop, with at most so many calls of `fgets()`. -/
def readLoop : ℕ → LineState → LineState
  | 0, s => s
  | n + 1, s => loopBody (readLoop n) s.xfgets

/-- `chomp(line)`, on the buffer. -/
def chomp (s : LineState) : LineState :=
  if (cstr s.line).getLast? = some newline then { s with line := s.line.set ((cstr s.line).length - 1) 0 } else s

/-- The block that is returned, of `pos + 1` bytes. -/
def block (s : LineState) : Bytes := s.chomp.line.take (s.pos + 1)

end LineState

/-- What is left of the file, and the line number. -/
structure ConfFile where
  file : Bytes
  lineNumber : ℕ
  deriving DecidableEq

/-- What is left when the loop has ended: nothing was read, or the block is returned. -/
def LineState.result (s : LineState) : Option Bytes × ConfFile :=
  (if s.pos = 0 then none else some s.block, ⟨s.file, s.lineNumber⟩)

/-- `read_conf_line()`; each call of `fgets()` that reads anything makes the file shorter. -/
def readConfLine (f : ConfFile) : Option Bytes × ConfFile :=
  (LineState.readLoop (f.file.length + 1) ⟨f.file, [], 0, 512, f.lineNumber⟩).result

/-- A line that was returned goes before what the next calls return. -/
def followed (next : ConfFile → List (Bytes × ℕ)) : Option Bytes × ConfFile → List (Bytes × ℕ)
  | (none, _) => []
  | (some line, f) => (line, f.lineNumber) :: next f

/-- The lines that successive calls return until there is no more, of which there are at most so
many, each with the line number then. -/
def readConfLines : ℕ → ConfFile → List (Bytes × ℕ)
  | 0, _ => []
  | n + 1, f => followed (readConfLines n) (readConfLine f)

/-! ### What `fgets()` reads -/

/-- The size is passed as it is if an `int` can hold it. -/
theorem toInt_of_lt {size : ℕ} (h : size < 2 ^ 31) : toInt size = size := by
  have hmod : size % 2 ^ 32 = size := Nat.mod_eq_of_lt (by omega)
  unfold toInt
  rw [BitVec.toInt, BitVec.toNat_ofNat, hmod, if_pos (by omega)]

/-- Sizes that make a negative `int`. -/
theorem toInt_neg {size : ℕ} (h1 : 2 ^ 31 ≤ size) (h2 : size < 2 ^ 32) : toInt size < 0 := by
  have hmod : size % 2 ^ 32 = size := Nat.mod_eq_of_lt h2
  unfold toInt
  rw [BitVec.toInt, BitVec.toNat_ofNat, hmod, if_neg (by omega)]
  omega

theorem fgets_of_pos {size : ℕ} (h : 0 < size) {file : Bytes} (hne : file ≠ []) :
    fgets size file = some (upToNewline (size - 1) file, file.drop (upToNewline (size - 1) file).length) := by
  have hnat : ((size : ℤ) - 1).toNat = size - 1 := by omega
  rw [fgets, if_neg (not_or.mpr ⟨by omega, hne⟩), hnat]

theorem upToNewline_newline {body : Bytes} (h : newline ∉ body) {n : ℕ} (hn : body.length < n) (rest : Bytes) :
    upToNewline n (body ++ newline :: rest) = body ++ [newline] := by
  induction body generalizing n with
  | nil =>
    obtain ⟨m, rfl⟩ : ∃ m, n = m + 1 := ⟨n - 1, by simp at hn; omega⟩
    show upToNewline (m + 1) (newline :: rest) = [newline]
    rw [upToNewline, if_pos rfl]
  | cons c cs ih =>
    rw [List.mem_cons, not_or] at h
    obtain ⟨m, rfl⟩ : ∃ m, n = m + 1 := ⟨n - 1, by simp at hn; omega⟩
    show upToNewline (m + 1) (c :: (cs ++ newline :: rest)) = c :: (cs ++ [newline])
    rw [upToNewline, if_neg (Ne.symm h.1), ih h.2 (by simpa using hn)]

theorem upToNewline_full {body : Bytes} (h : newline ∉ body) (rest : Bytes) :
    upToNewline body.length (body ++ rest) = body := by
  induction body with
  | nil => rfl
  | cons c cs ih =>
    rw [List.mem_cons, not_or] at h
    show upToNewline (cs.length + 1) (c :: (cs ++ rest)) = c :: cs
    rw [upToNewline, if_neg (Ne.symm h.1), ih h.2]

theorem upToNewline_last {body : Bytes} (h : newline ∉ body) {n : ℕ} (hn : body.length ≤ n) :
    upToNewline n body = body := by
  induction body generalizing n with
  | nil => cases n <;> rfl
  | cons c cs ih =>
    rw [List.mem_cons, not_or] at h
    obtain ⟨m, rfl⟩ : ∃ m, n = m + 1 := ⟨n - 1, by simp at hn; omega⟩
    rw [upToNewline, if_neg (Ne.symm h.1), ih h.2 (by simpa using hn)]

end NscaNg.Client
