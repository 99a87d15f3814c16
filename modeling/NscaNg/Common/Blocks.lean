/-
# Buffers as chains of blocks

The buffers of `src/common/buffer.c` as they lie in memory: a chain of blocks of 128 bytes, of which
the first one is read from and the last one is written to. An operation gives nothing (`none`) when an
assertion fails, when it uses memory that is not there, or when a loop does not come to an end.

New memory has any contents (`junk`).
-/
import NscaNg.Common.Buffer
import NscaNg.Memory.Heap

namespace NscaNg
namespace Blocks

open Posix Memory

/-- `BUFFER_BLOCK_SIZE`. -/
def blockSize : ℕ := 128

/-- The data of a block. -/
structure Data where
  bytes : Bytes
  length : bytes.length = blockSize

structure Block where
  data : Data
  next : Option ℕ

structure Buffer where
  heap : Heap Block
  first : Option ℕ
  last : Option ℕ
  startOffset : ℕ
  endOffset : ℕ
  size : ℕ

/-- `memcpy()` to the data of a block. -/
def Data.store (d : Data) (offset : ℕ) (bytes : Bytes) : Option Data :=
  if h : offset + bytes.length ≤ blockSize then
    some ⟨d.bytes.take offset ++ bytes ++ d.bytes.drop (offset + bytes.length), by
      have := d.length
      simp only [List.length_append, List.length_take, List.length_drop]
      omega⟩
  else none

/-- `buffer_new()`. -/
def bufferNew : Buffer := ⟨Heap.empty, none, none, 0, 0, 0⟩

/-! ### Blocks -/

section

variable (junk : ℕ → Data)

def blockAdd (buf : Buffer) : Option Buffer :=
  let blk := buf.heap.bound
  let heap := buf.heap.alloc ⟨junk blk, none⟩
  match buf.first with
  | none => some { buf with heap := heap, first := some blk, last := some blk }
  | some _ => do
    let last ← buf.last
    let heap ← heap.modify last fun b => some { b with next := some blk }
    some { buf with heap := heap, last := some blk }

def blockRemove (buf : Buffer) : Option Buffer := do
  let blk ← buf.first
  let b ← buf.heap.cells blk
  some { buf with
    heap := buf.heap.free blk
    first := b.next
    last := if b.next = none then none else buf.last }

/-- `block_detach()`: the memory of the only block, if the buffer's data is all in there from its beginning
on and has this size. -/
def blockDetach (buf : Buffer) (size : ℕ) : Option (Option Bytes × Buffer) :=
  match buf.first with
  | none => some (none, buf)
  | some blk =>
    if buf.first = buf.last ∧ buf.startOffset = 0 ∧ buf.size = size then do
      let b ← buf.heap.cells blk
      some (some b.data.bytes, ⟨buf.heap.free blk, none, none, 0, 0, 0⟩)
    else some (none, buf)

/-! ### Reading and writing -/

/-- The room in the last block. -/
def Buffer.room (buf : Buffer) : ℕ :=
  match buf.last with
  | none => 0
  | some _ => blockSize - buf.endOffset

/-- The room in the block that is written to, which will be a new one if the last one is full. -/
def Buffer.available (buf : Buffer) : ℕ := if buf.room = 0 then blockSize else buf.room

/-- A block is added if there is no room. -/
def makeRoom (buf : Buffer) : Option Buffer :=
  if buf.room = 0 then (blockAdd junk buf).map fun buf => { buf with endOffset := 0 } else some buf

/-- Bytes are put behind those in the last block. -/
def appendPiece (buf : Buffer) (input : Bytes) : Option Buffer := do
  let buf ← makeRoom junk buf
  let last ← buf.last
  let heap ← buf.heap.modify last fun b => (b.data.store buf.endOffset input).map fun d => { b with data := d }
  some { buf with heap := heap, endOffset := buf.endOffset + input.length }

theorem available_pos (buf : Buffer) : 0 < buf.available := by
  unfold Buffer.available
  split
  · decide
  · omega

/-- The loop of `buffer_append()`. -/
def appendLoop (buf : Buffer) : Bytes → Option Buffer
  | [] => some buf
  | x :: xs =>
    match appendPiece junk buf ((x :: xs).take buf.available) with
    | none => none
    | some buf' => appendLoop buf' ((x :: xs).drop buf.available)
termination_by input => input.length
decreasing_by
  have hpos := available_pos buf
  rw [List.length_drop, List.length_cons]
  omega

def bufferAppend (buf : Buffer) (input : Bytes) : Option Buffer :=
  (appendLoop junk buf input).map fun buf => { buf with size := buf.size + input.length }

end

/-- Bytes are taken from the first block, which is removed when it has been read. -/
def readPiece (buf : Buffer) (n : ℕ) : Option (Bytes × Buffer) := do
  let first ← buf.first
  let b ← buf.heap.cells first
  let out := (b.data.bytes.drop buf.startOffset).take n
  let buf := { buf with startOffset := buf.startOffset + n }
  if buf.startOffset = blockSize then do
    let buf ← blockRemove buf
    some (out, { buf with startOffset := 0 })
  else some (out, buf)

/-- The loop of `buffer_read()`. -/
def readLoop (buf : Buffer) (todo : ℕ) : Option (Bytes × Buffer) :=
  if todo = 0 then some ([], buf)
  else if blockSize - buf.startOffset = 0 then none
  else
    match readPiece buf (min todo (blockSize - buf.startOffset)) with
    | none => none
    | some (out, buf') =>
      (readLoop buf' (todo - min todo (blockSize - buf.startOffset))).map fun (rest, buf) => (out ++ rest, buf)
termination_by todo

/-- `buffer_read()`: how many bytes, and these. -/
def bufferRead (buf : Buffer) (size : ℕ) : Option (ℕ × Bytes × Buffer) := do
  let total := min size buf.size
  let (out, buf) ← readLoop buf total
  let buf := { buf with size := buf.size - total }
  if buf.size = 0 ∧ buf.first ≠ none then do
    let buf ← blockRemove buf
    some (total, out, { buf with startOffset := 0 })
  else some (total, out, buf)

/-- `buffer_read_alloc()`: how many bytes, and memory that begins with these. -/
def bufferReadAlloc (buf : Buffer) (size : ℕ) : Option (ℕ × Bytes × Buffer) := do
  let (data, buf) ← blockDetach buf size
  match data with
  | some data => some (size, data, buf)
  | none => bufferRead buf size

/-- The inner loop of `buffer_find_char()`: the position of the character, or of what comes next. -/
def findInBlock (character : UInt8) : Bytes → ℕ → ℕ ⊕ ℕ
  | [], pos => .inr pos
  | x :: xs, pos => if x = character then .inl pos else findInBlock character xs (pos + 1)

/-- The outer loop of `buffer_find_char()`, for a number of blocks at most. -/
def findLoop (buf : Buffer) (character : UInt8) : ℕ → Option ℕ → ℕ → Option ℕ
  | _, none, _ => some 0
  | 0, some _, _ => none
  | blocks + 1, some b, pos => do
    let blk ← buf.heap.cells b
    let i := if some b = buf.first then buf.startOffset else 0
    let endOffset := if some b = buf.last then buf.endOffset else blockSize
    match findInBlock character ((blk.data.bytes.take endOffset).drop i) pos with
    | .inl pos => some pos
    | .inr pos => findLoop buf character blocks blk.next pos

/-- There are no more blocks than have been allocated. -/
def bufferFindChar (buf : Buffer) (character : UInt8) : Option ℕ :=
  findLoop buf character buf.heap.bound buf.first 1

/-- `buffer_read_line()`: the memory of the line, or a null pointer. -/
def bufferReadLine (buf : Buffer) : Option (Option (ℕ × Bytes) × Buffer) := do
  let size ← bufferFindChar buf newline
  if size = 0 then some (none, buf)
  else do
    let (size, line, buf) ← bufferReadAlloc buf size
    if 2 ≤ size ∧ line.getD (size - 2) 0 = ch '\r' then some (some (size, line.set (size - 2) 0), buf)
    else some (some (size, line.set (size - 1) 0), buf)

def bufferReadChunk (buf : Buffer) (terminator : UInt8) : Option (Option (ℕ × Bytes) × Buffer) := do
  let size ← bufferFindChar buf terminator
  if size = 0 then some (none, buf)
  else do
    let (size, chunk, buf) ← bufferReadAlloc buf size
    some (some (size, chunk.set (size - 1) 0), buf)

def bufferSlurp (buf : Buffer) : Option (ℕ × Bytes × Buffer) := bufferReadAlloc buf buf.size

def bufferSize (buf : Buffer) : ℕ := buf.size

/-! ### Operations -/

inductive Op
  | append (input : Bytes)
  | read (size : ℕ)
  | readAlloc (size : ℕ)
  | readLine
  | readChunk (terminator : UInt8)
  | slurp
  | size

/-- What an operation returns. Of memory it is what has been written to it. -/
inductive Result
  | none
  | bytes (size : ℕ) (bytes : Bytes)
  | string (string : Option Bytes)
  | size (size : ℕ)
  deriving DecidableEq

def stringOf (memory : Option (ℕ × Bytes)) : Result := .string (memory.map fun m => m.2.take m.1)

def step (junk : ℕ → Data) (buf : Buffer) : Op → Option (Result × Buffer)
  | .append input => (bufferAppend junk buf input).map fun buf => (.none, buf)
  | .read size => (bufferRead buf size).map fun (n, out, buf) => (.bytes n out, buf)
  | .readAlloc size => (bufferReadAlloc buf size).map fun (n, data, buf) => (.bytes n (data.take n), buf)
  | .readLine => (bufferReadLine buf).map fun (line, buf) => (stringOf line, buf)
  | .readChunk terminator => (bufferReadChunk buf terminator).map fun (chunk, buf) => (stringOf chunk, buf)
  | .slurp => (bufferSlurp buf).map fun (n, data, buf) => (.bytes n (data.take n), buf)
  | .size => some (.size (bufferSize buf), buf)

/-- One operation after the other. -/
def run (junk : ℕ → Data) : Buffer → List Op → Option (List Result × Buffer)
  | buf, [] => some ([], buf)
  | buf, op :: ops =>
    match step junk buf op with
    | none => none
    | some (result, buf) => (run junk buf ops).map fun (results, buf) => (result :: results, buf)

end Blocks
end NscaNg
