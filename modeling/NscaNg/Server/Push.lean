/-
# Command data from a client

`handle_push()` of `src/server/server.c`. The data is a block of `input_length` bytes that
`read_bytes()` of `src/common/tls.c` puts a NUL behind. It is authorized as the C string it
holds, but handed to `fifo_write()` as a block of `input_length` bytes, so a NUL in the data ends
what is checked before it ends what is written (`pushed_authorized_iff`).
-/
import NscaNg.Server.Auth

namespace NscaNg

open Posix

/-- The handlers of `src/server/server.c` that a read request names. -/
inductive ReadHandler
  | handshake
  | connection
  | push
  deriving DecidableEq

/-- A call a handler makes. -/
inductive Call
  | fifoWrite (data : Bytes)
  | free (data : Bytes)
  | sendResponse (response : Bytes)
  | readLine (handler : ReadHandler)
  deriving DecidableEq

section

variable {ρ : Type} (regexec : ρ → Bytes → RegexecResult)

/-- The block `read_bytes()` returns for the data. -/
def readBlock (data : Bytes) : Bytes := data ++ [0]

/-- `handle_push()`: its calls in order. -/
def handlePush (table : AuthTable ρ) (identity : Bytes) (inputLength : ℕ) (block : Bytes) : List Call :=
  if isAuthorized regexec table identity (cstr block) then
    [.fifoWrite (block.take inputLength), .sendResponse (ascii "OKAY"), .readLine .connection]
  else
    [.free block, .sendResponse (ascii "FAIL You're not authorized"), .readLine .connection]

/-- The bytes are one command authorized as a whole: the last byte is the only newline, the
string that was checked is all of them, and the text a pattern of the client matched goes to the
end of them. -/
def AuthorizedWhole (table : AuthTable ρ) (identity bytes : Bytes) : Prop :=
  Terminated bytes ∧ cstr bytes = bytes ∧
    ∃ text, matchedText bytes = some text ∧ text <:+ bytes ∧ Permits regexec table identity text

/-- What `handle_push()` does with the data, said of the data alone. -/
theorem fifoWrite_mem_handlePush {table : AuthTable ρ} {identity data bytes : Bytes} :
    .fifoWrite bytes ∈ handlePush regexec table identity data.length (readBlock data) ↔
      bytes = data ∧ Acceptable regexec table identity (cstr data) := by
  unfold handlePush
  rw [readBlock, cstr_terminated, List.take_left, ← isAuthorized_iff]
  split <;> rename_i h
  · simp [h]
  · simp [h]

/-- **What is forwarded was authorized.** Data of any bytes: what `handle_push()` hands to
`fifo_write()`, if anything, is the data, one command authorized as a whole. This holds exactly of
the data that contains no NUL or whose beginning up to the first NUL is not acceptable. -/
theorem pushed_authorized_iff (table : AuthTable ρ) (identity data : Bytes) :
    (∀ bytes, .fifoWrite bytes ∈ handlePush regexec table identity data.length (readBlock data) →
        bytes = data ∧ AuthorizedWhole regexec table identity bytes) ↔
      (0 ∉ data ∨ ¬ Acceptable regexec table identity (cstr data)) := by
  simp only [fifoWrite_mem_handlePush]
  constructor
  · intro h
    by_contra hc
    simp only [not_or, not_not] at hc
    obtain ⟨hnul, hacc⟩ := hc
    obtain ⟨-, -, hwhole, -⟩ := h data ⟨rfl, hacc⟩
    exact (cstr_eq_self_iff data).mp hwhole hnul
  · rintro h bytes ⟨rfl, hacc⟩
    have hnul : 0 ∉ bytes := h.resolve_right (not_not.mpr hacc)
    have hwhole := (cstr_eq_self_iff bytes).mpr hnul
    rw [hwhole] at hacc
    obtain ⟨hterm, text, ht, hp⟩ := hacc
    exact ⟨rfl, hterm, hwhole, text, ht, matchedText_suffix ht, hp⟩

end

/-- A client that may only submit comments sends `SHUTDOWN_PROGRAM` behind a NUL. -/
theorem not_pushed_authorized :
    ¬ ∀ (ρ : Type) (regexec : ρ → Bytes → RegexecResult) (table : AuthTable ρ)
        (identity data : Bytes), 1 ≤ data.length →
      ∀ bytes, .fifoWrite bytes ∈ handlePush regexec table identity data.length (readBlock data) →
        bytes = data ∧ AuthorizedWhole regexec table identity bytes := by
  intro h
  obtain ⟨-, -, hwhole, -⟩ := h Regex posixRegexec
    [(ascii "*", ⟨[], [], [(regcomp (ascii "^ADD_HOST_COMMENT;.*\n?$")).getD []]⟩)] (ascii "web")
    (ascii "[1] ADD_HOST_COMMENT;\n" ++ 0 :: ascii "\n[1] SHUTDOWN_PROGRAM\n") (by decide)
    (ascii "[1] ADD_HOST_COMMENT;\n" ++ 0 :: ascii "\n[1] SHUTDOWN_PROGRAM\n") (by decide +kernel)
  exact absurd hwhole (by decide)

end NscaNg
