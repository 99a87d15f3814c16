/-
# The handlers of the server

The handlers of `src/server/server.c` that a connection calls. Each is the list of what it does, in
order (`Action`); the lines and blocks it is given are the memory that `read_line()` and
`read_bytes()` of `src/common/tls.c` return.

`responses` and `requests` are the lines a handler queues and the read requests it issues.
-/
import NscaNg.Posix.Scan
import NscaNg.Server.Push

namespace NscaNg
namespace Server

open Posix

inductive Handler
  | connect
  | read (handler : ReadHandler)
  | error
  | timeout
  | lineTooLong
  deriving DecidableEq

/-- A call a handler makes, or an access to its `connection_state`. The line that is freed at the
end of a handler is left out, as is what is logged. -/
inductive Action
  | allocate
  | access
  | connectionStop
  | setInputLength (size : ℕ)
  | setConnectionId (id : Bytes)
  | fifoWrite (data : Bytes)
  | free (data : Bytes)
  | sendResponse (response : Bytes)
  | tlsRead (handler : ReadHandler) (size : ℕ)
  | tlsWrite (data : Bytes)
  | tlsWriteLine (string : Bytes)
  | tlsShutdown
  | tlsOnTimeout
  | tlsOnError
  | tlsOnLineTooLong
  deriving DecidableEq

/-- `tls_read_line()`. -/
abbrev Action.tlsReadLine (handler : ReadHandler) : Action := .tlsRead handler 0

def Action.ofCall : Call → Action
  | .fifoWrite data => .fifoWrite data
  | .free data => .free data
  | .sendResponse response => .sendResponse response
  | .readLine handler => .tlsReadLine handler

/-- What separates the arguments of a request. -/
def blanks : Bytes := ascii " \t"

/-- `parse_line()` of `src/common/util.c`: the arguments, if there are as many as expected. -/
def parseLine (line : Bytes) (nArgs : ℕ) : Option (List Bytes) :=
  let args := strtokAll blanks (line.length + 1) line
  if args.length = nArgs then some args else none

/-- The line starts with this keyword. -/
def HasKeyword (keyword : String) (line : Bytes) : Prop := strncasecmp (ascii keyword) line 4 = 0

instance decidableHasKeyword (keyword : String) (line : Bytes) : Decidable (HasKeyword keyword line) :=
  inferInstanceAs (Decidable (_ = _))

def bail (message : String) : List Action :=
  [.tlsWrite (ascii "BAIL "), .tlsWriteLine (ascii message), .tlsShutdown, .connectionStop]

/-- `client_exited()`: what it does if it returns true. -/
def clientExited (line : Bytes) : Option (List Action) :=
  if HasKeyword "QUIT" line then some [.sendResponse (ascii "OKAY"), .tlsShutdown, .connectionStop]
  else if HasKeyword "BAIL" line then some [.tlsShutdown, .connectionStop]
  else none

def handleConnect : List Action :=
  [.allocate, .tlsOnTimeout, .tlsOnError, .tlsOnLineTooLong, .tlsReadLine .handshake]

def handleHandshake (line : Bytes) : List Action :=
  if HasKeyword "MOIN" line then
    match parseLine line 3 with
    | none => [.sendResponse (ascii "FAIL Cannot parse MOIN request"), .tlsReadLine .handshake]
    | some args =>
      if atoi (args.getD 1 []) ≤ 0 then
        [.sendResponse (ascii "FAIL Expected protocol version"), .tlsReadLine .handshake]
      else [.setConnectionId (args.getD 2 []), .sendResponse (ascii "MOIN 1"), .tlsReadLine .connection]
  else if HasKeyword "PING" line then [.sendResponse (ascii "PONG 1"), .tlsShutdown, .connectionStop]
  else
    match clientExited line with
    | some actions => actions
    | none => [.sendResponse (ascii "FAIL Expected MOIN or PING or BAIL"), .tlsReadLine .handshake]

def handleConnection (maxCommandSize : ℕ) (line : Bytes) : List Action :=
  if HasKeyword "NOOP" line then [.sendResponse (ascii "OKAY")]
  else if HasKeyword "PUSH" line then
    match parseLine line 2 with
    | none => [.sendResponse (ascii "FAIL Cannot parse PUSH request"), .tlsReadLine .connection]
    | some args =>
      let dataSize := atoi (args.getD 1 [])
      if dataSize ≤ 0 then
        [.sendResponse (ascii "FAIL Expected number of bytes"), .tlsReadLine .connection]
      else if 0 < maxCommandSize ∧ maxCommandSize < dataSize.toNat then
        [.access, .sendResponse (ascii "FAIL PUSH data size too large"), .tlsReadLine .connection]
      else
        [.access, .sendResponse (ascii "OKAY"), .setInputLength dataSize.toNat, .tlsRead .push dataSize.toNat]
  else
    match clientExited line with
    | some actions => actions
    | none => [.sendResponse (ascii "FAIL Expected PUSH or NOOP or QUIT"), .tlsReadLine .connection]

/-- What `handle_push()` of `NscaNg.Server.Push` does. -/
def handlePushData {ρ : Type} (regexec : ρ → Bytes → RegexecResult) (table : AuthTable ρ) (identity : Bytes)
    (inputLength : ℕ) (block : Bytes) : List Action :=
  .access :: (handlePush regexec table identity inputLength block).map .ofCall

def handleError : List Action := [.connectionStop]

def handleTimeout : List Action := bail "Connection timed out"

def handleLineTooLong : List Action := bail "Request line too long"

/-! ### Responses and requests -/

/-- The lines that are queued. -/
def responses (actions : List Action) : List Bytes :=
  actions.filterMap fun action =>
    match action with
    | .sendResponse response => some response
    | _ => none

/-- The read requests that are issued. -/
def requests (actions : List Action) : List (ReadHandler × ℕ) :=
  actions.filterMap fun action =>
    match action with
    | .tlsRead handler size => some (handler, size)
    | _ => none

/-- A line has no more than one keyword. -/
theorem HasKeyword.unique {k k' : String} {line : Bytes} (h : HasKeyword k line) (h' : HasKeyword k' line)
    (hk : (ascii k).length = 4 ∧ 0 ∉ ascii k) (hk' : (ascii k').length = 4 ∧ 0 ∉ ascii k') :
    (ascii k).map toLower = (ascii k').map toLower := by
  unfold HasKeyword at h h'
  rw [← hk.1] at h
  rw [← hk'.1] at h'
  rw [← (strncasecmp_eq_zero_iff hk.2 line).mp h, ← (strncasecmp_eq_zero_iff hk'.2 line).mp h', hk.1, hk'.1]

theorem parseLine_eq_some_iff {line : Bytes} {nArgs : ℕ} {args : List Bytes} :
    parseLine line nArgs = some args ↔ Words blanks line args ∧ args.length = nArgs := by
  have hwords : ∀ words, strtokAll blanks (line.length + 1) line = words ↔ Words blanks line words :=
    fun words => strtokAll_eq_iff (Nat.lt_succ_self _)
  unfold parseLine
  dsimp only
  constructor
  · intro h
    split at h
    · rename_i hlen
      cases h
      exact ⟨(hwords _).mp rfl, hlen⟩
    · cases h
  · rintro ⟨hw, hlen⟩
    rw [(hwords args).mpr hw, if_pos hlen]

end Server
end NscaNg
