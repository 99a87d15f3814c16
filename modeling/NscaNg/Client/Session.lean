/-
# Sessions of the client

A connection of `src/common/tls.c` and a reader of `src/client/input.c` together with their user,
`src/client/client.c`. A step is an event of the loop: the callback runs, and the handler it calls does what
it does. The handlers are functions of the session here; only the read handlers may ask for the next chunk,
so their event says how `read(2)` comes out and what time it is.

The connection is made with `TLS_AUTO_DIE`: what frees it ends the program, unless both sides have closed it.
`exitStatus` is what `main()` returns once no watcher is active.
-/
import NscaNg.Posix.Stdio
import NscaNg.Common.TlsStart
import NscaNg.Client.Input
import NscaNg.Client.Submission
import NscaNg.Server.Handlers

namespace NscaNg.Client

open Posix Libev

inductive Handler
  | connect
  | moinResponse
  | pushResponse
  | commandResponse
  | quitResponse
  deriving DecidableEq

/-- What Base64 makes use of. -/
def base64Characters : Bytes := ascii "ABCDEFGHIJKLMNOPQRSTUVWXYZabcdefghijklmnopqrstuvwxyz0123456789+/="

structure Config where
  progname : Bytes
  mode : ClientMode
  delimiter : UInt8
  separator : UInt8
  timeout : ℚ
  /-- What `generate_session_id()` makes of six random bytes. -/
  sessionId : Bytes
  sessionId_base64 : ∀ c ∈ sessionId, c ∈ base64Characters
  sessionId_length : sessionId.length = 8
  stdin : Bytes

theorem Config.sessionId_plain (cfg : Config) : Plain cfg.sessionId :=
  ⟨fun h => absurd (cfg.sessionId_base64 _ h) (by decide), fun h => absurd (cfg.sessionId_base64 _ h) (by decide)⟩

theorem Config.sessionId_word (cfg : Config) : cfg.sessionId ≠ [] ∧ ∀ c ∈ cfg.sessionId, c ∉ Server.blanks := by
  refine ⟨fun hnil => ?_, fun c hc hblank => ?_⟩
  · have hlength := cfg.sessionId_length
    rw [hnil] at hlength
    cases hlength
  · have hbase64 := cfg.sessionId_base64 c hc
    have hcases : c ∈ [ch ' ', ch '\t'] := hblank
    rcases List.mem_pair.mp hcases with rfl | rfl <;> exact absurd hbase64 (by decide)

structure Session where
  tls : Tls.State Handler
  /-- The reader of the standard input, once it has been started. -/
  reader : Option Reader
  /-- Whether `client->input` is set. -/
  input : Bool
  command : Option Submission
  exitCode : ℕ
  /-- `die()` has ended the program. -/
  died : Bool
  /-- The commands that have been built, as the bytes that are to be sent. -/
  built : List Bytes

/-! ### What the handlers call -/

def sendRequest (request : Bytes) (s : Session) : Session := { s with tls := Tls.tlsWriteLine request s.tls }

def tlsReadLine (handler : Handler) (s : Session) : Session := { s with tls := Tls.tlsRead handler 0 s.tls }

/-- `client_stop()`. -/
def clientStop (s : Session) : Session :=
  { s with
    reader := if s.input then s.reader.map fun r => { r.stop with owed := false, cancelled := true } else s.reader
    tls := Tls.tlsShutdown s.tls }

def bail (message : Bytes) (s : Session) : Session :=
  { clientStop { s with tls := Tls.tlsWriteLine message (Tls.tlsWrite (ascii "BAIL ") false s.tls) } with exitCode := 1 }

/-- `server_is_grumpy()`: what it does if it returns true. -/
def serverIsGrumpy (line : Bytes) (s : Session) : Option Session :=
  if Server.HasKeyword "FAIL" line ∨ Server.HasKeyword "BAIL" line then some { clientStop s with exitCode := 1 }
  else none

/-! ### Standard input -/

/-- The separator the reader is started with. -/
def Config.chunkSeparator (cfg : Config) : UInt8 := clientSeparator cfg.mode cfg.separator

/-- `handle_input_chunk()` ignores empty input lines, and asks for the next chunk at once. -/
def asksAgain (trace : List Item) : Bool :=
  match trace.getLast? with
  | some (.chunk chunk) => Util.skipNewlines (cstr chunk) = []
  | _ => false

/-- `handle_input_chunk()`, for a chunk that is not ignored. -/
def announce (cfg : Config) (now : ℕ) (chunk : Bytes) (s : Session) : Session :=
  match handleInputChunk cfg.progname now cfg.mode cfg.delimiter chunk with
  | .error _ => { s with died := true }
  | .ok none => s
  | .ok (some submission) =>
    tlsReadLine .pushResponse (sendRequest submission.request
      { s with command := some submission, built := s.built ++ [submission.sent] })

def handleInputEof (s : Session) : Session :=
  tlsReadLine .quitResponse (sendRequest (ascii "QUIT") { s with input := false })

/-- The reader has come to this state, and the handler it has called last does its work. -/
def hear (cfg : Config) (now : ℕ) (s : Session) (r : Reader) : Session :=
  let s := { s with reader := some r }
  if r.died then { s with died := true }
  else
    match r.trace.getLast? with
    | some (.chunk chunk) => announce cfg now chunk s
    | some .eof => handleInputEof s
    | _ => s

/-- `input_read_chunk()`. -/
def inputReadChunk (cfg : Config) (readings : List Reading) (now : ℕ) (s : Session) : Session :=
  match s.reader with
  | some r =>
    hear cfg now s (Reader.request (Reader.readCb cfg.chunkSeparator asksAgain (r.work + 1))
      { r with readings := readings })
  | none => s

/-! ### Handlers of the connection -/

def handleTlsConnect (cfg : Config) (s : Session) : Session :=
  tlsReadLine .moinResponse (sendRequest (ascii "MOIN 1 " ++ cfg.sessionId) s)

def handleTlsMoinResponse (cfg : Config) (readings : List Reading) (now : ℕ) (line : Bytes) (s : Session) : Session :=
  if Server.HasKeyword "MOIN" line then
    match Server.parseLine line 2 with
    | none => bail (ascii "Cannot parse MOIN response") s
    | some args =>
      let protocolVersion := atoi (args.getD 1 [])
      if protocolVersion ≤ 0 then bail (ascii "Expected protocol version") s
      else if protocolVersion ≠ 1 then
        bail (ascii "Protocol version " ++ decimalInt protocolVersion ++ ascii " not supported") s
      else inputReadChunk cfg readings now { s with reader := some (Reader.start cfg.stdin), input := true }
  else (serverIsGrumpy line s).getD (bail (ascii "Received unexpected MOIN response") s)

def handleTlsPushResponse (line : Bytes) (s : Session) : Session :=
  if strcasecmp (ascii "OKAY") line = 0 then
    match s.command with
    | some submission => tlsReadLine .commandResponse { s with tls := Tls.tlsWrite submission.sent true s.tls }
    | none => s
  else (serverIsGrumpy line s).getD (bail (ascii "Received unexpected PUSH response") s)

def handleTlsCommandResponse (cfg : Config) (readings : List Reading) (now : ℕ) (line : Bytes) (s : Session) :
    Session :=
  if strcasecmp (ascii "OKAY") line = 0 then inputReadChunk cfg readings now s
  else (serverIsGrumpy line s).getD (bail (ascii "Received unexpected response after sending command(s)") s)

def handleTlsQuitResponse (line : Bytes) (s : Session) : Session :=
  if strcasecmp (ascii "OKAY") line = 0 then clientStop s
  else (serverIsGrumpy line s).getD (bail (ascii "Received unexpected QUIT response") s)

/-! ### Steps -/

inductive Event
  | advance (time : ℚ)
  | ready (w : Tls.Watcher)
  | expire
  | connectCb (reply : Except Tls.SslError Unit)
  | readCb (replies : List Tls.SslRead) (readings : List Reading) (now : ℕ)
  | writeCb (replies : List Tls.SslWrite)
  | shutdownCb (replies : List Tls.SslShutdown)
  | timeoutCb
  /-- The callback of the reader. -/
  | inputCb (readings : List Reading) (now : ℕ)

/-- The event, as the connection sees it. -/
def Event.tls : Event → Option (Tls.Event Handler)
  | .advance time => some (.advance time)
  | .ready w => some (.ready w)
  | .expire => some .expire
  | .connectCb (.error e) => some (.acceptSslCb (.error e))
  | .connectCb (.ok ()) => some (.acceptSslCb (.established true))
  | .readCb replies _ _ => some (.readCb replies)
  | .writeCb replies => some (.writeCb replies)
  | .shutdownCb replies => some (.shutdownCb replies)
  | .timeoutCb => some .timeoutCb
  | .inputCb _ _ => none

/-- `shutdown_cb()` frees the connection because both sides have closed it. -/
def Event.closes : Event → Bool
  | .shutdownCb replies => replies.find? (· ≠ .sent) = some .done
  | _ => false

/-- How `read(2)` comes out, and the time. -/
def Event.readings : Event → List Reading × ℕ
  | .readCb _ readings now | .inputCb readings now => (readings, now)
  | _ => ([], 0)

def answer (cfg : Config) (readings : List Reading) (now : ℕ) (s : Session) : Tls.Upcall Handler → Session
  | .connect _ => handleTlsConnect cfg s
  | .read .moinResponse line => handleTlsMoinResponse cfg readings now (cstr line) s
  | .read .pushResponse line => handleTlsPushResponse (cstr line) s
  | .read .commandResponse line => handleTlsCommandResponse cfg readings now (cstr line) s
  | .read .quitResponse line => handleTlsQuitResponse (cstr line) s
  | .read .connect _ | .error _ | .timeout _ | .lineTooLong _ => s

/-- The connection has made a step, and a handler that was called does its work. -/
def react (cfg : Config) (closes : Bool) (readings : List Reading × ℕ) (s : Session) (t : Tls.State Handler) :
    Session :=
  if t.freed ∧ closes = false then { s with tls := t, died := true }
  else
    match t.history.upcalls.drop s.tls.history.upcalls.length with
    | [] => { s with tls := t }
    | upcall :: _ => answer cfg readings.1 readings.2 { s with tls := t } upcall

/-- A step of the event loop. -/
def step (cfg : Config) (s : Session) (e : Event) : Option Session :=
  if s.died ∨ s.tls.died then none
  else
    match e.tls with
    | some e' => (Tls.step s.tls e').map (react cfg e.closes e.readings s)
    | none =>
      match s.reader with
      | some r =>
        (r.step cfg.chunkSeparator asksAgain (.ready e.readings.1)).map (hear cfg e.readings.2 s)
      | none => none

/-- `client_start()`: whether a socket was created, and how `SSL_connect()` ended. -/
def start (cfg : Config) (hasSocket : Bool) (reply : Tls.SslAccept) (now : ℚ) : Session :=
  react cfg false ([], 0)
    { tls := Tls.tlsNew .connect cfg.timeout now
      reader := none
      input := false
      command := none
      exitCode := 0
      died := false
      built := [] }
    (Tls.tlsConnect hasSocket reply .connect none cfg.timeout now)

/-- The exit status, when the program has ended. -/
def Session.exitStatus (s : Session) : Option ℕ :=
  if s.died ∨ s.tls.died then some 1
  else if s.tls.loop.active = ∅ ∧ ∀ r ∈ s.reader, r.active = false then some s.exitCode
  else none

end NscaNg.Client
