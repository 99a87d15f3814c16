/-
# Sessions of the server

A connection of `src/common/tls.c` together with its user, `src/server/server.c`. A step is an event of
the loop: the callback runs (`NscaNg.Common.Tls`), and if it has called a handler, the handler does what
it does (`NscaNg.Server.Handlers`), call by call (`perform`). The log has an entry for each handler that
was called.

To free a `tls_state` or a `connection_state` is to set a flag. Whoever uses one that has been freed, or
frees it again, is at fault: a handler that looks into its `connection_state` or calls a function of the
connection, and the event loop if it comes back to a watcher of the connection. The exception is the
callback of a timer that has expired before its connection was freed; see `NscaNg.Common.TlsRelease`.
-/
import NscaNg.Common.TlsUpcalls
import NscaNg.Server.Handlers

namespace NscaNg
namespace Server

open Posix Libev

/-- What the handlers know of the server. -/
structure Config (ρ : Type) where
  maxCommandSize : ℕ
  timeout : ℚ
  table : AuthTable ρ
  regexec : ρ → Bytes → RegexecResult

/-- What has become of the `connection_state`. -/
inductive Connection
  | absent
  | live
  | freed
  deriving DecidableEq

/-- A call of a handler, and what the handler has done. -/
structure Entry where
  upcall : Tls.Upcall Handler
  actions : List Action
  deriving DecidableEq

structure Session where
  tls : Tls.State Handler
  /-- The identity of the client, once the TLS handshake is over. -/
  id : Option Bytes
  connection : Connection
  inputLength : ℕ
  log : List Entry
  /-- Something that had been freed was used or freed again. -/
  fault : Bool

inductive Event
  | advance (time : ℚ)
  | ready (w : Tls.Watcher)
  | expire
  /-- `SSL_accept()` fails, or establishes the connection with the identity of the client, if there is one. -/
  | acceptSslCb (reply : Except Tls.SslError (Option Bytes))
  | readCb (replies : List Tls.SslRead)
  | writeCb (replies : List Tls.SslWrite)
  | shutdownCb (replies : List Tls.SslShutdown)
  | timeoutCb

/-- The event, as the connection sees it. -/
def Event.tls : Event → Tls.Event Handler
  | .advance time => .advance time
  | .ready w => .ready w
  | .expire => .expire
  | .acceptSslCb (.error e) => .acceptSslCb (.error e)
  | .acceptSslCb (.ok identity) => .acceptSslCb (.established identity.isSome)
  | .readCb replies => .readCb replies
  | .writeCb replies => .writeCb replies
  | .shutdownCb replies => .shutdownCb replies
  | .timeoutCb => .timeoutCb

/-- The identity `accept_ssl_cb()` binds to the connection. -/
def Event.identity : Event → Option Bytes
  | .acceptSslCb (.ok identity) => identity
  | _ => none

/-! ### What a handler does -/

variable {ρ : Type}

/-- A handler of the server. -/
def handle (cfg : Config ρ) (id : Option Bytes) (inputLength : ℕ) (handler : Handler) (data : Bytes) : List Action :=
  match handler with
  | .connect => handleConnect
  | .read .handshake => handleHandshake (cstr data)
  | .read .connection => handleConnection cfg.maxCommandSize (cstr data)
  | .read .push => handlePushData cfg.regexec cfg.table (id.getD []) inputLength data
  | .error => handleError
  | .timeout => handleTimeout
  | .lineTooLong => handleLineTooLong

def answer (cfg : Config ρ) (id : Option Bytes) (inputLength : ℕ) : Tls.Upcall Handler → List Action
  | .read handler data => handle cfg id inputLength handler data
  | .connect handler | .error handler | .timeout handler | .lineTooLong handler =>
    handle cfg id inputLength handler []

namespace Session

/-- A function of the connection is called. -/
def call (s : Session) (e : Tls.Event Handler) : Session :=
  match Tls.step s.tls e with
  | some t => { s with tls := t }
  | none => { s with fault := true }

/-- The `connection_state` is used. -/
def use (s : Session) (f : Session → Session) : Session :=
  if s.connection = .live then f s else { s with fault := true }

end Session

/-- One thing a handler does. -/
def act (s : Session) : Action → Session
  | .allocate => { s with connection := .live }
  | .access => s.use id
  | .connectionStop => s.use fun s => { s with connection := .freed }
  | .setInputLength size => s.use fun s => { s with inputLength := size }
  | .setConnectionId _ | .fifoWrite _ | .free _ => s
  | .sendResponse response => s.call (.tlsWriteLine response)
  | .tlsRead handler size => s.call (.tlsRead (.read handler) size)
  | .tlsWrite data => s.call (.tlsWrite data false)
  | .tlsWriteLine string => s.call (.tlsWriteLine string)
  | .tlsShutdown => s.call .tlsShutdown
  | .tlsOnTimeout => s.call (.tlsOnTimeout (some .timeout))
  | .tlsOnError => s.call (.tlsOnError .error)
  | .tlsOnLineTooLong => s.call (.tlsOnLineTooLong .lineTooLong)

/-- Nothing is done when the program has ended. -/
def perform (s : Session) (a : Action) : Session := if s.tls.died then s else act s a

/-- `check_tls_error()` frees the connection after the handler it calls. -/
def beforeFree : Tls.Upcall Handler → Bool
  | .error _ => true
  | .connect _ | .read _ _ | .timeout _ | .lineTooLong _ => false

/-- The connection has made a step, and a handler that was called does its work. -/
def react (cfg : Config ρ) (s : Session) (t : Tls.State Handler) : Session :=
  match t.history.upcalls.drop s.tls.history.upcalls.length with
  | [] => { s with tls := t }
  | upcall :: _ =>
    let actions := answer cfg s.id s.inputLength upcall
    actions.foldl perform
      { s with
        tls := t
        log := s.log ++ [⟨upcall, actions⟩]
        fault := s.fault || (t.freed && !beforeFree upcall) }

/-! ### Runs -/

/-- A step of the event loop. When the connection has been freed, the loop has no business with it. -/
def step (cfg : Config ρ) (s : Session) (e : Event) : Option Session :=
  if s.tls.died then none
  else if s.tls.freed then
    match e with
    | .advance _ | .timeoutCb => none
    | _ => (Tls.stepAlive s.tls e.tls).map fun _ => { s with fault := true }
  else (Tls.step s.tls e.tls).map (react cfg { s with id := e.identity.or s.id })

/-- A connection is accepted: whether the peer's address is known, and whether there is an SSL object. -/
def start (cfg : Config ρ) (hasAddress hasSsl : Bool) (now : ℚ) : Session where
  tls := Tls.acceptTcp hasAddress hasSsl .connect cfg.timeout now
  id := none
  connection := .absent
  inputLength := 0
  log := []
  fault := false

/-- The session has come to this state. -/
def Serving (cfg : Config ρ) (es : List Event) (s : Session) : Prop :=
  ∃ hasAddress hasSsl now, Machine.Runs (Machine.Steps (step cfg)) (start cfg hasAddress hasSsl now) es s

end Server
end NscaNg
