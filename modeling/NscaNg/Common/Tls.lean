/-
# TLS connections

An accepted connection of `src/common/tls.c`: its five watchers, the two buffers and the blocks a
pending read or write works on, and the handlers. The handlers belong to the user of the connection
and have names of some type `η`. A callback that calls one does nothing to the connection
afterwards, so the call is only recorded (`Upcall`), and the functions of this module that the
handler calls are steps of their own. The handler that runs when the output is drained is always
`start_shutdown()`.

OpenSSL decides how each of its calls ends. A callback is given the results of the calls it may make
(`SslRead` and the like), of which it takes as many as it needs; behind the last one OpenSSL has
nothing to offer. `History` records what the connection has seen so far.
-/
import Mathlib.Algebra.Order.Ring.Rat
import NscaNg.Common.Buffer
import NscaNg.Libev.Loop
import NscaNg.Machine.Runs

namespace NscaNg
namespace Tls

open Posix Libev

inductive Watcher
  | init
  | read
  | write
  | shutdown
  | timeout
  deriving DecidableEq, Repr

/-- Data is checked for before a timeout. -/
def Watcher.priority : Watcher → ℤ
  | .timeout => -1
  | .init | .read | .write | .shutdown => 0

inductive ReadMode
  | readLine
  | readBytes
  deriving DecidableEq

/-- What `tls_read()` was asked for. -/
inductive Request
  | line
  | bytes (size : ℕ)
  deriving DecidableEq

/-- A call of a handler. -/
inductive Upcall (η : Type)
  | connect (handler : η)
  | read (handler : η) (data : Bytes)
  | error (handler : η)
  | timeout (handler : η)
  | lineTooLong (handler : η)
  deriving DecidableEq

/-! ### OpenSSL -/

/-- What `SSL_get_error()` says of a call, as far as `check_tls_error()` tells it apart:
`wantRead` is for `WANT_ACCEPT` too and `wantWrite` for `WANT_CONNECT`; `interrupted` is `EINTR`
without a queued error. -/
inductive SslError
  | wantRead
  | wantWrite
  | interrupted
  | failed
  deriving DecidableEq

/-- The end of `SSL_read()`: bytes of the peer, of which it takes no more than asked for. -/
inductive SslRead
  | data (first : UInt8) (more : Bytes)
  | error (e : SslError)
  deriving DecidableEq

/-- The end of `SSL_write()`: `more + 1` bytes are sent, or all if there are fewer. -/
inductive SslWrite
  | sent (more : ℕ)
  | error (e : SslError)
  deriving DecidableEq

inductive SslShutdown
  | done
  | sent
  | error (e : SslError)
  deriving DecidableEq

inductive SslAccept
  | established (identified : Bool)
  | error (e : SslError)
  deriving DecidableEq

/-- A size as the `int` that OpenSSL is given. -/
def toInt (size : ℤ) : ℤ := size.bmod (2 ^ 32)

def sslRead (num : ℤ) : SslRead → Except SslError Bytes
  | .data first more => if 0 < num then .ok ((first :: more).take num.toNat) else .error .failed
  | .error e => .error e

def sslWrite (num : ℤ) : SslWrite → Except SslError ℕ
  | .sent more => if 0 < num then .ok (min (more + 1) num.toNat) else .error .failed
  | .error e => .error e

/-! ### The state of a connection -/

structure History (η : Type) where
  requests : List Request
  /-- The bytes `SSL_read()` has given. -/
  received : Bytes
  /-- The bytes `SSL_write()` has taken. -/
  sent : Bytes
  upcalls : List (Upcall η)

structure State (η : Type) where
  loop : Loop Watcher
  timeout : ℚ
  lastActivity : ℚ
  inputBuffer : Bytes
  outputBuffer : Bytes
  /-- What has been read into the block, if there is one. -/
  input : Option Bytes
  output : Option Bytes
  inputSize : ℕ
  inputOffset : ℕ
  outputSize : ℕ
  outputOffset : ℕ
  connectHandler : η
  readHandler : Option η
  /-- Whether `start_shutdown()` is to be called when the output is drained. -/
  shutdownOnDrain : Bool
  errorHandler : Option η
  /-- `none` is the default handler, which frees the connection. -/
  timeoutHandler : Option η
  lineTooLongHandler : Option η
  readMode : ReadMode
  freed : Bool
  /-- The program has ended with an internal error, or the connection has been freed twice. -/
  died : Bool
  history : History η

def lineMaxSize : ℕ := 2048

def lineBufferSize : ℕ := 128

def lineTerminator : Bytes := ascii "\r\n"

variable {η : Type}

namespace State

/-- `ev_io_set()`, `ev_io_start()` and `ev_feed_event()`. -/
def arm (s : State η) (w : Watcher) (events : Events) : State η :=
  { s with loop := ((s.loop.ioSet w events).start w).feed w }

/-- `ev_io_stop()` or `ev_timer_stop()` of a watcher that is active. -/
def stopActive (s : State η) (w : Watcher) : State η :=
  if w ∈ s.loop.active then { s with loop := s.loop.stop w } else s

/-- The I/O watchers are stopped. -/
def stopIo (s : State η) : State η :=
  (((s.stopActive .init).stopActive .read).stopActive .write).stopActive .shutdown

def call (s : State η) (u : Upcall η) : State η :=
  { s with history := { s.history with upcalls := s.history.upcalls ++ [u] } }

/-- `last_activity` is set to the time of the loop. -/
def touch (s : State η) : State η := { s with lastActivity := s.loop.now }

end State

/-- `tls_new()`, with what `accept_tcp_cb()` sets. -/
def tlsNew (connectHandler : η) (timeout now : ℚ) : State η where
  loop := Loop.idle now
  timeout := timeout
  lastActivity := now
  inputBuffer := []
  outputBuffer := []
  input := none
  output := none
  inputSize := 0
  inputOffset := 0
  outputSize := 0
  outputOffset := 0
  connectHandler := connectHandler
  readHandler := none
  shutdownOnDrain := false
  errorHandler := none
  timeoutHandler := none
  lineTooLongHandler := none
  readMode := .readLine
  freed := false
  died := false
  history := ⟨[], [], [], []⟩

/-- `tls_free()`. A connection that has been freed is not there to be freed again. -/
def tlsFree (s : State η) : State η :=
  let s := s.stopIo.stopActive .timeout
  { s with freed := true, died := s.died || s.freed }

/-! ### Exported functions -/

/-- The timer is set and started. -/
def resumeTimeout (after : ℚ) (s : State η) : State η :=
  { s with loop := (s.loop.timerSet .timeout after).timerStart .timeout }

def tlsOnTimeout (handler : Option η) (s : State η) : State η :=
  let s := s.stopActive .timeout
  let s := { s with timeoutHandler := handler }
  if 0 < s.timeout then (resumeTimeout s.timeout s).touch else s

def tlsOnError (handler : η) (s : State η) : State η := { s with errorHandler := some handler }

def tlsOnLineTooLong (handler : η) (s : State η) : State η :=
  { s with lineTooLongHandler := some handler }

/-- What a size asks for: 0 is `READ_LINE`. -/
def Request.ofSize (size : ℕ) : Request := if size = 0 then .line else .bytes size

/-- A request is noted. -/
def State.ask (s : State η) (handler : η) (size : ℕ) : State η :=
  { s with
    readMode := if size = 0 then .readLine else .readBytes
    inputSize := if size = 0 then lineBufferSize else size
    readHandler := some handler
    history := { s.history with requests := s.history.requests ++ [Request.ofSize size] } }

/-- `tls_read()`, for a size of 0 `tls_read_line()`. -/
def tlsRead (handler : η) (size : ℕ) (s : State η) : State η :=
  if .read ∈ s.loop.active then { s with died := true } else (s.ask handler size).arm .read .read

def writeBuffered (data : Bytes) (s : State η) : State η :=
  let s := { s with outputBuffer := s.outputBuffer ++ data }
  if .write ∈ s.loop.active then s else s.arm .write .write

def tlsWrite (data : Bytes) (freeData : Bool) (s : State η) : State η :=
  if s.output = none ∧ s.outputBuffer.length = 0 ∧ freeData then
    let s := { s with output := some data, outputSize := data.length }
    if .write ∈ s.loop.active then s else s.arm .write .write
  else writeBuffered data s

def tlsWriteLine (string : Bytes) (s : State η) : State η :=
  writeBuffered lineTerminator (writeBuffered string s)

def startShutdown (s : State η) : State η := s.arm .shutdown .write

/-- `tls_on_drain()`, for `start_shutdown()`. -/
def tlsOnDrain (s : State η) : State η :=
  let s := { s with shutdownOnDrain := true }
  if .write ∈ s.loop.active then s else startShutdown s

def tlsShutdown (s : State η) : State η :=
  tlsOnDrain { s with errorHandler := none, timeoutHandler := none }

/-! ### Callbacks -/

/-- The opposite watcher is made to call its OpenSSL function again. -/
def resetWatcherState (w : Watcher) (s : State η) : State η :=
  { s with loop := s.loop.feedActive w }

/-- The watcher waits for this from now on. -/
def waitFor (w : Watcher) (events : Events) (s : State η) : State η :=
  { s with loop := s.loop.waitFor w events }

/-- The error handler is called, and the connection is freed. -/
def tlsError (s : State η) : State η :=
  match s.errorHandler with
  | some handler => tlsFree (s.call (.error handler))
  | none => tlsFree s

def checkTlsError (w : Watcher) (e : SslError) (s : State η) : State η :=
  match e with
  | .wantRead => waitFor w .read s
  | .wantWrite => waitFor w .write s
  | .interrupted => s
  | .failed => tlsError s

def lineTooLong (s : State η) : State η :=
  let s := { s with loop := s.loop.stop .read }
  match s.lineTooLongHandler with
  | some handler => s.call (.lineTooLong handler)
  | none => tlsFree s

/-- `SSL_read()` gives bytes, which are put behind the first `offset` bytes of the block. -/
def State.receive (s : State η) (offset : ℕ) (bytes : Bytes) : State η :=
  { s with
    input := some ((s.input.getD []).take offset ++ bytes)
    history := { s.history with received := s.history.received ++ bytes } }

/-- `read_line()` has received bytes. -/
def State.receiveLine (s : State η) (bytes : Bytes) : State η :=
  let s := s.receive 0 bytes
  { s with inputBuffer := s.inputBuffer ++ bytes }

/-- `read_bytes()` has received some of its bytes. -/
def State.receiveBytes (s : State η) (bytes : Bytes) : State η :=
  let s := s.receive s.inputOffset bytes
  { s with inputOffset := s.inputOffset + bytes.length }

/-- The loop of `read_line()`. -/
def readLineLoop (replies : List SslRead) (s : State η) : State η × Option Bytes :=
  match bufferReadLine s.inputBuffer with
  | some (line, rest) => ({ s with inputBuffer := rest, input := none, inputSize := 0 }, some line)
  | none =>
    if lineMaxSize < s.inputBuffer.length + s.inputSize then (lineTooLong s, none)
    else
      match replies with
      | [] => (checkTlsError .read .wantRead s, none)
      | reply :: replies =>
        match sslRead (toInt s.inputSize) reply with
        | .error e => (checkTlsError .read e s, none)
        | .ok bytes => readLineLoop replies (s.receiveLine bytes)

def readLine (replies : List SslRead) (s : State η) : State η × Option Bytes :=
  readLineLoop replies { s with input := some (s.input.getD []) }

/-- The loop of `read_bytes()`. -/
def readBytesLoop (replies : List SslRead) (s : State η) : State η × Option Bytes :=
  match replies with
  | [] => (checkTlsError .read .wantRead s, none)
  | reply :: replies =>
    match sslRead (toInt (s.inputSize - s.inputOffset)) reply with
    | .error e => (checkTlsError .read e s, none)
    | .ok bytes =>
      if bytes.length < toInt (s.inputSize - s.inputOffset) then
        readBytesLoop replies (s.receiveBytes bytes)
      else
        let s := s.receive s.inputOffset bytes
        ({ s with input := none, inputSize := 0, inputOffset := 0 }, some (s.input.getD [] ++ [0]))

def readBytes (replies : List SslRead) (s : State η) : State η × Option Bytes :=
  readBytesLoop replies { s with input := some (s.input.getD []) }

/-- The data goes to the handler that waits for it. -/
def deliver (data : Bytes) (s : State η) : State η :=
  let s := { s with loop := s.loop.stop .read }
  match s.readHandler with
  | some handler => s.call (.read handler data)
  | none => s

/-- The data a callback of the read watcher has for the handler. -/
def readData (replies : List SslRead) (s : State η) : State η × Option Bytes :=
  match s.readMode with
  | .readLine => readLine replies s
  | .readBytes => readBytes replies s

def readCb (replies : List SslRead) (s : State η) : State η :=
  match readData replies (resetWatcherState .write s).touch with
  | (s, some data) => deliver data s
  | (s, none) => s

/-- `SSL_write()` takes bytes from the block. -/
def State.send (s : State η) (n : ℕ) : State η :=
  { s with
    history := { s.history with
      sent := s.history.sent ++ ((s.output.getD []).drop s.outputOffset).take n } }

/-- A block is made of the buffered output if there is none. -/
def nextOutput (s : State η) : State η :=
  match s.output with
  | some _ => s
  | none =>
    { s with output := some s.outputBuffer, outputSize := s.outputBuffer.length, outputBuffer := [] }

/-- The block has been written, and nothing is left. -/
def drained (s : State η) : State η :=
  let s := { s with loop := s.loop.stop .write }
  if s.shutdownOnDrain then startShutdown s else s

/-- The loops of `write_cb()`. -/
def writeLoop (replies : List SslWrite) (s : State η) : State η :=
  match replies with
  | [] => checkTlsError .write .wantWrite (nextOutput s)
  | reply :: replies =>
    let s := nextOutput s
    match sslWrite (toInt (s.outputSize - s.outputOffset)) reply with
    | .error e => checkTlsError .write e s
    | .ok n =>
      let todo := toInt (s.outputSize - s.outputOffset)
      let s := s.send n
      if n < todo then writeLoop replies { s with outputOffset := s.outputOffset + n }
      else
        let s := { s with output := none, outputSize := 0, outputOffset := 0 }
        if s.outputBuffer.length = 0 then drained s else writeLoop replies s

def writeCb (replies : List SslWrite) (s : State η) : State η :=
  writeLoop replies (resetWatcherState .read s).touch

def shutdownLoop (replies : List SslShutdown) (s : State η) : State η :=
  match replies with
  | [] => checkTlsError .shutdown .wantRead s
  | .done :: _ => tlsFree s
  | .sent :: replies => shutdownLoop replies s
  | .error e :: _ => checkTlsError .shutdown e s

def shutdownCb (replies : List SslShutdown) (s : State η) : State η := shutdownLoop replies s.touch

def acceptSslCb (reply : SslAccept) (s : State η) : State η :=
  let s := s.touch
  match reply with
  | .error e => checkTlsError .init e s
  | .established false => tlsFree s
  | .established true => ({ s with loop := s.loop.stop .init }).call (.connect s.connectHandler)

def timeoutCb (s : State η) : State η :=
  let diff := s.lastActivity + s.timeout - s.loop.now
  if 0 < diff then resumeTimeout diff s
  else
    let s := s.stopIo
    let s := resumeTimeout s.timeout s
    match s.timeoutHandler with
    | some handler => s.call (.timeout handler)
    | none => tlsFree s

/-! ### Steps -/

/-- A connection `accept_tcp_cb()` has accepted. -/
def accepted (connectHandler : η) (timeout now : ℚ) : State η :=
  (tlsOnTimeout none (tlsNew connectHandler timeout now)).arm .init .read

inductive Event (η : Type)
  | advance (time : ℚ)
  | ready (w : Watcher)
  | expire
  | acceptSslCb (reply : SslAccept)
  | readCb (replies : List SslRead)
  | writeCb (replies : List SslWrite)
  | shutdownCb (replies : List SslShutdown)
  | timeoutCb
  | tlsRead (handler : η) (size : ℕ)
  | tlsWrite (data : Bytes) (freeData : Bool)
  | tlsWriteLine (string : Bytes)
  | tlsShutdown
  | tlsOnError (handler : η)
  | tlsOnTimeout (handler : Option η)
  | tlsOnLineTooLong (handler : η)

/-- The callback of the watcher is called, if its turn has come. -/
def invoke (w : Watcher) (callback : State η → State η) (s : State η) : Option (State η) :=
  if s.loop.Next Watcher.priority w then some (callback { s with loop := s.loop.take w }) else none

theorem invoke_eq_some {w : Watcher} {callback : State η → State η} {s t : State η}
    (h : invoke w callback s = some t) :
    w ∈ s.loop.pending ∧ t = callback { s with loop := s.loop.take w } := by
  unfold invoke at h
  split at h
  · rename_i hnext
    exact ⟨hnext.1, (Option.some.inj h).symm⟩
  · cases h

/-- What an event does to a connection that exists. -/
def stepAlive (s : State η) : Event η → Option (State η)
  | .advance time => some { s with loop := s.loop.advance time }
  | .ready w =>
    if w ∈ s.loop.active ∧ w ≠ .timeout then some { s with loop := s.loop.feed w } else none
  | .expire =>
    if .timeout ∈ s.loop.active ∧ s.loop.due .timeout ≤ s.loop.now then
      some { s with loop := s.loop.expire .timeout }
    else none
  | .acceptSslCb reply => invoke .init (acceptSslCb reply) s
  | .readCb replies => invoke .read (readCb replies) s
  | .writeCb replies => invoke .write (writeCb replies) s
  | .shutdownCb replies => invoke .shutdown (shutdownCb replies) s
  | .timeoutCb => invoke .timeout timeoutCb s
  | .tlsRead handler size => some (tlsRead handler size s)
  | .tlsWrite data freeData => some (tlsWrite data freeData s)
  | .tlsWriteLine string => some (tlsWriteLine string s)
  | .tlsShutdown => some (tlsShutdown s)
  | .tlsOnError handler => some (tlsOnError handler s)
  | .tlsOnTimeout handler => some (tlsOnTimeout handler s)
  | .tlsOnLineTooLong handler => some (tlsOnLineTooLong handler s)

def step (s : State η) (e : Event η) : Option (State η) :=
  if s.freed ∨ s.died then none else stepAlive s e

theorem step_eq_some {s t : State η} {e : Event η} (h : step s e = some t) :
    s.freed = false ∧ s.died = false ∧ stepAlive s e = some t := by
  unfold step at h
  split at h
  · cases h
  · rename_i hc
    simp only [not_or, Bool.not_eq_true] at hc
    exact ⟨hc.1, hc.2, h⟩

end Tls
end NscaNg
