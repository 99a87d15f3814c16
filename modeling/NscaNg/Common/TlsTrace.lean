/-
# The calls a connection makes

The calls of `SSL_read()` and `SSL_write()` that the callbacks of a connection make, with their
arguments, and those of the drain handler. The functions here follow the loops of `src/common/tls.c`
as those of `NscaNg.Common.Tls` do, and write down the calls instead of what comes of them.

The blocks a connection reads into and writes from are numbered as they are allocated or taken over.
A position in memory is the number of a block and an offset into it.
-/
import NscaNg.Common.TlsStart

namespace NscaNg
namespace Tls

open Posix Libev

variable {η : Type}

/-- A call of `SSL_read()` or `SSL_write()`: where the bytes are or are to be put, how many there are,
and the error if there was one. -/
structure SslCall where
  block : ℕ
  offset : ℕ
  num : ℤ
  error : Option SslError
  deriving DecidableEq

/-- The call is to be repeated. -/
def SslCall.Retry (c : SslCall) : Prop :=
  c.error = some .wantRead ∨ c.error = some .wantWrite ∨ c.error = some .interrupted

/-- The arguments. -/
def SslCall.args (c : SslCall) : ℕ × ℕ × ℤ := (c.block, c.offset, c.num)

/-- What is done with the output. -/
inductive OutputCall
  | write (call : SslCall)
  /-- The drain handler is called, when this is unsent. -/
  | drain (unsent : Bytes)
  deriving DecidableEq

/-- What has been written and not been sent. -/
def State.unsent (s : State η) : Bytes := (s.output.getD []).drop s.outputOffset ++ s.outputBuffer

/-! ### The calls of the callbacks -/

/-- The calls in the loop of `read_line()`. -/
def readLineCalls (block : ℕ) (replies : List SslRead) (s : State η) : List SslCall :=
  match bufferReadLine s.inputBuffer with
  | some _ => []
  | none =>
    if lineMaxSize < s.inputBuffer.length + s.inputSize then []
    else
      match replies with
      | [] => [⟨block, 0, toInt s.inputSize, some .wantRead⟩]
      | reply :: replies =>
        match sslRead (toInt s.inputSize) reply with
        | .error e => [⟨block, 0, toInt s.inputSize, some e⟩]
        | .ok bytes => ⟨block, 0, toInt s.inputSize, none⟩ :: readLineCalls block replies (s.receiveLine bytes)

/-- The calls in the loop of `read_bytes()`. -/
def readBytesCalls (block : ℕ) (replies : List SslRead) (s : State η) : List SslCall :=
  match replies with
  | [] => [⟨block, s.inputOffset, toInt (s.inputSize - s.inputOffset), some .wantRead⟩]
  | reply :: replies =>
    match sslRead (toInt (s.inputSize - s.inputOffset)) reply with
    | .error e => [⟨block, s.inputOffset, toInt (s.inputSize - s.inputOffset), some e⟩]
    | .ok bytes =>
      if bytes.length < toInt (s.inputSize - s.inputOffset) then
        ⟨block, s.inputOffset, toInt (s.inputSize - s.inputOffset), none⟩ ::
          readBytesCalls block replies (s.receiveBytes bytes)
      else [⟨block, s.inputOffset, toInt (s.inputSize - s.inputOffset), none⟩]

def readCalls (block : ℕ) (replies : List SslRead) (s : State η) : List SslCall :=
  match s.readMode with
  | .readLine => readLineCalls block replies s
  | .readBytes => readBytesCalls block replies s

/-- The number of the block that is read into next, if there have been this many. -/
def State.inputBlock (s : State η) (blocks : ℕ) : ℕ :=
  match s.input with
  | some _ => blocks
  | none => blocks + 1

/-- The number of the block that is written from next. -/
def State.outputBlock (s : State η) (blocks : ℕ) : ℕ :=
  match s.output with
  | some _ => blocks
  | none => blocks + 1

/-- The calls in the loops of `write_cb()`, and the number of blocks then. -/
def writeCalls (blocks : ℕ) (replies : List SslWrite) (s : State η) : List OutputCall × ℕ :=
  let block := s.outputBlock blocks
  match replies with
  | [] =>
    let s := nextOutput s
    ([.write ⟨block, s.outputOffset, toInt (s.outputSize - s.outputOffset), some .wantWrite⟩], block)
  | reply :: replies =>
    let s := nextOutput s
    match sslWrite (toInt (s.outputSize - s.outputOffset)) reply with
    | .error e => ([.write ⟨block, s.outputOffset, toInt (s.outputSize - s.outputOffset), some e⟩], block)
    | .ok n =>
      let todo := toInt (s.outputSize - s.outputOffset)
      let call := OutputCall.write ⟨block, s.outputOffset, todo, none⟩
      let s := s.send n
      if n < todo then
        let more := writeCalls block replies { s with outputOffset := s.outputOffset + n }
        (call :: more.1, more.2)
      else
        let s := { s with output := none, outputSize := 0, outputOffset := 0 }
        if s.outputBuffer.length = 0 then
          (call :: (if s.shutdownOnDrain then [.drain s.unsent] else []), block)
        else
          let more := writeCalls block replies s
          (call :: more.1, more.2)

/-! ### Connections with their calls -/

structure Traced (η : Type) where
  conn : State η
  /-- How many blocks have been read into, and how many written from. -/
  inputBlocks : ℕ
  outputBlocks : ℕ
  reads : List SslCall
  output : List OutputCall
  /-- A timeout has been handed to its handler, which has not written anything yet. -/
  timedOut : Bool

def Traced.start (s : State η) : Traced η := ⟨s, 0, 0, [], [], false⟩

/-- What is written with this. -/
def Event.written : Event η → Bytes
  | .tlsWrite data _ => data
  | .tlsWriteLine string => string ++ lineTerminator
  | _ => []

/-- The calls that an event makes of the connection it meets, which comes to the state `t`. -/
def Traced.next (x : Traced η) (e : Event η) (t : State η) : Traced η :=
  let s := x.conn
  match e with
  | .readCb replies =>
    { x with
      conn := t
      inputBlocks := s.inputBlock x.inputBlocks
      reads := x.reads ++ readCalls (s.inputBlock x.inputBlocks) replies s }
  | .writeCb replies =>
    { x with
      conn := t
      outputBlocks := (writeCalls x.outputBlocks replies s).2
      output := x.output ++ (writeCalls x.outputBlocks replies s).1 }
  | .tlsWrite _ freeData =>
    { x with
      conn := t
      outputBlocks :=
        if s.output = none ∧ s.outputBuffer.length = 0 ∧ freeData then x.outputBlocks + 1 else x.outputBlocks
      timedOut := false }
  | .tlsWriteLine _ => { x with conn := t, timedOut := false }
  | .tlsShutdown =>
    { x with
      conn := t
      output := x.output ++ (if .write ∈ s.loop.active then [] else [.drain s.unsent]) }
  | .timeoutCb =>
    { x with
      conn := t
      timedOut := x.timedOut || decide (s.history.upcalls.length < t.history.upcalls.length) }
  | _ => { x with conn := t }

def tracedStep (x : Traced η) (e : Event η) : Option (Traced η) := (step x.conn e).map (x.next e)

/-- The runs of a connection, with its calls. -/
inductive Traces (ok : Traced η → Event η → Prop) (es : List (Event η)) (x : Traced η) : Prop
  | mk {s : State η} : Started s →
      Machine.Runs (Machine.Meeting ok (Machine.Steps tracedStep)) (.start s) es x → Traces ok es x

theorem conn_next (x : Traced η) (e : Event η) (t : State η) : (x.next e t).conn = t := by
  cases e <;> rfl

theorem tracedStep_eq_some {x y : Traced η} {e : Event η} (h : tracedStep x e = some y) :
    step x.conn e = some y.conn ∧ y = x.next e y.conn := by
  obtain ⟨t, ht, rfl⟩ := Option.map_eq_some_iff.mp h
  rw [conn_next]
  exact ⟨ht, rfl⟩

/-- An invariant holds of a connection that starts, and every step keeps it. -/
theorem Traces.invariant {ok : Traced η → Event η → Prop} {I : Traced η → Prop} {es : List (Event η)}
    {x : Traced η} (h : Traces ok es x) (hstart : ∀ s, Started s → I (.start s))
    (hstep : ∀ x e y, I x → ok x e → tracedStep x e = some y → I y) : I x := by
  obtain ⟨hst, hruns⟩ := h
  exact hruns.invariant (fun x e y hx h => hstep x e y hx h.1 h.2) (hstart _ hst)

theorem Traces.mono {ok ok' : Traced η → Event η → Prop} {es : List (Event η)} {x : Traced η}
    (h : Traces ok es x) (hok : ∀ x e, ok x e → ok' x e) : Traces ok' es x := by
  obtain ⟨hstart, hruns⟩ := h
  exact ⟨hstart, hruns.mono fun x e _ hstep => ⟨hok x e hstep.1, hstep.2⟩⟩

theorem traces_of_run {ok : Traced η → Event η → Prop} [∀ x e, Decidable (ok x e)] {connectHandler : η}
    {timeout now : ℚ} {es : List (Event η)} {x : Traced η}
    (h : Machine.run (Machine.guarded ok tracedStep) (.start (accepted connectHandler timeout now)) es = some x) :
    Traces ok es x :=
  ⟨.accept true true connectHandler timeout now, Machine.runs_of_guarded h⟩

end Tls
end NscaNg
