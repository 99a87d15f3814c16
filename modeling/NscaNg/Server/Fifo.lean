/-
# The command file writer

`src/server/fifo.c`: data for the command file waits in a block (`output`) and in a buffer behind it,
and is written to the FIFO in pieces of at most `PIPE_BUF` bytes. What is larger goes into a dump file,
which a `PROCESS_FILE` command makes the reader of the FIFO process: with POSIX AIO at once, and
without it as soon as the process is idle.

The writer does not look at the data, so the model is made for cells of any type. They are bytes in
the program, and bytes with a mark where the question is what becomes of them. The system decides how
each call ends; a callback is given the results of the calls it may make. A call that `EINTR`
interrupts is made again at once, except for a write to the FIFO. `History` records what the writer
has done, and a message about data that is given up has this data with it.
-/
import Mathlib.Algebra.Order.Ring.Rat
import NscaNg.Libev.Loop
import NscaNg.Machine.Runs
import NscaNg.Posix.CString

namespace NscaNg
namespace Fifo

open Posix Libev

/-- The watchers of both builds: `async` is for the one with AIO, `idle` and `timeout` for the other.
`reopen` is `open_watcher`. -/
inductive Watcher
  | async
  | idle
  | timeout
  | reopen
  | write
  deriving DecidableEq, Repr

/-- What the writer moves about: it makes a `PROCESS_FILE` command out of a text, and looks at nothing
else. The number is that of the dump file. -/
class Cell (β : Type) where
  command : ℕ → Bytes → List β

/-- The program moves bytes. -/
instance : Cell UInt8 := ⟨fun _ text => text⟩

structure Config where
  /-- `HAVE_POSIX_AIO`. -/
  aio : Bool
  /-- `PIPE_BUF`. -/
  pipeBuf : ℕ
  pipeBuf_ge : 512 ≤ pipeBuf
  dumpDir : Bytes
  /-- The `max_queue_size` of the configuration, in megabytes. -/
  maxQueueSize : ℕ

/-- The `max_queue_size` of the writer, in bytes. -/
def Config.queueLimit (cfg : Config) : ℕ := cfg.maxQueueSize * 1024 * 1024 % 2 ^ 64

/-- The default configuration, where `PIPE_BUF` has the least value that POSIX allows. -/
def Config.standard (aio : Bool) : Config := ⟨aio, 512, le_rfl, ascii "/tmp", 1024⟩

/-- The name of a dump file. -/
def Config.dumpName (cfg : Config) (suffix : Bytes) : Bytes := cfg.dumpDir ++ ascii "/nsca." ++ suffix

/-! ### The system -/

inductive OpenReply
  | opened
  | failed (noReader : Bool)
  | noStatus
  | notFifo
  deriving DecidableEq

/-- The end of a `write()` on the FIFO. -/
inductive WriteReply
  | written (more : ℕ)
  | again
  | interrupted
  | failed
  deriving DecidableEq

/-- How many bytes a non-blocking `write()` takes: all or none of up to `PIPE_BUF` bytes, and some of
more. -/
def Config.taken (cfg : Config) (size more : ℕ) : ℕ := if size ≤ cfg.pipeBuf then size else min (more + 1) size

/-- The end of a `write()` on a dump file. -/
inductive DumpReply
  | written (n : ℕ)
  | failed
  deriving DecidableEq

/-- What `aio_error()` and `aio_return()` say. -/
inductive AioReply
  | failed
  | wrote (n : ℤ)
  deriving DecidableEq

/-- The calls that `dispatch_data()` makes. Behind the last `write()` the FIFO is full. -/
structure Replies where
  writes : List WriteReply
  /-- The six characters `mkstemp()` finds. -/
  mkstemp : Option Bytes
  aioWrite : Bool
  close : Bool

/-- The calls that `sync_dump_data()` makes. Behind the last `write()` the rest is taken. -/
structure DumpReplies where
  mkstemp : Option Bytes
  writes : List DumpReply
  time : ℕ
  close : Bool

/-! ### The state of the writer -/

/-- The reasons for giving up data. -/
inductive Loss
  /-- `Queued more than %zu MB, THROWING DATA AWAY` -/
  | throwingAway (megabytes : ℕ)
  /-- `Cannot create %s` -/
  | cannotCreate (file : Bytes)
  /-- `Cannot queue asynchrous write request` -/
  | cannotQueue
  /-- `Cannot write to %s` -/
  | cannotWrite (file : Bytes)
  /-- `Wrote %zd instead of %zu bytes to %s` -/
  | wrote (n : ℤ) (size : ℕ) (file : Bytes)
  /-- `Cannot close %s` -/
  | cannotClose (file : Bytes)
  deriving DecidableEq

variable {β : Type}

/-- What is logged, below the level of debugging. -/
inductive Message (β : Type)
  | noReader
  | cannotOpen
  | noStatus
  | notFifo
  | opened
  | cannotWriteFifo
  | loss (reason : Loss) (data : List β)
  deriving DecidableEq

/-- The data that is given up. -/
def Message.data : Message β → List β
  | .loss _ data => data
  | .noReader | .cannotOpen | .noStatus | .notFifo | .opened | .cannotWriteFifo => []

/-- A complete dump file, and the command to process it. -/
structure DumpFile (β : Type) where
  command : Bytes
  contents : List β

structure History (β : Type) where
  /-- What the FIFO has taken. -/
  fifo : List β
  /-- What each `write()` on the FIFO was given. -/
  writes : List (List β)
  files : List (DumpFile β)
  log : List (Message β)
  /-- How many descriptors `mkstemp()` has opened, which are numbered in this order. -/
  opened : ℕ
  /-- The descriptors that `close_dump_file()` has closed. -/
  closed : List ℕ

structure State (β : Type) where
  loop : Loop Watcher
  /-- Whether `fd` is not -1. -/
  isOpen : Bool
  output : Option (List β)
  outputBuffer : List β
  dumpFile : Option Bytes
  dumpFd : Option ℕ
  /-- The data of the AIO request that has been queued. -/
  request : Option (List β)
  history : History β

/-- `TIMEOUT`. -/
def retryTimeout : ℚ := 10

namespace State

def outputSize (s : State β) : ℕ := (s.output.getD []).length

def logged (m : Message β) (s : State β) : State β :=
  { s with history := { s.history with log := s.history.log ++ [m] } }

/-- A `write()` on the FIFO is given the block. -/
def attempt (s : State β) : State β :=
  { s with history := { s.history with writes := s.history.writes ++ [s.output.getD []] } }

/-- The FIFO takes bytes of the block. -/
def send (n : ℕ) (s : State β) : State β :=
  { s with history := { s.history with fifo := s.history.fifo ++ (s.output.getD []).take n } }

/-- A dump file is complete. -/
def filed (f : DumpFile β) (s : State β) : State β :=
  { s with history := { s.history with files := s.history.files ++ [f] } }

def start (w : Watcher) (s : State β) : State β := { s with loop := s.loop.start w }

def stop (w : Watcher) (s : State β) : State β := { s with loop := s.loop.stop w }

def stopActive (w : Watcher) (s : State β) : State β := if w ∈ s.loop.active then s.stop w else s

/-- A timer is set and started. -/
def startTimer (w : Watcher) (s : State β) : State β :=
  { s with loop := (s.loop.timerSet w retryTimeout).timerStart w }

end State

/-! ### The data in hand -/

def BuffersAreEmpty (s : State β) : Prop := s.output = none ∧ s.outputBuffer.length = 0

def BuffersExceedPipeSize (cfg : Config) (s : State β) : Prop :=
  cfg.pipeBuf < s.outputSize ∨ cfg.pipeBuf < s.outputBuffer.length

instance (s : State β) : Decidable (BuffersAreEmpty s) :=
  decidable_of_iff (s.output.isNone ∧ s.outputBuffer.length = 0) (by simp [BuffersAreEmpty])

instance (cfg : Config) (s : State β) : Decidable (BuffersExceedPipeSize cfg s) := by
  unfold BuffersExceedPipeSize
  infer_instance

def joinBuffers (s : State β) : State β :=
  if s.outputBuffer.length = 0 then s
  else { s with output := some (s.output.getD [] ++ s.outputBuffer), outputBuffer := [] }

def freeOutput (s : State β) : State β := { s with output := none }

/-! ### Dump files -/

/-- `[%lu] PROCESS_FILE;%s;1\n`. -/
def processFileCommand (time : ℕ) (file : Bytes) : Bytes :=
  ascii "[" ++ (Nat.toDigits 10 (time % 2 ^ 64)).map ch ++ ascii "] PROCESS_FILE;" ++ file ++ ascii ";1\n"

def makeProcessFileCommand (time : ℕ) (s : State β) : Bytes := processFileCommand time (s.dumpFile.getD [])

/-- Without a dump file the caller gives up the block. -/
def openDumpFile (cfg : Config) (mkstemp : Option Bytes) (s : State β) : State β × Bool :=
  match mkstemp with
  | none =>
    let s := s.logged (.loss (.cannotCreate (cfg.dumpName (ascii "XXXXXX"))) (s.output.getD []))
    ({ s with dumpFile := none, dumpFd := none }, false)
  | some suffix =>
    ({ s with
        dumpFile := some (cfg.dumpName suffix)
        dumpFd := some s.history.opened
        history := { s.history with opened := s.history.opened + 1 } }, true)

/-- `data` is what the caller gives up if the file cannot be closed. -/
def closeDumpFile (close : Bool) (data : List β) (s : State β) : State β × Bool :=
  let s := { s with history := { s.history with closed := s.history.closed ++ s.dumpFd.toList } }
  let s := if close then s else s.logged (.loss (.cannotClose (s.dumpFile.getD [])) data)
  ({ s with dumpFile := none }, close)

/-! ### Writing to the FIFO -/

/-- The buffer becomes the block if there is none. -/
def nextOutput (s : State β) : State β :=
  match s.output with
  | some _ => s
  | none => { s with output := some s.outputBuffer, outputBuffer := [] }

/-- The FIFO cannot be written to any more. -/
def writeFailed (s : State β) : State β :=
  (({ s with isOpen := false }.logged .cannotWriteFifo).stop .write).startTimer .reopen

/-- The block has been written. -/
def written (n : ℕ) (s : State β) : State β :=
  let s := freeOutput (s.send n)
  if s.outputBuffer.length = 0 then s.stop .write else s

def writeCb (cfg : Config) (replies : List WriteReply) (s : State β) : State β :=
  let s := (nextOutput s).attempt
  match replies with
  | [] => s
  | .again :: _ => s
  | .interrupted :: _ => s
  | .failed :: _ => writeFailed s
  | .written more :: replies =>
    let n := cfg.taken s.outputSize more
    let s := written n s
    if 0 < n ∧ 0 < s.outputBuffer.length then writeCb cfg replies s else s

/-- `aio_write()` of the block. The block belongs to the request from now on. -/
def asyncDumpData (cfg : Config) (r : Replies) (s : State β) : State β :=
  match openDumpFile cfg r.mkstemp (joinBuffers s) with
  | (s, false) => freeOutput s
  | (s, true) =>
    let s := s.start .async
    if r.aioWrite then { s with request := some (s.output.getD []), output := none }
    else
      let s := (s.logged (.loss .cannotQueue (s.output.getD []))).stop .async
      freeOutput (closeDumpFile r.close [] s).1

def dispatchData (cfg : Config) (r : Replies) (s : State β) : State β :=
  if s.isOpen = false then s
  else if ¬ BuffersExceedPipeSize cfg s then
    if .write ∈ s.loop.active then s else writeCb cfg r.writes (s.start .write)
  else
    let s := s.stopActive .write
    if cfg.aio then if .async ∈ s.loop.active then s else asyncDumpData cfg r s
    else if .idle ∈ s.loop.active then s else (s.startTimer .timeout).start .idle

/-! ### Exported functions -/

/-- The buffer is thrown away if the data would make it too large. -/
def throwAway (cfg : Config) (size : ℕ) (s : State β) : State β :=
  if 0 < cfg.queueLimit ∧ cfg.queueLimit < s.outputBuffer.length + size then
    let s := s.logged (.loss (.throwingAway (cfg.queueLimit / 1024 / 1024)) s.outputBuffer)
    { s with outputBuffer := [] }
  else s

def fifoWrite (cfg : Config) (data : List β) (freeData : Bool) (r : Replies) (s : State β) : State β :=
  if BuffersAreEmpty s ∧ freeData then dispatchData cfg r { s with output := some data }
  else
    let s := throwAway cfg data.length s
    dispatchData cfg r { s with outputBuffer := s.outputBuffer ++ data }

/-! ### Callbacks -/

/-- The end of `open_cb()`. -/
def retryOpen (s : State β) : State β := if s.isOpen = false then s.startTimer .reopen else s

/-- `custom` says whether `fifo_start()` is the caller. -/
def openCb (cfg : Config) (custom : Bool) (reply : OpenReply) (r : Replies) (s : State β) : State β :=
  match reply with
  | .failed noReader =>
    retryOpen ({ s with isOpen := false }.logged (if noReader then .noReader else .cannotOpen))
  | .noStatus => retryOpen ({ s with isOpen := false }.logged .noStatus)
  | .notFifo => retryOpen ({ s with isOpen := false }.logged .notFifo)
  | .opened =>
    let s := { s with isOpen := true }
    let s := if custom then s else s.logged .opened
    let s := { s with loop := s.loop.ioSet .write .write }
    retryOpen (if BuffersAreEmpty s then s else dispatchData cfg r s)

/-- What `fifo_start()` makes before it invokes `open_cb()`. -/
def initial (now : ℚ) : State β where
  loop := Loop.idle now
  isOpen := false
  output := none
  outputBuffer := []
  dumpFile := none
  dumpFd := none
  request := none
  history := ⟨[], [], [], [], 0, []⟩

def fifoStart (cfg : Config) (reply : OpenReply) (r : Replies) (now : ℚ) : State β :=
  openCb cfg true reply r (initial now)

/-! ### Events -/

inductive Event (β : Type)
  | advance (time : ℚ)
  | ready (w : Watcher)
  | expire (w : Watcher)
  | openCb (reply : OpenReply) (r : Replies)
  | writeCb (replies : List WriteReply)
  | asyncCb (reply : AioReply) (time : ℕ) (close : Bool) (r r' : Replies)
  | idleCb (d : DumpReplies) (r : Replies)
  | timeoutCb (d : DumpReplies) (r : Replies)
  | fifoWrite (data : List β) (freeData : Bool) (r : Replies)

/-- The records that come in. -/
def Event.records : Event β → List (List β)
  | .fifoWrite data _ _ => [data]
  | .advance _ | .ready _ | .expire _ | .openCb _ _ | .writeCb _ | .asyncCb _ _ _ _ _ | .idleCb _ _
  | .timeoutCb _ _ => []

/-- The records that a run is given. -/
def records (es : List (Event β)) : List (List β) := es.flatMap Event.records

/-- The timers. The other watchers become ready. -/
def Watcher.isTimer : Watcher → Bool
  | .timeout | .reopen => true
  | .async | .idle | .write => false

/-- The callback of a watcher whose event is pending is called. -/
def invoke (w : Watcher) (callback : State β → State β) (s : State β) : Option (State β) :=
  if w ∈ s.loop.pending then some (callback { s with loop := s.loop.take w }) else none

theorem invoke_eq_some {w : Watcher} {callback : State β → State β} {s t : State β}
    (h : invoke w callback s = some t) :
    w ∈ s.loop.pending ∧ t = callback { s with loop := s.loop.take w } := by
  unfold invoke at h
  split at h
  · rename_i hp
    exact ⟨hp, (Option.some.inj h).symm⟩
  · cases h

variable [Cell β]

/-- The file is closed, and its command is written. -/
def processDumpFile (cfg : Config) (time : ℕ) (close : Bool) (contents : List β) (r : Replies) (s : State β) :
    State β :=
  let command := makeProcessFileCommand time s
  match closeDumpFile close contents s with
  | (s, false) => s
  | (s, true) =>
    fifoWrite cfg (Cell.command s.history.files.length command) true r (s.filed ⟨command, contents⟩)

/-- What becomes of a request, once the system is done with it. -/
def requestDone (cfg : Config) (reply : AioReply) (time : ℕ) (close : Bool) (r : Replies) (s : State β) : State β :=
  let data := s.request.getD []
  let file := s.dumpFile.getD []
  let s := { s.stop .async with request := none }
  match reply with
  | .failed => s.logged (.loss (.cannotWrite file) data)
  | .wrote n =>
    if n ≠ data.length then s.logged (.loss (.wrote n data.length file) data)
    else processDumpFile cfg time close data r s

def asyncCb (cfg : Config) (reply : AioReply) (time : ℕ) (close : Bool) (r r' : Replies) (s : State β) : State β :=
  let s := requestDone cfg reply time close r s
  if BuffersExceedPipeSize cfg s then dispatchData cfg r' s else s

/-- The loop of `sync_dump_data()`: what it has written to the file, unless it fails. -/
def dumpLoop (output : List β) (replies : List DumpReply) (offset : ℕ) (file : List β) : Option (List β) :=
  if output.length ≤ offset then some file
  else
    match replies with
    | [] => some (file ++ output.drop offset)
    | .failed :: _ => none
    | .written n :: replies =>
      let n := min n (output.length - offset)
      dumpLoop output replies (offset + n) (file ++ (output.drop offset).take n)

def syncDumpData (cfg : Config) (d : DumpReplies) (r : Replies) (s : State β) : State β :=
  match openDumpFile cfg d.mkstemp (joinBuffers s) with
  | (s, false) => freeOutput s
  | (s, true) =>
    match dumpLoop (s.output.getD []) d.writes 0 [] with
    | none =>
      let s := s.logged (.loss (.cannotWrite (s.dumpFile.getD [])) (s.output.getD []))
      freeOutput (closeDumpFile d.close [] s).1
    | some contents => processDumpFile cfg d.time d.close contents r (freeOutput s)

def idleCb (cfg : Config) (d : DumpReplies) (r : Replies) (s : State β) : State β :=
  syncDumpData cfg d r ((s.stop .idle).stopActive .timeout)

/-- The idle watcher is invoked. -/
def timeoutCb (cfg : Config) (d : DumpReplies) (r : Replies) (s : State β) : State β := idleCb cfg d r s

/-! ### Steps -/

/-- What an event does to the writer. Each build has its own callbacks. -/
def step (cfg : Config) (s : State β) : Event β → Option (State β)
  | .advance time => some { s with loop := s.loop.advance time }
  | .ready w => if w ∈ s.loop.active ∧ w.isTimer = false then some { s with loop := s.loop.feed w } else none
  | .expire w =>
    if w ∈ s.loop.active ∧ w.isTimer = true ∧ s.loop.due w ≤ s.loop.now then
      some { s with loop := s.loop.expire w }
    else none
  | .openCb reply r => invoke .reopen (openCb cfg false reply r) s
  | .writeCb replies => invoke .write (writeCb cfg replies) s
  | .asyncCb reply time close r r' =>
    if cfg.aio then invoke .async (asyncCb cfg reply time close r r') s else none
  | .idleCb d r => if cfg.aio then none else invoke .idle (idleCb cfg d r) s
  | .timeoutCb d r => if cfg.aio then none else invoke .timeout (timeoutCb cfg d r) s
  | .fifoWrite data freeData r => some (fifoWrite cfg data freeData r s)

/-- The writer has come to this state. -/
def Reachable (cfg : Config) (s : State β) : Prop :=
  ∃ reply r now es, Machine.Runs (Machine.Steps (step cfg)) (fifoStart cfg reply r now) es s

end Fifo
end NscaNg
