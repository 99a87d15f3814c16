/-
# Submissions of the Perl and the Python module

`src/perl/client.c` and `src/python/client.c`: a command is put together in a local buffer of 1024 bytes,
announced with its length and sent from there. The two modules fill the buffer in different ways, and
what follows is the same (`transmit`).

The other end is left open: whether a message can be written, and what `nscang_client_response()` makes of
the answers, is given by an `Exchange`. `SSL_write()` takes a message as a whole or not at all.
-/
import NscaNg.Posix.Integer
import NscaNg.Posix.Stdio
import NscaNg.Client.Parse

namespace NscaNg.Bindings

open Posix Memory Client

/-- `NSCANG_RESP_MOIN` and `NSCANG_RESP_OKAY`. -/
inductive Response
  | moin
  | okay
  deriving DecidableEq

/-- The values of `_errno` that matter here. -/
inductive Error
  | timeout
  | tooLongResponse
  | badProtoVersion
  | protocolMismatch
  | unknownResponse
  | bail
  | fail
  | ssl
  deriving DecidableEq

/-- What the calls that go over the connection return: `nscang_client_send_moin()`, the
`nscang_client_write()` of the request and of the command, and `nscang_client_response()` after each of
them, where `none` is the 0 of an error. -/
structure Exchange where
  moin : Bool
  push : Bool
  granted : Option Response
  data : Bool
  accepted : Option Response
  deriving DecidableEq

/-- What a submission does: its return value, `_errno` and `errstr` where it sets them itself, the stores
to the buffer `command`, what `nscang_client_write()` is given as the request and how many bytes of the
buffer after that, and whether the buffer was read where nothing had been stored. -/
structure Outcome where
  result : Bool := false
  error : Option Error := none
  errstr : Option Bytes := none
  stores : Stores := []
  announced : Option Bytes := none
  sent : Option ℤ := none
  overread : Bool := false
  deriving DecidableEq

/-- `PUSH %d` and the end of the line, in a buffer of so many bytes. -/
def pushLine (size : ℕ) (terminator : Bytes) (len : ℤ) : Bytes :=
  (ascii "PUSH " ++ decimalInt len ++ terminator).take (size - 1)

/-- What follows once the command is in the buffer and the greeting is done. -/
def transmit (x : Exchange) (cmd : Bytes) (stores : Stores) (len : ℤ) : Outcome :=
  if ¬ x.push then { stores := stores, announced := some cmd }
  else if x.granted = none then { stores := stores, announced := some cmd }
  else if x.granted ≠ some .okay then
    { error := some .protocolMismatch, stores := stores, announced := some cmd }
  else if ¬ x.data then { stores := stores, announced := some cmd, sent := some len }
  else if x.accepted = none then { stores := stores, announced := some cmd, sent := some len }
  else if x.accepted ≠ some .okay then
    { error := some .protocolMismatch, stores := stores, announced := some cmd, sent := some len }
  else { result := true, stores := stores, announced := some cmd, sent := some len }

/-- The bytes that are sent from the buffer, if all of them have been stored. -/
def Outcome.transmitted (o : Outcome) : Option Bytes := o.sent.bind fun len => load o.stores 0 len.toNat

/-- The text both modules format for a check result, `service` being a null pointer for a host check. -/
def checkResultText (host : Bytes) (service : Option Bytes) (status : ℤ) (message : Bytes) : Bytes :=
  match service with
  | none => ascii "PROCESS_HOST_CHECK_RESULT;" ++ host ++ ascii ";" ++ decimalInt status ++ ascii ";" ++ message
  | some name =>
    ascii "PROCESS_SERVICE_CHECK_RESULT;" ++ host ++ ascii ";" ++ name ++ ascii ";" ++ decimalInt status ++
      ascii ";" ++ message

/-- `[%u] ` with `(unsigned int)time(NULL)`. -/
def stampUnsigned (now : ℕ) : Bytes := stamp (now % 2 ^ 32)

/-! ### The Python module -/

/-- `nscang_client_send_push()` of the Python module. -/
def Python.sendPush (now : ℕ) (x : Exchange) (host : Bytes) (service : Option Bytes) (status : ℤ)
    (message : Bytes) : Outcome :=
  if ¬ x.moin then {}
  else
    let text := stampUnsigned now ++ checkResultText host service status message
    let len := snprintfResult text
    transmit x (pushLine 64 (ascii "\n") (len + 1)) (snprintf 1023 text ++ [(len, newline)]) (len + 1)

/-! ### The Perl module -/

/-- `has_timestamp_prefix()`, with `errno` as earlier calls have left it. -/
def hasTimestampPrefix (errno : ℤ) (s : Bytes) : ℤ :=
  if s.head? ≠ some (ch '[') then 0
  else if ¬ isDigit (s.tail.headD 0) then -1
  else
    let (errno, «end») := strtolErrno errno s.tail
    if errno ≠ 0 then -1
    else if «end».head? = some (ch ']') then 1
    else -1

/-- The greeting, and what follows it. -/
def Perl.deliver (x : Exchange) (stores : Stores) (len : ℤ) : Outcome :=
  if ¬ x.moin then { stores := stores }
  else transmit x (pushLine 32 (ascii "\r\n") len) stores len

/-- The newline is added where the string in the buffer does not end with one. -/
def Perl.terminate (x : Exchange) (stores : Stores) : Outcome :=
  match strlen stores 1024 0 with
  | none => { stores := stores, overread := true }
  | some len =>
    match content stores (len - 1) with
    | none => { stores := stores, overread := true }
    | some last =>
      if last ≠ newline then Perl.deliver x (stores ++ [((len : ℤ), newline), ((len + 1 : ℤ), 0)]) (len + 1)
      else Perl.deliver x stores len

/-- `nscang_client_send_command()`. -/
def Perl.sendCommand (errno : ℤ) (now : ℕ) (x : Exchange) (command : Bytes) : Outcome :=
  if hasTimestampPrefix errno command = 0 then Perl.terminate x (snprintf 1023 (stampUnsigned now ++ command))
  else if hasTimestampPrefix errno command = 1 then Perl.terminate x (strncpy command 1023 ++ [(1023, 0)])
  else
    { error := some .fail
      errstr := some ((ascii "invalid time stamp format in command `" ++ command ++ ascii "'").take 1023) }

/-- The stores of `nscang_client_send_push()` of the Perl module to its own buffer. -/
def Perl.pushStores (host : Bytes) (service : Option Bytes) (status : ℤ) (message : Bytes) : Stores :=
  snprintf 1023 (checkResultText host service status message)

/-- `nscang_client_send_push()` of the Perl module: the string in its buffer is the command. -/
def Perl.sendPush (errno : ℤ) (now : ℕ) (x : Exchange) (host : Bytes) (service : Option Bytes) (status : ℤ)
    (message : Bytes) : Outcome :=
  Perl.sendCommand errno now x ((checkResultText host service status message).take 1022)

end NscaNg.Bindings
