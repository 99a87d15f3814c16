/-
# Connections of the Perl and the Python module

`src/perl/client.c` and `src/python/client.c` keep a connection from one call to the next: they greet the server
once, and send any number of commands after that. `nscang_client_write()`, `nscang_client_send_moin()`,
`nscang_client_send_quit()` and `nscang_client_disconnect()` have the same text in both.

A call waits for the server after each thing it has written, so a call is begun by one step and goes on with others: a
step is what happens from the return of `nscang_client_response()` to the next call of it. What a call makes of the
answers is said by `Submission`; here it is given the answers one after the other (`Call.run`).
-/
import NscaNg.Bindings.Agreement
import NscaNg.Bindings.Response

namespace NscaNg.Bindings

open Posix Memory

/-- How a turn of the loop of `nscang_client_write()` comes out: whether `SSL_write()` takes the message, and whether
the time is up if it is to be called again. -/
inductive Attempt
  | taken
  | retry (late : Bool)
  | failed
  deriving DecidableEq

/-- `nscang_client_write()`, `none` as long as it goes on. -/
def write : List Attempt → Option (Except Error Unit)
  | [] => none
  | .taken :: _ => some (.ok ())
  | .failed :: _ => some (.error .ssl)
  | .retry late :: attempts => if late then some (.error .timeout) else write attempts

/-! ### Calls -/

/-- A call of `nscang_client_send_push()` or `nscang_client_send_command()`, with the time and the `errno` it finds. -/
inductive Call
  | pythonPush (now : ℕ) (host : Bytes) (service : Option Bytes) (status : ℤ) (message : Bytes)
  | perlPush (errno : ℤ) (now : ℕ) (host : Bytes) (service : Option Bytes) (status : ℤ) (message : Bytes)
  | perlCommand (errno : ℤ) (now : ℕ) (command : Bytes)
  deriving DecidableEq

def Call.run : Call → Exchange → Outcome
  | pythonPush now host service status message, x => Python.sendPush now x host service status message
  | perlPush errno now host service status message, x => Perl.sendPush errno now x host service status message
  | perlCommand errno now command, x => Perl.sendCommand errno now x command

namespace Exchange

/-- No greeting yet. -/
def unmet : Exchange := ⟨false, false, none, false, none⟩

/-- The server has been greeted. -/
def met : Exchange := { unmet with moin := true }

/-- The request has been written. -/
def pushed : Exchange := { met with push := true }

/-- The request has been granted. -/
def allowed : Exchange := { pushed with granted := some .okay }

/-- The command has been written. -/
def handed : Exchange := { allowed with data := true }

end Exchange

/-- The request that a call writes. -/
def Call.request (call : Call) : Option Bytes := (call.run .allowed).announced

/-- The command that a call sends. -/
def Call.command (call : Call) : Option Bytes := (call.run .allowed).transmitted

/-- What a call waits for. -/
inductive Stage
  | greeting
  | announcing
  | sending
  deriving DecidableEq

/-- What the call has met with so far. -/
def Stage.exchange : Stage → Exchange
  | greeting => .unmet
  | announcing => .pushed
  | sending => .handed

/-- How a call has ended, with the value of `_errno` if it has failed. -/
structure Report where
  call : Call
  exchange : Exchange
  error : Option Error
  deriving DecidableEq

def Report.success (r : Report) : Bool := (r.call.run r.exchange).result

/-- The call has succeeded, or has been refused. -/
def Report.Clean (r : Report) : Prop := r.error = none ∨ r.error = some .fail

instance (r : Report) : Decidable r.Clean := inferInstanceAs (Decidable (_ ∨ _))

/-- The commands of the calls that have succeeded. -/
def submitted (reports : List Report) : List Bytes :=
  reports.flatMap fun r => if r.success then r.call.command.toList else []

/-! ### Connections -/

/-- `NSCANG_STATE_NEW` and `NSCANG_STATE_MOIN`. -/
inductive ClientState
  | new
  | moin
  deriving DecidableEq

structure Connection where
  state : ClientState
  /-- The call that waits for a response. -/
  waiting : Option (Stage × Call)
  /-- What `SSL_write()` has taken. -/
  written : Bytes
  /-- What `SSL_read()` has returned. -/
  read : Bytes
  /-- Memory has been read where nothing had been stored. -/
  strayed : Bool
  /-- `SSL_clear()` has been called, or OpenSSL has been left with a message: what follows is not said here. -/
  closed : Bool
  reports : List Report
  deriving DecidableEq

namespace Connection

def start : Connection where
  state := .new
  waiting := none
  written := []
  read := []
  strayed := false
  closed := false
  reports := []

/-- The call returns. -/
def finish (call : Call) (x : Exchange) (error : Option Error) (c : Connection) : Connection :=
  { c with waiting := none, reports := c.reports ++ [⟨call, x, error.or (call.run x).error⟩] }

/-- `nscang_client_write()`, and a call that goes on to `nscang_client_response()`, or returns. A message that has not
been taken may be sent later on. -/
def tell (attempts : List Attempt) (data : Bytes) (stage : Stage) (call : Call) (x : Exchange) (c : Connection) :
    Option Connection :=
  (write attempts).map fun
    | .ok () => { c with written := c.written ++ data, waiting := some (stage, call) }
    | .error e => { c.finish call x (some e) with closed := true }

/-- The request is written. -/
def announce (attempts : List Attempt) (call : Call) (c : Connection) : Option Connection :=
  match call.request with
  | some request => c.tell attempts request .announcing call .met
  | none => some { c with strayed := true }

/-- The command is written. -/
def sendData (attempts : List Attempt) (call : Call) (c : Connection) : Option Connection :=
  match call.command with
  | some command => c.tell attempts command .sending call .allowed
  | none => some { c with strayed := true }

/-- `%08ld`. -/
def padded (v : ℕ) : Bytes := List.replicate (8 - (decimal v).length) (ch '0') ++ decimal v

/-- The greeting, with two values of `random()`. -/
def moinLine (random : Fin (2 ^ 31) × Fin (2 ^ 31)) : Bytes :=
  ascii "MOIN 1 " ++ padded random.1 ++ padded random.2 ++ ascii "\r\n"

/-- A call begins: a command with a bad timestamp is refused at once, and `nscang_client_send_moin()` greets the server
if that has not been done. -/
def begin (call : Call) (random : Fin (2 ^ 31) × Fin (2 ^ 31)) (attempts : List Attempt) (c : Connection) :
    Option Connection :=
  if c.waiting.isSome ∨ c.strayed ∨ c.closed then none
  else if (call.run .allowed).overread then some { c with strayed := true }
  else if call.request = none then some (c.finish call .unmet none)
  else if c.state = .moin then c.announce attempts call
  else c.tell attempts (moinLine random) .greeting call .unmet

/-- A message that need not be taken: there is no time for it. -/
def attempt (attempts : List Attempt) (message : Bytes) (c : Connection) : Connection :=
  match write attempts with
  | some (.ok ()) => { c with written := c.written ++ message }
  | _ => c

/-- `nscang_client_disconnect()`, with `nscang_client_send_quit()`. -/
def disconnect (attempts : List Attempt) (c : Connection) : Connection :=
  { (if c.state = .moin then c.attempt attempts (ascii "QUIT\n") else c) with state := .new, closed := true }

/-- A response that was waited for has come. -/
def proceed (attempts : List Attempt) (stage : Stage) (call : Call) (r : Response) (c : Connection) :
    Option Connection :=
  match stage with
  | .greeting =>
    if r = .moin then { c with state := .moin }.announce attempts call
    else some (c.finish call .unmet (some .protocolMismatch))
  | .announcing =>
    if r = .okay then c.sendData attempts call
    else some (c.finish call { Exchange.pushed with granted := some r } none)
  | .sending => some (c.finish call { Exchange.handed with accepted := some r } none)

/-- `nscang_client_response()` returns, and the call goes on. -/
def hear (turns : List Turn) (attempts told quit : List Attempt) (stage : Stage) (call : Call) (c : Connection) :
    Option Connection :=
  match response turns [] with
  | .waiting => none
  | .strayed => some { c with read := c.read ++ stream turns, strayed := true }
  | .answered a left =>
    let c := { c with read := c.read ++ (stream turns).take ((stream turns).length - left.length) }
    let c := if a.disconnected then (c.attempt told (a.told.getD [])).disconnect quit else c
    match a.result with
    | some r => c.proceed attempts stage call r
    | none => some (c.finish call stage.exchange a.error)

inductive Event
  | call (call : Call) (random : Fin (2 ^ 31) × Fin (2 ^ 31)) (attempts : List Attempt)
  | response (turns : List Turn) (attempts told quit : List Attempt)
  | disconnect (attempts : List Attempt)

def step (c : Connection) : Event → Option Connection
  | .call call random attempts => c.begin call random attempts
  | .response turns attempts told quit =>
    match c.waiting with
    | some (stage, call) => if c.strayed ∨ c.closed then none else c.hear turns attempts told quit stage call
    | none => none
  | .disconnect attempts => if c.waiting.isSome ∨ c.strayed ∨ c.closed then none else some (c.disconnect attempts)

end Connection

/-! ### What a call writes -/

/-- The arguments are strings, and the command stays within its buffer. -/
def Call.Fits : Call → Prop
  | pythonPush now host service status message => (Python.commandText now host service status message).length ≤ 1023
  | perlPush _ _ host service _ message => 0 ∉ host ∧ (∀ name ∈ service, 0 ∉ name) ∧ 0 ∉ message
  | perlCommand errno _ command => 0 ∉ command ∧ ¬ Overfills errno command

instance decidableFits : (call : Call) → Decidable call.Fits
  | .pythonPush now host service status message =>
    inferInstanceAs (Decidable ((Python.commandText now host service status message).length ≤ 1023))
  | .perlPush _ _ host service _ message =>
    inferInstanceAs (Decidable (0 ∉ host ∧ (∀ name ∈ service, 0 ∉ name) ∧ 0 ∉ message))
  | .perlCommand errno _ command => inferInstanceAs (Decidable (0 ∉ command ∧ ¬ Overfills errno command))

/-- The call is refused before anything is written. -/
structure Call.Refused (call : Call) : Prop where
  announced : ∀ x, (call.run x).announced = none
  error : ∀ x, (call.run x).error = some .fail
  result : ∀ x, (call.run x).result = false
  overread : ∀ x, (call.run x).overread = false

/-- With this greeting the call announces the command with its length, and sends it. -/
def Transmits (x : Exchange) (o : Outcome) (command : Bytes) : Prop :=
  ∃ terminator stores, (terminator = ascii "\n" ∨ terminator = ascii "\r\n") ∧
    load stores 0 command.length = some command ∧
    o = transmit x (ascii "PUSH " ++ decimal command.length ++ terminator) stores command.length

/-- The call announces this command, and sends it. -/
structure Call.Submits (call : Call) (command : Bytes) : Prop where
  transmits : ∀ x : Exchange, x.moin = true → Transmits x (call.run x) command
  nonempty : command ≠ []
  short : command.length ≤ 1024

theorem submits_python {now : ℕ} {host : Bytes} {service : Option Bytes} {status : ℤ} {message : Bytes}
    (h : (Python.commandText now host service status message).length ≤ 1023) :
    ∃ command, (Call.pythonPush now host service status message).Submits command := by
  obtain ⟨command, hload⟩ := Python.load_commandStores_some h
  have hlength := (load_eq_some_iff.mp hload).1
  have hresult : snprintfResult (Python.commandText now host service status message) + 1 = (command.length : ℤ) := by
    rw [snprintfResult, if_pos (by omega), hlength]
    rfl
  refine ⟨command, fun x hmoin => ⟨ascii "\n", _, Or.inl rfl, hlength ▸ hload, ?_⟩, fun hnil => ?_, by omega⟩
  · show Python.sendPush now x host service status message = _
    rw [Python.sendPush_eq now x host service status message hmoin, hresult,
      pushLine_eq (by decide) (by decide) (by omega), decimalInt_natCast]
  · rw [hnil] at hlength
    cases hlength

section

variable {x : Exchange} {body rest : Bytes}

theorem transmits_deliver {stores : Stores} {command : Bytes} (hmoin : x.moin = true)
    (hload : load stores 0 command.length = some command) (hshort : command.length ≤ 1024) :
    Transmits x (Perl.deliver x stores command.length) command := by
  refine ⟨ascii "\r\n", stores, Or.inr rfl, hload, ?_⟩
  unfold Perl.deliver
  rw [if_neg (by simp [hmoin]), pushLine_eq (by decide) (by decide) hshort, decimalInt_natCast]

/-- The Perl module, with this string in its buffer. -/
theorem transmits_terminate (hmoin : x.moin = true) (h0 : 0 ∉ body) (hne : body ≠ []) (hlen : body.length < 1024) :
    Transmits x (Perl.terminate x (storeAll 0 (body ++ 0 :: rest))) (closeLine body) := by
  have hget : body.getLast? = some newline ↔ body.getLast hne = newline := by
    rw [List.getLast?_eq_some_getLast hne, Option.some.injEq]
  rw [Perl.terminate_eq h0 hne hlen]
  by_cases hlast : body.getLast hne = newline
  · rw [if_neg (not_not.mpr hlast), closeLine, if_pos (hget.mpr hlast)]
    exact transmits_deliver hmoin Perl.load_body hlen.le
  · have hlength : (body ++ [newline]).length = body.length + 1 := List.length_append
    have hload : load (Perl.lengthened body rest) 0 (body ++ [newline]).length = some (body ++ [newline]) :=
      hlength ▸ Perl.load_lengthened
    have hdeliver := transmits_deliver hmoin hload (hlength ▸ hlen)
    rw [hlength] at hdeliver
    rw [if_pos hlast, closeLine, if_neg (mt hget.mp hlast)]
    exact hdeliver

theorem length_closeLine (hlen : body.length < 1024) (hne : body ≠ []) :
    closeLine body ≠ [] ∧ (closeLine body).length ≤ 1024 := by
  unfold closeLine
  split
  · exact ⟨hne, hlen.le⟩
  · exact ⟨by simp, by simpa using hlen⟩

end

/-- A call that has a string in its buffer closes it with a newline, and sends it. -/
theorem submits_closeLine {call : Call} {body : Bytes} (h0 : 0 ∉ body) (hne : body ≠ []) (hlen : body.length < 1024)
    (hrun : ∀ x, ∃ rest, call.run x = Perl.terminate x (storeAll 0 (body ++ 0 :: rest))) :
    call.Submits (closeLine body) where
  transmits x hmoin := by
    obtain ⟨rest, hrest⟩ := hrun x
    rw [hrest]
    exact transmits_terminate hmoin h0 hne hlen
  nonempty := (length_closeLine hlen hne).1
  short := (length_closeLine hlen hne).2

/-- `nscang_client_send_command()` refuses the command, or has it in its buffer. -/
theorem submits_sendCommand (errno : ℤ) (now : ℕ) {command : Bytes} (h0 : 0 ∉ command) :
    (Call.perlCommand errno now command).Refused ∨ ∃ sent, (Call.perlCommand errno now command).Submits sent := by
  rcases hasTimestampPrefix_cases errno command with hanswer | hanswer | hanswer
  · have hlen : ((stampUnsigned now ++ command).take 1022).length ≤ 1022 := List.length_take_le _ _
    have hnul : 0 ∉ (stampUnsigned now ++ command).take 1022 := fun h =>
      (List.mem_append.mp (List.mem_of_mem_take h)).elim (nul_notMem_stamp _) h0
    exact Or.inr ⟨closeLine ((stampUnsigned now ++ command).take 1022),
      submits_closeLine hnul (stamped_ne_nil now) (by omega) fun x => ⟨[], Perl.sendCommand_stamped errno now x hanswer⟩⟩
  · have hne : command.take 1023 ≠ [] := by
      intro hnil
      rw [List.take_eq_nil_iff] at hnil
      obtain rfl := hnil.resolve_left (by decide)
      have hzero : hasTimestampPrefix errno [] = 0 := rfl
      rw [hzero] at hanswer
      exact absurd hanswer (by decide)
    have hlen : (command.take 1023).length ≤ 1023 := List.length_take_le _ _
    refine Or.inr ⟨closeLine (command.take 1023),
      submits_closeLine (fun h => h0 (List.mem_of_mem_take h)) hne (by omega) fun x => ?_⟩
    obtain ⟨rest, -, heq⟩ := Perl.sendCommand_copied errno now x hanswer
    exact ⟨rest, heq⟩
  · have hrefuses : ∀ x, (Call.perlCommand errno now command).run x =
        { error := some .fail
          errstr := some ((ascii "invalid time stamp format in command `" ++ command ++ ascii "'").take 1023) } := by
      intro x
      show Perl.sendCommand errno now x command = _
      rw [Perl.sendCommand, if_neg (by rw [hanswer]; decide), if_neg (by rw [hanswer]; decide)]
    exact Or.inl ⟨fun x => by rw [hrefuses], fun x => by rw [hrefuses], fun x => by rw [hrefuses],
      fun x => by rw [hrefuses]⟩

/-- **What a call writes.** A call whose command fits is refused, or announces its command with its length. -/
theorem Call.Fits.cases {call : Call} (h : call.Fits) : call.Refused ∨ ∃ command, call.Submits command := by
  cases call with
  | pythonPush now host service status message => exact Or.inr (submits_python h)
  | perlCommand errno now command => exact submits_sendCommand errno now h.1
  | perlPush errno now host service status message =>
    obtain ⟨hhost, hservice, hmessage⟩ := h
    have hnul : 0 ∉ (checkResultText host service status message).take 1022 := fun hmem =>
      nul_notMem_checkResultText hhost hservice status hmessage (List.mem_of_mem_take hmem)
    rcases submits_sendCommand errno now hnul with hrefused | ⟨command, hsubmits⟩
    · exact Or.inl ⟨hrefused.announced, hrefused.error, hrefused.result, hrefused.overread⟩
    · exact Or.inr ⟨command, hsubmits.transmits, hsubmits.nonempty, hsubmits.short⟩

section

variable {call : Call} {command : Bytes}

/-- The request of a call. -/
theorem Call.Submits.request (h : call.Submits command) :
    ∃ terminator, (terminator = ascii "\n" ∨ terminator = ascii "\r\n") ∧
      call.request = some (ascii "PUSH " ++ decimal command.length ++ terminator) := by
  obtain ⟨terminator, stores, hterm, -, hrun⟩ := h.transmits .allowed rfl
  refine ⟨terminator, hterm, ?_⟩
  unfold Call.request
  rw [hrun, announced_transmit]

theorem Call.Submits.sent (h : call.Submits command) : call.command = some command := by
  obtain ⟨terminator, stores, -, hload, hrun⟩ := h.transmits .allowed rfl
  unfold Call.command
  rw [hrun]
  exact hload

theorem Call.Submits.overread (h : call.Submits command) : (call.run .allowed).overread = false := by
  obtain ⟨terminator, stores, -, -, hrun⟩ := h.transmits .allowed rfl
  rw [hrun, overread_transmit]

/-- A call is successful if its command is accepted. -/
theorem Call.Submits.accepted (h : call.Submits command) :
    (call.run { Exchange.handed with accepted := some .okay }).result = true ∧
      (call.run { Exchange.handed with accepted := some .okay }).error = none := by
  obtain ⟨terminator, stores, -, -, hrun⟩ := h.transmits { Exchange.handed with accepted := some .okay } rfl
  rw [hrun]
  exact ⟨rfl, rfl⟩

theorem Call.Submits.unaccepted (h : call.Submits command) {x : Exchange} (hmoin : x.moin = true)
    (hnone : x.accepted = none) : (call.run x).result = false := by
  obtain ⟨terminator, stores, -, -, hrun⟩ := h.transmits x hmoin
  rw [hrun]
  unfold transmit
  split_ifs <;> rfl

end

/-! ### What a response is made of -/

/-- What becomes of these bytes: nothing yet, an error of the connection, or the answer to what is in front of a
newline. -/
inductive Reads (s : Bytes) : Verdict → Prop
  | waiting : Reads s .waiting
  | broken (e : Error) (left : Bytes) : e ≠ .fail → Reads s (.answered { error := some e } left)
  | strayed (line left : Bytes) : s = line ++ newline :: left → ¬ Answerable line → Reads s .strayed
  | answered (line left : Bytes) : s = line ++ newline :: left → Answerable line →
      Reads s (.answered (answerTo (stripCr line)) left)

theorem reads_response (turns : List Turn) {buf : Bytes} (hlen : buf.length < 1024) :
    Reads (buf ++ stream turns) (response turns buf) := by
  induction turns generalizing buf with
  | nil => exact .waiting
  | cons t turns ih =>
    obtain ⟨read, late⟩ := t
    rw [stream_cons]
    cases read with
    | failed => exact .broken .ssl _ (by decide)
    | retry =>
      cases late with
      | true => exact .broken .timeout _ (by decide)
      | false => exact ih hlen
    | data first rest =>
      have hsplit : buf ++ (first :: rest ++ stream turns) = buf ++ (first :: rest).take (1024 - buf.length) ++
          ((first :: rest).drop (1024 - buf.length) ++ stream turns) := by
        rw [List.append_assoc, ← List.append_assoc ((first :: rest).take _), List.take_append_drop]
      show Reads (buf ++ (first :: rest ++ stream turns)) _
      simp only [response]
      split_ifs with hlast hfull hlate
      · obtain ⟨init, hinit⟩ := List.getLast?_eq_some_iff.mp hlast
        have hbytes : buf ++ (first :: rest ++ stream turns) =
            (buf ++ init) ++ newline :: ((first :: rest).drop (1024 - buf.length) ++ stream turns) := by
          rw [hsplit, hinit]
          simp
        rw [hinit, ← List.append_assoc buf init, finishLine_eq]
        split
        · exact .answered _ _ hbytes ‹_›
        · exact .strayed _ _ hbytes ‹_›
      · exact .broken .tooLongResponse _ (by decide)
      · exact .broken .timeout _ (by decide)
      · -- there was room for the whole record
        have hroom : (first :: rest).length < 1024 - buf.length := by
          rw [List.length_append, List.length_take] at hfull
          omega
        rw [List.take_of_length_le hroom.le] at hsplit ⊢
        rw [List.drop_of_length_le hroom.le, List.nil_append] at hsplit
        rw [hsplit]
        exact ih (by rw [List.length_append]; omega)

section

variable {line : Bytes}

theorem take_cstr {kw : Bytes} (h0 : 0 ∉ kw) (h : kw <+: line) : (cstr line).take kw.length = kw := by
  obtain ⟨more, rfl⟩ := h
  have hall : ∀ c ∈ kw, decide (c ≠ 0) = true := fun c hc => by simpa using fun hzero : c = 0 => h0 (hzero ▸ hc)
  rw [cstr, List.takeWhile_append_of_pos hall, List.take_left]

theorem answerTo_okay (h : ascii "OKAY" <+: line) : answerTo line = { result := some .okay } := by
  have hkw : (cstr line).take 4 = ascii "OKAY" := take_cstr (by decide) h
  unfold answerTo
  rw [hkw, if_neg (by decide), if_pos rfl]

theorem answerTo_fail (h : ascii "FAIL" <+: line) :
    answerTo line = { error := some .fail, errstr := some (errstrOf (line.drop 5)) } := by
  have hkw : (cstr line).take 4 = ascii "FAIL" := take_cstr (by decide) h
  unfold answerTo
  rw [hkw, if_neg (by decide), if_neg (by decide), if_pos rfl]

theorem answerTo_bail (h : ascii "BAIL" <+: line) :
    answerTo line = { error := some .bail, errstr := some (errstrOf (line.drop 5)), disconnected := true } := by
  have hkw : (cstr line).take 4 = ascii "BAIL" := take_cstr (by decide) h
  unfold answerTo
  rw [hkw, if_neg (by decide), if_neg (by decide), if_neg (by decide), if_pos rfl]

theorem answerTo_moin (h : ascii "MOIN" <+: line) :
    answerTo line = { result := some .moin } ∨
      (answerTo line).result = none ∧ (answerTo line).error = some .badProtoVersion := by
  have hkw : (cstr line).take 4 = ascii "MOIN" := take_cstr (by decide) h
  unfold answerTo
  rw [hkw, if_pos rfl]
  split
  · exact Or.inl rfl
  · exact Or.inr ⟨rfl, rfl⟩

end

/-! ### Steps -/

/-- `nscang_client_write()` fails with an error of its own. -/
theorem write_error {attempts : List Attempt} {e : Error} (h : write attempts = some (.error e)) : e ≠ .fail := by
  induction attempts with
  | nil => cases h
  | cons attempt attempts ih =>
    cases attempt with
    | taken => cases h
    | failed =>
      cases h
      decide
    | retry late =>
      cases late with
      | true =>
        cases h
        decide
      | false => exact ih h

namespace Connection

variable {c d t : Connection} {attempts : List Attempt} {stage : Stage} {call : Call} {x : Exchange}

/-- What has been written stays written, and what has been reported stays reported. -/
structure Grows (c t : Connection) : Prop where
  written : c.written <+: t.written
  reports : c.reports <+: t.reports

theorem Grows.of_eq (hwritten : t.written = c.written) (hreports : t.reports = c.reports) : Grows c t :=
  ⟨hwritten ▸ List.prefix_rfl, hreports ▸ List.prefix_rfl⟩

/-- A call has come to an end, other than by its success or a refusal. -/
structure Fails (c t : Connection) : Prop where
  written : c.written <+: t.written
  unclean : ∃ r : Report, ¬ r.Clean ∧ t.reports = c.reports ++ [r]

theorem Fails.grows (h : Fails c t) : Grows c t where
  written := h.written
  reports := by
    obtain ⟨r, -, hreports⟩ := h.unclean
    exact ⟨[r], hreports.symm⟩

theorem grows_finish (call : Call) (x : Exchange) (error : Option Error) (c : Connection) :
    Grows c (c.finish call x error) := ⟨List.prefix_rfl, List.prefix_append _ _⟩

theorem fails_finish {e : Error} (call : Call) (x : Exchange) (he : e ≠ .fail) (hwritten : c.written <+: d.written)
    (hreports : d.reports = c.reports) : Fails c (d.finish call x (some e)) where
  written := hwritten
  unclean := ⟨⟨call, x, some e⟩, by simp [Report.Clean, he], by rw [← hreports]; rfl⟩

theorem tell_cases {data : Bytes} (h : c.tell attempts data stage call x = some t) :
    t = { c with written := c.written ++ data, waiting := some (stage, call) } ∨ Fails c t := by
  obtain ⟨out, hwrite, rfl⟩ := Option.map_eq_some_iff.mp h
  cases out with
  | ok _ => exact Or.inl rfl
  | error e =>
    have hfails := fails_finish call x (write_error hwrite) (List.prefix_rfl (l := c.written)) rfl
    exact Or.inr ⟨hfails.written, hfails.unclean⟩

theorem grows_tell {data : Bytes} (h : c.tell attempts data stage call x = some t) : Grows c t := by
  rcases tell_cases h with rfl | hfails
  · exact ⟨List.prefix_append _ _, List.prefix_rfl⟩
  · exact hfails.grows

theorem grows_announce (h : c.announce attempts call = some t) : Grows c t := by
  unfold announce at h
  split at h
  · exact grows_tell h
  · cases h
    exact .of_eq rfl rfl

theorem grows_sendData (h : c.sendData attempts call = some t) : Grows c t := by
  unfold sendData at h
  split at h
  · exact grows_tell h
  · cases h
    exact .of_eq rfl rfl

/-- A message that need not be taken is written, or is not. -/
theorem attempt_cases (attempts : List Attempt) (message : Bytes) (c : Connection) :
    c.attempt attempts message = { c with written := c.written ++ message } ∨ c.attempt attempts message = c := by
  unfold attempt
  split
  · exact Or.inl rfl
  · exact Or.inr rfl

/-- A module that has been greeted may say that it quits. -/
theorem disconnect_cases (attempts : List Attempt) (c : Connection) :
    c.disconnect attempts = { c with state := .new, closed := true } ∨ c.state = .moin ∧
      c.disconnect attempts = { c with written := c.written ++ ascii "QUIT\n", state := .new, closed := true } := by
  unfold disconnect
  split
  · rcases attempt_cases attempts (ascii "QUIT\n") c with h | h
    · rw [h]
      exact Or.inr ⟨‹_›, rfl⟩
    · rw [h]
      exact Or.inl rfl
  · exact Or.inl rfl

theorem disconnect_keeps (attempts : List Attempt) (c : Connection) :
    c.written <+: (c.disconnect attempts).written ∧ (c.disconnect attempts).reports = c.reports := by
  rcases disconnect_cases attempts c with h | ⟨-, h⟩
  · rw [h]
    exact ⟨List.prefix_rfl, rfl⟩
  · rw [h]
    exact ⟨List.prefix_append _ _, rfl⟩

theorem grows_proceed {r : Response} (h : c.proceed attempts stage call r = some t) : Grows c t := by
  unfold proceed at h
  cases stage with
  | greeting =>
    dsimp only at h
    split at h
    · have hgrows := grows_announce h
      exact ⟨hgrows.written, hgrows.reports⟩
    · cases h
      exact grows_finish _ _ _ _
  | announcing =>
    dsimp only at h
    split at h
    · exact grows_sendData h
    · cases h
      exact grows_finish _ _ _ _
  | sending =>
    cases h
    exact grows_finish _ _ _ _

theorem read_tell {data : Bytes} (h : c.tell attempts data stage call x = some t) : t.read = c.read := by
  obtain ⟨out, -, rfl⟩ := Option.map_eq_some_iff.mp h
  cases out with
  | ok _ => rfl
  | error _ => rfl

/-- Only `nscang_client_response()` reads. -/
theorem read_proceed {r : Response} (h : c.proceed attempts stage call r = some t) : t.read = c.read := by
  cases stage with
  | greeting =>
    simp only [proceed] at h
    split at h
    · unfold announce at h
      split at h
      · have hsame := read_tell h
        exact hsame
      · cases h
        rfl
    · cases h
      rfl
  | announcing =>
    simp only [proceed] at h
    split at h
    · unfold sendData at h
      split at h
      · exact read_tell h
      · cases h
        rfl
    · cases h
      rfl
  | sending =>
    cases h
    rfl

/-- What becomes of a call when `nscang_client_response()` returns. -/
inductive Hears (attempts : List Attempt) (stage : Stage) (call : Call) (c t : Connection) : Prop
  | fails : Fails c t → Hears attempts stage call c t
  | strays (line : Bytes) : Grows c t → c.read ++ (line ++ [newline]) <+: t.read → ¬ Answerable line →
      Hears attempts stage call c t
  | goesOn (line : Bytes) (r : Response) : (answerTo (stripCr line)).result = some r →
      { c with read := c.read ++ (line ++ [newline]) }.proceed attempts stage call r = some t →
      Hears attempts stage call c t
  | ends (line : Bytes) : (answerTo (stripCr line)).result = none → (answerTo (stripCr line)).disconnected = false →
      t = { c with read := c.read ++ (line ++ [newline]) }.finish call stage.exchange (answerTo (stripCr line)).error →
      Hears attempts stage call c t

/-- A line after which the module disconnects is an error. -/
theorem answerTo_disconnected {line : Bytes} (h : (answerTo line).disconnected = true) :
    (answerTo line).result = none ∧ ∃ e, (answerTo line).error = some e ∧ e ≠ .fail := by
  unfold answerTo at h ⊢
  split_ifs at h ⊢ <;> first | exact absurd h (by decide) | exact ⟨rfl, _, rfl, by decide⟩

theorem hear_cases {turns : List Turn} {told quit : List Attempt}
    (h : c.hear turns attempts told quit stage call = some t) : Hears attempts stage call c t := by
  have hempty : ([] : Bytes).length < 1024 := by decide
  have hreads : Reads (stream turns) (response turns []) := reads_response turns hempty
  unfold hear at h
  generalize hverdict : response turns [] = verdict at h hreads
  cases hreads with
  | waiting => cases h
  | broken e left he =>
    simp only [Bool.false_eq_true, if_false, Option.some.injEq] at h
    subst h
    exact .fails (fails_finish call _ he List.prefix_rfl rfl)
  | strayed line left hstream hno =>
    cases h
    refine .strays line (.of_eq rfl rfl) ?_ hno
    show _ <+: c.read ++ stream turns
    rw [hstream]
    exact (List.prefix_append_right_inj _).mpr ⟨left, by simp⟩
  | answered line left hstream hanswerable =>
    have htake : (stream turns).take ((stream turns).length - left.length) = line ++ [newline] := by
      have hsplit : stream turns = (line ++ [newline]) ++ left := by
        rw [hstream]
        simp
      rw [hsplit, List.length_append, Nat.add_sub_cancel, List.take_left]
    simp only [htake] at h
    cases hdisconnected : (answerTo (stripCr line)).disconnected with
    | true =>
      obtain ⟨hresult, e, herror, he⟩ := answerTo_disconnected hdisconnected
      rw [hdisconnected, if_pos rfl, hresult, herror] at h
      simp only [Option.some.injEq] at h
      subst h
      -- the server is told, and the connection is closed
      obtain ⟨hwritten, hreports⟩ := disconnect_keeps quit
        ({ c with read := c.read ++ (line ++ [newline]) }.attempt told ((answerTo (stripCr line)).told.getD []))
      rcases attempt_cases told ((answerTo (stripCr line)).told.getD [])
        { c with read := c.read ++ (line ++ [newline]) } with htold | htold
      · rw [htold] at hwritten hreports ⊢
        exact .fails (fails_finish call _ he ((List.prefix_append _ _).trans hwritten) hreports)
      · rw [htold] at hwritten hreports ⊢
        exact .fails (fails_finish call _ he hwritten hreports)
    | false =>
      rw [hdisconnected, if_neg Bool.false_ne_true] at h
      cases hresult : (answerTo (stripCr line)).result with
      | none =>
        rw [hresult] at h
        exact .ends line hresult hdisconnected (Option.some.inj h).symm
      | some r =>
        rw [hresult] at h
        exact .goesOn line r hresult h

theorem grows_hears (h : Hears attempts stage call c t) : Grows c t := by
  cases h with
  | fails hfails => exact hfails.grows
  | strays _ hgrows => exact hgrows
  | goesOn line r _ hproceed =>
    have hgrows := grows_proceed hproceed
    exact ⟨hgrows.written, hgrows.reports⟩
  | ends line _ _ ht =>
    rw [ht]
    exact ⟨List.prefix_rfl, List.prefix_append _ _⟩

/-- What becomes of a call at its beginning. -/
inductive Begins (random : Fin (2 ^ 31) × Fin (2 ^ 31)) (attempts : List Attempt) (call : Call)
    (c t : Connection) : Prop
  | refused (r : Report) : r.error = some .fail → r.success = false →
      t = { c with waiting := none, reports := c.reports ++ [r] } → Begins random attempts call c t
  | greets (command : Bytes) : call.Submits command → c.state = .new →
      c.tell attempts (moinLine random) .greeting call .unmet = some t → Begins random attempts call c t
  | announces (command : Bytes) : call.Submits command → c.state = .moin → c.announce attempts call = some t →
      Begins random attempts call c t

theorem begin_cases {random : Fin (2 ^ 31) × Fin (2 ^ 31)} (hfits : call.Fits)
    (h : c.begin call random attempts = some t) :
    c.waiting = none ∧ c.strayed = false ∧ c.closed = false ∧ Begins random attempts call c t := by
  unfold begin at h
  by_cases hbusy : c.waiting.isSome = true ∨ c.strayed = true ∨ c.closed = true
  · rw [if_pos hbusy] at h
    cases h
  · rw [if_neg hbusy] at h
    simp only [not_or, Bool.not_eq_true, Option.isSome_eq_false_iff, Option.isNone_iff_eq_none] at hbusy
    refine ⟨hbusy.1, hbusy.2.1, hbusy.2.2, ?_⟩
    rcases hfits.cases with hrefused | ⟨command, hsubmits⟩
    · have hnone : call.request = none := hrefused.announced .allowed
      rw [if_neg (by rw [hrefused.overread]; exact Bool.false_ne_true), if_pos hnone, Option.some.injEq] at h
      refine .refused ⟨call, .unmet, (call.run .unmet).error⟩ (hrefused.error .unmet) (hrefused.result .unmet) ?_
      rw [← h]
      rfl
    · obtain ⟨terminator, -, hrequest⟩ := hsubmits.request
      rw [if_neg (by rw [hsubmits.overread]; exact Bool.false_ne_true), if_neg (by rw [hrequest]; exact nofun)] at h
      cases hstate : c.state with
      | new =>
        rw [hstate, if_neg (by decide)] at h
        exact .greets command hsubmits hstate h
      | moin =>
        rw [hstate, if_pos rfl] at h
        exact .announces command hsubmits hstate h

theorem grows_begins {random : Fin (2 ^ 31) × Fin (2 ^ 31)} (h : Begins random attempts call c t) : Grows c t := by
  cases h with
  | refused r _ _ ht =>
    rw [ht]
    exact ⟨List.prefix_rfl, List.prefix_append _ _⟩
  | greets command _ _ htell => exact grows_tell htell
  | announces command _ _ hannounce => exact grows_announce hannounce

/-- What has been written and reported stays, in every step. -/
theorem grows_step {e : Event} (hfits : ∀ call random attempts, e = .call call random attempts → call.Fits)
    (h : c.step e = some t) : Grows c t := by
  cases e with
  | call call random attempts => exact grows_begins (begin_cases (hfits call random attempts rfl) h).2.2.2
  | response turns attempts told quit =>
    simp only [step] at h
    split at h
    · split at h
      · cases h
      · exact grows_hears (hear_cases h)
    · cases h
  | disconnect attempts =>
    simp only [step] at h
    split at h
    · cases h
    · obtain ⟨hwritten, hreports⟩ := disconnect_keeps attempts c
      cases h
      exact ⟨hwritten, hreports ▸ List.prefix_rfl⟩

end Connection

end NscaNg.Bindings
