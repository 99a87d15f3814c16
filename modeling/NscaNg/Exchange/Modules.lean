/-
# The Perl and the Python module, and the server

A connection of one of the modules and the session that the server has for it, with a channel in each direction that
neither loses nor reorders anything. As long as every call succeeds or is refused, the commands of the calls that have
succeeded are what the server has handed to `fifo_write()`. Once a call has failed otherwise, a response may be taken
for that of another call (`not_submitted_by_modules_late`), but what was reported before still holds.
-/
import NscaNg.Bindings.Connection
import NscaNg.Exchange.Forwarding
import NscaNg.Server.ServerState

namespace NscaNg
namespace Exchange

open Posix Bindings

variable {ρ : Type} {scfg : Server.Config ρ}

structure Linked where
  client : Bindings.Connection
  server : Server.Session

namespace Linked

inductive Event
  | client (e : Bindings.Connection.Event)
  | server (e : Server.Event)

/-- What the module has written and the server has not taken. -/
def up (s : Linked) : Bytes :=
  Machine.outstanding s.client.written [] s.server.tls.history.received s.server.tls.unread

/-- What the server has written and the module has not taken. -/
def down (s : Linked) : Bytes :=
  Machine.outstanding s.server.tls.history.sent s.server.tls.unsent s.client.read []

def step (scfg : Server.Config ρ) (s : Linked) : Event → Option Linked
  | .client e =>
    match s.client.step e with
    | some client => if client.read <+: s.server.tls.history.sent then some { s with client := client } else none
    | none => none
  | .server e =>
    match Server.step scfg s.server e with
    | some server =>
      if server.tls.history.received <+: s.client.written then some { s with server := server } else none
    | none => none

/-- Module and server have come to this state. -/
def Reached (scfg : Server.Config ρ) (es : List Event) (s : Linked) : Prop :=
  ∃ hasAddress hasSsl now,
    Machine.Runs (Machine.Steps (step scfg)) ⟨.start, Server.start scfg hasAddress hasSsl now⟩ es s

variable {s t : Linked}

theorem step_client {e : Bindings.Connection.Event} (h : step scfg s (.client e) = some t) :
    ∃ client, s.client.step e = some client ∧ client.read <+: s.server.tls.history.sent ∧
      t = { s with client := client } := by
  unfold step at h
  dsimp only at h
  split at h
  · rename_i client hclient
    split at h
    · exact ⟨client, hclient, ‹_›, (Option.some.inj h).symm⟩
    · cases h
  · cases h

theorem step_server {e : Server.Event} (h : step scfg s (.server e) = some t) :
    ∃ server, Server.step scfg s.server e = some server ∧ server.tls.history.received <+: s.client.written ∧
      t = { s with server := server } := by
  unfold step at h
  dsimp only at h
  split at h
  · rename_i server hserver
    split at h
    · exact ⟨server, hserver, ‹_›, (Option.some.inj h).symm⟩
    · cases h
  · cases h

end Linked

/-! ### The requests of the modules -/

/-- What a stage of a call writes, and what the server has to wait for then. -/
inductive Writes (command : Bytes) : Stage → Bytes → ReadHandler × ℕ → Prop
  | greeting (id : Bytes) : id ≠ [] → (∀ c ∈ id, isDigit c = true) →
      Writes command .greeting (ascii "MOIN 1 " ++ id ++ Tls.lineTerminator) (.handshake, 0)
  | announcing (terminator : Bytes) : terminator = [newline] ∨ terminator = Tls.lineTerminator →
      Writes command .announcing (ascii "PUSH " ++ decimal command.length ++ terminator) (.connection, 0)
  | sending : Writes command .sending command (.push, command.length)

/-- The response to a stage that has gone well. -/
def granted : Stage → Bytes
  | .greeting => ascii "MOIN 1"
  | .announcing | .sending => ascii "OKAY"

/-- What the server waits for after it. -/
def goesOn (command : Bytes) : Stage → ReadHandler × ℕ
  | .greeting | .sending => (.connection, 0)
  | .announcing => (.push, command.length)

/-- What the server has handed on by it. -/
def handed (command : Bytes) : Stage → List Bytes
  | .greeting | .announcing => []
  | .sending => [command]

/-- What the server does with a request. -/
inductive Replies (command : Bytes) (stage : Stage) (actions : List Server.Action) : Prop
  | grants : Server.queued actions = granted stage ++ Tls.lineTerminator →
      Server.fifoWrites actions = handed command stage → LeadsTo actions (some (goesOn command stage)) →
      Replies command stage actions
  | refuses (line : Bytes) : stage ≠ .greeting → ascii "FAIL " <+: line → newline ∉ line →
      Server.queued actions = line ++ Tls.lineTerminator → Server.fifoWrites actions = [] →
      LeadsTo actions (some (.connection, 0)) → Replies command stage actions

theorem digits_word {id : Bytes} (hne : id ≠ []) (hdigits : ∀ c ∈ id, isDigit c = true) :
    id ≠ [] ∧ ∀ c ∈ id, c ∉ Server.blanks := by
  refine ⟨hne, fun c hc hblank => ?_⟩
  have hdigit := hdigits c hc
  have hcases : c ∈ [ch ' ', ch '\t'] := hblank
  rcases List.mem_pair.mp hcases with rfl | rfl <;> exact absurd hdigit (by decide)

theorem digits_plain {id : Bytes} (hdigits : ∀ c ∈ id, isDigit c = true) : Client.Plain id :=
  ⟨fun h => absurd (hdigits _ h) (by decide), fun h => absurd (hdigits _ h) (by decide)⟩

/-- A request line of a module, with either end. -/
theorem answer_terminated {line terminator data rest : Bytes} (hplain : Client.Plain line)
    (hlast : line.getLast? ≠ some (ch '\r')) (hterminator : terminator = [newline] ∨ terminator = Tls.lineTerminator)
    (h : Tls.answer (.ofSize 0) (line ++ terminator) = some (data, rest)) : rest = [] ∧ cstr data = line := by
  have hline : ∃ data', Tls.answer .line (line ++ terminator) = some (data', []) ∧ cstr data' = line := by
    rcases hterminator with rfl | rfl
    · exact Tls.answer_newline hplain.1 hplain.2 hlast []
    · have hcrlf := Tls.answer_line hplain.1 hplain.2 []
      rwa [List.append_nil] at hcrlf
  obtain ⟨data', hdata, hcstr⟩ := hline
  have hsame := hdata.symm.trans h
  simp only [Option.some.injEq, Prod.mk.injEq] at hsame
  exact ⟨hsame.2.symm, hsame.1 ▸ hcstr⟩

/-- **The server's reply** to what a stage of a call has written. -/
theorem replies {command request data rest : Bytes} {stage : Stage} {h : ReadHandler} {n : ℕ} (scfg : Server.Config ρ)
    (id : Option Bytes) (hne : command ≠ []) (hshort : command.length < 2 ^ 31)
    (hwrites : Writes command stage request (h, n)) (hanswer : Tls.answer (.ofSize n) request = some (data, rest)) :
    rest = [] ∧ Replies command stage (Server.handle scfg id n (.read h) data) := by
  cases hwrites with
  | greeting word hword hdigits =>
    have hmoin : Client.Plain (ascii "MOIN 1 ") := (by decide : newline ∉ ascii "MOIN 1 " ∧ 0 ∉ ascii "MOIN 1 ")
    have hlast : (ascii "MOIN 1 " ++ word).getLast? ≠ some (ch '\r') := by
      intro hlast
      rw [List.getLast?_append_of_ne_nil _ hword] at hlast
      exact absurd (hdigits _ (List.mem_of_getLast? hlast)) (by decide)
    obtain ⟨hrest, hcstr⟩ := answer_terminated (hmoin.append (digits_plain hdigits)) hlast (Or.inr rfl) hanswer
    have hhandle : Server.handle scfg id 0 (.read .handshake) data = Server.handleHandshake (cstr data) := rfl
    rw [hhandle, hcstr, handleHandshake_moin (digits_word hword hdigits)]
    exact ⟨hrest, .grants rfl rfl ⟨rfl, by simp⟩⟩
  | announcing terminator hterminator =>
    have hpush : Client.Plain (ascii "PUSH ") := (by decide : newline ∉ ascii "PUSH " ∧ 0 ∉ ascii "PUSH ")
    have hlast : (ascii "PUSH " ++ decimal command.length).getLast? ≠ some (ch '\r') := by
      intro hlast
      rw [List.getLast?_append_of_ne_nil _ (decimal_ne_nil _)] at hlast
      exact absurd (isDigit_decimal _ _ (List.mem_of_getLast? hlast)) (by decide)
    obtain ⟨hrest, hcstr⟩ := answer_terminated (hpush.append (Client.plain_decimal _)) hlast hterminator hanswer
    have hhandle : Server.handle scfg id 0 (.read .connection) data =
        Server.handleConnection scfg.maxCommandSize (cstr data) := rfl
    rw [hhandle, hcstr, handleConnection_push_decimal scfg.maxCommandSize (List.length_pos_iff.mpr hne) hshort]
    refine ⟨hrest, ?_⟩
    split
    · exact .refuses (ascii "FAIL PUSH data size too large") (by decide) (by decide) (by decide) rfl rfl
        ⟨rfl, by simp⟩
    · exact .grants rfl rfl ⟨rfl, by simp⟩
  | sending =>
    have hblock := Tls.answer_block hne []
    rw [List.append_nil] at hblock
    have hsame := hblock.symm.trans hanswer
    simp only [Option.some.injEq, Prod.mk.injEq] at hsame
    obtain ⟨rfl, rfl⟩ := hsame
    have hhandle : Server.handle scfg id command.length (.read .push) (command ++ [0]) =
        Server.handlePushData scfg.regexec scfg.table (id.getD []) command.length (command ++ [0]) := rfl
    rw [hhandle, handlePushData_command]
    refine ⟨rfl, ?_⟩
    split
    · exact .grants rfl rfl ⟨rfl, by simp⟩
    · exact .refuses (ascii "FAIL You're not authorized") (by decide) (by decide) (by decide) rfl rfl
        ⟨rfl, by simp⟩

/-- The server ends a session of a module that quits. -/
theorem replies_quit {data rest : Bytes} (scfg : Server.Config ρ) (id : Option Bytes)
    (hanswer : Tls.answer (.ofSize 0) (ascii "QUIT\n") = some (data, rest)) :
    Server.handle scfg id 0 (.read .connection) data =
      [.sendResponse (ascii "OKAY"), .tlsShutdown, .connectionStop] := by
  have hplain : Client.Plain (ascii "QUIT") := (by decide : newline ∉ ascii "QUIT" ∧ 0 ∉ ascii "QUIT")
  obtain ⟨-, hcstr⟩ := answer_terminated hplain (by decide) (Or.inl rfl) hanswer
  have hhandle : Server.handle scfg id 0 (.read .connection) data =
      Server.handleConnection scfg.maxCommandSize (cstr data) := rfl
  rw [hhandle, hcstr, handleConnection_quit]

/-! ### What the server waits for and leaves -/

section

variable {u v : Server.Session} {wanted : ReadHandler × ℕ}

/-- The session waits for this request, or it will read no more. -/
def Awaits (v : Server.Session) (wanted : ReadHandler × ℕ) : Prop :=
  ∃ stage, asked stage = some wanted ∧ Ready v stage

/-- What the session has written last: nothing, or the line with which it has ended the connection. -/
inductive Bails (v : Server.Session) : Bytes → Prop
  | stays : Bails v []
  | left (line : Bytes) : Closed v → ascii "BAIL " <+: line → newline ∉ line → line.length ≤ 62 →
      Bails v (line ++ Tls.lineTerminator)

theorem Awaits.same (h : Awaits u wanted) (hlog : v.log = u.log) (hconn : v.connection = u.connection) :
    Awaits v wanted := by
  obtain ⟨stage, hasked, hready⟩ := h
  exact ⟨stage, hasked, hready.same hlog hconn⟩

theorem Awaits.connects (h : Awaits u wanted) (hnil : u.log = [])
    (hlog : v.log = [⟨.connect .connect, Server.handleConnect⟩]) (hlive : v.connection = .live) : Awaits v wanted := by
  obtain ⟨stage, hasked, hready⟩ := h
  exact ⟨stage, hasked, hready.connects hnil hlog hlive⟩

theorem Awaits.closed (h : Awaits u wanted) (hclosed : Closed v) : Awaits v wanted := by
  obtain ⟨stage, hasked, -⟩ := h
  exact ⟨stage, hasked, .closed hclosed⟩

theorem Awaits.asks {p : Server.Entry} {k : ReadHandler} {n : ℕ} (h : Awaits v wanted) (hlive : v.connection = .live)
    (hlast : v.log.getLast? = some p) (hreq : Server.requests p.actions = [(k, n)]) : wanted = (k, n) := by
  obtain ⟨stage, hasked, hready⟩ := h
  exact Option.some.inj (hasked.symm.trans (hready.asks hlive hlast hreq))

/-- Every request that a module may make is waited for at a stage of the client. -/
theorem exists_asked (command : Bytes) (stage : Stage) : ∃ stage', asked stage' = some (goesOn command stage) := by
  cases stage with
  | greeting => exact ⟨.idle, rfl⟩
  | sending => exact ⟨.idle, rfl⟩
  | announcing =>
    refine ⟨.sending ⟨[], command, command.length⟩, ?_⟩
    show some (ReadHandler.push, (command.take command.length).length) = _
    rw [List.take_length]
    rfl

theorem awaits_of_leadsTo {p : Server.Entry} (command : Bytes) (stage : Stage) (hlog : v.log = u.log ++ [p])
    (hconn : v.connection = if .tlsShutdown ∈ p.actions then .freed else .live)
    (h : LeadsTo p.actions (some (goesOn command stage))) : Awaits v (goesOn command stage) := by
  obtain ⟨stage', hasked⟩ := exists_asked command stage
  exact ⟨stage', hasked, ready_of_leadsTo hlog hconn (hasked ▸ h)⟩

theorem Bails.same {tail : Bytes} (h : Bails u tail) (hlog : v.log = u.log) (hconn : v.connection = u.connection) :
    Bails v tail := by
  cases h with
  | stays => exact .stays
  | left line hclosed hbail hline hlength => exact .left line (hclosed.same hlog hconn) hbail hline hlength

theorem Bails.length {tail : Bytes} (h : Bails v tail) : tail.length ≤ 64 := by
  cases h with
  | stays => exact Nat.zero_le _
  | left line _ _ _ hlength =>
    have hend : Tls.lineTerminator.length = 2 := rfl
    rw [List.length_append]
    omega

/-- A session that goes on has left nothing. -/
theorem Bails.of_live {tail : Bytes} (h : Bails v tail) (hlive : v.connection = .live) : tail = [] := by
  cases h with
  | stays => rfl
  | left line hclosed _ _ _ => exact absurd (hlive.symm.trans hclosed.2) (by decide)

/-- A session that ends itself. -/
theorem bails_ends {q : Server.Entry} (hq : Server.Ends q) (hlog : v.log = u.log ++ [q])
    (hconn : v.connection = .freed) :
    Closed v ∧ Bails v (Server.queued q.actions) ∧ Server.written v.log = Server.written u.log := by
  have hclosed : Closed v := ⟨hlog ▸ List.append_ne_nil_of_right_ne_nil _ (List.cons_ne_nil _ _), hconn⟩
  rw [written_snoc hlog]
  cases hq with
  | error => exact ⟨hclosed, .stays, List.append_nil _⟩
  | timeout =>
    exact ⟨hclosed, .left (ascii "BAIL Connection timed out") hclosed (by decide) (by decide) (by decide),
      List.append_nil _⟩
  | lineTooLong =>
    exact ⟨hclosed, .left (ascii "BAIL Request line too long") hclosed (by decide) (by decide) (by decide),
      List.append_nil _⟩

end

/-! ### Lines that a module reads -/

/-- What ends with a newline, and is the beginning of a line and what follows it, has the line in it. -/
theorem line_of_newline {reply line more rest : Bytes} (hreply : newline ∉ reply)
    (h : line ++ [newline] ++ more = reply ++ Tls.lineTerminator ++ rest) : reply ++ [ch '\r'] <+: line := by
  have hend : Tls.lineTerminator = [ch '\r'] ++ [newline] := rfl
  have hline : line <+: reply ++ [ch '\r'] ++ ([newline] ++ rest) := ⟨[newline] ++ more, by
    rw [← List.append_assoc, h, hend]
    simp⟩
  have hfront : reply ++ [ch '\r'] <+: reply ++ [ch '\r'] ++ ([newline] ++ rest) := List.prefix_append _ _
  rcases Nat.lt_or_ge line.length (reply ++ [ch '\r']).length with hlt | hge
  · -- the newline would be in the line
    have hwhole : line ++ [newline] <+: reply ++ [ch '\r'] ++ ([newline] ++ rest) := ⟨more, by
      rw [h, hend]
      simp⟩
    have hinside := List.prefix_of_prefix_length_le hwhole hfront (by rw [List.length_append]; exact hlt)
    have hmem : newline ∈ reply ++ [ch '\r'] := hinside.subset (by simp)
    rcases List.mem_append.mp hmem with hmem | hmem
    · exact absurd hmem hreply
    · exact absurd (List.mem_singleton.mp hmem) (by decide)
  · exact List.prefix_of_prefix_length_le hfront hline hge

/-- The module finds the reply at the front of the line. -/
theorem stripCr_of_line {reply line : Bytes} (h : reply ++ [ch '\r'] <+: line) : reply <+: stripCr line := by
  unfold stripCr
  obtain ⟨rest, rfl⟩ := h
  split
  · rw [List.append_assoc, List.dropLast_append_of_ne_nil (by simp)]
    exact List.prefix_append _ _
  · rw [List.append_assoc]
    exact List.prefix_append _ _

/-- A reply with a text, or one that needs none, can be answered. -/
theorem answerable_of_reply {reply line : Bytes} (hreply : ∀ kw ∈ bareKeywords, ¬ reply <+: kw)
    (h : reply <+: stripCr line) : Answerable line := by
  refine ⟨fun hnil => ?_, fun hmem => hreply _ hmem h⟩
  rw [hnil] at h
  have hempty : reply = [] := List.prefix_nil.mp h
  exact hreply (ascii "MOIN") (by decide) (hempty ▸ List.nil_prefix)

theorem not_prefix_of_length {reply : Bytes} (hlength : 4 < reply.length) : ∀ kw ∈ bareKeywords, ¬ reply <+: kw := by
  intro kw hkw h
  have hfour : ∀ kw ∈ bareKeywords, kw.length = 4 := by decide
  have hle := h.length_le
  rw [hfour kw hkw] at hle
  omega

/-- What is left behind a line is what the server leaves with. -/
theorem Bails.behind {v : Server.Session} {reply line more tail : Bytes} (hbails : Bails v tail)
    (hreply : newline ∉ reply) (h : line ++ [newline] ++ more = reply ++ Tls.lineTerminator ++ tail) : Bails v more := by
  have hend : Tls.lineTerminator = [ch '\r'] ++ [newline] := rfl
  obtain ⟨extra, rfl⟩ := line_of_newline hreply h
  rw [hend] at h
  simp only [List.append_assoc, List.append_cancel_left_eq] at h
  cases extra with
  | nil =>
    rw [List.nil_append, List.append_cancel_left_eq] at h
    exact h ▸ hbails
  | cons c extra =>
    -- the line goes on behind the newline of the reply, and ends where the other one does
    simp only [List.cons_append, List.nil_append, List.cons.injEq] at h
    obtain ⟨rfl, h⟩ := h
    cases hbails with
    | stays => simp at h
    | left last hclosed hbail hlast hlength =>
      have hinner : extra ++ [newline] ++ more = last ++ Tls.lineTerminator ++ [] := by
        rw [List.append_nil, ← h]
        simp
      obtain ⟨further, rfl⟩ := line_of_newline hlast hinner
      have hlengths := congrArg List.length hinner
      have htwo : Tls.lineTerminator.length = 2 := rfl
      simp only [List.length_append, List.length_singleton, List.length_nil, htwo] at hlengths
      have hmore : more = [] := List.length_eq_zero_iff.mp (by omega)
      rw [hmore]
      exact .stays

/-! ### Accord -/

/-- Whether the server has been greeted when a call is at the stage. -/
def stateOf : Stage → ClientState
  | .greeting => .new
  | .announcing | .sending => .moin

/-- What the server waits for between the calls. -/
def standing : ClientState → ReadHandler × ℕ
  | .new => (.handshake, 0)
  | .moin => (.connection, 0)

/-- A call waits for the response to what it has written. -/
structure Waits (c : Bindings.Connection) (stage : Stage) (call : Bindings.Call) (command : Bytes) : Prop where
  waiting : c.waiting = some (stage, call)
  submits : call.Submits command
  state : c.state = stateOf stage
  live : c.closed = false

/-- Who has to say something, and what has been handed on: what the server has still to say before it leaves is
given. -/
inductive Accord (s : Linked) : Bytes → Prop
  | idle : s.client.waiting = none → s.client.closed = false → s.up = [] → Awaits s.server (standing s.client.state) →
      Server.written s.server.log = submitted s.client.reports → Accord s []
  | asked (stage : Stage) (call : Bindings.Call) (command request : Bytes) (wanted : ReadHandler × ℕ) :
      Waits s.client stage call command → Writes command stage request wanted → s.up = request →
      Awaits s.server wanted → Server.written s.server.log = submitted s.client.reports → Accord s []
  | granted (stage : Stage) (call : Bindings.Call) (command : Bytes) : Waits s.client stage call command → s.up = [] →
      Awaits s.server (goesOn command stage) →
      Server.written s.server.log = submitted s.client.reports ++ handed command stage →
      Accord s (granted stage ++ Tls.lineTerminator)
  | refused (stage : Stage) (call : Bindings.Call) (command line : Bytes) : Waits s.client stage call command →
      stage ≠ .greeting → s.up = [] → ascii "FAIL " <+: line → newline ∉ line → Awaits s.server (.connection, 0) →
      Server.written s.server.log = submitted s.client.reports → Accord s (line ++ Tls.lineTerminator)
  | finished (front : Bytes) : s.client.waiting = none → s.client.closed = true →
      Server.written s.server.log = submitted s.client.reports →
      s.up = [] ∨ Closed s.server ∨ front = [] ∧ s.up = ascii "QUIT\n" ∧ Awaits s.server (.connection, 0) →
      Accord s front

/-- Module and server agree on what is said. -/
structure InAccord (s : Linked) : Prop where
  unstrayed : s.client.strayed = false
  flushes : Tls.Flushes s.server.tls
  unmixed : Server.Unmixed s.server
  voices : ∃ front tail, s.down = front ++ tail ∧ front.length ≤ 64 ∧ Bails s.server tail ∧ Accord s front

/-- What holds of module and server between the steps. -/
structure Sound (scfg : Server.Config ρ) (s : Linked) : Prop where
  serves : Server.Serves scfg s.server
  upward : s.server.tls.history.received <+: s.client.written
  ledger : ∀ before, before <+: s.client.reports → (∀ r ∈ before, r.Clean) →
    submitted before <+: Server.written s.server.log
  accord : (∃ r ∈ s.client.reports, ¬ r.Clean) ∨ s.client.read <+: s.server.tls.history.sent ∧ InAccord s

theorem submitted_grown {reports before : List Report} (h : before <+: reports) :
    submitted before <+: submitted reports := by
  obtain ⟨more, rfl⟩ := h
  exact ⟨submitted more, List.flatMap_append.symm⟩

/-- What has been handed on is at least what is known to be. -/
theorem InAccord.reported {s : Linked} (h : InAccord s) :
    submitted s.client.reports <+: Server.written s.server.log := by
  obtain ⟨front, tail, -, -, -, haccord⟩ := h.voices
  cases haccord with
  | idle _ _ _ _ hwritten => exact hwritten ▸ List.prefix_rfl
  | asked stage call command request wanted _ _ _ _ hwritten => exact hwritten ▸ List.prefix_rfl
  | granted stage call command _ _ _ hwritten => exact hwritten ▸ List.prefix_append _ _
  | refused stage call command line _ _ _ _ _ _ hwritten => exact hwritten ▸ List.prefix_rfl
  | finished _ _ _ hwritten => exact hwritten ▸ List.prefix_rfl

/-- What has been handed on, exactly. -/
theorem InAccord.handed_on {s : Linked} (h : InAccord s) :
    Server.written s.server.log = submitted s.client.reports ∨
      ∃ call command, s.client.waiting = some (.sending, call) ∧ call.command = some command ∧
        Server.written s.server.log = submitted s.client.reports ++ [command] := by
  obtain ⟨front, tail, -, -, -, haccord⟩ := h.voices
  cases haccord with
  | idle _ _ _ _ hwritten => exact Or.inl hwritten
  | asked stage call command request wanted _ _ _ _ hwritten => exact Or.inl hwritten
  | refused stage call command line _ _ _ _ _ _ hwritten => exact Or.inl hwritten
  | finished _ _ _ hwritten => exact Or.inl hwritten
  | granted stage call command hwaits _ _ hwritten =>
    cases stage with
    | greeting => exact Or.inl (hwritten.trans (List.append_nil _))
    | announcing => exact Or.inl (hwritten.trans (List.append_nil _))
    | sending => exact Or.inr ⟨call, command, hwaits.waiting, hwaits.submits.sent, hwritten⟩

/-! ### Steps of the module -/

section

variable {s : Linked} {c d : Bindings.Connection} {v : Server.Session} {stage : Stage} {call : Bindings.Call}
  {command : Bytes}

/-- Nothing is on its way but what the server leaves with. -/
structure Quiet (s : Linked) (wanted : ReadHandler × ℕ) : Prop where
  unstrayed : s.client.strayed = false
  live : s.client.closed = false
  flushes : Tls.Flushes s.server.tls
  unmixed : Server.Unmixed s.server
  upward : s.server.tls.history.received <+: s.client.written
  up : s.up = []
  down : Bails s.server s.down
  awaits : Awaits s.server wanted

/-- What has been written and read is the same, and nothing has gone wrong. -/
theorem Quiet.same {wanted : ReadHandler × ℕ} (h : Quiet ⟨c, v⟩ wanted) (hwritten : d.written = c.written)
    (hread : d.read = c.read) (hstrayed : d.strayed = c.strayed) (hclosed : d.closed = c.closed) :
    Quiet ⟨d, v⟩ wanted where
  unstrayed := hstrayed.trans h.unstrayed
  live := hclosed.trans h.live
  flushes := h.flushes
  unmixed := h.unmixed
  upward := hwritten.symm ▸ h.upward
  up := by
    rw [← h.up]
    unfold Linked.up
    rw [hwritten]
  down := by
    have hdown := h.down
    unfold Linked.down at hdown ⊢
    rwa [hread]
  awaits := h.awaits

/-- What is written goes to the end of what is on its way. -/
theorem up_written {data : Bytes} (hw : v.tls.history.received <+: c.written) (hd : d.written = c.written ++ data) :
    Linked.up ⟨d, v⟩ = Linked.up ⟨c, v⟩ ++ data := by
  have hsend : Machine.outstanding (c.written ++ data) [] v.tls.history.received v.tls.unread =
      Machine.outstanding c.written ([] ++ data) v.tls.history.received v.tls.unread :=
    Machine.outstanding_send _ hw (List.prefix_append _ _) (List.append_nil _)
  unfold Linked.up
  rw [hd, hsend, Machine.outstanding_write]

/-- A call writes a request. -/
theorem Quiet.asks {wanted : ReadHandler × ℕ} {request : Bytes} {attempts : List Attempt} {x : Bindings.Exchange}
    (h : Quiet ⟨c, v⟩ wanted) (hsubmits : call.Submits command) (hwrites : Writes command stage request wanted)
    (hstate : c.state = stateOf stage) (hwritten : Server.written v.log = submitted c.reports)
    (htell : c.tell attempts request stage call x = some d) : c.Fails d ∨ InAccord ⟨d, v⟩ := by
  rcases Bindings.Connection.tell_cases htell with rfl | hfails
  · refine Or.inr ⟨h.unstrayed, h.flushes, h.unmixed, [], _, (List.nil_append _).symm, Nat.zero_le _, h.down,
      .asked stage call command request wanted ⟨rfl, hsubmits, hstate, h.live⟩ hwrites ?_ h.awaits hwritten⟩
    rw [up_written h.upward rfl, h.up, List.nil_append]
  · exact Or.inl hfails

/-- No call is under way. -/
theorem Quiet.rests (h : Quiet ⟨c, v⟩ (standing c.state)) (hwaiting : c.waiting = none)
    (hwritten : Server.written v.log = submitted c.reports) : InAccord ⟨c, v⟩ where
  unstrayed := h.unstrayed
  flushes := h.flushes
  unmixed := h.unmixed
  voices := ⟨[], _, (List.nil_append _).symm, Nat.zero_le _, h.down, .idle hwaiting h.live h.up h.awaits hwritten⟩

theorem Quiet.announces {attempts : List Attempt} (h : Quiet ⟨c, v⟩ (.connection, 0)) (hsubmits : call.Submits command)
    (hstate : c.state = .moin) (hwritten : Server.written v.log = submitted c.reports)
    (hannounce : c.announce attempts call = some d) : c.Fails d ∨ InAccord ⟨d, v⟩ := by
  obtain ⟨terminator, hterminator, hrequest⟩ := hsubmits.request
  unfold Bindings.Connection.announce at hannounce
  rw [hrequest] at hannounce
  exact h.asks hsubmits (.announcing terminator hterminator) hstate hwritten hannounce

theorem Quiet.sends {attempts : List Attempt} (h : Quiet ⟨c, v⟩ (.push, command.length))
    (hsubmits : call.Submits command) (hstate : c.state = .moin) (hwritten : Server.written v.log = submitted c.reports)
    (hsend : c.sendData attempts call = some d) : c.Fails d ∨ InAccord ⟨d, v⟩ := by
  unfold Bindings.Connection.sendData at hsend
  rw [hsubmits.sent] at hsend
  exact h.asks hsubmits .sending hstate hwritten hsend

/-- The session ID of a module has digits only. -/
theorem digits_padded (n : ℕ) :
    Bindings.Connection.padded n ≠ [] ∧ ∀ c ∈ Bindings.Connection.padded n, isDigit c = true := by
  unfold Bindings.Connection.padded
  refine ⟨List.append_ne_nil_of_right_ne_nil _ (decimal_ne_nil n), fun c hc => ?_⟩
  rcases List.mem_append.mp hc with hc | hc
  · rw [List.eq_of_mem_replicate hc]
    rfl
  · exact isDigit_decimal n c hc

theorem Quiet.greets {attempts : List Attempt} {random : Fin (2 ^ 31) × Fin (2 ^ 31)} {x : Bindings.Exchange}
    (h : Quiet ⟨c, v⟩ (.handshake, 0)) (hsubmits : call.Submits command) (hstate : c.state = .new)
    (hwritten : Server.written v.log = submitted c.reports)
    (htell : c.tell attempts (Bindings.Connection.moinLine random) .greeting call x = some d) :
    c.Fails d ∨ InAccord ⟨d, v⟩ := by
  obtain ⟨hne, hdigits⟩ := digits_padded random.1
  obtain ⟨-, hdigits'⟩ := digits_padded random.2
  have hline : Bindings.Connection.moinLine random =
      ascii "MOIN 1 " ++ (Bindings.Connection.padded random.1 ++ Bindings.Connection.padded random.2) ++
        Tls.lineTerminator := by
    unfold Bindings.Connection.moinLine
    simp only [List.append_assoc]
    rfl
  rw [hline] at htell
  refine h.asks hsubmits (.greeting _ (List.append_ne_nil_of_left_ne_nil hne _) fun c hc => ?_) hstate hwritten htell
  exact (List.mem_append.mp hc).elim (hdigits c) (hdigits' c)

/-- What is read comes from the front of what is on its way. -/
theorem down_read {bytes : Bytes} (hd : d.read = c.read ++ bytes) (hw : d.read <+: v.tls.history.sent) :
    Linked.down ⟨c, v⟩ = bytes ++ Linked.down ⟨d, v⟩ := by
  obtain ⟨more, hbefore, hafter⟩ := Machine.outstanding_receive v.tls.unsent [] hw hd
  unfold Linked.down
  rw [hbefore, hafter, List.nil_append, List.nil_append]

/-- What a line that is read says. -/
inductive Heard (c d : Bindings.Connection) (v : Server.Session) (stage : Stage) (call : Bindings.Call)
    (line : Bytes) : Prop
  | bails : ascii "BAIL" <+: stripCr line → Heard c d v stage call line
  | grants (command : Bytes) : Waits c stage call command → granted stage <+: stripCr line →
      Quiet ⟨d, v⟩ (goesOn command stage) → Server.written v.log = submitted c.reports ++ handed command stage →
      Heard c d v stage call line
  | refuses (command : Bytes) : Waits c stage call command → stage ≠ .greeting → ascii "FAIL" <+: stripCr line →
      Quiet ⟨d, v⟩ (.connection, 0) → Server.written v.log = submitted c.reports → Heard c d v stage call line

theorem newline_notMem_granted (stage : Stage) : newline ∉ granted stage := by
  cases stage <;> decide

theorem granted_notMem_bareKeywords (stage : Stage) : ∀ kw ∈ bareKeywords, ¬ granted stage <+: kw := by
  cases stage <;> decide

/-- A line that is read is one of the server, and can be answered. -/
theorem InAccord.heard {line : Bytes} (h : InAccord ⟨c, v⟩) (hw : v.tls.history.received <+: c.written)
    (hwaiting : c.waiting = some (stage, call)) (hread : c.read ++ (line ++ [newline]) <+: v.tls.history.sent) :
    Answerable line ∧ Heard c { c with read := c.read ++ (line ++ [newline]) } v stage call line := by
  obtain ⟨front, tail, hdown, -, hbails, haccord⟩ := h.voices
  have hsplit : Linked.down ⟨c, v⟩ = line ++ [newline] ++ _ :=
    down_read (d := { c with read := c.read ++ (line ++ [newline]) }) rfl hread
  generalize hmore : Linked.down ⟨{ c with read := c.read ++ (line ++ [newline]) }, v⟩ = more at hsplit
  rw [hsplit] at hdown
  have hquiet : ∀ {wanted}, c.closed = false → Linked.up ⟨c, v⟩ = [] → Bails v more → Awaits v wanted →
      Quiet ⟨{ c with read := c.read ++ (line ++ [newline]) }, v⟩ wanted := fun hlive hup hbails hawaits =>
    ⟨h.unstrayed, hlive, h.flushes, h.unmixed, hw, hup, hmore ▸ hbails, hawaits⟩
  -- the line with which the server leaves
  have hleft : front = [] →
      Answerable line ∧ Heard c { c with read := c.read ++ (line ++ [newline]) } v stage call line := by
    rintro rfl
    cases hbails with
    | stays => simp at hdown
    | left last hclosed hbail hlast hlength =>
      rw [List.nil_append, ← List.append_nil (last ++ Tls.lineTerminator)] at hdown
      have hreply := hbail.trans (stripCr_of_line (line_of_newline hlast hdown))
      have hkeyword : ascii "BAIL" <+: ascii "BAIL " := by decide
      exact ⟨answerable_of_reply (not_prefix_of_length (by decide)) hreply, .bails (hkeyword.trans hreply)⟩
  cases haccord with
  | idle hnone _ _ _ _ =>
    rw [hwaiting] at hnone
    cases hnone
  | finished _ hnone _ _ _ =>
    rw [hwaiting] at hnone
    cases hnone
  | asked _ _ _ _ _ _ _ _ _ _ => exact hleft rfl
  | granted stage' call' command hwaits hup hawaits hwritten =>
    obtain ⟨rfl, rfl⟩ : stage' = stage ∧ call' = call := by simpa using hwaits.waiting.symm.trans hwaiting
    have hreply := stripCr_of_line (line_of_newline (newline_notMem_granted _) hdown)
    exact ⟨answerable_of_reply (granted_notMem_bareKeywords _) hreply, .grants command hwaits hreply
      (hquiet hwaits.live hup (hbails.behind (newline_notMem_granted _) hdown) hawaits) hwritten⟩
  | refused stage' call' command last hwaits hstage hup hfail hlast hawaits hwritten =>
    obtain ⟨rfl, rfl⟩ : stage' = stage ∧ call' = call := by simpa using hwaits.waiting.symm.trans hwaiting
    have hreply := hfail.trans (stripCr_of_line (line_of_newline hlast hdown))
    have hkeyword : ascii "FAIL" <+: ascii "FAIL " := by decide
    exact ⟨answerable_of_reply (not_prefix_of_length (by decide)) hreply, .refuses command hwaits hstage
      (hkeyword.trans hreply) (hquiet hwaits.live hup (hbails.behind hlast hdown) hawaits) hwritten⟩

section

variable {reports : List Report} {x : Bindings.Exchange} {error : Option Error}

theorem submitted_success (hresult : (call.run x).result = true) (hsent : call.command = some command) :
    submitted (reports ++ [⟨call, x, error⟩]) = submitted reports ++ [command] := by
  simp [submitted, Report.success, hresult, hsent]

theorem submitted_failure (hresult : (call.run x).result = false) :
    submitted (reports ++ [⟨call, x, error⟩]) = submitted reports := by
  simp [submitted, Report.success, hresult]

end

/-- The server has granted what it was asked for. -/
theorem Quiet.granted {attempts : List Attempt} {r : Response} {line : Bytes} (h : Quiet ⟨c, v⟩ (goesOn command stage))
    (hsubmits : call.Submits command) (hstate : c.state = stateOf stage) (hline : Exchange.granted stage <+: line)
    (hwritten : Server.written v.log = submitted c.reports ++ handed command stage)
    (hresult : (answerTo line).result = some r) (hproceed : c.proceed attempts stage call r = some d) :
    c.Fails d ∨ InAccord ⟨d, v⟩ := by
  cases stage with
  | greeting =>
    have hmoin : ascii "MOIN" <+: line := (show ascii "MOIN" <+: ascii "MOIN 1" by decide).trans hline
    obtain rfl : r = .moin := by
      rcases answerTo_moin hmoin with hanswer | ⟨hnone, -⟩
      · rw [hanswer] at hresult
        exact (Option.some.inj hresult).symm
      · rw [hnone] at hresult
        cases hresult
    have hgreeted : Quiet ⟨{ c with state := .moin }, v⟩ (.connection, 0) := h.same rfl rfl rfl rfl
    have hannounce : { c with state := .moin }.announce attempts call = some d := by
      simpa only [Bindings.Connection.proceed, if_true] using hproceed
    rw [show handed command .greeting = [] from rfl, List.append_nil] at hwritten
    exact (hgreeted.announces hsubmits rfl hwritten hannounce).imp (fun hfails => ⟨hfails.written, hfails.unclean⟩) id
  | announcing =>
    rw [answerTo_okay hline] at hresult
    cases hresult
    have hsend : c.sendData attempts call = some d := by
      simpa only [Bindings.Connection.proceed, if_true] using hproceed
    rw [show handed command .announcing = [] from rfl, List.append_nil] at hwritten
    exact h.sends hsubmits hstate hwritten hsend
  | sending =>
    rw [answerTo_okay hline] at hresult
    cases hresult
    cases hproceed
    have hquiet : Quiet ⟨c.finish call { Bindings.Exchange.handed with accepted := some .okay } none, v⟩
        (standing c.state) := by
      rw [hstate]
      exact h.same rfl rfl rfl rfl
    exact Or.inr (hquiet.rests rfl (hwritten.trans (submitted_success hsubmits.accepted.1 hsubmits.sent).symm))

/-- `nscang_client_response()` returns. -/
theorem InAccord.hears {attempts : List Attempt} (h : InAccord ⟨c, v⟩) (hw : v.tls.history.received <+: c.written)
    (hwaiting : c.waiting = some (stage, call)) (hhears : Bindings.Connection.Hears attempts stage call c d)
    (hread : d.read <+: v.tls.history.sent) : c.Fails d ∨ InAccord ⟨d, v⟩ := by
  cases hhears with
  | fails hfails => exact Or.inl hfails
  | strays line _ hline hno => exact absurd (h.heard hw hwaiting (hline.trans hread)).1 hno
  | goesOn line r hresult hproceed =>
    have hsame : d.read = c.read ++ (line ++ [newline]) := Bindings.Connection.read_proceed hproceed
    obtain ⟨-, hheard⟩ := h.heard hw hwaiting (hsame ▸ hread)
    cases hheard with
    | bails hbail =>
      rw [answerTo_bail hbail] at hresult
      cases hresult
    | refuses command _ _ hfail =>
      rw [answerTo_fail hfail] at hresult
      cases hresult
    | grants command hwaits hgranted hquiet hwritten =>
      exact (hquiet.granted hwaits.submits hwaits.state hgranted hwritten hresult hproceed).imp
        (fun hfails => ⟨hfails.written, hfails.unclean⟩) id
  | ends line hresult hstays hd =>
    subst hd
    obtain ⟨-, hheard⟩ := h.heard hw hwaiting hread
    cases hheard with
    | bails hbail =>
      rw [answerTo_bail hbail] at hstays
      cases hstays
    | refuses command hwaits hstage hfail hquiet hwritten =>
      rw [answerTo_fail hfail]
      have hstate : c.state = .moin := by
        rw [hwaits.state]
        cases stage with
        | greeting => exact absurd rfl hstage
        | announcing => rfl
        | sending => rfl
      have hrests : Quiet
          ⟨{ c with read := c.read ++ (line ++ [newline]) }.finish call stage.exchange (some .fail), v⟩
          (standing c.state) := by
        rw [hstate]
        exact hquiet.same rfl rfl rfl rfl
      have hrefused : (call.run stage.exchange).result = false := by
        cases stage with
        | greeting => exact absurd rfl hstage
        | announcing => exact hwaits.submits.unaccepted rfl rfl
        | sending => exact hwaits.submits.unaccepted rfl rfl
      exact Or.inr (hrests.rests rfl (hwritten.trans (submitted_failure hrefused).symm))
    | grants command hwaits hgranted hquiet hwritten =>
      have hokay : ¬ ascii "OKAY" <+: stripCr line := by
        intro hokay
        rw [answerTo_okay hokay] at hresult
        cases hresult
      cases stage with
      | announcing => exact absurd hgranted hokay
      | sending => exact absurd hgranted hokay
      | greeting =>
        have hmoin : ascii "MOIN" <+: stripCr line := (show ascii "MOIN" <+: ascii "MOIN 1" by decide).trans hgranted
        rcases answerTo_moin hmoin with hanswer | ⟨-, herror⟩
        · rw [hanswer] at hresult
          cases hresult
        · rw [herror]
          exact Or.inl (Bindings.Connection.fails_finish call _ (by decide) List.prefix_rfl rfl)

/-- Between the calls nothing is on its way. -/
theorem InAccord.rested (h : InAccord ⟨c, v⟩) (hw : v.tls.history.received <+: c.written) (hwaiting : c.waiting = none)
    (hlive : c.closed = false) :
    Quiet ⟨c, v⟩ (standing c.state) ∧ Server.written v.log = submitted c.reports := by
  obtain ⟨front, tail, hdown, -, hbails, haccord⟩ := h.voices
  have hbusy : ∀ {stage call command}, ¬ Waits c stage call command := by
    intro stage call command hwaits
    have hsome := hwaits.waiting
    rw [hwaiting] at hsome
    cases hsome
  cases haccord with
  | asked stage call command request wanted hwaits => exact absurd hwaits hbusy
  | granted stage call command hwaits => exact absurd hwaits hbusy
  | refused stage call command line hwaits => exact absurd hwaits hbusy
  | finished _ _ hclosed =>
    rw [hlive] at hclosed
    cases hclosed
  | idle _ _ hup hawaits hwritten =>
    rw [List.nil_append] at hdown
    exact ⟨⟨h.unstrayed, hlive, h.flushes, h.unmixed, hw, hup, hdown ▸ hbails, hawaits⟩, hwritten⟩

/-- A call begins. -/
theorem InAccord.begins {attempts : List Attempt} {random : Fin (2 ^ 31) × Fin (2 ^ 31)} (h : InAccord ⟨c, v⟩)
    (hw : v.tls.history.received <+: c.written) (hwaiting : c.waiting = none) (hlive : c.closed = false)
    (hbegins : Bindings.Connection.Begins random attempts call c d) : c.Fails d ∨ InAccord ⟨d, v⟩ := by
  obtain ⟨hquiet, hwritten⟩ := h.rested hw hwaiting hlive
  cases hbegins with
  | refused r herror hfailed hd =>
    subst hd
    have hrests : Quiet ⟨{ c with waiting := none, reports := c.reports ++ [r] }, v⟩ (standing c.state) :=
      hquiet.same rfl rfl rfl rfl
    exact Or.inr (hrests.rests rfl (hwritten.trans (submitted_failure hfailed).symm))
  | greets command hsubmits hstate htell =>
    rw [hstate] at hquiet
    exact hquiet.greets hsubmits hstate hwritten htell
  | announces command hsubmits hstate hannounce =>
    rw [hstate] at hquiet
    exact hquiet.announces hsubmits hstate hwritten hannounce

/-- The module is disconnected between two calls. -/
theorem InAccord.disconnects (attempts : List Attempt) (h : InAccord ⟨c, v⟩) (hw : v.tls.history.received <+: c.written)
    (hwaiting : c.waiting = none) (hlive : c.closed = false) : InAccord ⟨c.disconnect attempts, v⟩ := by
  obtain ⟨hquiet, hwritten⟩ := h.rested hw hwaiting hlive
  rcases Bindings.Connection.disconnect_cases attempts c with hgone | ⟨hstate, hgone⟩
  · rw [hgone]
    exact ⟨h.unstrayed, h.flushes, h.unmixed, [], _, (List.nil_append _).symm, Nat.zero_le _, hquiet.down,
      .finished _ hwaiting rfl hwritten (Or.inl hquiet.up)⟩
  · have hawaits := hquiet.awaits
    rw [hstate] at hawaits
    have hup : Linked.up ⟨c.disconnect attempts, v⟩ = Linked.up ⟨c, v⟩ ++ ascii "QUIT\n" :=
      up_written hw (by rw [hgone])
    rw [show Linked.up ⟨c, v⟩ = [] from hquiet.up, List.nil_append] at hup
    rw [hgone] at hup ⊢
    exact ⟨h.unstrayed, h.flushes, h.unmixed, [], _, (List.nil_append _).symm, Nat.zero_le _, hquiet.down,
      .finished _ hwaiting rfl hwritten (Or.inr (Or.inr ⟨rfl, hup, hawaits⟩))⟩

end

/-! ### Steps of the server -/

section

variable {c : Bindings.Connection} {u v : Server.Session}

/-- The server has made a step that nothing was asked for. -/
theorem Accord.carries {front : Bytes} (h : Accord ⟨c, u⟩ front) (hup : Linked.up ⟨c, v⟩ = Linked.up ⟨c, u⟩)
    (hwritten : Server.written v.log = Server.written u.log) (hawaits : ∀ wanted, Awaits u wanted → Awaits v wanted)
    (hclosed : Closed u → Closed v) : Accord ⟨c, v⟩ front := by
  cases h with
  | idle hwaiting hlive hnil hstands hall =>
    exact .idle hwaiting hlive (hup.trans hnil) (hawaits _ hstands) (hwritten.trans hall)
  | asked stage call command request wanted hwaits hwrites hrequest hready hall =>
    exact .asked stage call command request wanted hwaits hwrites (hup.trans hrequest) (hawaits _ hready)
      (hwritten.trans hall)
  | granted stage call command hwaits hnil hready hall =>
    exact .granted stage call command hwaits (hup.trans hnil) (hawaits _ hready) (hwritten.trans hall)
  | refused stage call command line hwaits hstage hnil hfail hline hready hall =>
    exact .refused stage call command line hwaits hstage (hup.trans hnil) hfail hline (hawaits _ hready)
      (hwritten.trans hall)
  | finished _ hwaiting hend hall hrest =>
    refine .finished front hwaiting hend (hwritten.trans hall) (hrest.imp hup.trans (Or.imp hclosed ?_))
    exact fun ⟨hnil, hquit, hready⟩ => ⟨hnil, hup.trans hquit, hawaits _ hready⟩

/-- What a step of the server does to what is on its way. -/
theorem ways {taken : Option (Tls.Request × Bytes)} {written : Bytes} (hflow : Tls.Flow taken written u.tls v.tls)
    (hreceived : v.tls.history.received <+: c.written) (hread : c.read <+: u.tls.history.sent) :
    Tls.Taken taken (Linked.up ⟨c, u⟩) (Linked.up ⟨c, v⟩) ∧ Linked.down ⟨c, v⟩ = Linked.down ⟨c, u⟩ ++ written ∧
      c.read <+: v.tls.history.sent :=
  ⟨hflow.outstanding_taken [] hreceived, hflow.outstanding_sent c.read [] hread, hread.trans hflow.sent⟩

theorem unmixed_of_up (h : Linked.up ⟨c, v⟩ = []) : Server.Unmixed v := fun _ _ _ _ _ _ _ =>
  (List.append_eq_nil_iff.mp (Machine.outstanding_nil h).1).2

/-- The server has got a request. -/
theorem InAccord.answers {p : Server.Entry} {k : ReadHandler} {n : ℕ} {data : Bytes} (h : InAccord ⟨c, u⟩)
    (hreceived : v.tls.history.received <+: c.written) (hread : c.read <+: u.tls.history.sent) (hfv : Tls.Flushes v.tls)
    (hlive : u.connection = .live) (hlast : u.log.getLast? = some p) (hreq : Server.requests p.actions = [(k, n)])
    (hflow : Tls.Flow (some (.ofSize n, data)) (Server.queued (Server.handle scfg u.id n (.read k) data)) u.tls v.tls)
    (hlog : v.log = u.log ++ [⟨.read (.read k) data, Server.handle scfg u.id n (.read k) data⟩])
    (hconn : v.connection = if .tlsShutdown ∈ Server.handle scfg u.id n (.read k) data then .freed else .live) :
    InAccord ⟨c, v⟩ := by
  have hbrief := (Server.brief_handle scfg u.id n k data).length
  obtain ⟨hup, hdown, -⟩ := ways hflow hreceived hread
  have hnone : Linked.up ⟨c, u⟩ ≠ [] := by
    intro hnil
    rw [hnil] at hup
    exact absurd (hup.symm.trans (Tls.answer_nil n)) nofun
  have hwritten := written_snoc hlog
  obtain ⟨front, tail, hfront, -, hbails, haccord⟩ := h.voices
  obtain rfl := hbails.of_live hlive
  rw [hfront, List.append_nil] at hdown
  cases haccord with
  | idle _ _ hnil => exact absurd hnil hnone
  | granted _ _ _ _ hnil => exact absurd hnil hnone
  | refused _ _ _ _ _ _ hnil => exact absurd hnil hnone
  | finished _ hwaiting hend hall hrest =>
    obtain ⟨rfl, hquit, hready⟩ := (hrest.resolve_left hnone).resolve_left fun hclosed =>
      absurd (hlive.symm.trans hclosed.2) (by decide)
    obtain ⟨rfl, rfl⟩ : ReadHandler.connection = k ∧ 0 = n := by simpa using hready.asks hlive hlast hreq
    rw [hquit] at hup
    rw [replies_quit scfg u.id hup] at hdown hbrief hwritten hconn
    have hclosed : Closed v := ⟨hlog ▸ List.append_ne_nil_of_right_ne_nil _ (List.cons_ne_nil _ _), hconn⟩
    exact ⟨h.unstrayed, hfv, fun hlive' => absurd (hlive'.symm.trans hclosed.2) (by decide), _, [],
      by rw [hdown, List.nil_append, List.append_nil], hbrief, .stays,
      .finished _ hwaiting hend (hwritten.trans ((List.append_nil _).trans hall)) (Or.inr (Or.inl hclosed))⟩
  | asked stage call command request wanted hwaits hwrites hrequest hready hall =>
    obtain rfl := hready.asks hlive hlast hreq
    rw [hrequest] at hup
    have hshort : command.length < 2 ^ 31 := lt_of_le_of_lt hwaits.submits.short (by decide)
    obtain ⟨hrest, hreplies⟩ := replies scfg u.id hwaits.submits.nonempty hshort hwrites hup
    rw [List.nil_append] at hdown
    cases hreplies with
    | grants hqueued hwrites' hleads =>
      rw [hqueued] at hdown hbrief
      refine ⟨h.unstrayed, hfv, unmixed_of_up hrest, _, [], by rw [hdown, List.append_nil], hbrief, .stays,
        .granted stage call command hwaits hrest (awaits_of_leadsTo command stage hlog hconn hleads) ?_⟩
      rw [hwritten, hall, hwrites']
    | refuses line hstage hfail hline hqueued hnothing hleads =>
      rw [hqueued] at hdown hbrief
      refine ⟨h.unstrayed, hfv, unmixed_of_up hrest, _, [], by rw [hdown, List.append_nil], hbrief, .stays,
        .refused stage call command line hwaits hstage hrest hfail hline
          (awaits_of_leadsTo command .sending hlog hconn hleads) ?_⟩
      rw [hwritten, hall, hnothing, List.append_nil]

/-- A step of the server. -/
theorem InAccord.server_step {e : Server.Event} (h : InAccord ⟨c, u⟩) (hserves : Server.Serves scfg u)
    (hread : c.read <+: u.tls.history.sent) (hstep : Server.step scfg u e = some v)
    (hreceived : v.tls.history.received <+: c.written) : c.read <+: v.tls.history.sent ∧ InAccord ⟨c, v⟩ := by
  obtain ⟨front, tail, hfront, hlength, hbails, haccord⟩ := h.voices
  have hroom : u.tls.unsent.length + 64 < 2 ^ 31 := by
    have hle : u.tls.unsent.length ≤ (Linked.down ⟨c, u⟩).length := Machine.length_unsent_le _ _ _ _
    rw [hfront, List.length_append] at hle
    have := hbails.length
    omega
  obtain ⟨hfv, hmoves⟩ := Server.moves_step hserves h.flushes h.unmixed hroom hstep
  cases hmoves with
  | reads p k n data hlive hlast hreq hflow hlog hconn =>
    exact ⟨(ways hflow hreceived hread).2.2, h.answers hreceived hread hfv hlive hlast hreq hflow hlog hconn⟩
  | quiet hflow hlog hconn hmix =>
    obtain ⟨hup, hdown, hread⟩ := ways hflow hreceived hread
    rw [List.append_nil] at hdown
    refine ⟨hread, h.unstrayed, hfv, hmix, front, tail, hdown.trans hfront, hlength,
      hbails.same hlog hconn, haccord.carries hup (by rw [hlog]) (fun _ hawaits => hawaits.same hlog hconn) ?_⟩
    exact fun hclosed => hclosed.same hlog hconn
  | connects hnil hflow hlog hlive =>
    obtain ⟨hup, hdown, hread⟩ := ways hflow hreceived hread
    rw [List.append_nil] at hdown
    have hmix : Server.Unmixed v := by
      intro _ q k n hlast hreq hn
      rw [hlog] at hlast
      obtain rfl : ⟨.connect .connect, Server.handleConnect⟩ = q := Option.some.inj hlast
      obtain ⟨-, rfl⟩ : ReadHandler.handshake = k ∧ 0 = n := by simpa [Server.requests, Server.handleConnect] using hreq
      exact absurd rfl hn
    have htail : Bails v tail := by
      cases hbails with
      | stays => exact .stays
      | left line hclosed _ _ _ => exact absurd hnil hclosed.1
    have hwritten : Server.written v.log = Server.written u.log := by
      rw [hlog, hnil]
      rfl
    refine ⟨hread, h.unstrayed, hfv, hmix, front, tail, hdown.trans hfront, hlength, htail,
      haccord.carries hup hwritten (fun _ hawaits => hawaits.connects hnil hlog hlive) ?_⟩
    exact fun hclosed => absurd hnil hclosed.1
  | ends q hlive hq hflow hlog hconn =>
    obtain rfl := hbails.of_live hlive
    obtain ⟨hclosed, hleft, hwritten⟩ := bails_ends hq hlog hconn
    obtain ⟨hup, hdown, hread⟩ := ways hflow hreceived hread
    rw [hfront, List.append_nil] at hdown
    have hmix : Server.Unmixed v := fun hlive' => absurd (hlive'.symm.trans hconn) (by decide)
    exact ⟨hread, h.unstrayed, hfv, hmix, front, _, hdown, hlength, hleft,
      haccord.carries hup hwritten (fun _ hawaits => hawaits.closed hclosed) fun _ => hclosed⟩

end

/-! ### Runs -/

section

variable {s t : Linked}

/-- A module and a server that are in accord know what has been handed on. -/
theorem Sound.of_accord {c : Bindings.Connection} {v : Server.Session} (hserves : Server.Serves scfg v)
    (hup : v.tls.history.received <+: c.written) (hdown : c.read <+: v.tls.history.sent) (h : InAccord ⟨c, v⟩) :
    Sound scfg ⟨c, v⟩ where
  serves := hserves
  upward := hup
  ledger _ hbefore _ := (submitted_grown hbefore).trans h.reported
  accord := Or.inr ⟨hdown, h⟩

theorem sound_start (scfg : Server.Config ρ) (hasAddress hasSsl : Bool) (now : ℚ) :
    Sound scfg ⟨.start, Server.start scfg hasAddress hasSsl now⟩ := by
  have hunused : Tls.Unused (Server.start scfg hasAddress hasSsl now).tls :=
    (Tls.Started.accept hasAddress hasSsl Server.Handler.connect scfg.timeout now).unused
  have hup : Linked.up ⟨.start, Server.start scfg hasAddress hasSsl now⟩ = [] := by
    unfold Linked.up Machine.outstanding
    rw [hunused.unread, hunused.received]
    rfl
  have hdown : Linked.down ⟨.start, Server.start scfg hasAddress hasSsl now⟩ = [] := by
    unfold Linked.down Machine.outstanding
    rw [hunused.sent, hunused.unsent]
    rfl
  have hempty : (Server.start scfg hasAddress hasSsl now).tls.history.received <+:
      Bindings.Connection.start.written := by
    rw [hunused.received]
    exact List.nil_prefix
  have hquiet : Quiet ⟨.start, Server.start scfg hasAddress hasSsl now⟩ (.handshake, 0) :=
    { unstrayed := rfl
      live := rfl
      flushes := hunused.flushes
      unmixed := fun hlive => by cases hlive
      upward := hempty
      up := hup
      down := hdown ▸ .stays
      awaits := ⟨.connecting, rfl, .fresh rfl rfl⟩ }
  exact .of_accord (Server.serves_start scfg hasAddress hasSsl now) hquiet.upward List.nil_prefix
    (Quiet.rests hquiet rfl rfl)

/-- What has been reported while all went well is still so when a report is added. -/
theorem ledger_mono {reports more before : List Report} (hbefore : before <+: reports ++ more)
    (hclean : ∀ r ∈ before, r.Clean) (h : ∃ r ∈ reports, ¬ r.Clean) : before <+: reports := by
  rcases Nat.le_total before.length reports.length with hle | hle
  · exact List.prefix_of_prefix_length_le hbefore (List.prefix_append _ _) hle
  · obtain ⟨r, hr, hunclean⟩ := h
    have hall := List.prefix_of_prefix_length_le (List.prefix_append _ _) hbefore hle
    exact absurd (hclean r (hall.subset hr)) hunclean

/-- The events are calls of which the command fits. -/
def Fitting : Linked.Event → Prop
  | .client (.call call _ _) => call.Fits
  | .client _ | .server _ => True

instance decidableFitting : DecidablePred Fitting
  | .client (.call call _ _) => inferInstanceAs (Decidable call.Fits)
  | .client (.response _ _ _ _) | .client (.disconnect _) | .server _ => inferInstanceAs (Decidable True)

/-- A step of the module. -/
theorem Sound.client_step {e : Bindings.Connection.Event} (hs : Sound scfg s) (hfits : Fitting (.client e))
    (h : Linked.step scfg s (.client e) = some t) : Sound scfg t := by
  obtain ⟨d, hstep, hread, rfl⟩ := Linked.step_client h
  obtain ⟨c, v⟩ := s
  have hgrows : c.Grows d := Bindings.Connection.grows_step (fun _ _ _ he => by rw [he] at hfits; exact hfits) hstep
  obtain ⟨more, hmore⟩ := hgrows.reports
  rcases hs.accord with hspoiled | ⟨-, haccord⟩
  · refine ⟨hs.serves, hs.upward.trans hgrows.written, fun before hbefore hclean => ?_, Or.inl ?_⟩
    · exact hs.ledger before (ledger_mono (hmore ▸ hbefore) hclean hspoiled) hclean
    · obtain ⟨r, hr, hunclean⟩ := hspoiled
      exact ⟨r, hgrows.reports.subset hr, hunclean⟩
  · have hnext : c.Fails d ∨ InAccord ⟨d, v⟩ := by
      cases e with
      | call call random attempts =>
        obtain ⟨hwaiting, -, hlive, hbegins⟩ := Bindings.Connection.begin_cases hfits hstep
        exact haccord.begins hs.upward hwaiting hlive hbegins
      | response turns attempts told quit =>
        simp only [Bindings.Connection.step] at hstep
        split at hstep
        · rename_i stage call hwaiting
          split at hstep
          · cases hstep
          · exact haccord.hears hs.upward hwaiting (Bindings.Connection.hear_cases hstep) hread
        · cases hstep
      | disconnect attempts =>
        simp only [Bindings.Connection.step] at hstep
        split at hstep
        · cases hstep
        · rename_i hfree
          simp only [not_or, Bool.not_eq_true, Option.isSome_eq_false_iff, Option.isNone_iff_eq_none] at hfree
          cases hstep
          exact Or.inr (haccord.disconnects attempts hs.upward hfree.1 hfree.2.2)
    rcases hnext with hfails | hnext
    · obtain ⟨r, hunclean, hreports⟩ := hfails.unclean
      refine ⟨hs.serves, hs.upward.trans hgrows.written, fun before hbefore hclean => ?_,
        Or.inl ⟨r, hreports ▸ List.mem_append_right _ (List.mem_singleton_self r), hunclean⟩⟩
      rw [hreports] at hbefore
      rcases List.prefix_concat_iff.mp hbefore with rfl | hbefore
      · exact absurd (hclean r (List.mem_append_right _ (List.mem_singleton_self r))) hunclean
      · exact hs.ledger before hbefore hclean
    · exact .of_accord hs.serves (hs.upward.trans hgrows.written) hread hnext

/-- A step of the server. -/
theorem Sound.server_step {e : Server.Event} (hs : Sound scfg s) (h : Linked.step scfg s (.server e) = some t) :
    Sound scfg t := by
  obtain ⟨v, hstep, hreceived, rfl⟩ := Linked.step_server h
  have hserves := Server.serves_step hs.serves hstep
  rcases hs.accord with hspoiled | ⟨hread, haccord⟩
  · refine ⟨hserves, hreceived, fun before hbefore hclean => ?_, Or.inl hspoiled⟩
    rw [Server.written_step hstep]
    exact (hs.ledger before hbefore hclean).trans (List.prefix_append _ _)
  · obtain ⟨hread, hnext⟩ := haccord.server_step hs.serves hread hstep hreceived
    exact .of_accord hserves hreceived hread hnext

theorem Linked.Reached.sound {es : List Linked.Event} (h : Linked.Reached scfg es s) (hfits : ∀ e ∈ es, Fitting e) :
    Sound scfg s := by
  obtain ⟨hasAddress, hasSsl, now, hruns⟩ := h
  refine (hruns.meeting hfits).invariant (fun s e t hs hstep => ?_) (sound_start scfg hasAddress hasSsl now)
  obtain ⟨hfits, hstep⟩ := hstep
  cases e with
  | client e => exact hs.client_step hfits hstep
  | server e => exact hs.server_step hstep

/-- **Submissions of the modules.** Whatever is called and whoever is authorized for what, however the bytes are cut up
and the steps follow each other, and whether or when the connection is lost: as far as the calls of a connection have
succeeded or been refused, the commands of those that have succeeded are, in this order, the first that the server has
handed to `fifo_write()`. If no call has failed otherwise, nothing outside the buffers has been read, and besides these
commands the server has handed on at most the one that a call is sending. Each command fits its buffer. -/
theorem submitted_by_modules {es : List Linked.Event} (h : Linked.Reached scfg es s) (hfits : ∀ e ∈ es, Fitting e) :
    (∀ before, before <+: s.client.reports → (∀ r ∈ before, r.Clean) →
      submitted before <+: Server.written s.server.log) ∧
    ((∀ r ∈ s.client.reports, r.Clean) → s.client.strayed = false ∧
      (Server.written s.server.log = submitted s.client.reports ∨
        ∃ call command, s.client.waiting = some (.sending, call) ∧ call.command = some command ∧
          Server.written s.server.log = submitted s.client.reports ++ [command])) := by
  have hs := h.sound hfits
  refine ⟨hs.ledger, fun hclean => ?_⟩
  have haccord : InAccord s := (hs.accord.resolve_left fun ⟨r, hr, hunclean⟩ => hunclean (hclean r hr)).2
  exact ⟨haccord.unstrayed, haccord.handed_on⟩

/-- A comment is submitted with `nscang_client_send_command()`, and a check result, for which nobody is authorized, with
`nscang_client_send_push()`. -/
def moduleEvents : List Linked.Event :=
  [.server (.acceptSslCb (.ok (some (ascii "web")))),
    .client (.call (.perlCommand 0 7 (ascii "[1] ADD_HOST_COMMENT;")) (1, 2) [.retry false, .taken]),
    .server (.readCb [.data (ch 'M') (ascii "OIN 1 0000000100000002\r\n")]), .server (.writeCb [.sent 99]),
    .client (.response [⟨.data (ch 'M') (ascii "OIN 1"), false⟩, ⟨.data (ch '\r') [newline], false⟩] [.taken] [] []),
    .server (.readCb [.data (ch 'P') (ascii "USH 22\r\n")]), .server (.writeCb [.sent 99]),
    .client (.response [⟨.data (ch 'O') (ascii "KAY\r\n"), false⟩] [.taken] [] []),
    .server (.readCb [.data (ch '[') (ascii "1] ADD_HOST_COMMENT;\n")]), .server (.writeCb [.sent 99]),
    .client (.response [⟨.data (ch 'O') (ascii "KAY\r\n"), false⟩] [] [] []),
    .client (.call (.pythonPush 7 (ascii "h") none 0 (ascii "ok")) (1, 2) [.taken]),
    .server (.readCb [.data (ch 'P') (ascii "USH 37\n")]), .server (.writeCb [.sent 99]),
    .client (.response [⟨.data (ch 'O') (ascii "KAY\r\n"), false⟩] [.taken] [] []),
    .server (.readCb [.data (ch '[') (ascii "7] PROCESS_HOST_CHECK_RESULT;h;0;ok\n")]), .server (.writeCb [.sent 99]),
    .client (.response [⟨.data (ch 'F') (ascii "AIL You're not authorized\r\n"), false⟩] [] [] [])]

theorem submitted_by_modules_comment : ∃ s, Linked.Reached commentServer moduleEvents s ∧
    submitted s.client.reports = [ascii "[1] ADD_HOST_COMMENT;\n"] ∧
    Server.written s.server.log = [ascii "[1] ADD_HOST_COMMENT;\n"] ∧ s.client.strayed = false := by
  obtain ⟨s, hs, hp⟩ := (Option.any_eq_true _ _).mp (by decide +kernel : Option.any
    (fun s : Linked => decide (s.client.waiting = none ∧ (∀ r ∈ s.client.reports, r.Clean) ∧
      submitted s.client.reports = [ascii "[1] ADD_HOST_COMMENT;\n"]))
    (Machine.run (Linked.step commentServer) ⟨.start, Server.start commentServer true true 0⟩ moduleEvents) = true)
  obtain ⟨hwaiting, hclean, hsubmitted⟩ := of_decide_eq_true hp
  have hreached : Linked.Reached commentServer moduleEvents s := ⟨true, true, 0, Machine.runs_of_run hs⟩
  obtain ⟨-, hall⟩ := submitted_by_modules hreached (by decide +kernel)
  obtain ⟨hstrayed, hwritten⟩ := hall hclean
  refine ⟨s, hreached, hsubmitted, ?_, hstrayed⟩
  rcases hwritten with hwritten | ⟨call, command, hsome, -⟩
  · exact hwritten.trans hsubmitted
  · rw [hwaiting] at hsome
    cases hsome

/-- The module gives up waiting for the second response to the comment, which is in time for the next call. -/
def lateEvents : List Linked.Event :=
  [.server (.acceptSslCb (.ok (some (ascii "web")))),
    .client (.call (.perlCommand 0 7 (ascii "[1] ADD_HOST_COMMENT;")) (1, 2) [.taken]),
    .server (.readCb [.data (ch 'M') (ascii "OIN 1 0000000100000002\r\n")]), .server (.writeCb [.sent 99]),
    .client (.response [⟨.data (ch 'M') (ascii "OIN 1\r\n"), false⟩] [.taken] [] []),
    .server (.readCb [.data (ch 'P') (ascii "USH 22\r\n")]), .server (.writeCb [.sent 99]),
    .client (.response [⟨.data (ch 'O') (ascii "KAY\r\n"), false⟩] [.taken] [] []),
    .client (.response [⟨.retry, true⟩] [] [] []),
    .server (.readCb [.data (ch '[') (ascii "1] ADD_HOST_COMMENT;\n")]), .server (.writeCb [.sent 99]),
    .client (.call (.perlCommand 0 7 (ascii "[1] SHUTDOWN_PROGRAM;")) (1, 2) [.taken]),
    .client (.response [⟨.data (ch 'O') (ascii "KAY\r\n"), false⟩] [.taken] [] []),
    .server (.readCb [.data (ch 'P') (ascii "USH 22\r\n")]), .server (.writeCb [.sent 99]),
    .client (.response [⟨.data (ch 'O') (ascii "KAY\r\n"), false⟩] [] [] []),
    .server (.readCb [.data (ch '[') (ascii "1] SHUTDOWN_PROGRAM;\n")])]

/-- After a timeout, a command may be reported as submitted that is then refused. -/
theorem not_submitted_by_modules_late : ∃ s, Linked.Reached commentServer lateEvents s ∧
    submitted s.client.reports = [ascii "[1] SHUTDOWN_PROGRAM;\n"] ∧
    Server.written s.server.log = [ascii "[1] ADD_HOST_COMMENT;\n"] := by
  obtain ⟨s, hs, hp⟩ := (Option.any_eq_true _ _).mp (by decide +kernel : Option.any
    (fun s : Linked => decide (submitted s.client.reports = [ascii "[1] SHUTDOWN_PROGRAM;\n"] ∧
      Server.written s.server.log = [ascii "[1] ADD_HOST_COMMENT;\n"]))
    (Machine.run (Linked.step commentServer) ⟨.start, Server.start commentServer true true 0⟩ lateEvents) = true)
  obtain ⟨hsubmitted, hwritten⟩ := of_decide_eq_true hp
  exact ⟨s, ⟨true, true, 0, Machine.runs_of_run hs⟩, hsubmitted, hwritten⟩

end

end Exchange
end NscaNg
