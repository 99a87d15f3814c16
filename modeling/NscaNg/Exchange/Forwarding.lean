/-
# What is forwarded

In every run of client and server, what the server has forwarded is the beginning of what the client has built of
its standard input, and it is all of it if the client ends with status 0. Nothing is ever asked of the server but what
the client asks for.
-/
import NscaNg.Exchange.Agreement

namespace NscaNg
namespace Exchange

open Posix

variable {ρ : Type} {ccfg : Client.Config} {scfg : Server.Config ρ} {s t : System}

theorem agreed_start (h : Started ccfg scfg s) : ∃ stage, Agreed ccfg scfg s stage := by
  obtain ⟨client, server⟩ := s
  obtain ⟨⟨hasSocket, reply, now, rfl⟩, ⟨hasAddress, hasSsl, now', rfl⟩⟩ := h
  obtain ⟨stage, hbegins⟩ := Client.begins_start ccfg hasSocket reply now
  have hunused : Tls.Unused (Server.start scfg hasAddress hasSsl now').tls :=
    (Tls.Started.accept hasAddress hasSsl Server.Handler.connect scfg.timeout now').unused
  have hup : System.up ⟨Client.start ccfg hasSocket reply now, Server.start scfg hasAddress hasSsl now'⟩ =
      stage.request ccfg := by
    unfold System.up Tls.way Machine.outstanding
    rw [hunused.unread, hunused.received, hbegins.sent, hbegins.unsent]
    rfl
  have hdown : System.down ⟨Client.start ccfg hasSocket reply now, Server.start scfg hasAddress hasSsl now'⟩ = [] := by
    unfold System.down Tls.way Machine.outstanding
    rw [hunused.sent, hunused.unsent, hbegins.received, hbegins.unread]
    rfl
  have howes : owes stage = [] ∧ asked stage = some (.handshake, 0) := by
    rcases hbegins.first with rfl | rfl <;> exact ⟨rfl, rfl⟩
  refine ⟨stage, ?_, ?_, Server.serves_start scfg hasAddress hasSsl now', hunused.flushes, fun hlive => ?_, ?_, ?_, ?_,
    List.nil_prefix, ?_, fun p hp => absurd hp List.not_mem_nil, fun status _ hstage => ?_, [], [], hdown, Nat.zero_le _,
    .stays, .waits hup (.fresh rfl howes.2) ?_⟩
  · show (Server.start scfg hasAddress hasSsl now').tls.history.received <+: _
    rw [hunused.received]
    exact List.nil_prefix
  · show (Client.start ccfg hasSocket reply now).tls.history.received <+: _
    rw [hbegins.received]
    exact List.nil_prefix
  · cases hlive
  · exact hbegins.enters.imp id fun h => ⟨h, hbegins.flushes⟩
  · exact ⟨[], List.nil_prefix, by rw [hbegins.built]; exact .nil⟩
  · exact ⟨by rcases hbegins.first with rfl | rfl <;> simp, by simp [howes.1]⟩
  · show (Client.start ccfg hasSocket reply now).built.length ≤ _
    rw [hbegins.built]
    exact Nat.zero_le _
  · rcases hbegins.first with rfl | rfl <;> cases hstage
  · rw [howes.1, hbegins.built]
    rfl

theorem agreed_step {e : Event} {stage : Client.Stage} (hs : Agreed ccfg scfg s stage)
    (hshort : ∀ command ∈ t.client.built, command.length < 2 ^ 31) (h : step ccfg scfg s e = some t) :
    ∃ stage', Agreed ccfg scfg t stage' := by
  cases e with
  | client e => exact hs.client_step hshort h
  | server e => exact ⟨stage, hs.server_step h⟩

theorem built_step {e : Event} (h : step ccfg scfg s e = some t) : s.client.built <+: t.client.built := by
  cases e with
  | client e =>
    obtain ⟨c, hstep, -, rfl⟩ := step_client h
    exact Client.built_step hstep
  | server e =>
    obtain ⟨v, -, -, rfl⟩ := step_server h
    exact List.prefix_rfl

/-- What holds of client and server in every run. -/
theorem Exchanging.agreed {es : List Event} (h : Exchanging ccfg scfg es s)
    (hshort : ∀ command ∈ s.client.built, command.length < 2 ^ 31) : ∃ stage, Agreed ccfg scfg s stage := by
  obtain ⟨start, hstart, hruns⟩ := h
  have hinvariant := hruns.invariant
    (I := fun s => (∀ command ∈ s.client.built, command.length < 2 ^ 31) → ∃ stage, Agreed ccfg scfg s stage)
    (fun s e t hs hstep hshort => by
      obtain ⟨stage, hs⟩ := hs fun command hmem => hshort command ((built_step hstep).subset hmem)
      exact agreed_step hs hshort hstep)
    (fun _ => agreed_start hstart)
  exact hinvariant hshort

/-- A client that has ended with status 0 has seen all that it has built accepted. -/
theorem Agreed.exits {stage : Client.Stage} (hs : Agreed ccfg scfg s stage) (hexit : s.client.exitStatus = some 0) :
    Server.written s.server.log = s.client.built ∧ Client.Builds ccfg ccfg.chunks s.client.built := by
  have hruns : ¬ s.client.Ended := fun hended => by
    unfold Client.Session.exitStatus at hexit
    rw [if_pos (show s.client.died = true ∨ s.client.tls.died = true from hended)] at hexit
    cases hexit
  obtain ⟨hat, -⟩ := hs.client.resolve_left hruns
  obtain ⟨rfl, hbuilds⟩ := hat.exits hruns hexit
  refine ⟨?_, hbuilds rfl⟩
  obtain ⟨front, tail, -, -, -, hphase⟩ := hs.phase
  cases hphase with
  | waits _ _ haccount =>
    rw [show owes (.stopped 0) = [] from rfl, List.append_nil] at haccount
    exact haccount
  | accepted hpending =>
    obtain ⟨handler, hposture⟩ := hpending
    cases hposture
  | refused line hpending =>
    obtain ⟨handler, hposture⟩ := hpending
    cases hposture
  | stopped status hstage _ hall =>
    cases hstage
    exact hall rfl

/-- **Forwarding.** Whatever the standard input and the mode, whoever is authorized for what, however the bytes are
cut up and the callbacks follow each other, and whether or when the connection is lost: the commands that the server
has handed to `fifo_write()` are, in this order, the first of those that the client has built, and these are built of the
first of its chunks, each once. If the client ends with status 0, all of its chunks have been read, and all commands have
been handed on. Each command is shorter than 2^31 bytes, which is as much as the server can be told. -/
theorem forwarded_in_order {es : List Event} (h : Exchanging ccfg scfg es s)
    (hshort : ∀ command ∈ s.client.built, command.length < 2 ^ 31) :
    Server.written s.server.log <+: s.client.built ∧
      (∃ done, done <+: ccfg.chunks ∧ Client.Builds ccfg done s.client.built) ∧
      (s.client.exitStatus = some 0 →
        Server.written s.server.log = s.client.built ∧ Client.Builds ccfg ccfg.chunks s.client.built) := by
  obtain ⟨stage, hs⟩ := h.agreed hshort
  exact ⟨hs.forwarded, hs.faithful, hs.exits⟩

/-! ### A run -/

/-- `send_nsca -C` with a command on its standard input. -/
def commentClient : Client.Config where
  progname := ascii "send_nsca"
  mode := .command
  delimiter := 9
  separator := 23
  timeout := 5
  sessionId := ascii "YWJjZGVm"
  sessionId_base64 := by decide +kernel
  sessionId_length := rfl
  stdin := ascii "[1] ADD_HOST_COMMENT;\n"

/-- A server where everyone may add comments. -/
def commentServer : Server.Config Regex where
  maxCommandSize := 16384
  timeout := 5
  table := [(ascii "*", ⟨[], [], [(regcomp (ascii "^ADD_HOST_COMMENT;.*\n?$")).getD []]⟩)]
  regexec := posixRegexec

/-- The command is announced, accepted, sent and forwarded, and the client quits. -/
def commentEvents : List Event :=
  [.server (.acceptSslCb (.ok (some (ascii "web")))), .client (.ready .init), .client (.connectCb (.ok ())),
    .client (.writeCb [.sent 99]), .server (.readCb [.data (ch 'M') (ascii "OIN 1 YWJjZGVm\r\n")]),
    .server (.writeCb [.sent 99]), .client (.readCb [.data (ch 'M') (ascii "OIN 1\r\n")] [.data 99] 7),
    .client (.writeCb [.sent 99]), .server (.readCb [.data (ch 'P') (ascii "USH 22\r\n")]), .server (.writeCb [.sent 99]),
    .client (.readCb [.data (ch 'O') (ascii "KAY\r\n")] [] 0), .client (.writeCb [.sent 99]),
    .server (.readCb [.data (ch '[') (ascii "1] ADD_HOST_COMMENT;\n")]), .server (.writeCb [.sent 99]),
    .client (.readCb [.data (ch 'O') (ascii "KAY\r\n")] [.data 99] 8), .client (.writeCb [.sent 99]),
    .server (.readCb [.data (ch 'Q') (ascii "UIT\r\n")]), .server (.writeCb [.sent 99]),
    .client (.readCb [.data (ch 'O') (ascii "KAY\r\n")] [] 0), .client (.shutdownCb [.done])]

theorem forwarded_in_order_comment : ∃ s, Exchanging commentClient commentServer commentEvents s ∧
    Server.written s.server.log = [ascii "[1] ADD_HOST_COMMENT;\n"] ∧
    Client.Builds commentClient commentClient.chunks s.client.built := by
  obtain ⟨s, hs, hp⟩ := (Option.any_eq_true _ _).mp (by decide +kernel : Option.any
    (fun s : System => decide (s.client.exitStatus = some 0 ∧ s.client.built = [ascii "[1] ADD_HOST_COMMENT;\n"]))
    (Machine.run (step commentClient commentServer)
      ⟨Client.start commentClient true (.error .wantRead) 0, Server.start commentServer true true 0⟩ commentEvents) = true)
  obtain ⟨hexit, hbuilt⟩ := of_decide_eq_true hp
  have hexchanging : Exchanging commentClient commentServer commentEvents s :=
    ⟨_, ⟨⟨true, .error .wantRead, 0, rfl⟩, ⟨true, true, 0, rfl⟩⟩, Machine.runs_of_run hs⟩
  obtain ⟨-, -, hall⟩ := forwarded_in_order hexchanging (by rw [hbuilt]; decide)
  obtain ⟨hwritten, hbuilds⟩ := hall hexit
  exact ⟨s, hexchanging, hwritten.trans hbuilt, hbuilds⟩

end Exchange
end NscaNg
