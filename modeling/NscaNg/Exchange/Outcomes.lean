/-
# How an exchange may end

What the server does when its client is `send_nsca`: each call of a handler is one that the protocol provides
for (`Served`), and the only refusals are those of a command that is too large or that the client is not authorized
for. A client that reports a failure without an error of its own has seen the command refused that it built last, after
all commands before it were forwarded, or the server has ended the connection.
-/
import NscaNg.Exchange.Forwarding

namespace NscaNg
namespace Exchange

open Posix Server

variable {ρ : Type} {ccfg : Client.Config} {scfg : Server.Config ρ} {s : System}

/-- The server takes the command from this client. -/
def Permitted (scfg : Server.Config ρ) (id : Option Bytes) (command : Bytes) : Prop :=
  (0 < scfg.maxCommandSize → command.length ≤ scfg.maxCommandSize) ∧
    isAuthorized scfg.regexec scfg.table (id.getD []) (cstr command) = true

/-- What the server does for its client, which has built these commands. -/
inductive Served (ccfg : Client.Config) (scfg : Server.Config ρ) (id : Option Bytes) (built : List Bytes) : Entry → Prop
  | connected : Served ccfg scfg id built ⟨.connect .connect, handleConnect⟩
  | greeted (data : Bytes) : cstr data = ascii "MOIN 1 " ++ ccfg.sessionId →
      Served ccfg scfg id built ⟨.read (.read .handshake) data,
        [.setConnectionId ccfg.sessionId, .sendResponse (ascii "MOIN 1"), .tlsReadLine .connection]⟩
  | announced (data command : Bytes) : command ∈ built → cstr data = ascii "PUSH " ++ decimal command.length →
      ¬ (0 < scfg.maxCommandSize ∧ scfg.maxCommandSize < command.length) →
      Served ccfg scfg id built ⟨.read (.read .connection) data,
        [.access, .sendResponse (ascii "OKAY"), .setInputLength command.length, .tlsRead .push command.length]⟩
  | tooLarge (data command : Bytes) : command ∈ built → cstr data = ascii "PUSH " ++ decimal command.length →
      0 < scfg.maxCommandSize ∧ scfg.maxCommandSize < command.length →
      Served ccfg scfg id built ⟨.read (.read .connection) data,
        [.access, .sendResponse (ascii "FAIL PUSH data size too large"), .tlsReadLine .connection]⟩
  | forwarded (command : Bytes) : command ∈ built → Permitted scfg id command →
      Served ccfg scfg id built ⟨.read (.read .push) (command ++ [0]),
        [.access, .fifoWrite command, .sendResponse (ascii "OKAY"), .tlsReadLine .connection]⟩
  | unauthorized (command : Bytes) : command ∈ built →
      ¬ isAuthorized scfg.regexec scfg.table (id.getD []) (cstr command) = true →
      Served ccfg scfg id built ⟨.read (.read .push) (command ++ [0]),
        [.access, .free (command ++ [0]), .sendResponse (ascii "FAIL You're not authorized"), .tlsReadLine .connection]⟩
  | quit (data : Bytes) : cstr data = ascii "QUIT" →
      Served ccfg scfg id built ⟨.read (.read .connection) data,
        [.sendResponse (ascii "OKAY"), .tlsShutdown, .connectionStop]⟩
  | ended (q : Entry) : Ends q → Served ccfg scfg id built q

/-! ### What the server does -/

/-- A request of the client is handled. -/
theorem served_read {id : Option Bytes} {built : List Bytes} {h : ReadHandler} {n : ℕ} {data : Bytes}
    (hne : ∀ c ∈ built, c ≠ []) (hshort : ∀ c ∈ built, c.length < 2 ^ 31)
    (hsize : h = .push → 0 < n ∧ (0 < scfg.maxCommandSize → n ≤ scfg.maxCommandSize)) (hfits : Tls.Fits data (.ofSize n))
    (hrequests : Requests ccfg built (.read (.read h) data)) :
    Served ccfg scfg id built ⟨.read (.read h) data, handle scfg id n (.read h) data⟩ := by
  cases hrequests with
  | moin _ hdata =>
    have hactions : handle scfg id n (.read .handshake) data = _ :=
      (congrArg handleHandshake hdata).trans (handleHandshake_greeting ccfg)
    rw [hactions]
    exact .greeted data hdata
  | push _ command hmem hdata =>
    have hactions : handle scfg id n (.read .connection) data = _ :=
      (congrArg (handleConnection scfg.maxCommandSize) hdata).trans
        (handleConnection_push_decimal _ (List.length_pos_iff.mpr (hne command hmem)) (hshort command hmem))
    rw [hactions]
    split
    · rename_i hlarge
      exact .tooLarge data command hmem hdata hlarge
    · rename_i hsmall
      exact .announced data command hmem hdata hsmall
  | block command hmem =>
    obtain ⟨hpos, hlimit⟩ := hsize rfl
    rw [Tls.Request.ofSize, if_neg (by omega)] at hfits
    obtain ⟨block, hblock, rfl⟩ := hfits
    obtain rfl : command = block := List.append_cancel_right hblock
    have hactions : handle scfg id command.length (.read .push) (command ++ [0]) = _ :=
      handlePushData_command scfg.regexec scfg.table (id.getD []) command
    rw [hactions]
    split
    · rename_i hauth
      exact .forwarded command hmem ⟨hlimit, hauth⟩
    · rename_i hauth
      exact .unauthorized command hmem hauth
  | quit _ hdata =>
    have hactions : handle scfg id n (.read .connection) data = _ :=
      (congrArg (handleConnection scfg.maxCommandSize) hdata).trans (handleConnection_quit scfg.maxCommandSize)
    rw [hactions]
    exact .quit data hdata

/-- Each entry of the log is one that the protocol provides for. -/
theorem Agreed.served {stage : Client.Stage} (hs : Agreed ccfg scfg s stage)
    (hshort : ∀ command ∈ s.client.built, command.length < 2 ^ 31) :
    ∀ p ∈ s.server.log, Served ccfg scfg s.server.id s.client.built p := by
  obtain ⟨done, -, hbuilds⟩ := hs.faithful
  intro p hp
  obtain ⟨before, after, hlog⟩ := List.append_of_mem hp
  have hrequests := hs.requests p hp
  rcases hs.serves.recorded.before hlog with ⟨-, rfl⟩ | ⟨earlier, q, rfl, hfollows⟩
  · exact .connected
  · cases hfollows.answers with
    | @read h n data hreq hfits =>
      have hearlier : Recorded scfg s.server.id (earlier ++ [q]) := by
        have hrecorded := hs.serves.recorded
        rw [hlog] at hrecorded
        exact hrecorded.left
      refine served_read hbuilds.ne_nil hshort (fun hpush => ?_) hfits hrequests
      rcases hearlier.asks hreq with hk | hk | ⟨-, hpos, hlimit, -⟩
      · exact absurd (hpush.symm.trans hk) (by decide)
      · exact absurd (hpush.symm.trans hk) (by decide)
      · exact ⟨hpos, hlimit⟩
    | error => exact .ended _ .error
    | timeout => exact .ended _ .timeout
    | lineTooLong => exact .ended _ .lineTooLong

/-- **What the server is asked for.** Whatever client and server do and in which order, the server only ever does what
the protocol provides for: it greets the client, accepts a command of the client's or refuses one that is too large or
that the client is not authorized for, and lets the client go or ends the connection. Each command is shorter than 2^31
bytes. -/
theorem served_log {es : List Event} (h : Exchanging ccfg scfg es s)
    (hshort : ∀ command ∈ s.client.built, command.length < 2 ^ 31) :
    ∀ p ∈ s.server.log, Served ccfg scfg s.server.id s.client.built p := by
  obtain ⟨stage, hs⟩ := h.agreed hshort
  exact hs.served hshort

theorem served_log_comment : ∃ s, Exchanging commentClient commentServer commentEvents s ∧ s.server.log.length = 5 ∧
    ∀ p ∈ s.server.log, Served commentClient commentServer s.server.id s.client.built p := by
  obtain ⟨s, hs, hp⟩ := (Option.any_eq_true _ _).mp (by decide +kernel : Option.any
    (fun s : System => decide (s.server.log.length = 5 ∧ ∀ command ∈ s.client.built, command.length < 2 ^ 31))
    (Machine.run (step commentClient commentServer)
      ⟨Client.start commentClient true (.error .wantRead) 0, Server.start commentServer true true 0⟩ commentEvents) = true)
  obtain ⟨hlength, hshort⟩ := of_decide_eq_true hp
  have hexchanging : Exchanging commentClient commentServer commentEvents s :=
    ⟨_, ⟨⟨true, .error .wantRead, 0, rfl⟩, ⟨true, true, 0, rfl⟩⟩, Machine.runs_of_run hs⟩
  exact ⟨s, hexchanging, hlength, served_log hexchanging hshort⟩

/-! ### Why a client fails -/

theorem not_grumpy_of_line {line : Bytes} (response : Bytes)
    (hline : response ++ Tls.lineTerminator = line ++ Tls.lineTerminator)
    (hresponse : response = ascii "MOIN 1" ∨ response = ascii "OKAY") : ¬ Client.Grumpy line := by
  obtain rfl : response = line := List.append_cancel_right hline
  unfold Client.Grumpy
  rcases hresponse with rfl | rfl <;> decide

/-- What has been refused is a command that may not be submitted. -/
theorem Served.refused {id : Option Bytes} {built : List Bytes} {p : Entry} {command : Bytes}
    (h : Served ccfg scfg id built p) (hrefuses : Refuses p) (habout : About command p.upcall) :
    ¬ Permitted scfg id command := by
  obtain ⟨line, hline, hgrumpy⟩ := hrefuses
  cases h with
  | connected => cases habout
  | greeted data _ => exact absurd hgrumpy (not_grumpy_of_line (ascii "MOIN 1") hline (Or.inl rfl))
  | announced data other _ _ _ => exact absurd hgrumpy (not_grumpy_of_line (ascii "OKAY") hline (Or.inr rfl))
  | tooLarge data other _ hdata hlarge =>
    cases habout with
    | announced _ hsame =>
      have hlength : command.length = other.length := by
        have hdecimal := List.append_cancel_left (hsame.symm.trans hdata)
        rw [← decimalValue_decimal command.length, hdecimal, decimalValue_decimal]
      rintro ⟨hlimit, -⟩
      have := hlimit hlarge.1
      omega
  | forwarded other _ _ => exact absurd hgrumpy (not_grumpy_of_line (ascii "OKAY") hline (Or.inr rfl))
  | unauthorized other _ hauth =>
    generalize hblock : other ++ [0] = block at habout
    cases habout with
    | sent =>
      obtain rfl : other = command := List.append_cancel_right hblock
      exact fun hpermitted => hauth hpermitted.2
  | quit data _ => exact absurd hgrumpy (not_grumpy_of_line (ascii "OKAY") hline (Or.inr rfl))
  | ended _ hends => cases hends <;> cases habout

/-- **Failures have a cause.** At any time no more than one of the commands that have been built has not been forwarded.
If the client ends with a failure, this is an error of its own, or the server has ended the connection, or the command
that was built last is too large or not authorized, and all before it have been forwarded. Each command is shorter than
2^31 bytes. -/
theorem failed_with_cause {es : List Event} (h : Exchanging ccfg scfg es s)
    (hshort : ∀ command ∈ s.client.built, command.length < 2 ^ 31) :
    s.client.built.length ≤ (written s.server.log).length + 1 ∧
      ∀ status ≠ 0, s.client.exitStatus = some status →
        s.client.Ended ∨ (∃ q ∈ s.server.log, Ends q) ∨
          ∃ command, s.client.built = written s.server.log ++ [command] ∧ ¬ Permitted scfg s.server.id command := by
  obtain ⟨stage, hs⟩ := h.agreed hshort
  refine ⟨hs.behind, fun status hne hexit => ?_⟩
  by_cases hruns : s.client.Ended
  · exact Or.inl hruns
  · obtain ⟨hat, -⟩ := hs.client.resolve_left hruns
    obtain ⟨hstage, -⟩ := hat.exits hruns hexit
    rcases hs.blamed status hne hstage with hleft | ⟨p, hp, command, hrefuses, habout, hall⟩
    · exact Or.inr (Or.inl hleft)
    · exact Or.inr (Or.inr ⟨command, hall, (hs.served hshort p hp).refused hrefuses habout⟩)

/-- A server that takes only short commands. -/
def shortServer : Server.Config Regex := { commentServer with maxCommandSize := 20 }

/-- The command is announced and refused, and the client stops. -/
def refusedEvents : List Event :=
  commentEvents.take 10 ++
    [.client (.readCb [.data (ch 'F') (ascii "AIL PUSH data size too large\r\n")] [] 0), .client (.shutdownCb [.done])]

theorem failed_with_cause_short : ∃ s, Exchanging commentClient shortServer refusedEvents s ∧
    s.client.exitStatus = some 1 ∧ s.client.built = [ascii "[1] ADD_HOST_COMMENT;\n"] ∧
    ¬ Permitted shortServer s.server.id (ascii "[1] ADD_HOST_COMMENT;\n") := by
  obtain ⟨s, hs, hp⟩ := (Option.any_eq_true _ _).mp (by decide +kernel : Option.any
    (fun s : System => decide ((s.client.exitStatus = some 1 ∧ s.client.built = [ascii "[1] ADD_HOST_COMMENT;\n"]) ∧
      (s.client.died = false ∧ s.client.tls.died = false) ∧
        ∀ q ∈ s.server.log, q.upcall ≠ .error .error ∧ q.upcall ≠ .timeout .timeout ∧ q.upcall ≠ .lineTooLong .lineTooLong))
    (Machine.run (step commentClient shortServer)
      ⟨Client.start commentClient true (.error .wantRead) 0, Server.start shortServer true true 0⟩ refusedEvents) = true)
  obtain ⟨⟨hexit, hbuilt⟩, ⟨hdied, htls⟩, hends⟩ := of_decide_eq_true hp
  have hexchanging : Exchanging commentClient shortServer refusedEvents s :=
    ⟨_, ⟨⟨true, .error .wantRead, 0, rfl⟩, ⟨true, true, 0, rfl⟩⟩, Machine.runs_of_run hs⟩
  refine ⟨s, hexchanging, hexit, hbuilt, ?_⟩
  rcases (failed_with_cause hexchanging (by rw [hbuilt]; decide)).2 1 (by decide) hexit with
    hended | ⟨q, hq, hleft⟩ | ⟨command, hall, hrefused⟩
  · rcases hended with hended | hended
    · exact absurd (hdied.symm.trans hended) (by decide)
    · exact absurd (htls.symm.trans hended) (by decide)
  · obtain ⟨herror, htimeout, hlong⟩ := hends q hq
    cases hleft
    · exact absurd rfl herror
    · exact absurd rfl htimeout
    · exact absurd rfl hlong
  · rw [hbuilt] at hall
    have hlast := congrArg List.getLast? hall
    rw [List.getLast?_concat] at hlast
    obtain rfl : ascii "[1] ADD_HOST_COMMENT;\n" = command := Option.some.inj hlast
    exact hrefused

end Exchange
end NscaNg
