/-
# What the server makes of the client's requests

Each request of `src/client/client.c` is one that the handler of `src/server/server.c` waits for at this time: it
is answered with the response that the client waits for, and the server goes on to what the client sends next, or
it is refused with a line that the client takes for a refusal (`responds`).
-/
import NscaNg.Common.TlsChannel
import NscaNg.Server.SessionStreams
import NscaNg.Client.SessionMoves

namespace NscaNg
namespace Exchange

open Posix Server

variable {ρ : Type}

/-! ### What the server waits for -/

/-- The command that the client has built and the server has not forwarded yet. -/
def owes : Client.Stage → List Bytes
  | .asking submission | .sending submission => [submission.sent]
  | .connecting | .greeting | .idle | .quitting | .stopped _ => []

/-- The request that the server reads when the client comes to the stage. -/
def asked : Client.Stage → Option (ReadHandler × ℕ)
  | .connecting | .greeting => some (.handshake, 0)
  | .idle | .asking _ | .quitting => some (.connection, 0)
  | .sending submission => some (.push, submission.sent.length)
  | .stopped _ => none

/-- The server goes on to this request, or shuts the connection down. -/
def LeadsTo (actions : List Action) : Option (ReadHandler × ℕ) → Prop
  | some (h, n) => requests actions = [(h, n)] ∧ .tlsShutdown ∉ actions
  | none => .tlsShutdown ∈ actions

/-- The call is due to the command, which is announced or sent. -/
inductive About (command : Bytes) : Tls.Upcall Handler → Prop
  | announced (data : Bytes) : cstr data = ascii "PUSH " ++ decimal command.length →
      About command (.read (.read .connection) data)
  | sent : About command (.read (.read .push) (command ++ [0]))

/-- What the server does with the request of a stage. -/
inductive Responds (ccfg : Client.Config) (stage : Client.Stage) (p : Entry) : Prop
  | accepts : queued p.actions = stage.response ++ Tls.lineTerminator → fifoWrites p.actions <+: owes stage →
      (∀ stage', Client.Follows ccfg stage stage' → LeadsTo p.actions (asked stage') ∧
        fifoWrites p.actions ++ owes stage' = owes stage ++ stage'.builds) → Responds ccfg stage p
  | refuses (command line : Bytes) : owes stage = [command] → About command p.upcall →
      queued p.actions = line ++ Tls.lineTerminator → Client.Plain line → Client.Grumpy line →
      fifoWrites p.actions = [] → Responds ccfg stage p

theorem owes_fetched {ccfg : Client.Config} {stage : Client.Stage} (h : Client.Fetched ccfg stage) :
    asked stage = some (.connection, 0) ∧ owes stage = stage.builds := by
  cases h <;> exact ⟨rfl, rfl⟩

/-- A FAIL response. -/
theorem refuses_fail {ccfg : Client.Config} {stage : Client.Stage} {command : Bytes} {p : Entry} (line : Bytes)
    (howes : owes stage = [command]) (habout : About command p.upcall)
    (hqueued : queued p.actions = line ++ Tls.lineTerminator) (hplain : newline ∉ line ∧ 0 ∉ line)
    (hfail : HasKeyword "FAIL" line) (hwrites : fifoWrites p.actions = []) : Responds ccfg stage p :=
  .refuses command line howes habout hqueued hplain (Or.inl hfail) hwrites

/-! ### The requests -/

/-- A request with one argument is split into its words. -/
theorem words_argument {keyword word : Bytes} (hkeyword : keyword ≠ [] ∧ ∀ c ∈ keyword, c ∉ blanks)
    (hword : word ≠ [] ∧ ∀ c ∈ word, c ∉ blanks) {rest : Bytes} {words : List Bytes} (hrest : Words blanks rest words)
    (hhead : ∀ c ∈ rest.head?, c ∈ blanks) :
    Words blanks (keyword ++ (ascii " " ++ (word ++ rest))) (keyword :: word :: words) := by
  have hspace : ∀ c ∈ ascii " ", c ∈ blanks := by decide +kernel
  have hargument : Words blanks (ascii " " ++ word ++ rest) (word :: words) :=
    .cons hspace hword.1 hword.2 hhead hrest
  rw [List.append_assoc] at hargument
  have hnil : ∀ c ∈ ([] : Bytes), c ∈ blanks := fun c hc => absurd hc List.not_mem_nil
  have hbehind : ∀ c ∈ (ascii " " ++ (word ++ rest)).head?, c ∈ blanks := fun c hc =>
    hspace c (List.mem_singleton.mpr (Option.some.inj hc).symm)
  exact .cons hnil hkeyword.1 hkeyword.2 hbehind hargument

theorem decimal_word (v : ℕ) : decimal v ≠ [] ∧ ∀ c ∈ decimal v, c ∉ blanks := by
  refine ⟨decimal_ne_nil v, fun c hc hblank => ?_⟩
  have hdigit := isDigit_decimal v c hc
  have hcases : c ∈ [ch ' ', ch '\t'] := hblank
  rcases List.mem_pair.mp hcases with rfl | rfl <;> exact absurd hdigit (by decide)

/-- `handle_handshake()` accepts a greeting with a session ID. -/
theorem handleHandshake_moin {id : Bytes} (hid : id ≠ [] ∧ ∀ c ∈ id, c ∉ blanks) :
    handleHandshake (ascii "MOIN 1 " ++ id) =
      [.setConnectionId id, .sendResponse (ascii "MOIN 1"), .tlsReadLine .connection] := by
  have hmoin : HasKeyword "MOIN" (ascii "MOIN 1 " ++ id) := (strncasecmp_eq_zero_iff (by decide) _).mpr rfl
  have hempty : Words blanks [] [] := .nil fun c hc => absurd hc List.not_mem_nil
  have hversion : ascii "1" ≠ [] ∧ ∀ c ∈ ascii "1", c ∉ blanks := by decide +kernel
  have hkeyword : ascii "MOIN" ≠ [] ∧ ∀ c ∈ ascii "MOIN", c ∉ blanks := by decide +kernel
  have hwords : Words blanks (ascii "MOIN 1 " ++ id) [ascii "MOIN", ascii "1", id] := by
    have hsession : Words blanks (ascii " " ++ id ++ []) [id] :=
      .cons (by decide +kernel) hid.1 hid.2 (fun c hc => by cases hc) hempty
    rw [List.append_nil] at hsession
    exact words_argument hkeyword hversion hsession fun c hc => by
      rw [← Option.some.inj (show some (ch ' ') = some c from hc)]
      decide +kernel
  have hparse : parseLine (ascii "MOIN 1 " ++ id) 3 = some [ascii "MOIN", ascii "1", id] :=
    parseLine_eq_some_iff.mpr ⟨hwords, rfl⟩
  unfold handleHandshake
  rw [if_pos hmoin, hparse]
  exact if_neg (by decide : ¬ atoi (ascii "1") ≤ 0)

/-- `handle_handshake()` accepts the greeting of the client. -/
theorem handleHandshake_greeting (ccfg : Client.Config) : handleHandshake (ascii "MOIN 1 " ++ ccfg.sessionId) =
    [.setConnectionId ccfg.sessionId, .sendResponse (ascii "MOIN 1"), .tlsReadLine .connection] :=
  handleHandshake_moin ccfg.sessionId_word

/-- `handle_connection()` accepts the announcement of a command, unless it is too large. -/
theorem handleConnection_push_decimal (maxCommandSize : ℕ) {size : ℕ} (hpos : 0 < size) (hlt : size < 2 ^ 31) :
    handleConnection maxCommandSize (ascii "PUSH " ++ decimal size) =
      if 0 < maxCommandSize ∧ maxCommandSize < size then
        [.access, .sendResponse (ascii "FAIL PUSH data size too large"), .tlsReadLine .connection]
      else [.access, .sendResponse (ascii "OKAY"), .setInputLength size, .tlsRead .push size] := by
  have hpush : HasKeyword "PUSH" (ascii "PUSH " ++ decimal size) := (strncasecmp_eq_zero_iff (by decide) _).mpr rfl
  have hkeyword : ascii "PUSH" ≠ [] ∧ ∀ c ∈ ascii "PUSH", c ∉ blanks := by decide +kernel
  have hempty : Words blanks [] [] := .nil fun c hc => absurd hc List.not_mem_nil
  have hwords : Words blanks (ascii "PUSH" ++ (ascii " " ++ (decimal size ++ []))) [ascii "PUSH", decimal size] :=
    words_argument hkeyword (decimal_word size) hempty fun c hc => by cases hc
  rw [List.append_nil] at hwords
  have hparse : parseLine (ascii "PUSH " ++ decimal size) 2 = some [ascii "PUSH", decimal size] :=
    parseLine_eq_some_iff.mpr ⟨hwords, rfl⟩
  have hsize : atoi ([ascii "PUSH", decimal size].getD 1 []) = size := atoi_decimal hlt
  unfold handleConnection
  rw [if_neg (not_noop_of_push hpush), if_pos hpush, hparse]
  dsimp only
  rw [hsize, if_neg (by omega), Int.toNat_natCast]

/-- `handle_push()` accepts the command, if it is authorized. -/
theorem handlePushData_command (regexec : ρ → Bytes → RegexecResult) (table : AuthTable ρ) (identity command : Bytes) :
    handlePushData regexec table identity command.length (command ++ [0]) =
      if isAuthorized regexec table identity (cstr command) then
        [.access, .fifoWrite command, .sendResponse (ascii "OKAY"), .tlsReadLine .connection]
      else
        [.access, .free (command ++ [0]), .sendResponse (ascii "FAIL You're not authorized"), .tlsReadLine .connection] := by
  unfold handlePushData handlePush
  rw [cstr_terminated, List.take_left]
  split <;> rfl

/-- `handle_connection()` is told that the client quits. -/
theorem handleConnection_quit (maxCommandSize : ℕ) : handleConnection maxCommandSize (ascii "QUIT") =
    [.sendResponse (ascii "OKAY"), .tlsShutdown, .connectionStop] := by
  unfold handleConnection
  rw [if_neg (by decide), if_neg (by decide)]
  rfl

/-! ### The responses -/

theorem responds_greeting (ccfg : Client.Config) (upcall : Tls.Upcall Handler) :
    Responds ccfg .greeting ⟨upcall, handleHandshake (ascii "MOIN 1 " ++ ccfg.sessionId)⟩ := by
  rw [handleHandshake_greeting]
  refine .accepts rfl List.nil_prefix fun stage' h => ?_
  cases h with
  | greeted h =>
    obtain ⟨hasked, howes⟩ := owes_fetched h
    rw [hasked, howes]
    exact ⟨⟨rfl, by simp⟩, rfl⟩

theorem responds_asking (ccfg : Client.Config) (maxCommandSize : ℕ) {submission : Client.Submission} {data : Bytes}
    (hline : cstr data = ascii "PUSH " ++ decimal submission.sent.length) (hne : submission.sent ≠ [])
    (hlen : submission.sent.length < 2 ^ 31) :
    Responds ccfg (.asking submission) ⟨.read (.read .connection) data, handleConnection maxCommandSize (cstr data)⟩ := by
  have habout : About submission.sent (.read (.read .connection) data) := .announced data hline
  rw [hline, handleConnection_push_decimal maxCommandSize (List.length_pos_iff.mpr hne) hlen]
  split
  · exact refuses_fail (ascii "FAIL PUSH data size too large") rfl habout rfl (by decide) (by decide) rfl
  · refine .accepts rfl List.nil_prefix fun stage' h => ?_
    cases h with
    | asked => exact ⟨⟨rfl, by simp⟩, rfl⟩

theorem responds_sending (ccfg : Client.Config) (regexec : ρ → Bytes → RegexecResult) (table : AuthTable ρ)
    (identity : Bytes) (submission : Client.Submission) :
    Responds ccfg (.sending submission) ⟨.read (.read .push) (submission.sent ++ [0]),
      handlePushData regexec table identity submission.sent.length (submission.sent ++ [0])⟩ := by
  rw [handlePushData_command]
  split
  · refine .accepts rfl List.prefix_rfl fun stage' h => ?_
    cases h with
    | sent _ h =>
      obtain ⟨hasked, howes⟩ := owes_fetched h
      rw [hasked, howes]
      exact ⟨⟨rfl, by simp⟩, rfl⟩
  · exact refuses_fail (ascii "FAIL You're not authorized") rfl .sent rfl (by decide) (by decide) rfl

theorem responds_quitting (ccfg : Client.Config) (maxCommandSize : ℕ) (upcall : Tls.Upcall Handler) :
    Responds ccfg .quitting ⟨upcall, handleConnection maxCommandSize (ascii "QUIT")⟩ := by
  rw [handleConnection_quit]
  refine .accepts rfl List.nil_prefix fun stage' h => ?_
  cases h with
  | quit => exact ⟨by simp [LeadsTo, asked], rfl⟩

/-! ### What the handlers are given -/

/-- The call is due to something that the client asks for, or to the connection itself. -/
inductive Requests (ccfg : Client.Config) (built : List Bytes) : Tls.Upcall Handler → Prop
  | connect : Requests ccfg built (.connect .connect)
  | moin (data : Bytes) : cstr data = ascii "MOIN 1 " ++ ccfg.sessionId →
      Requests ccfg built (.read (.read .handshake) data)
  | push (data command : Bytes) : command ∈ built → cstr data = ascii "PUSH " ++ decimal command.length →
      Requests ccfg built (.read (.read .connection) data)
  | block (command : Bytes) : command ∈ built → Requests ccfg built (.read (.read .push) (command ++ [0]))
  | quit (data : Bytes) : cstr data = ascii "QUIT" → Requests ccfg built (.read (.read .connection) data)
  | error : Requests ccfg built (.error .error)
  | timeout : Requests ccfg built (.timeout .timeout)
  | lineTooLong : Requests ccfg built (.lineTooLong .lineTooLong)

/-- The submission of the stage is made of a chunk, and its command is short. -/
structure Sensible (ccfg : Client.Config) (stage : Client.Stage) : Prop where
  made : ∀ submission, stage = .asking submission ∨ stage = .sending submission → Client.Made ccfg submission
  short : ∀ command ∈ owes stage, command.length < 2 ^ 31

theorem Sensible.request {ccfg : Client.Config} {submission : Client.Submission}
    (h : Sensible ccfg (.asking submission)) : submission.request = ascii "PUSH " ++ decimal submission.sent.length := by
  obtain ⟨command, rfl⟩ := (h.made submission (Or.inl rfl)).submitted
  have hshort := h.short _ (List.mem_singleton_self _)
  rw [Client.submit_sent, List.length_append] at hshort ⊢
  have hmod : (command.length + 1) % 2 ^ 32 = command.length + 1 :=
    Nat.mod_eq_of_lt (lt_trans hshort (by decide))
  show ascii "PUSH " ++ decimal ((command.length + 1) % 2 ^ 32) = _
  rw [hmod]
  rfl

/-- **The server's response** to the request of a stage, which is what it waits for. -/
theorem responds {ccfg : Client.Config} {stage : Client.Stage} {h : ReadHandler} {n : ℕ}
    {data rest : Bytes} {built : List Bytes} (scfg : Config ρ) (id : Option Bytes) (hsensible : Sensible ccfg stage)
    (howes : ∀ command ∈ owes stage, command ∈ built) (hasked : asked stage = some (h, n))
    (hanswer : Tls.answer (.ofSize n) (stage.request ccfg) = some (data, rest)) :
    stage.Pending ∧ rest = [] ∧ Responds ccfg stage ⟨.read (.read h) data, handle scfg id n (.read h) data⟩ ∧
      Requests ccfg built (.read (.read h) data) := by
  have hnone : ∀ m, stage.request ccfg = [] → Tls.answer (.ofSize m) (stage.request ccfg) ≠ some (data, rest) := by
    intro m hnil
    rw [hnil, Tls.answer_nil]
    exact nofun
  have hline : ∀ line, newline ∉ line ∧ 0 ∉ line →
      Tls.answer (.ofSize 0) (line ++ Tls.lineTerminator) = some (data, rest) → rest = [] ∧ cstr data = line := by
    intro line hplain hgiven
    obtain ⟨data', hdata, hcstr⟩ := Tls.answer_line hplain.1 hplain.2 []
    rw [List.append_nil] at hdata
    have hsame := hdata.symm.trans hgiven
    simp only [Option.some.injEq, Prod.mk.injEq] at hsame
    exact ⟨hsame.2.symm, hsame.1 ▸ hcstr⟩
  cases stage with
  | connecting => exact absurd hanswer (hnone _ rfl)
  | idle => exact absurd hanswer (hnone _ rfl)
  | stopped status => cases hasked
  | greeting =>
    cases hasked
    have hmoin : Client.Plain (ascii "MOIN 1 ") := (by decide : newline ∉ ascii "MOIN 1 " ∧ 0 ∉ ascii "MOIN 1 ")
    obtain ⟨hrest, hcstr⟩ := hline _ (hmoin.append ccfg.sessionId_plain) hanswer
    have hresponds := responds_greeting ccfg (.read (.read .handshake) data)
    rw [← hcstr] at hresponds
    exact ⟨⟨_, rfl⟩, hrest, hresponds, .moin data hcstr⟩
  | asking submission =>
    cases hasked
    have hmade := hsensible.made submission (Or.inl rfl)
    have hpush : Client.Plain (ascii "PUSH ") := (by decide : newline ∉ ascii "PUSH " ∧ 0 ∉ ascii "PUSH ")
    have hplain : Client.Plain submission.request := hsensible.request ▸ hpush.append (Client.plain_decimal _)
    obtain ⟨hrest, hcstr⟩ := hline _ hplain hanswer
    have hrequest : cstr data = ascii "PUSH " ++ decimal submission.sent.length := hcstr.trans hsensible.request
    exact ⟨⟨_, rfl⟩, hrest, responds_asking ccfg scfg.maxCommandSize hrequest hmade.sent_ne_nil
      (hsensible.short _ (List.mem_singleton_self _)),
      .push data submission.sent (howes _ (List.mem_singleton_self _)) hrequest⟩
  | sending submission =>
    cases hasked
    have hmade := hsensible.made submission (Or.inr rfl)
    have hblock := Tls.answer_block hmade.sent_ne_nil []
    rw [List.append_nil] at hblock
    have hsame := hblock.symm.trans hanswer
    simp only [Option.some.injEq, Prod.mk.injEq] at hsame
    obtain ⟨rfl, rfl⟩ := hsame
    exact ⟨⟨_, rfl⟩, rfl, responds_sending ccfg scfg.regexec scfg.table (id.getD []) submission,
      .block submission.sent (howes _ (List.mem_singleton_self _))⟩
  | quitting =>
    cases hasked
    obtain ⟨hrest, hcstr⟩ := hline (ascii "QUIT") (by decide) hanswer
    have hresponds := responds_quitting ccfg scfg.maxCommandSize (.read (.read .connection) data)
    rw [← hcstr] at hresponds
    exact ⟨⟨_, rfl⟩, hrest, hresponds, .quit data hcstr⟩

end Exchange
end NscaNg
