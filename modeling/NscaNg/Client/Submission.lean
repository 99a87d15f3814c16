/-
# Submissions

`handle_input_chunk()` of `src/client/client.c`: what the client announces and sends for a chunk
of its standard input. The checks of the server on the form of a command find nothing to refuse
in it (`handleInputChunk_wellFormed`).
-/
import NscaNg.Client.Parse
import NscaNg.Server.Auth

namespace NscaNg.Client

open Posix

/-- `CLIENT_MODE_COMMAND` and `CLIENT_MODE_CHECK_RESULT`. -/
inductive ClientMode
  | command
  | checkResult
  deriving DecidableEq

/-- The separator `client_start()` sets. -/
def clientSeparator (mode : ClientMode) (separator : UInt8) : UInt8 :=
  if mode = .command then newline else separator

/-- What is submitted: the request, and the block of the command with its length. -/
structure Submission where
  request : Bytes
  command : Bytes
  commandLength : ℕ
  deriving DecidableEq

/-- The bytes `tls_write()` is given. -/
def Submission.sent (s : Submission) : Bytes := s.command.take s.commandLength

/-- What is made of the text of a chunk that is not empty. -/
def commandOf (progname : Bytes) (now : ℕ) (mode : ClientMode) (delimiter : UInt8) (data : Bytes) :
    Except Bytes Bytes :=
  if mode = .checkResult then parseCheckResult progname now (Util.chomp data) delimiter
  else parseCommand now data

/-- The newline goes where the NUL of the command is, and the size is printed as an
`unsigned int`. -/
def submit (command : Bytes) : Submission where
  request := ascii "PUSH " ++ decimal ((command.length + 1) % 2 ^ 32)
  command := (command ++ [0]).set command.length newline
  commandLength := command.length + 1

/-- `handle_input_chunk()`, `none` for a chunk that is ignored. -/
def handleInputChunk (progname : Bytes) (now : ℕ) (mode : ClientMode) (delimiter : UInt8) (chunk : Bytes) :
    Except Bytes (Option Submission) :=
  let data := Util.skipNewlines (cstr chunk)
  if data = [] then .ok none
  else
    match commandOf progname now mode delimiter data with
    | .error message => .error message
    | .ok command => .ok (some (submit command))

/-- A check result with a newline at its end: what stands before this newline is parsed, without the newlines at its
beginning. -/
theorem handleInputChunk_line (progname : Bytes) (now : ℕ) (delimiter : UInt8) {text : Bytes} (h0 : 0 ∉ text)
    (hne : Util.skipNewlines text ≠ []) :
    handleInputChunk progname now .checkResult delimiter (text ++ [newline, 0]) =
      (parseCheckResult progname now (Util.skipNewlines text) delimiter).map fun command => some (submit command) := by
  have hline : 0 ∉ text ++ [newline] := fun hmem =>
    (List.mem_append.mp hmem).elim h0 fun hmem => absurd (List.mem_singleton.mp hmem) (by decide)
  have hstring : cstr (text ++ [newline, 0]) = text ++ [newline] := by
    have hsplit : text ++ [newline, 0] = (text ++ [newline]) ++ 0 :: [] := by simp
    rw [hsplit, cstr_terminated, (cstr_eq_self_iff _).mpr hline]
  unfold handleInputChunk
  simp only [hstring, Util.skipNewlines_append hne, commandOf, if_true, Util.chomp_newline]
  rw [if_neg (by simp)]
  cases parseCheckResult progname now (Util.skipNewlines text) delimiter <;> rfl

/-! ### Commands of one line -/

/-- Neither the newline nor the NUL. -/
def Plain (s : Bytes) : Prop := newline ∉ s ∧ 0 ∉ s

theorem Plain.append {s t : Bytes} (hs : Plain s) (ht : Plain t) : Plain (s ++ t) :=
  ⟨fun h => (List.mem_append.mp h).elim hs.1 ht.1, fun h => (List.mem_append.mp h).elim hs.2 ht.2⟩

theorem Plain.mono {s t : Bytes} (hs : Plain s) (h : ∀ c ∈ t, c ∈ s) : Plain t :=
  ⟨fun hc => hs.1 (h _ hc), fun hc => hs.2 (h _ hc)⟩

theorem plain_escape {s : Bytes} (h : 0 ∉ s) : Plain (escape s) := ⟨newline_notMem_escape s, nul_notMem_escape h⟩

theorem plain_decimal (v : ℕ) : Plain (decimal v) :=
  ⟨fun h => absurd (isDigit_decimal v _ h) (by decide), fun h => absurd (isDigit_decimal v _ h) (by decide)⟩

theorem plain_stamp (now : ℕ) : Plain (stamp now) := by
  have hopen : Plain [ch '['] := by unfold Plain; decide
  have hclose : Plain (ascii "] ") := by unfold Plain; decide
  exact (hopen.append (plain_decimal now)).append hclose

section

variable {progname : Bytes} {now : ℕ} {delimiter : UInt8}

theorem plain_parseCommand {line command : Bytes} (hline : Plain line) (h : parseCommand now line = .ok command) :
    Plain command := by
  obtain ⟨blanks, hsplit, -⟩ := skipWhitespace_split line
  have hskip : Plain (skipWhitespace line) := hline.mono fun c hc => by
    rw [hsplit]
    exact List.mem_append_right _ hc
  unfold parseCommand at h
  by_cases hb : (skipWhitespace line).head? = some (ch '[')
  · simp only [if_pos hb, Except.ok.injEq] at h
    exact h ▸ hskip
  · simp only [if_neg hb] at h
    rw [← (xasprintf_eq_ok.mp h).1]
    exact (plain_stamp now).append hskip

theorem length_parseCommand {line command : Bytes} (hline : line.length < 2 ^ 31)
    (h : parseCommand now line = .ok command) : command.length < 2 ^ 31 := by
  obtain ⟨blanks, hsplit, -⟩ := skipWhitespace_split line
  have hskip : (skipWhitespace line).length ≤ line.length := by
    conv_rhs => rw [hsplit, List.length_append]
    omega
  unfold parseCommand at h
  by_cases hb : (skipWhitespace line).head? = some (ch '[')
  · simp only [if_pos hb, Except.ok.injEq] at h
    rw [← h]
    omega
  · simp only [if_neg hb] at h
    obtain ⟨rfl, hlen⟩ := xasprintf_eq_ok.mp h
    exact hlen

/-- The fields of a check result are put between plain text. -/
theorem plain_parseCheckResult {input command : Bytes} (hinput : 0 ∉ input)
    (h : parseCheckResult progname now input delimiter = .ok command) :
    command.length < 2 ^ 31 ∧ Plain command ∧ stamp now <+: command := by
  rw [parseCheckResult_eq] at h
  have hfields : ∀ f ∈ splitFields delimiter 3 [] (escape input), Plain f := fun f hf =>
    (plain_escape hinput).mono fun c hc => (mem_of_mem_splitFields hf hc).resolve_left List.not_mem_nil
  have hstamp := plain_stamp now
  have hsemi : Plain (ascii ";") := by unfold Plain; decide
  have hhost : Plain (ascii "PROCESS_HOST_CHECK_RESULT;") := by unfold Plain; decide
  have hservice : Plain (ascii "PROCESS_SERVICE_CHECK_RESULT;") := by unfold Plain; decide
  obtain ⟨hlen, ⟨a, b, c, hsplit, rfl⟩ | ⟨a, b, c, e, hsplit, rfl⟩⟩ := commandOfFields_eq_ok h
  · rw [hsplit] at hfields
    have ha := hfields a (by simp)
    have hb := hfields b (by simp)
    have hc := hfields c (by simp)
    refine ⟨hlen, ?_, ⟨_, by unfold hostCommand; simp only [List.append_assoc]; rfl⟩⟩
    exact (((((hstamp.append hhost).append ha).append hsemi).append hb).append hsemi).append hc
  · rw [hsplit] at hfields
    have ha := hfields a (by simp)
    have hb := hfields b (by simp)
    have hc := hfields c (by simp)
    have he := hfields e (by simp)
    refine ⟨hlen, ?_, ⟨_, by unfold serviceCommand; simp only [List.append_assoc]; rfl⟩⟩
    exact (((((((hstamp.append hservice).append ha).append hsemi).append hb).append hsemi).append hc).append
      hsemi).append he

/-! ### The form of a submission -/

/-- What the server's syntactic checks ask for: the bytes that are sent end in their only newline and
have no NUL, they are as many as announced, and the newline is stored inside the block. -/
structure Submission.WellFormed (s : Submission) : Prop where
  terminated : Terminated s.sent
  nul : 0 ∉ s.sent
  announced : s.request = ascii "PUSH " ++ decimal s.sent.length
  stored : s.command[s.commandLength - 1]? = some newline

/-- A command that `is_authorized()` has nothing to say against but that no pattern permits it. -/
def OnlyAuthorized (command : Bytes) : Prop :=
  HasTimestamp command ∧ ∃ text, matchedText command = some text ∧
    ∀ (ρ : Type) (regexec : ρ → Bytes → RegexecResult) (table : AuthTable ρ) (identity : Bytes),
      isAuthorized regexec table identity command = true ↔ Permits regexec table identity text

theorem submit_command (command : Bytes) : (submit command).command = command ++ [newline] := by
  show (command ++ [0]).set command.length newline = _
  rw [List.set_append_right _ _ (Nat.le_refl _), Nat.sub_self]
  rfl

theorem submit_sent (command : Bytes) : (submit command).sent = command ++ [newline] := by
  unfold Submission.sent
  rw [submit_command]
  exact List.take_of_length_le (by simp [submit])

theorem wellFormed_submit {command : Bytes} (h : Plain command) (hlen : command.length < 2 ^ 31) :
    (submit command).WellFormed where
  terminated := ⟨command, submit_sent command, h.1⟩
  nul := by
    rw [submit_sent]
    intro h0
    rcases List.mem_append.mp h0 with h0 | h0
    · exact h.2 h0
    · exact absurd (List.mem_singleton.mp h0) (by decide)
  announced := by
    have hmod : (command.length + 1) % 2 ^ 32 = command.length + 1 := Nat.mod_eq_of_lt (by omega)
    rw [submit_sent, List.length_append]
    show ascii "PUSH " ++ decimal ((command.length + 1) % 2 ^ 32) = _
    rw [hmod]
    rfl
  stored := by
    rw [submit_command]
    simp [submit]

theorem onlyAuthorized_of_stamp (now : ℕ) {command : Bytes} (hterm : Terminated command)
    (h : stamp now <+: command) : OnlyAuthorized command := by
  have hdigits : Timestamp (ch '[' :: decimal now) :=
    ⟨decimal now, rfl, decimal_ne_nil now, fun d hd => by simpa [isDigit] using isDigit_decimal now d hd⟩
  obtain ⟨tail, rfl⟩ := h
  have hsplit : stamp now ++ tail = (ch '[' :: decimal now) ++ ch ']' :: (ch ' ' :: tail) := by
    simp [stamp, ascii, ch]
  refine ⟨⟨_, _, hsplit, hdigits⟩, skipWhitespace (ch ' ' :: tail), ?_, fun ρ regexec table identity => ?_⟩
  · rw [hsplit]
    exact matchedText_append hdigits.bracket_notMem _
  · rw [isAuthorized_iff, Acceptable, hsplit, matchedText_append hdigits.bracket_notMem]
    rw [hsplit] at hterm
    constructor
    · rintro ⟨-, text, ht, hp⟩
      cases ht
      exact hp
    · intro hp
      exact ⟨hterm, _, rfl, hp⟩

/-- **Submissions are well formed.** In either mode, whatever the delimiter and the separator, if a
chunk without a NUL and the separator makes a command, what is sent has the form the server checks.
A check result has a timestamp as well, so whether it is authorized is a matter of the patterns. -/
theorem handleInputChunk_wellFormed {mode : ClientMode} {separator : UInt8} {data : Bytes} (h0 : 0 ∉ data)
    (hsep : clientSeparator mode separator ∉ data) (hlen : (escape data).length < 2 ^ 31) {s : Submission}
    (h : handleInputChunk progname now mode delimiter (data ++ [0]) = .ok (some s)) :
    s.WellFormed ∧ (mode = .checkResult → OnlyAuthorized s.sent) := by
  have hcstr : cstr (data ++ [0]) = data := by
    rw [cstr_terminated, (cstr_eq_self_iff data).mpr h0]
  unfold handleInputChunk at h
  rw [hcstr] at h
  have hskip : ∀ c ∈ Util.skipNewlines data, c ∈ data := (Util.skipNewlines_suffix data).subset
  by_cases hnil : Util.skipNewlines data = []
  · simp only [if_pos hnil] at h
    cases h
  · simp only [if_neg hnil] at h
    split at h
    · cases h
    · rename_i command hcommand
      cases h
      unfold commandOf at hcommand
      cases mode with
      | command =>
        have hplain : Plain (Util.skipNewlines data) := Plain.mono ⟨hsep, h0⟩ hskip
        have hshort : (Util.skipNewlines data).length < 2 ^ 31 := by
          have h1 := (Util.skipNewlines_suffix data).length_le
          have h2 := length_escape data
          unfold escapedSize at h2
          omega
        exact ⟨wellFormed_submit (plain_parseCommand hplain hcommand) (length_parseCommand hshort hcommand), nofun⟩
      | checkResult =>
        have hinput : 0 ∉ Util.chomp (Util.skipNewlines data) := fun hc => h0 (Util.mem_of_mem_chomp_skipNewlines hc)
        obtain ⟨hshort, hplain, hstamp⟩ := plain_parseCheckResult hinput hcommand
        have hwf := wellFormed_submit hplain hshort
        refine ⟨hwf, fun _ => onlyAuthorized_of_stamp now hwf.terminated ?_⟩
        rw [submit_sent]
        exact hstamp.trans (List.prefix_append _ _)

end

/-- A check result behind an empty line, with a message of two lines. -/
theorem wellFormed_multiline : ∃ s, handleInputChunk (ascii "send_nsca") 7 .checkResult (ch ',')
    (ascii "\nweb,0,up\nand fine\n" ++ [0]) = .ok (some s) ∧ s.WellFormed ∧ OnlyAuthorized s.sent := by
  have hchunk : handleInputChunk (ascii "send_nsca") 7 .checkResult (ch ',')
      (ascii "\nweb,0,up\nand fine\n" ++ [0]) =
        .ok (some (submit (ascii "[7] PROCESS_HOST_CHECK_RESULT;web;0;up\\nand fine"))) := by decide
  have h := handleInputChunk_wellFormed (by decide) (show clientSeparator .checkResult 23 ∉ _ by decide)
    (by decide) hchunk
  exact ⟨_, hchunk, h.1, h.2 rfl⟩

end NscaNg.Client
