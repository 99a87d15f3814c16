/-
# The encoders of the three clients

`send_nsca` escapes a check result and makes the command with `asprintf()` (`parse_check_result()`); the Perl
and the Python module put the fields into a buffer of fixed size as they are. So the commands agree, but for
the timestamp, where there is nothing to escape, nothing at the beginning that `handle_input_chunk()` skips, and the
command fits (`clients_agree_iff`).
-/
import NscaNg.Bindings.Buffers
import NscaNg.Client.CheckResult
import NscaNg.Client.Submission

namespace NscaNg.Bindings

open Posix Memory Client

/-- The check result for the fields that a module is given. -/
def asCheckResult (host : Bytes) (service : Option Bytes) (status : ℤ) (message : Bytes) : CheckResult :=
  match service with
  | none => .host host (decimalInt status) message
  | some name => .service host name (decimalInt status) message

/-- These bytes are what `send_nsca` sends, at some time, for a chunk with the check result as it is documented: the
fields with the delimiter between them, and a newline. -/
def SentBySendNsca (progname : Bytes) (delimiter : UInt8) (result : CheckResult) (bytes : Bytes) : Prop :=
  ∃ now submission, handleInputChunk progname now .checkResult delimiter (result.text delimiter ++ [newline, 0]) =
    .ok (some submission) ∧ bytes = submission.sent

/-- A submission has sent what `send_nsca` sends. -/
def Outcome.Agrees (o : Outcome) (progname : Bytes) (delimiter : UInt8) (result : CheckResult) : Prop :=
  ∃ bytes ∈ o.transmitted, SentBySendNsca progname delimiter result bytes

/-- No field has anything to escape, `send_nsca` has nothing to skip at the beginning, and the command fits. -/
def Carried (delimiter : UInt8) (now : ℕ) (host : Bytes) (service : Option Bytes) (status : ℤ) (message : Bytes) :
    Prop :=
  (∀ f ∈ host :: message :: service.toList, ch '\\' ∉ f ∧ newline ∉ f) ∧
    (host ++ [delimiter]).head? ≠ some (ch '\r') ∧
    (Python.commandText now host service status message).length ≤ 1022

/-! ### The timestamp -/

theorem takeWhile_stamp (m : ℕ) (r : Bytes) : (decimal m ++ (ascii "] " ++ r)).takeWhile isDigit = decimal m := by
  rw [List.takeWhile_append_of_pos (isDigit_decimal m)]
  have hclose : (ascii "] " ++ r).takeWhile isDigit = [] := List.takeWhile_cons_of_neg (by decide)
  rw [hclose, List.append_nil]

/-- The timestamp in front of a command can be told from the rest. -/
theorem stamp_append_inj {m n : ℕ} {r s : Bytes} (h : stamp m ++ r = stamp n ++ s) : m = n ∧ r = s := by
  have htail : decimal m ++ (ascii "] " ++ r) = decimal n ++ (ascii "] " ++ s) := by
    have h' := congrArg List.tail h
    simp only [stamp, List.cons_append, List.append_assoc, List.tail_cons] at h'
    exact h'
  have hdigits := congrArg (List.takeWhile isDigit) htail
  rw [takeWhile_stamp, takeWhile_stamp] at hdigits
  have hmn : m = n := by
    rw [← decimalValue_decimal m, ← decimalValue_decimal n, hdigits]
  subst hmn
  exact ⟨rfl, List.append_cancel_left (List.append_cancel_left htail)⟩

/-! ### What `parse_check_result()` makes of the fields -/

/-- The keyword of the command. -/
def keyword (isService : Bool) : Bytes :=
  if isService then ascii "PROCESS_SERVICE_CHECK_RESULT;" else ascii "PROCESS_HOST_CHECK_RESULT;"

theorem keyword_append_inj {b c : Bool} {r s : Bytes} (h : keyword b ++ r = keyword c ++ s) : b = c ∧ r = s := by
  have hcut : ∀ (b : Bool) (r : Bytes), (keyword b ++ r).take 9 = (keyword b).take 9 := fun b r =>
    List.take_append_of_le_length (by cases b <;> decide)
  have h9 := congrArg (List.take 9) h
  rw [hcut, hcut] at h9
  have hbc : b = c := by
    cases b <;> cases c
    · rfl
    · exact absurd h9 (by decide)
    · exact absurd h9 (by decide)
    · rfl
  subst hbc
  exact ⟨rfl, List.append_cancel_left h⟩

/-- The fields that are split off have the bytes of the input, but for the delimiters. -/
theorem sum_splitFields (delimiter : UInt8) (n : ℕ) (field input : Bytes) :
    ((splitFields delimiter n field input).map (·.length + 1)).sum = field.length + input.length + 1 := by
  induction input generalizing n field with
  | nil => cases n <;> simp [splitFields]
  | cons c cs ih =>
    cases n with
    | zero => simp [splitFields]
    | succ n =>
      rw [splitFields]
      by_cases hc : c = delimiter
      · rw [if_pos hc, List.map_cons, List.sum_cons, ih, List.length_cons, List.length_nil]
        omega
      · rw [if_neg hc, ih, List.length_append, List.length_singleton, List.length_cons]
        omega

/-- Where there is more than one field, the first one stands before a delimiter. -/
theorem first_of_splitFields {delimiter : UInt8} {n : ℕ} {input first second : Bytes} {more : List Bytes}
    (h : splitFields delimiter n [] input = first :: second :: more) : ∃ rest, input = first ++ delimiter :: rest := by
  cases n with
  | zero => simp [splitFields] at h
  | succ n =>
    by_cases hmem : delimiter ∈ input
    · obtain ⟨x, rest, hinput, -, hsplit⟩ := splitFields_mem hmem n
      rw [hsplit] at h
      obtain rfl := (List.cons.inj h).1
      exact ⟨rest, hinput⟩
    · rw [splitFields_last hmem] at h
      exact absurd (List.cons.inj h).2 (by simp)

/-- The command is the timestamp, a keyword, and as many bytes as the escaped input has: its first field, and what stands
behind. -/
theorem parseCheckResult_shape {progname input command : Bytes} {now : ℕ} {delimiter : UInt8}
    (h : parseCheckResult progname now input delimiter = .ok command) :
    ∃ (isService : Bool) (fields : Bytes), command = stamp now ++ (keyword isService ++ fields) ∧
      fields.length = (escape input).length ∧
      ∃ first more rest, fields = first ++ ch ';' :: more ∧ escape input = first ++ delimiter :: rest := by
  rw [parseCheckResult_eq] at h
  have hsum := sum_splitFields delimiter 3 [] (escape input)
  have hsemi : (ascii ";").length = 1 := rfl
  obtain ⟨-, ⟨a, b, c, hsplit, rfl⟩ | ⟨a, b, c, e, hsplit, rfl⟩⟩ := commandOfFields_eq_ok h
  · obtain ⟨rest, hrest⟩ := first_of_splitFields hsplit
    refine ⟨false, a ++ ascii ";" ++ b ++ ascii ";" ++ c, by simp [hostCommand, keyword], ?_,
      a, b ++ ascii ";" ++ c, rest, by simp [ascii, ch], hrest⟩
    rw [hsplit] at hsum
    simp only [List.map_cons, List.map_nil, List.sum_cons, List.sum_nil, List.length_nil] at hsum
    simp only [List.length_append, hsemi]
    omega
  · obtain ⟨rest, hrest⟩ := first_of_splitFields hsplit
    refine ⟨true, a ++ ascii ";" ++ b ++ ascii ";" ++ c ++ ascii ";" ++ e, by simp [serviceCommand, keyword], ?_,
      a, b ++ ascii ";" ++ c ++ ascii ";" ++ e, rest, by simp [ascii, ch], hrest⟩
    rw [hsplit] at hsum
    simp only [List.map_cons, List.map_nil, List.sum_cons, List.sum_nil, List.length_nil] at hsum
    simp only [List.length_append, hsemi]
    omega

/-- Escaping makes a text longer unless there is nothing to escape. -/
theorem notMem_of_length_escape {s : Bytes} (h : (escape s).length ≤ s.length) : ch '\\' ∉ s ∧ newline ∉ s := by
  have hsize := length_escape s
  have hcount : s.countP (fun c => c = ch '\\' ∨ c = newline) = 0 := by
    unfold escapedSize at hsize
    omega
  rw [List.countP_eq_zero] at hcount
  exact ⟨fun hb => by simpa using hcount _ hb, fun hn => by simpa using hcount _ hn⟩

/-! ### The fields of a module -/

section

variable (host : Bytes) (service : Option Bytes) (status : ℤ) (message : Bytes)

/-- The text a module formats, from the keyword on: as many bytes as the check result has. -/
theorem checkResultText_shape (delimiter : UInt8) :
    ∃ fields, checkResultText host service status message = keyword service.isSome ++ fields ∧
      fields.length = ((asCheckResult host service status message).text delimiter).length := by
  have hsemi : (ascii ";").length = 1 := rfl
  cases service with
  | none =>
    refine ⟨host ++ ascii ";" ++ decimalInt status ++ ascii ";" ++ message, by simp [checkResultText, keyword], ?_⟩
    simp only [asCheckResult, CheckResult.text, List.length_append, List.length_cons, hsemi]
    omega
  | some name =>
    refine ⟨host ++ ascii ";" ++ name ++ ascii ";" ++ decimalInt status ++ ascii ";" ++ message,
      by simp [checkResultText, keyword], ?_⟩
    simp only [asCheckResult, CheckResult.text, List.length_append, List.length_cons, hsemi]
    omega

theorem mem_text_iff {delimiter c : UInt8} (hc : c ≠ delimiter) :
    c ∈ (asCheckResult host service status message).text delimiter ↔
      c ∈ decimalInt status ∨ ∃ f ∈ host :: message :: service.toList, c ∈ f := by
  cases service with
  | none =>
    simp only [asCheckResult, CheckResult.text, List.mem_append, List.mem_cons, hc, false_or, Option.toList_none,
      List.not_mem_nil, or_false, exists_eq_or_imp, exists_eq_left]
    tauto
  | some name =>
    simp only [asCheckResult, CheckResult.text, List.mem_append, List.mem_cons, hc, false_or, Option.toList_some,
      List.not_mem_nil, or_false, exists_eq_or_imp, exists_eq_left]
    tauto

theorem mem_decimalInt {v : ℤ} {c : UInt8} (h : c ∈ decimalInt v) : c = ch '-' ∨ isDigit c = true := by
  unfold decimalInt at h
  split at h
  · exact (List.mem_cons.mp h).imp_right (isDigit_decimal _ c)
  · exact .inr (isDigit_decimal _ c h)

/-- Where there is nothing to escape, in terms of the fields. -/
theorem text_plain_iff {delimiter : UInt8} (hd : delimiter ≠ newline ∧ delimiter ≠ 0 ∧ delimiter ≠ ch '\\') :
    (ch '\\' ∉ (asCheckResult host service status message).text delimiter ∧
        newline ∉ (asCheckResult host service status message).text delimiter) ↔
      ∀ f ∈ host :: message :: service.toList, ch '\\' ∉ f ∧ newline ∉ f := by
  have hstatus : ∀ c ∈ [ch '\\', newline], c ∉ decimalInt status := by
    intro c hc hmem
    rcases mem_decimalInt hmem with rfl | hdigit
    · exact absurd hc (by decide)
    · simp only [List.mem_cons, List.not_mem_nil, or_false] at hc
      rcases hc with rfl | rfl
      · exact absurd hdigit (by decide)
      · exact absurd hdigit (by decide)
  rw [mem_text_iff _ _ _ _ hd.2.2.symm, mem_text_iff _ _ _ _ hd.1.symm]
  have hb := hstatus (ch '\\') (by simp)
  have hn := hstatus newline (by simp)
  constructor
  · rintro ⟨h1, h2⟩ f hf
    exact ⟨fun h => h1 (.inr ⟨f, hf, h⟩), fun h => h2 (.inr ⟨f, hf, h⟩)⟩
  · intro h
    exact ⟨fun h1 => h1.elim hb fun ⟨f, hf, hm⟩ => (h f hf).1 hm,
      fun h2 => h2.elim hn fun ⟨f, hf, hm⟩ => (h f hf).2 hm⟩

theorem newline_notMem_commandText {now : ℕ} (h : ∀ f ∈ host :: message :: service.toList, newline ∉ f) :
    newline ∉ Python.commandText now host service status message := by
  have hstatus : newline ∉ decimalInt status := fun hmem => by
    rcases mem_decimalInt hmem with h | h
    · exact absurd h (by decide)
    · exact absurd h (by decide)
  have hhost : newline ∉ ascii "PROCESS_HOST_CHECK_RESULT;" := by decide
  have hservice : newline ∉ ascii "PROCESS_SERVICE_CHECK_RESULT;" := by decide
  have hsemi : newline ∉ ascii ";" := by decide
  have hstamp := (plain_stamp (now % 2 ^ 32)).1
  cases service with
  | none =>
    simp only [Python.commandText, stampUnsigned, checkResultText, List.mem_append, not_or]
    exact ⟨hstamp, ⟨⟨⟨⟨hhost, h host (by simp)⟩, hsemi⟩, hstatus⟩, hsemi⟩, h message (by simp)⟩
  | some name =>
    simp only [Python.commandText, stampUnsigned, checkResultText, List.mem_append, not_or]
    exact ⟨hstamp, ⟨⟨⟨⟨⟨⟨hservice, h host (by simp)⟩, hsemi⟩, h name (by simp)⟩, hsemi⟩, hstatus⟩, hsemi⟩,
      h message (by simp)⟩

/-- The first byte of a check result. -/
theorem head?_text (delimiter : UInt8) :
    ((asCheckResult host service status message).text delimiter).head? = (host ++ [delimiter]).head? := by
  cases host <;> cases service <;> rfl

/-- The status begins with a digit or a sign. -/
theorem decimalInt_cons : ∃ c rest, decimalInt status = c :: rest ∧ (c = ch '-' ∨ isDigit c = true) := by
  obtain ⟨c, rest, hcons⟩ : ∃ c rest, decimalInt status = c :: rest := by
    refine List.exists_cons_of_ne_nil fun hnil => ?_
    unfold decimalInt at hnil
    split at hnil
    · cases hnil
    · exact decimal_ne_nil _ hnil
  exact ⟨c, rest, hcons, mem_decimalInt (hcons ▸ List.mem_cons_self)⟩

theorem escape_decimalInt : escape (decimalInt status) = decimalInt status := by
  refine escape_of_notMem (fun h => ?_) (fun h => ?_)
  · rcases mem_decimalInt h with h | h <;> exact absurd h (by decide)
  · rcases mem_decimalInt h with h | h <;> exact absurd h (by decide)

theorem plain_of_status {c : UInt8} (h : c = ch '-' ∨ isDigit c = true) : c ≠ ch '\r' ∧ c ≠ newline ∧ c ≠ ch ';' := by
  rcases h with rfl | hdigit
  · decide
  · refine ⟨?_, ?_, ?_⟩ <;> (rintro rfl; exact absurd hdigit (by decide))

/-- Of a check result something is left. -/
theorem skipNewlines_text_ne_nil (delimiter : UInt8) :
    Util.skipNewlines ((asCheckResult host service status message).text delimiter) ≠ [] := by
  obtain ⟨c, rest, hcons, hc⟩ := decimalInt_cons status
  have hplain := plain_of_status hc
  have hmem : c ∈ decimalInt status := hcons ▸ List.mem_cons_self
  refine Util.skipNewlines_ne_nil (c := c) ?_ ⟨hplain.1, hplain.2.1⟩
  cases service with
  | none => simp [asCheckResult, CheckResult.text, hmem]
  | some name => simp [asCheckResult, CheckResult.text, hmem]

/-- What `send_nsca` sends, in terms of `parse_check_result()`. -/
theorem sentBySendNsca_iff {progname bytes : Bytes} {delimiter : UInt8}
    (hnul : 0 ∉ (asCheckResult host service status message).text delimiter) :
    SentBySendNsca progname delimiter (asCheckResult host service status message) bytes ↔
      ∃ now command, parseCheckResult progname now
        (Util.skipNewlines ((asCheckResult host service status message).text delimiter)) delimiter = .ok command ∧
        bytes = command ++ [newline] := by
  have hline := fun now => handleInputChunk_line progname now delimiter hnul
    (skipNewlines_text_ne_nil host service status message delimiter)
  constructor
  · rintro ⟨now, submission, hsubmission, rfl⟩
    rw [hline] at hsubmission
    cases hparse : parseCheckResult progname now
        (Util.skipNewlines ((asCheckResult host service status message).text delimiter)) delimiter with
    | error e =>
      rw [hparse] at hsubmission
      cases hsubmission
    | ok command =>
      rw [hparse] at hsubmission
      obtain rfl := Option.some.inj (Except.ok.inj hsubmission)
      exact ⟨now, command, hparse, submit_sent command⟩
  · rintro ⟨now, command, hparse, rfl⟩
    refine ⟨now, submit command, ?_, (submit_sent command).symm⟩
    rw [hline, hparse]
    rfl

end

/-! ### What is skipped -/

/-- An escaped text begins with its first byte, or with a backslash. -/
theorem escape_cons_head (c : UInt8) (s : Bytes) :
    (escape (c :: s)).head? = some c ∨ (escape (c :: s)).head? = some (ch '\\') := by
  have happ : escape (c :: s) = escapeCharacter c ++ escape s := List.flatMap_cons
  rw [happ]
  unfold escapeCharacter
  split
  · exact Or.inr rfl
  · split
    · exact Or.inr rfl
    · exact Or.inl rfl

/-- A name with a semicolon behind it is not what a semicolon and the name begin with, unless more semicolons follow. -/
theorem not_escape_prefix {c : UInt8} (hc : c ≠ ch ';') (name x y : Bytes) :
    ¬ escape name ++ ch ';' :: c :: x <+: ch ';' :: (name ++ ch ';' :: y) := by
  induction name with
  | nil =>
    rintro ⟨r, hr⟩
    have htail : c :: (x ++ r) = ch ';' :: y := (List.cons.inj hr).2
    exact hc (List.cons.inj htail).1
  | cons d name ih =>
    rintro ⟨r, hr⟩
    have happ : escape (d :: name) = escapeCharacter d ++ escape name := List.flatMap_cons
    rw [happ, List.append_assoc, List.append_assoc] at hr
    unfold escapeCharacter at hr
    split at hr
    · exact absurd (List.cons.inj hr).1 (by decide)
    · split at hr
      · exact absurd (List.cons.inj hr).1 (by decide)
      · obtain ⟨rfl, htail⟩ := List.cons.inj hr
        exact ih ⟨r, by rw [List.append_assoc]; exact htail⟩

section

variable {progname optarg host message : Bytes} {service : Option Bytes} {status : ℤ} {delimiter : UInt8}
variable {now now' : ℕ} {command : Bytes}

/-- Where a command begins the text of a module, its first field begins what stands there behind the keyword. -/
theorem first_of_parsed {input fields : Bytes} (h : parseCheckResult progname now' input delimiter = .ok command)
    (hle : command <+: Python.commandText now host service status message)
    (htext : checkResultText host service status message = keyword service.isSome ++ fields) :
    ∃ first more rest, first ++ ch ';' :: more <+: fields ∧ escape input = first ++ delimiter :: rest := by
  obtain ⟨b, fields', rfl, -, first, more, rest, rfl, hescape⟩ := parseCheckResult_shape h
  obtain ⟨r, hr⟩ := hle
  rw [Python.commandText, stampUnsigned, htext, List.append_assoc, List.append_assoc] at hr
  exact ⟨first, more, rest, ⟨r, (keyword_append_inj (stamp_append_inj hr).2).2⟩, hescape⟩

/-- The first field begins like the input, or with a backslash; it is empty only if a delimiter begins the input. -/
theorem head_of_first {d c : UInt8} {input first more rest fields : Bytes} (hle : first ++ ch ';' :: more <+: c :: fields)
    (hescape : escape (d :: input) = first ++ delimiter :: rest) :
    (c = d ∨ c = ch '\\') ∨ c = ch ';' ∧ (delimiter = d ∨ delimiter = ch '\\') := by
  have hhead := escape_cons_head d input
  rw [hescape] at hhead
  obtain ⟨r, hr⟩ := hle
  cases first with
  | nil =>
    have hc : ch ';' = c := (List.cons.inj hr).1
    exact Or.inr ⟨hc.symm, hhead.imp Option.some.inj Option.some.inj⟩
  | cons a first =>
    have hc : a = c := (List.cons.inj hr).1
    exact Or.inl (hc ▸ hhead.imp Option.some.inj Option.some.inj)

/-- A newline in the second place is not sent. -/
theorem first_ne_newline {d : UInt8} {input first more rest fields : Bytes} (hd : d ≠ ch '\r')
    (hescape : escape (d :: input) = first ++ ch '\r' :: rest) :
    ¬ first ++ ch ';' :: more <+: ch ';' :: newline :: fields := by
  rintro ⟨r, hr⟩
  cases first with
  | nil =>
    have hhead := escape_cons_head d input
    rw [hescape] at hhead
    rcases hhead with hsame | hback
    · exact hd (Option.some.inj hsame).symm
    · exact absurd (Option.some.inj hback) (by decide)
  | cons a first =>
    have htail := (List.cons.inj hr).2
    cases first with
    | nil => exact absurd (List.cons.inj htail).1 (by decide)
    | cons b first =>
      obtain rfl : b = newline := (List.cons.inj htail).1
      exact newline_notMem_escape (d :: input) (hescape ▸ by simp)

theorem skipNewlines_cr (s : Bytes) : Util.skipNewlines (ch '\r' :: s) = Util.skipNewlines s := by
  unfold Util.skipNewlines
  rw [List.dropWhile_cons_of_pos (by simp)]

/-- A service result with an empty host, where the delimiter that is skipped is a CR. -/
theorem not_parsed_cr {name : Bytes} (hname : ch '\r' ∉ name) (hstatus : ch '\r' ∉ decimalInt status)
    (h : parseCheckResult progname now' (name ++ ch '\r' :: (decimalInt status ++ ch '\r' :: message)) (ch '\r') =
      .ok command) : ¬ command <+: Python.commandText now [] (some name) status message := by
  have hd : ch '\r' ≠ newline ∧ ch '\r' ≠ 0 ∧ ch '\r' ≠ ch '\\' := by decide
  have hplain : ∀ f, ch '\r' ∉ f → ch '\r' ∉ escape f := fun f hf hmem =>
    absurd ((mem_escape_iff hd hf).mp hmem).1 (by decide)
  obtain ⟨c, rest, hcons, hc⟩ := decimalInt_cons status
  have hc' := (plain_of_status hc).2.2
  rw [parseCheckResult_eq, escape_delimiter hd, escape_delimiter hd, splitFields_field (hplain _ hname),
    splitFields_field (hplain _ hstatus), List.nil_append, List.nil_append, escape_decimalInt, hcons] at h
  rintro ⟨r, hr⟩
  have htext : Python.commandText now [] (some name) status message =
      stamp (now % 2 ^ 32) ++
        (keyword true ++ ch ';' :: (name ++ ch ';' :: (decimalInt status ++ ascii ";" ++ message))) := by
    simp [Python.commandText, stampUnsigned, checkResultText, keyword, ascii, ch]
  rw [htext] at hr
  obtain ⟨-, ⟨x, y, z, hsplit, rfl⟩ | ⟨x, y, z, e, hsplit, rfl⟩⟩ := commandOfFields_eq_ok h
  · have hshape : hostCommand now' x y z ++ r =
        stamp now' ++ (keyword false ++ (x ++ ascii ";" ++ y ++ ascii ";" ++ z ++ r)) := by
      simp [hostCommand, keyword]
    rw [hshape] at hr
    exact absurd (keyword_append_inj (stamp_append_inj hr).2).1 (by decide)
  · obtain ⟨rfl, htail⟩ := List.cons.inj hsplit
    obtain ⟨rfl, -⟩ := List.cons.inj htail
    have hshape : serviceCommand now' (escape name) (c :: rest) z e ++ r =
        stamp now' ++
          (keyword true ++ (escape name ++ ch ';' :: c :: (rest ++ ascii ";" ++ z ++ ascii ";" ++ e ++ r))) := by
      simp [serviceCommand, keyword, ascii, ch]
    rw [hshape] at hr
    have hfields := (keyword_append_inj (stamp_append_inj hr).2).2
    exact not_escape_prefix hc' name _ _ ⟨[], by rw [List.append_nil]; exact hfields⟩

/-- **Nothing is skipped.** If what `send_nsca` sends begins the text of a module, the check result does not begin with
a CR or a newline. -/
theorem skipNewlines_of_parsed (hopt : delimiterOption optarg = .ok delimiter)
    (hfields : ∀ f ∈ (asCheckResult host service status message).delimited, delimiter ∉ f)
    (h : parseCheckResult progname now' (Util.skipNewlines ((asCheckResult host service status message).text delimiter))
      delimiter = .ok command)
    (hle : command <+: Python.commandText now host service status message) :
    Util.skipNewlines ((asCheckResult host service status message).text delimiter) =
      (asCheckResult host service status message).text delimiter := by
  obtain ⟨d, input, hskip⟩ := List.exists_cons_of_ne_nil (skipNewlines_text_ne_nil host service status message delimiter)
  have hd := Util.skipNewlines_head hskip
  have hopt' := delimiterOption_ok hopt
  cases host with
  | cons c host =>
    obtain ⟨tail, htext⟩ : ∃ tail, checkResultText (c :: host) service status message =
        keyword service.isSome ++ c :: tail := by
      cases service <;> exact ⟨_, by simp [checkResultText, keyword]; rfl⟩
    obtain ⟨first, more, rest, hprefix, hescape⟩ := first_of_parsed h hle htext
    rw [hskip] at hescape
    have hc : c ≠ ch '\r' ∧ c ≠ newline := by
      rcases head_of_first hprefix hescape with (rfl | rfl) | ⟨rfl, -⟩
      · exact hd
      · decide
      · decide
    cases service <;> exact Util.skipNewlines_of_head hc _
  | nil =>
    by_cases hcr : delimiter = ch '\r'
    · subst hcr
      exfalso
      obtain ⟨c, digits, hcons, hc⟩ := decimalInt_cons status
      have hplain := plain_of_status hc
      -- behind the keyword of a module stands a semicolon, so the check result begins with one for `send_nsca`
      have hsemicolon : ∀ {tail : Bytes}, checkResultText [] service status message =
          keyword service.isSome ++ ch ';' :: tail → d = ch ';' := by
        intro tail htext
        obtain ⟨first, more, rest, hprefix, hescape⟩ := first_of_parsed h hle htext
        rw [hskip] at hescape
        rcases head_of_first hprefix hescape with (hsame | hback) | ⟨-, hsame | hback⟩
        · exact hsame.symm
        · exact absurd hback (by decide)
        · exact absurd hsame.symm hd.1
        · exact absurd hback (by decide)
      cases service with
      | none =>
        have hdig : d = c := by
          rw [asCheckResult, CheckResult.text, List.nil_append, skipNewlines_cr, hcons, List.cons_append,
            Util.skipNewlines_of_head ⟨hplain.1, hplain.2.1⟩] at hskip
          exact (List.cons.inj hskip).1.symm
        exact hplain.2.2 (hdig ▸ hsemicolon (by simp [checkResultText, keyword, ascii, ch]; rfl))
      | some name =>
        rw [asCheckResult, CheckResult.text, List.nil_append, skipNewlines_cr] at hskip
        cases name with
        | nil =>
          have hdig : d = c := by
            rw [List.nil_append, skipNewlines_cr, hcons, List.cons_append,
              Util.skipNewlines_of_head ⟨hplain.1, hplain.2.1⟩] at hskip
            exact (List.cons.inj hskip).1.symm
          exact hplain.2.2 (hdig ▸ hsemicolon (by simp [checkResultText, keyword, ascii, ch]; rfl))
        | cons n name =>
          have hname : ch '\r' ∉ n :: name := hfields _ (by simp [asCheckResult, CheckResult.delimited])
          have hstatus : ch '\r' ∉ decimalInt status := hfields _ (by simp [asCheckResult, CheckResult.delimited])
          by_cases hn : n = newline
          · subst hn
            have htext : checkResultText [] (some (newline :: name)) status message =
                keyword true ++ ch ';' :: newline :: (name ++ ascii ";" ++ decimalInt status ++ ascii ";" ++ message) := by
              simp [checkResultText, keyword, ascii, ch]
            obtain ⟨first, more, rest, hprefix, hescape⟩ := first_of_parsed h hle htext
            rw [asCheckResult, CheckResult.text, List.nil_append, skipNewlines_cr, hskip] at hescape
            exact first_ne_newline hd.1 hescape hprefix
          · have hn' : n ≠ ch '\r' := fun hc => hname (hc ▸ List.mem_cons_self)
            rw [asCheckResult, CheckResult.text, List.nil_append, skipNewlines_cr, List.cons_append,
              Util.skipNewlines_of_head ⟨hn', hn⟩] at h
            exact not_parsed_cr hname hstatus h hle
    · cases service <;> exact Util.skipNewlines_of_head ⟨hcr, hopt'.1⟩ _

end

/-! ### The two texts -/

section

variable (progname : Bytes) {optarg host message : Bytes} {service : Option Bytes} {status : ℤ} {delimiter : UInt8}
variable {now : ℕ}

/-- A command of `send_nsca` that begins the text of a module is the whole text, and nothing was escaped. -/
theorem eq_commandText_of_parsed {progname : Bytes} {now' : ℕ} {command : Bytes}
    (h : parseCheckResult progname now' ((asCheckResult host service status message).text delimiter) delimiter =
      .ok command)
    (hle : command <+: Python.commandText now host service status message) :
    command = Python.commandText now host service status message ∧
      ch '\\' ∉ (asCheckResult host service status message).text delimiter ∧
      newline ∉ (asCheckResult host service status message).text delimiter := by
  obtain ⟨b, fields', rfl, hfields', -⟩ := parseCheckResult_shape h
  obtain ⟨fields, htext, hfields⟩ := checkResultText_shape host service status message delimiter
  obtain ⟨r, hr⟩ := hle
  rw [Python.commandText, stampUnsigned, htext, List.append_assoc, List.append_assoc] at hr
  obtain ⟨hnow, hrest⟩ := stamp_append_inj hr
  obtain ⟨hb, hrest⟩ := keyword_append_inj hrest
  have hsize := length_escape ((asCheckResult host service status message).text delimiter)
  rw [escapedSize] at hsize
  have hsum : fields'.length + r.length = fields.length := by rw [← List.length_append, hrest]
  have hnil : r = [] := List.length_eq_zero_iff.mp (by omega)
  rw [hnil, List.append_nil] at hrest
  refine ⟨by rw [Python.commandText, stampUnsigned, htext, hnow, hb, hrest], ?_⟩
  exact notMem_of_length_escape (by omega)

/-- With nothing to escape, `send_nsca` makes the text of a module. -/
theorem parseCheckResult_of_carried (hopt : delimiterOption optarg = .ok delimiter)
    (hfields : ∀ f ∈ (asCheckResult host service status message).delimited, delimiter ∉ f)
    (hcarried : Carried delimiter now host service status message) :
    parseCheckResult progname (now % 2 ^ 32) ((asCheckResult host service status message).text delimiter) delimiter =
      .ok (Python.commandText now host service status message) := by
  have hd := delimiterOption_ok hopt
  obtain ⟨hplain, -, hlen⟩ := hcarried
  have htext := (text_plain_iff host service status message hd).mpr hplain
  have hstatus := escape_decimalInt status
  have hescape : ∀ f ∈ host :: message :: service.toList, escape f = f := fun f hf =>
    escape_of_notMem (hplain f hf).1 (hplain f hf).2
  have hcommand : (asCheckResult host service status message).command (now % 2 ^ 32) =
      Python.commandText now host service status message := by
    cases service with
    | none =>
      rw [asCheckResult, CheckResult.command, hescape host (by simp), hescape message (by simp), hstatus, hostCommand,
        Python.commandText, checkResultText, stampUnsigned]
      simp only [List.append_assoc]
    | some name =>
      rw [asCheckResult, CheckResult.command, hescape host (by simp), hescape name (by simp),
        hescape message (by simp), hstatus, serviceCommand, Python.commandText, checkResultText, stampUnsigned]
      simp only [List.append_assoc]
  rw [← hcommand]
  refine (encodes_iff hopt hfields).mpr ⟨?_, ?_⟩
  · rintro ⟨-, f, hf, hn⟩
    have hmem : newline ∈ (asCheckResult host service status message).text delimiter := by
      cases service with
      | none =>
        simp only [asCheckResult, CheckResult.delimited, List.mem_cons, List.not_mem_nil, or_false] at hf
        rcases hf with rfl | rfl | rfl <;> simp [asCheckResult, CheckResult.text, hn]
      | some name =>
        simp only [asCheckResult, CheckResult.delimited, List.mem_cons, List.not_mem_nil, or_false] at hf
        rcases hf with rfl | rfl | rfl <;> simp [asCheckResult, CheckResult.text, hn]
    exact htext.2 hmem
  · rw [hcommand]
    omega

/-- A check result that is carried has nothing at its beginning that is skipped. -/
theorem skipNewlines_of_carried (hopt : delimiterOption optarg = .ok delimiter)
    (hcarried : Carried delimiter now host service status message) :
    Util.skipNewlines ((asCheckResult host service status message).text delimiter) =
      (asCheckResult host service status message).text delimiter := by
  obtain ⟨hplain, hhead, -⟩ := hcarried
  have hnewline := ((text_plain_iff host service status message (delimiterOption_ok hopt)).mpr hplain).2
  rw [← head?_text host service status message delimiter] at hhead
  generalize (asCheckResult host service status message).text delimiter = text at hhead hnewline
  cases text with
  | nil => rfl
  | cons c text =>
    refine Util.skipNewlines_of_head ⟨fun hc => hhead (congrArg some hc), fun hc => hnewline ?_⟩ text
    exact hc ▸ List.mem_cons_self

/-- What `send_nsca` sends is in the text of a module only if it is carried. -/
theorem carried_of_prefix {progname : Bytes} {now' : ℕ} {command : Bytes} (hopt : delimiterOption optarg = .ok delimiter)
    (hfields : ∀ f ∈ (asCheckResult host service status message).delimited, delimiter ∉ f)
    (h : parseCheckResult progname now' (Util.skipNewlines ((asCheckResult host service status message).text delimiter))
      delimiter = .ok command)
    (hle : command <+: Python.commandText now host service status message) (hlen : command.length ≤ 1022) :
    Carried delimiter now host service status message := by
  have hskip := skipNewlines_of_parsed hopt hfields h hle
  rw [hskip] at h
  obtain ⟨heq, hplain⟩ := eq_commandText_of_parsed h hle
  refine ⟨(text_plain_iff host service status message (delimiterOption_ok hopt)).mp hplain, fun hhead => ?_, heq ▸ hlen⟩
  rw [← head?_text host service status message delimiter] at hhead
  obtain ⟨rest, hrest⟩ := List.head?_eq_some_iff.mp hhead
  rw [hrest] at hskip
  exact (Util.skipNewlines_head hskip).1 rfl

/-- What is sent for a text that fits is what `send_nsca` sends exactly if it is carried. -/
theorem sentBySendNsca_text_iff (hopt : delimiterOption optarg = .ok delimiter)
    (hfields : ∀ f ∈ (asCheckResult host service status message).delimited, delimiter ∉ f)
    (hnul : 0 ∉ (asCheckResult host service status message).text delimiter)
    (hlen : (Python.commandText now host service status message).length ≤ 1022) :
    SentBySendNsca progname delimiter (asCheckResult host service status message)
        (Python.commandText now host service status message ++ [newline]) ↔
      Carried delimiter now host service status message := by
  rw [sentBySendNsca_iff host service status message hnul]
  constructor
  · rintro ⟨now', command, hparse, hsent⟩
    have heq := List.append_cancel_right hsent
    exact carried_of_prefix hopt hfields hparse ⟨[], by rw [List.append_nil, heq]⟩ (heq ▸ hlen)
  · intro h
    refine ⟨now % 2 ^ 32, _, ?_, rfl⟩
    rw [skipNewlines_of_carried hopt h]
    exact parseCheckResult_of_carried progname hopt hfields h

/-! ### The Perl module -/

/-- A line, with a newline added if there is none at its end. -/
def closeLine (body : Bytes) : Bytes := if body.getLast? = some newline then body else body ++ [newline]

theorem transmitted_deliver {x : Exchange} {stores : Stores} {len : ℤ}
    (h : (Perl.deliver x stores len).result = true) :
    (Perl.deliver x stores len).transmitted = load stores 0 len.toNat := by
  unfold Perl.deliver at h ⊢
  split at h
  · cases h
  · rename_i hmoin
    rw [if_neg hmoin]
    exact transmitted_transmit _ _ _ _ h

theorem transmitted_terminate {x : Exchange} {body rest : Bytes} (h0 : 0 ∉ body) (hne : body ≠ [])
    (hlen : body.length < 1024) (h : (Perl.terminate x (storeAll 0 (body ++ 0 :: rest))).result = true) :
    (Perl.terminate x (storeAll 0 (body ++ 0 :: rest))).transmitted = some (closeLine body) := by
  have hget : body.getLast? = some newline ↔ body.getLast hne = newline := by
    rw [List.getLast?_eq_some_getLast hne, Option.some.injEq]
  rw [Perl.terminate_eq h0 hne hlen] at h ⊢
  unfold closeLine
  by_cases hlast : body.getLast hne = newline
  · rw [if_neg (not_not.mpr hlast)] at h ⊢
    rw [if_pos (hget.mpr hlast), transmitted_deliver h, Int.toNat_natCast, Perl.load_body]
  · rw [if_pos hlast] at h ⊢
    rw [if_neg (mt hget.mp hlast), transmitted_deliver h]
    exact Perl.load_lengthened

theorem take_append_take {α : Type} (n : ℕ) (s t : List α) : (s ++ t.take n).take n = (s ++ t).take n := by
  rw [List.take_append, List.take_append, List.take_take, Nat.min_eq_left (Nat.sub_le n s.length)]

/-- What the Perl module sends: the text as far as it fits. -/
theorem Perl.transmitted_sendPush {errno : ℤ} {x : Exchange} (hhost : 0 ∉ host) (hservice : ∀ name ∈ service, 0 ∉ name)
    (hmessage : 0 ∉ message) (h : (Perl.sendPush errno now x host service status message).result = true) :
    (Perl.sendPush errno now x host service status message).transmitted =
      some (closeLine ((Python.commandText now host service status message).take 1022)) := by
  have hanswer := hasTimestampPrefix_checkResultText errno host service status message
  have hbody := take_append_take 1022 (stampUnsigned now) (checkResultText host service status message)
  have hnul : 0 ∉ (Python.commandText now host service status message).take 1022 := fun hmem =>
    (List.mem_append.mp (List.mem_of_mem_take hmem)).elim (nul_notMem_stamp _)
      (nul_notMem_checkResultText hhost hservice status hmessage)
  have hlen : ((Python.commandText now host service status message).take 1022).length ≤ 1022 :=
    List.length_take_le _ _
  rw [Perl.sendPush, Perl.sendCommand_stamped errno now x hanswer, hbody] at h ⊢
  exact transmitted_terminate hnul (stamped_ne_nil now) (lt_of_le_of_lt hlen (by decide)) h

/-- A text that was cut off or ends with a newline of its own is not what `send_nsca` sends. -/
theorem sentBySendNsca_closeLine_iff (hopt : delimiterOption optarg = .ok delimiter)
    (hfields : ∀ f ∈ (asCheckResult host service status message).delimited, delimiter ∉ f)
    (hnul : 0 ∉ (asCheckResult host service status message).text delimiter) :
    SentBySendNsca progname delimiter (asCheckResult host service status message)
        (closeLine ((Python.commandText now host service status message).take 1022)) ↔
      Carried delimiter now host service status message := by
  constructor
  · intro h
    obtain ⟨now', command, hparse, hsent⟩ := (sentBySendNsca_iff host service status message hnul).mp h
    rw [closeLine] at hsent
    have htake := List.take_prefix 1022 (Python.commandText now host service status message)
    have hcut := List.length_take_le 1022 (Python.commandText now host service status message)
    by_cases hlast : ((Python.commandText now host service status message).take 1022).getLast? = some newline
    · rw [if_pos hlast] at hsent
      have hlen := congrArg List.length hsent
      rw [List.length_append, List.length_singleton] at hlen
      exact carried_of_prefix hopt hfields hparse ((List.prefix_append command [newline]).trans (hsent ▸ htake)) (by omega)
    · rw [if_neg hlast] at hsent
      have heq := List.append_cancel_right hsent
      exact carried_of_prefix hopt hfields hparse (heq ▸ htake) (by rw [← heq]; exact hcut)
  · intro h
    have hnl : newline ∉ Python.commandText now host service status message :=
      newline_notMem_commandText host service status message fun f hf => (h.1 f hf).2
    rw [List.take_of_length_le h.2.2, closeLine, if_neg fun hlast => hnl (List.mem_of_getLast? hlast)]
    exact (sentBySendNsca_text_iff progname hopt hfields hnul h.2.2).mpr h

/-! ### The Python module -/

theorem Python.transmitted_sendPush {x : Exchange}
    (h : (Python.sendPush now x host service status message).result = true) :
    (Python.sendPush now x host service status message).transmitted =
      load (Python.commandStores (Python.commandText now host service status message)) 0
        (snprintfResult (Python.commandText now host service status message) + 1).toNat := by
  cases hmoin : x.moin with
  | false =>
    rw [Python.sendPush, if_pos (by simp [hmoin])] at h
    cases h
  | true =>
    rw [Python.sendPush_eq now x host service status message hmoin] at h ⊢
    exact transmitted_transmit _ _ _ _ h

/-- Behind a text that is too long there is something that was never stored, or nothing is sent. -/
theorem Python.load_commandStores_long {text : Bytes} (h : 1023 < text.length) :
    ∀ bytes ∈ load (Python.commandStores text) 0 (snprintfResult text + 1).toNat, bytes = [] := by
  unfold snprintfResult
  by_cases hbig : text.length < 2 ^ 31
  · rw [if_pos hbig]
    have hgap : content (Python.commandStores text) (0 + (1023 : ℕ)) = none := by
      have hfirst := content_snprintf_of_le (show 0 < 1023 by decide) (le_refl 1023) text
      have hcell : ¬ (text.length : ℤ) = (1023 : ℕ) := by push_cast; omega
      rw [Int.zero_add, Python.commandStores, content_append, hfirst, snprintfResult, if_pos hbig, Option.or_none,
        content, content, if_neg hcell]
      rfl
    have hnone := load_eq_none (n := (((text.length : ℤ)) + 1).toNat) (k := 1023) (by omega) hgap
    rw [hnone]
    exact fun _ h => (by cases h)
  · rw [if_neg hbig]
    intro bytes hbytes
    exact (Option.some.inj hbytes).symm

theorem Python.agrees_iff {x : Exchange} (hopt : delimiterOption optarg = .ok delimiter)
    (hfields : ∀ f ∈ (asCheckResult host service status message).delimited, delimiter ∉ f)
    (hnul : 0 ∉ (asCheckResult host service status message).text delimiter)
    (h : (Python.sendPush now x host service status message).result = true) :
    (Python.sendPush now x host service status message).Agrees progname delimiter
        (asCheckResult host service status message) ↔ Carried delimiter now host service status message := by
  unfold Outcome.Agrees
  rw [Python.transmitted_sendPush h]
  generalize htext : Python.commandText now host service status message = text
  have hresult : text.length < 2 ^ 31 → (snprintfResult text + 1).toNat = text.length + 1 := fun hlt => by
    rw [snprintfResult, if_pos hlt]
    omega
  rcases lt_trichotomy text.length 1023 with hlt | heq | hgt
  · rw [hresult (by omega), Python.load_commandStores (by omega)]
    subst htext
    have hlen : (Python.commandText now host service status message).length ≤ 1022 := by omega
    have hiff := sentBySendNsca_text_iff progname hopt hfields hnul hlen
    constructor
    · rintro ⟨bytes, hb, hs⟩
      exact hiff.mp (Option.some.inj hb ▸ hs)
    · exact fun hc => ⟨_, rfl, hiff.mpr hc⟩
  · rw [hresult (by omega), Python.load_commandStores_cut heq]
    constructor
    · rintro ⟨bytes, hb, hs⟩
      obtain ⟨now', command, hparse, hsent⟩ := (sentBySendNsca_iff host service status message hnul).mp hs
      rw [← Option.some.inj hb] at hsent
      have hcommand : text.take 1022 ++ [0] = command := by
        have happ : text.take 1022 ++ [0] ++ [newline] = command ++ [newline] := by
          rw [List.append_assoc]
          exact hsent
        exact List.append_cancel_right happ
      have hskipped := fun hmem => hnul ((Util.skipNewlines_suffix _).subset hmem)
      have hplain := (plain_parseCheckResult hskipped hparse).2.1.2
      rw [← hcommand] at hplain
      exact absurd (List.mem_append_right _ (List.mem_singleton.mpr rfl)) hplain
    · intro hc
      have := hc.2.2
      rw [htext] at this
      omega
  · constructor
    · rintro ⟨bytes, hb, hs⟩
      obtain ⟨now', command, -, hsent⟩ := (sentBySendNsca_iff host service status message hnul).mp hs
      rw [Python.load_commandStores_long hgt bytes hb] at hsent
      exact absurd hsent.symm (by simp)
    · intro hc
      have := hc.2.2
      rw [htext] at this
      omega

theorem nul_notMem_text (hopt : delimiterOption optarg = .ok delimiter) (hhost : 0 ∉ host)
    (hservice : ∀ name ∈ service, 0 ∉ name) (hmessage : 0 ∉ message) :
    0 ∉ (asCheckResult host service status message).text delimiter := by
  rw [mem_text_iff _ _ _ _ (delimiterOption_ok hopt).2.1.symm, not_or]
  refine ⟨nul_notMem_decimalInt status, ?_⟩
  rintro ⟨f, hf, h0⟩
  rcases List.mem_cons.mp hf with rfl | hf
  · exact hhost h0
  · rcases List.mem_cons.mp hf with rfl | hf
    · exact hmessage h0
    · exact hservice f (Option.mem_toList.mp hf) h0

theorem Perl.agrees_iff {errno : ℤ} {x : Exchange} (hopt : delimiterOption optarg = .ok delimiter)
    (hhost : 0 ∉ host) (hservice : ∀ name ∈ service, 0 ∉ name) (hmessage : 0 ∉ message)
    (hfields : ∀ f ∈ (asCheckResult host service status message).delimited, delimiter ∉ f)
    (h : (Perl.sendPush errno now x host service status message).result = true) :
    (Perl.sendPush errno now x host service status message).Agrees progname delimiter
        (asCheckResult host service status message) ↔ Carried delimiter now host service status message := by
  unfold Outcome.Agrees
  rw [Perl.transmitted_sendPush hhost hservice hmessage h]
  have hnul : 0 ∉ (asCheckResult host service status message).text delimiter :=
    nul_notMem_text hopt hhost hservice hmessage
  have hiff : _ ↔ Carried delimiter now host service status message :=
    sentBySendNsca_closeLine_iff progname hopt hfields hnul
  exact ⟨fun ⟨bytes, hb, hs⟩ => hiff.mp (Option.some.inj hb ▸ hs), fun hc => ⟨_, rfl, hiff.mpr hc⟩⟩

end

end NscaNg.Bindings
