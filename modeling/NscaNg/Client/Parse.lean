/-
# Commands of the client

`src/client/parse.c`: what the client makes of a monitoring command, and of a check result, whose
fields stand between delimiters. A backslash or a newline anywhere in a check result is escaped
before the fields are split.
-/
import NscaNg.Common.Util
import NscaNg.Posix.Scan

namespace NscaNg.Client

open Posix

/-- `xasprintf()`: a string longer than an `int` can say is an error. -/
def xasprintf (output : Bytes) : Except Bytes Bytes :=
  if output.length < 2 ^ 31 then .ok output else .error (ascii "Cannot create buffer with formatted output")

/-- The timestamp in front of a command, `[%lu] `. -/
def stamp (now : ℕ) : Bytes := ch '[' :: decimal now ++ ascii "] "

/-- `parse_command()`. -/
def parseCommand (now : ℕ) (line : Bytes) : Except Bytes Bytes :=
  let line := skipWhitespace line
  if line.head? = some (ch '[') then .ok line else xasprintf (stamp now ++ line)

/-- What `escape()` writes for a character. -/
def escapeCharacter (c : UInt8) : Bytes :=
  if c = ch '\\' then [ch '\\', ch '\\'] else if c = newline then [ch '\\', ch 'n'] else [c]

/-- `escape()`. -/
def escape (input : Bytes) : Bytes := input.flatMap escapeCharacter

/-- The size of the block `escape()` allocates. -/
def escapedSize (input : Bytes) : ℕ := input.length + 1 + input.countP fun c => c = ch '\\' ∨ c = newline

/-- The loop that splits the fields: what is left of the input, with the field so far, of which
there are at most so many more. -/
def splitFields (delimiter : UInt8) : ℕ → Bytes → Bytes → List Bytes
  | 0, field, input => [field ++ input]
  | _ + 1, field, [] => [field]
  | n + 1, field, c :: input =>
    if c = delimiter then field :: splitFields delimiter n [] input
    else splitFields delimiter (n + 1) (field ++ [c]) input

/-- The command for a host check result. -/
def hostCommand (now : ℕ) (host code output : Bytes) : Bytes :=
  stamp now ++ ascii "PROCESS_HOST_CHECK_RESULT;" ++ host ++ ascii ";" ++ code ++ ascii ";" ++ output

/-- The command for a service check result. -/
def serviceCommand (now : ℕ) (host service code output : Bytes) : Bytes :=
  stamp now ++ ascii "PROCESS_SERVICE_CHECK_RESULT;" ++ host ++ ascii ";" ++ service ++ ascii ";" ++ code ++
    ascii ";" ++ output

/-- The `switch` on the number of fields. -/
def commandOfFields (progname : Bytes) (now : ℕ) : List Bytes → Except Bytes Bytes
  | [host, code, output] => xasprintf (hostCommand now host code output)
  | [host, service, code, output] => xasprintf (serviceCommand now host service code output)
  | _ => .error (ascii "Input format incorrect, see the " ++ progname ++ ascii "(8) man page")

/-- `parse_check_result()`. -/
def parseCheckResult (progname : Bytes) (now : ℕ) (input : Bytes) (delimiter : UInt8) : Except Bytes Bytes :=
  commandOfFields progname now
    (splitFields delimiter 3 [] (if ch '\\' ∈ input ∨ newline ∈ input then escape input else input))

/-! ### Escaping -/

theorem length_escapeCharacter (c : UInt8) :
    (escapeCharacter c).length = 1 + if c = ch '\\' ∨ c = newline then 1 else 0 := by
  unfold escapeCharacter
  by_cases hb : c = ch '\\'
  · rw [if_pos hb, if_pos (.inl hb)]
    rfl
  · by_cases hn : c = newline
    · rw [if_neg hb, if_pos hn, if_pos (.inr hn)]
      rfl
    · rw [if_neg hb, if_neg hn, if_neg (not_or.mpr ⟨hb, hn⟩)]
      rfl

/-- `escape()` fills the block it allocates, with the NUL behind what it writes. -/
theorem length_escape (input : Bytes) : (escape input).length + 1 = escapedSize input := by
  unfold escapedSize
  induction input with
  | nil => rfl
  | cons c rest ih =>
    have hlen : (escape (c :: rest)).length = (escapeCharacter c).length + (escape rest).length := by
      rw [escape, List.flatMap_cons, List.length_append]
      rfl
    rw [hlen, length_escapeCharacter, List.countP_cons, List.length_cons]
    simp only [decide_eq_true_eq]
    omega

theorem escape_append (s t : Bytes) : escape (s ++ t) = escape s ++ escape t := List.flatMap_append

theorem mem_escapeCharacter {c x : UInt8} (h : x ∈ escapeCharacter c) :
    x = c ∧ c ≠ newline ∨ x = ch '\\' ∨ x = ch 'n' ∧ c = newline := by
  unfold escapeCharacter at h
  by_cases hb : c = ch '\\'
  · rw [if_pos hb] at h
    right; left
    simpa using h
  · rw [if_neg hb] at h
    by_cases hn : c = newline
    · rw [if_pos hn] at h
      right
      simpa [hn] using h
    · rw [if_neg hn] at h
      left
      exact ⟨List.mem_singleton.mp h, hn⟩

/-- An escaped text has no newline. -/
theorem newline_notMem_escape (input : Bytes) : newline ∉ escape input := by
  intro h
  obtain ⟨c, -, hc⟩ := List.mem_flatMap.mp h
  rcases mem_escapeCharacter hc with ⟨h1, h2⟩ | h1 | ⟨h1, -⟩
  · exact h2 h1.symm
  · exact absurd h1 (by decide)
  · exact absurd h1 (by decide)

theorem nul_notMem_escape {input : Bytes} (h : 0 ∉ input) : 0 ∉ escape input := by
  intro h0
  obtain ⟨c, hc, hx⟩ := List.mem_flatMap.mp h0
  rcases mem_escapeCharacter hx with ⟨rfl, -⟩ | h1 | ⟨h1, -⟩
  · exact h hc
  · exact absurd h1 (by decide)
  · exact absurd h1 (by decide)

/-- A text without a backslash and a newline stands for itself. -/
theorem escape_of_notMem {input : Bytes} (hb : ch '\\' ∉ input) (hn : newline ∉ input) : escape input = input := by
  induction input with
  | nil => rfl
  | cons c rest ih =>
    rw [List.mem_cons, not_or] at hb hn
    have hc : escapeCharacter c = [c] := by
      rw [escapeCharacter, if_neg (Ne.symm hb.1), if_neg (Ne.symm hn.1)]
    rw [escape, List.flatMap_cons, hc]
    exact congrArg (c :: ·) (ih hb.2 hn.2)

/-- `parse_check_result()` splits the escaped text, whether or not there is anything to escape. -/
theorem parseCheckResult_eq (progname : Bytes) (now : ℕ) (input : Bytes) (delimiter : UInt8) :
    parseCheckResult progname now input delimiter =
      commandOfFields progname now (splitFields delimiter 3 [] (escape input)) := by
  unfold parseCheckResult
  by_cases h : ch '\\' ∈ input ∨ newline ∈ input
  · rw [if_pos h]
  · rw [if_neg h, escape_of_notMem (fun hb => h (.inl hb)) (fun hn => h (.inr hn))]

/-! ### Splitting -/

section

variable {delimiter : UInt8}

/-- A field without the delimiter in it is split off at the delimiter behind it. -/
theorem splitFields_field {x : Bytes} (h : delimiter ∉ x) (n : ℕ) (field rest : Bytes) :
    splitFields delimiter (n + 1) field (x ++ delimiter :: rest) = (field ++ x) :: splitFields delimiter n [] rest := by
  induction x generalizing field with
  | nil =>
    show splitFields delimiter (n + 1) field (delimiter :: rest) = _
    rw [splitFields, if_pos rfl, List.append_nil]
  | cons c cs ih =>
    rw [List.mem_cons, not_or] at h
    show splitFields delimiter (n + 1) field (c :: (cs ++ delimiter :: rest)) = _
    rw [splitFields, if_neg (Ne.symm h.1), ih h.2]
    simp

/-- What has no delimiter in it is the last field. -/
theorem splitFields_last {x : Bytes} (h : delimiter ∉ x) (n : ℕ) (field : Bytes) :
    splitFields delimiter n field x = [field ++ x] := by
  induction x generalizing field with
  | nil => cases n <;> simp [splitFields]
  | cons c cs ih =>
    rw [List.mem_cons, not_or] at h
    cases n with
    | zero => rfl
    | succ n =>
      rw [splitFields, if_neg (Ne.symm h.1), ih h.2]
      simp

/-- Where there is a delimiter, a field is split off, if there may be one more. -/
theorem splitFields_mem {x : Bytes} (h : delimiter ∈ x) (n : ℕ) :
    ∃ first rest, x = first ++ delimiter :: rest ∧ delimiter ∉ first ∧
      splitFields delimiter (n + 1) [] x = first :: splitFields delimiter n [] rest := by
  obtain ⟨first, rest, hx, hf⟩ := List.eq_append_cons_of_mem h
  exact ⟨first, rest, hx, hf, by rw [hx, splitFields_field hf, List.nil_append]⟩

end

theorem mem_of_mem_splitFields {delimiter c : UInt8} {f : Bytes} {n : ℕ} {field input : Bytes}
    (hf : f ∈ splitFields delimiter n field input) (hc : c ∈ f) : c ∈ field ∨ c ∈ input := by
  induction input generalizing n field with
  | nil =>
    left
    cases n <;> simpa [splitFields, List.mem_singleton.mp hf] using hc
  | cons x xs ih =>
    cases n with
    | zero =>
      rw [List.mem_singleton.mp hf] at hc
      exact List.mem_append.mp hc
    | succ n =>
      rw [splitFields] at hf
      by_cases hx : x = delimiter
      · rw [if_pos hx] at hf
        rcases List.mem_cons.mp hf with rfl | hf
        · exact .inl hc
        · exact .inr (List.mem_cons_of_mem _ ((ih hf).resolve_left List.not_mem_nil))
      · rw [if_neg hx] at hf
        rcases ih hf with h | h
        · rcases List.mem_append.mp h with h | h
          · exact .inl h
          · exact .inr (List.mem_singleton.mp h ▸ List.mem_cons_self)
        · exact .inr (List.mem_cons_of_mem _ h)

/-! ### What is returned -/

theorem xasprintf_eq_ok {output s : Bytes} : xasprintf output = .ok s ↔ output = s ∧ output.length < 2 ^ 31 := by
  unfold xasprintf
  by_cases h : output.length < 2 ^ 31
  · rw [if_pos h, Except.ok.injEq]
    exact ⟨fun he => ⟨he, h⟩, fun he => he.1⟩
  · rw [if_neg h]
    exact ⟨fun he => (by cases he), fun he => absurd he.2 h⟩

theorem commandOfFields_eq_ok {progname : Bytes} {now : ℕ} {fields : List Bytes} {command : Bytes}
    (h : commandOfFields progname now fields = .ok command) : command.length < 2 ^ 31 ∧
      ((∃ a b c, fields = [a, b, c] ∧ command = hostCommand now a b c) ∨
        ∃ a b c e, fields = [a, b, c, e] ∧ command = serviceCommand now a b c e) := by
  unfold commandOfFields at h
  split at h
  · rename_i a b c
    obtain ⟨rfl, hlen⟩ := xasprintf_eq_ok.mp h
    exact ⟨hlen, .inl ⟨a, b, c, rfl, rfl⟩⟩
  · rename_i a b c e
    obtain ⟨rfl, hlen⟩ := xasprintf_eq_ok.mp h
    exact ⟨hlen, .inr ⟨a, b, c, e, rfl, rfl⟩⟩
  · cases h

end NscaNg.Client
