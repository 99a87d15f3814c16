/-
# Authorization of commands

`is_authorized()` of `src/server/auth.c`: a client may submit a command if one of the patterns
of its `authorize` section, or of the section `*` if it has none, matches the command without
its timestamp. The command is a C string.

The code takes for the timestamp whatever stands before the first `]`, so the text the patterns
see is the command without its timestamp exactly if that is a timestamp
(`timestampStripped_iff`).
-/
import NscaNg.Common.Util
import NscaNg.Posix.Regcomp

namespace NscaNg

open Posix

/-- What `regexec()` returns, as far as `match()` tells it apart. -/
inductive RegexecResult
  | found
  | noMatch
  | error
  deriving DecidableEq

/-- The settings of an `authorize` section that name patterns. -/
structure Auth (ρ : Type) where
  hosts : List ρ
  services : List ρ
  commands : List ρ

/-- The settings in the order `is_authorized()` goes through them. -/
def Auth.settings {ρ : Type} (auth : Auth ρ) : List (List ρ) :=
  [auth.hosts, auth.services, auth.commands]

/-- The hash table of the `authorize` sections, by client identity. -/
abbrev AuthTable (ρ : Type) := List (Bytes × Auth ρ)

def hashLookup {ρ : Type} (table : AuthTable ρ) (key : Bytes) : Option (Auth ρ) := table.lookup key

/-- The command from behind its first `]` and the blanks there on, `none` if there is no `]`. -/
def matchedText (command : Bytes) : Option Bytes :=
  match strchr command (ch ']') with
  | none => none
  | some bracket => some (skipWhitespace bracket.tail)

section

variable {ρ : Type} (regexec : ρ → Bytes → RegexecResult)

/-- `match()`. -/
def matchPattern (pattern : ρ) (command : Bytes) : Bool :=
  match regexec pattern command with
  | .found => true
  | .noMatch => false
  | .error => false

/-- The section that applies to a client. -/
def clientSection (table : AuthTable ρ) (identity : Bytes) : Option (Auth ρ) :=
  match hashLookup table identity with
  | some auth => some auth
  | none => hashLookup table (ascii "*")

def isAuthorized (table : AuthTable ρ) (identity command : Bytes) : Bool :=
  match clientSection table identity with
  | none => false
  | some auth =>
    match strchr command newline with
    | none => false
    | some nl =>
      if nl.tail ≠ [] then false
      else
        match matchedText command with
        | none => false
        | some text =>
          auth.settings.any fun setting => setting.any fun pattern => matchPattern regexec pattern text

/-! ### What is accepted -/

/-- The command's only newline is its last byte. -/
def Terminated (command : Bytes) : Prop := ∃ body, command = body ++ [newline] ∧ newline ∉ body

/-- A pattern of the client's section matches the text. -/
def Permits (table : AuthTable ρ) (identity text : Bytes) : Prop :=
  ∃ auth, clientSection table identity = some auth ∧
    ∃ setting ∈ auth.settings, ∃ pattern ∈ setting, regexec pattern text = .found

/-- The command ends with its only newline, and the text behind its first `]` is permitted. -/
def Acceptable (table : AuthTable ρ) (identity command : Bytes) : Prop :=
  Terminated command ∧ ∃ text, matchedText command = some text ∧ Permits regexec table identity text

theorem matchPattern_iff {pattern : ρ} {text : Bytes} :
    matchPattern regexec pattern text = true ↔ regexec pattern text = .found := by
  unfold matchPattern
  cases regexec pattern text <;> simp

theorem terminated_iff {command : Bytes} :
    Terminated command ↔ ∃ nl, strchr command newline = some nl ∧ nl.tail = [] := by
  constructor
  · rintro ⟨body, rfl, h⟩
    exact ⟨[newline], strchr_append h [], rfl⟩
  · rintro ⟨nl, hs, ht⟩
    obtain ⟨body, tail, rfl, hb, rfl⟩ := strchr_eq_some.mp hs
    obtain rfl : tail = [] := ht
    exact ⟨body, rfl, hb⟩

theorem isAuthorized_iff {table : AuthTable ρ} {identity command : Bytes} :
    isAuthorized regexec table identity command = true ↔ Acceptable regexec table identity command := by
  unfold isAuthorized Acceptable Permits
  rw [terminated_iff]
  cases hs : clientSection table identity with
  | none => simp
  | some auth =>
    cases hn : strchr command newline with
    | none => simp
    | some nl =>
      by_cases ht : nl.tail = []
      · cases hm : matchedText command with
        | none => simp [ht]
        | some text => simp [ht, matchPattern_iff]
      · simp [ht]

/-! ### The timestamp -/

/-- `[` and a decimal number. -/
def Timestamp (stamp : Bytes) : Prop :=
  ∃ digits, stamp = ch '[' :: digits ∧ digits ≠ [] ∧ ∀ d ∈ digits, ch '0' ≤ d ∧ d ≤ ch '9'

/-- The command is a bracketed timestamp, blanks, and the text the patterns are matched against. -/
def TimestampStripped (command : Bytes) : Prop :=
  ∃ stamp blanks rest, command = stamp ++ ch ']' :: blanks ++ rest ∧ Timestamp stamp ∧
    (∀ c ∈ blanks, c = ch ' ' ∨ c = ch '\t') ∧ matchedText command = some rest

/-- The command begins with a bracketed timestamp. -/
def HasTimestamp (command : Bytes) : Prop := ∃ stamp tail, command = stamp ++ ch ']' :: tail ∧ Timestamp stamp

theorem matchedText_append {stamp : Bytes} (h : ch ']' ∉ stamp) (tail : Bytes) :
    matchedText (stamp ++ ch ']' :: tail) = some (skipWhitespace tail) := by
  simp [matchedText, strchr_append h]

theorem matchedText_eq_some {command text : Bytes} : matchedText command = some text ↔
    ∃ stamp tail, command = stamp ++ ch ']' :: tail ∧ ch ']' ∉ stamp ∧ text = skipWhitespace tail := by
  constructor
  · intro h
    cases hs : strchr command (ch ']') with
    | none => simp [matchedText, hs] at h
    | some bracket =>
      obtain ⟨stamp, tail, rfl, hst, rfl⟩ := strchr_eq_some.mp hs
      exact ⟨stamp, tail, rfl, hst, by simpa [matchedText, hs] using h.symm⟩
  · rintro ⟨stamp, tail, rfl, hst, rfl⟩
    exact matchedText_append hst tail

/-- The text the patterns see goes to the end of the command. -/
theorem matchedText_suffix {command text : Bytes} (h : matchedText command = some text) :
    text <:+ command := by
  obtain ⟨stamp, tail, rfl, -, rfl⟩ := matchedText_eq_some.mp h
  obtain ⟨blanks, hb, -⟩ := skipWhitespace_split tail
  exact (List.dropWhile_suffix _).trans ⟨stamp ++ [ch ']'], by simp⟩

theorem Timestamp.bracket_notMem {stamp : Bytes} (h : Timestamp stamp) : ch ']' ∉ stamp := by
  obtain ⟨digits, rfl, -, hd⟩ := h
  intro hm
  rcases List.mem_cons.mp hm with h | h
  · exact absurd h (by decide)
  · exact absurd (hd _ h).2 (by decide)

theorem timestampStripped_iff {command : Bytes} : TimestampStripped command ↔ HasTimestamp command := by
  constructor
  · rintro ⟨stamp, blanks, rest, rfl, hst, -, -⟩
    exact ⟨stamp, blanks ++ rest, by simp, hst⟩
  · rintro ⟨stamp, tail, rfl, hst⟩
    obtain ⟨blanks, hb, hbl⟩ := skipWhitespace_split tail
    refine ⟨stamp, blanks, skipWhitespace tail, ?_, hst, hbl, matchedText_append hst.bracket_notMem tail⟩
    rw [List.append_assoc, List.cons_append, ← hb]

end

/-- **What is removed is a timestamp.** Whatever the patterns, the part of an accepted command
before the text the patterns see is exactly its leading bracketed timestamp: this holds of the
commands that begin with one, and of those that no patterns make acceptable, since they do not
end with their only newline or have no `]`. -/
theorem timestampStripped_of_accepted_iff (command : Bytes) :
    (∀ (ρ : Type) (regexec : ρ → Bytes → RegexecResult) (table : AuthTable ρ) (identity : Bytes),
      isAuthorized regexec table identity command = true → TimestampStripped command) ↔
      (HasTimestamp command ∨ ¬ Terminated command ∨ ch ']' ∉ command) := by
  rw [timestampStripped_iff]
  constructor
  · intro h
    by_contra hc
    simp only [not_or, not_not] at hc
    obtain ⟨hstamp, hterm, hbr⟩ := hc
    obtain ⟨text, ht⟩ : ∃ text, matchedText command = some text := by
      cases hs : strchr command (ch ']') with
      | none => exact absurd hbr (strchr_eq_none.mp hs)
      | some bracket => exact ⟨skipWhitespace bracket.tail, by simp only [matchedText, hs]⟩
    -- a pattern that matches everything makes the command acceptable
    refine hstamp (h Unit (fun _ _ => .found) [([], ⟨[()], [], []⟩)] [] ?_)
    refine (isAuthorized_iff _).mpr ⟨hterm, text, ht, ⟨[()], [], []⟩, rfl, ?_⟩
    exact ⟨[()], by simp [Auth.settings], (), by simp, rfl⟩
  · rintro (hstamp | hterm | hbr) ρ regexec table identity hacc
    · exact hstamp
    · exact absurd ((isAuthorized_iff _).mp hacc).1 hterm
    · obtain ⟨-, text, ht, -⟩ := (isAuthorized_iff _).mp hacc
      obtain ⟨stamp, tail, rfl, -, -⟩ := matchedText_eq_some.mp ht
      simp at hbr

/-- `regexec()` of a compiled pattern; running out of memory is left out. -/
def posixRegexec (re : Regex) (text : Bytes) : RegexecResult :=
  if Posix.regexec re text then .found else .noMatch

/-- A client that may only submit comments gets `SHUTDOWN_PROGRAM` past its pattern: the text
before the first `]` is not looked at. -/
theorem not_timestampStripped_of_accepted :
    ¬ ∀ (ρ : Type) (regexec : ρ → Bytes → RegexecResult) (table : AuthTable ρ)
        (identity command : Bytes), 0 ∉ command →
      isAuthorized regexec table identity command = true → TimestampStripped command := by
  intro h
  have hs := h Regex posixRegexec
    [(ascii "*", ⟨[], [], [(regcomp (ascii "^ADD_HOST_COMMENT;.*\n?$")).getD []]⟩)]
    (ascii "web") (ascii "SHUTDOWN_PROGRAM] ADD_HOST_COMMENT;\n") (by decide) (by decide)
  obtain ⟨_, tail, he, digits, rfl, -⟩ := timestampStripped_iff.mp hs
  have hhead : some (ch 'S') = some (ch '[') := congrArg List.head? he
  exact absurd hhead (by decide)

end NscaNg
