/-
# The delimiter

`parse_backslash_escape()` of `src/client/send_nsca.c`, and what the option `-d` makes of it: the
byte that stands between the fields of a check result.
-/
import NscaNg.Posix.Integer

namespace NscaNg.Client

open Posix

/-- The `switch` on the character behind a backslash. -/
def escapedCharacter (c : UInt8) : Option UInt8 :=
  if c = ch 'a' then some 7
  else if c = ch 'b' then some 8
  else if c = ch 'f' then some 12
  else if c = ch 'n' then some 10
  else if c = ch 'r' then some 13
  else if c = ch 't' then some 9
  else if c = ch 'v' then some 11
  else none

/-- An octal or hexadecimal number, or a numeric escape sequence, of at most `CHAR_MAX`. -/
def numericEscape (sequence : Bytes) : Option UInt8 :=
  if sequence.head? = some (ch '0') ∨ sequence.head? = some (ch '\\') then
    match strtolEnd (ch '0' :: sequence.tail) with
    | (value, []) => if 0 ≤ value ∧ value ≤ 127 then some (UInt8.ofNat value.toNat) else none
    | (_, _ :: _) => none
  else none

/-- `parse_backslash_escape()`; `none` for `EOF`. -/
def parseBackslashEscape (sequence : Bytes) : Option UInt8 :=
  match sequence with
  | [] => none
  | [c] => some c
  | [b, c] => if b = ch '\\' then (escapedCharacter c).or (numericEscape [b, c]) else numericEscape [b, c]
  | b :: c :: rest => if rest.length ≤ 3 then numericEscape (b :: c :: rest) else none

/-- The argument of `-d`, or the error message. -/
def delimiterOption (optarg : Bytes) : Except Bytes UInt8 :=
  match parseBackslashEscape optarg with
  | none => .error (ascii "-d argument must be a single character")
  | some character =>
    if character = 0o27 ∨ character = newline ∨ character = 0 ∨ character = ch '\\' then
      .error (ascii "Illegal delimiter specified with -d")
    else .ok character

/-- What `-d` accepts. -/
theorem delimiterOption_ok {optarg : Bytes} {delimiter : UInt8} (h : delimiterOption optarg = .ok delimiter) :
    delimiter ≠ newline ∧ delimiter ≠ 0 ∧ delimiter ≠ ch '\\' := by
  unfold delimiterOption at h
  split at h
  · cases h
  · rename_i character hparse
    by_cases hc : character = 0o27 ∨ character = newline ∨ character = 0 ∨ character = ch '\\'
    · rw [if_pos hc] at h
      cases h
    · rw [if_neg hc] at h
      cases h
      simp only [not_or] at hc
      exact hc.2

example : delimiterOption (ascii "\\x2c") = .ok (ch ',') := by decide

end NscaNg.Client
