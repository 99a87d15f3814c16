/-
# Patterns of the server configuration

The callbacks of `src/server/conf.c` that make a regular expression of a `commands`, `hosts` or
`services` setting. Each pattern is put into a larger expression as text, and that is compiled:
between `^` and an optional newline with `$`, and before that, for hosts and services, between
the fields of the command they stand for.
-/
import NscaNg.Server.Auth

namespace NscaNg

open Posix

/-- A pattern that does not compile: the setting and the text, as the error message has them. -/
structure PatternError where
  setting : Bytes
  value : Bytes
  deriving DecidableEq

/-- The name of the command that submits a host check result, and the `;` behind it. -/
def hostResult : Bytes := ascii "PROCESS_HOST_CHECK_RESULT;"

/-- The name of the command that submits a service check result, and the `;` behind it. -/
def serviceResult : Bytes := ascii "PROCESS_SERVICE_CHECK_RESULT;"

/-- `host_to_command()`. -/
def hostToCommand (hostPattern : Bytes) : Bytes := hostResult ++ hostPattern ++ ascii ";.+"

/-- The part of a service pattern behind its last `@`, or a pattern for any host. -/
def hostPart (servicePattern : Bytes) : Bytes :=
  match strrchr servicePattern (ch '@') with
  | none => ascii "[^;]+"
  | some rest => rest.tail

/-- The part of a service pattern before its last `@`. -/
def servicePart (servicePattern : Bytes) : Bytes :=
  match strrchr servicePattern (ch '@') with
  | none => servicePattern
  | some rest => servicePattern.take (servicePattern.length - rest.length)

/-- `service_to_command()`. -/
def serviceToCommand (servicePattern : Bytes) : Bytes :=
  serviceResult ++ hostPart servicePattern ++ ascii ";" ++ servicePart servicePattern ++
    ascii ";.+;.+"

/-- `parse_command_pattern_cb()`, for the setting it is called for. -/
def parseCommandPatternCb (setting value : Bytes) : Except PatternError Regex :=
  match regcomp (ascii "^" ++ value ++ ascii "\n?$") with
  | some re => .ok re
  | none => .error ⟨setting, value⟩

/-- `parse_host_pattern_cb()`. -/
def parseHostPatternCb (value : Bytes) : Except PatternError Regex :=
  parseCommandPatternCb (ascii "hosts") (hostToCommand value)

/-- `parse_service_pattern_cb()`. -/
def parseServicePatternCb (value : Bytes) : Except PatternError Regex :=
  parseCommandPatternCb (ascii "services") (serviceToCommand value)

theorem parts_of_notMem {d : Bytes} (h : ch '@' ∉ d) :
    servicePart d = d ∧ hostPart d = ascii "[^;]+" := by
  simp [servicePart, hostPart, strrchr_eq_none.mpr h]

example : serviceToCommand (ascii "disk@web") =
    ascii "PROCESS_SERVICE_CHECK_RESULT;web;disk;.+;.+" := by decide

end NscaNg
