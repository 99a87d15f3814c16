/-
# Numbers of any base

`strtol()` with a base of 0: the string says with `0x` or `0` in front whether the number is
hexadecimal or octal, and what stands behind the number is returned with it.
-/
import NscaNg.Posix.Scan

namespace Posix

/-- The value of a digit of a base up to 36; no base has the digits of the value 36. -/
def digitValue (c : UInt8) : ℕ :=
  if isDigit c then c.toNat - 48
  else if ch 'a' ≤ toLower c ∧ toLower c ≤ ch 'z' then (toLower c).toNat - 87
  else 36

/-- The number that digits of a base stand for. -/
def valueInBase (base : ℕ) (digits : Bytes) : ℕ := digits.foldl (fun v c => base * v + digitValue c) 0

/-- The base a number names, and its digits from behind that on. A `0x` without a digit behind it
is the number 0. -/
def baseOf : Bytes → ℕ × Bytes
  | zero :: x :: d :: rest =>
    if zero = ch '0' then
      if toLower x = ch 'x' ∧ digitValue d < 16 then (16, d :: rest) else (8, zero :: x :: d :: rest)
    else (10, zero :: x :: d :: rest)
  | digits => (if digits.head? = some (ch '0') then 8 else 10, digits)

/-- The sign of a number, and what stands behind it. -/
def signOf : Bytes → ℤ × Bytes
  | [] => (1, [])
  | c :: rest => if c = ch '-' then (-1, rest) else if c = ch '+' then (1, rest) else (1, c :: rest)

/-- `strtol(s, &end, 0)` with a 64-bit `long`: the number, and the string from `end` on. -/
def strtolEnd (s : Bytes) : ℤ × Bytes :=
  let (sign, unsigned) := signOf (s.dropWhile isSpace)
  let (base, digits) := baseOf unsigned
  let number := digits.takeWhile (digitValue · < base)
  if number = [] then (0, s)
  else (max (-2 ^ 63) (min (2 ^ 63 - 1) (sign * valueInBase base number)), digits.dropWhile (digitValue · < base))

/-- `ERANGE`. -/
def erange : ℤ := 34

/-- `strtol(s, &end, 10)` with `errno` as it was left before: what `errno` is then, and the string from
`end` on. Only a number that is no 64-bit `long` changes `errno`. -/
def strtolErrno (errno : ℤ) (s : Bytes) : ℤ × Bytes :=
  let (sign, unsigned) := signOf (s.dropWhile isSpace)
  let number := unsigned.takeWhile isDigit
  if number = [] then (errno, s)
  else
    (if -2 ^ 63 ≤ sign * decimalValue number ∧ sign * decimalValue number < 2 ^ 63 then errno else erange,
      unsigned.dropWhile isDigit)

example : strtolEnd (ascii "0x1f;") = (31, ascii ";") := by decide
example : strtolEnd (ascii " -017") = (-15, []) := by decide
example : strtolEnd (ascii "0x") = (0, ascii "x") := by decide

end Posix
