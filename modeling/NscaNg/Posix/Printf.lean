/-
# Formats of the `printf()` family

A format is read into tokens (`tokenize`): bytes that stand for themselves, `%%`, `%m`, and conversions
with their flags, width, precision and length. `expand` prints the tokens with the arguments at hand, as
C11 7.21.6.1 and its glibc say; it is `none` where C does not define what is printed: for a format that is
none, an argument that is missing or has another type, and a `%m` that `printf()` is not promised to know.
What it makes of the finite floating-point numbers is a parameter.
-/
import NscaNg.Posix.Scan

namespace Posix.Printf

/-! ### Formats -/

/-- The flags, digits, `*`, `.` and length letters between a percent sign and a conversion letter. -/
def isModifier (c : UInt8) : Bool := c ∈ ascii "-+ #0123456789.*hlLjzt"

/-- The letters that end a conversion; `%n`, which prints nothing, is left out. -/
def letters : Bytes := ascii "diouxXfFeEgGaAcsp"

def isFlag (c : UInt8) : Bool := c ∈ ascii "-+ #0"

/-- A width or a precision: none, digits, or a `*` for an argument. -/
inductive Size
  | absent
  | given (n : ℕ)
  | star
  deriving DecidableEq, Repr

/-- What stands between the percent sign and the letter. -/
structure Template where
  flags : Bytes
  width : Size
  precision : Size
  length : Bytes
  deriving DecidableEq, Repr

/-- A width, and what stands behind it. -/
def widthOf (s : Bytes) : Size × Bytes :=
  if s.head? = some (ch '*') then (.star, s.tail)
  else
    let digits := s.takeWhile isDigit
    (if digits = [] then .absent else .given (decimalValue digits), s.dropWhile isDigit)

/-- A precision with its period, and what stands behind it; without digits it is 0. -/
def precisionOf (s : Bytes) : Size × Bytes :=
  if s.head? = some (ch '.') then
    let (size, rest) := widthOf s.tail
    (if size = .absent then .given 0 else size, rest)
  else (.absent, s)

def templateOf (mods : Bytes) : Template :=
  let (width, rest) := widthOf (mods.dropWhile isFlag)
  let (precision, length) := precisionOf rest
  { flags := mods.takeWhile isFlag, width := width, precision := precision, length := length }

/-- The lengths a conversion letter may have in front of it. The `l` of wide characters is left out. -/
def lengthsOf (letter : UInt8) : List Bytes :=
  if letter ∈ ascii "diouxX" then ["", "hh", "h", "l", "ll", "j", "z", "t"].map ascii
  else if letter ∈ ascii "fFeEgGaA" then ["", "l", "L"].map ascii
  else [[]]

/-- A conversion: a percent sign, modifiers in their order, and a letter they go with. -/
structure Conversion where
  mods : Bytes
  letter : UInt8
  isModifier_mods : ∀ c ∈ mods, isModifier c = true
  letter_mem : letter ∈ letters
  length_mem : (templateOf mods).length ∈ lengthsOf letter
  deriving DecidableEq

/-- What a format consists of. -/
inductive Piece
  | literal (c : UInt8)
  | percent
  | errno
  | conversion (c : Conversion)
  deriving DecidableEq

/-- The token for what stands behind a percent sign: the modifiers and the byte that is none. -/
def pieceOf (mods : Bytes) (c : UInt8) : Option Piece :=
  if mods = [] ∧ c = ch '%' then some .percent
  else if mods = [] ∧ c = ch 'm' then some .errno
  else if h : mods.all isModifier = true ∧ c ∈ letters ∧ (templateOf mods).length ∈ lengthsOf c then
    some (.conversion ⟨mods, c, List.all_eq_true.mp h.1, h.2.1, h.2.2⟩)
  else none

/-- The tokens of a format, where `some mods` says that a percent sign and these modifiers were read. -/
def tokenizeFrom : Option Bytes → Bytes → Option (List Piece)
  | none, [] => some []
  | some _, [] => none
  | none, c :: s =>
    if c = ch '%' then tokenizeFrom (some []) s else (tokenizeFrom none s).map (.literal c :: ·)
  | some mods, c :: s =>
    if isModifier c then tokenizeFrom (some (mods ++ [c])) s
    else (pieceOf mods c).bind fun t => (tokenizeFrom none s).map (t :: ·)

/-- The tokens of a format. -/
def tokenize (format : Bytes) : Option (List Piece) := tokenizeFrom none format

/-- The format a token was read from. -/
def Piece.source : Piece → Bytes
  | .literal c => [c]
  | .percent => ascii "%%"
  | .errno => ascii "%m"
  | .conversion c => ch '%' :: (c.mods ++ [c.letter])

/-! ### Arguments and what is printed for them -/

/-- A floating-point number; the finite ones are of any type. -/
inductive Real (F : Type)
  | nan (negative : Bool)
  | inf (negative : Bool)
  | finite (x : F)

inductive Arg (F : Type)
  | int (v : ℤ)
  | real (x : Real F)
  | str (s : Bytes)
  | ptr (p : ℕ)

/-- The flags, the width and the precision a conversion is printed with. -/
structure Layout where
  left : Bool
  plus : Bool
  space : Bool
  alternate : Bool
  zero : Bool
  width : ℕ
  precision : Option ℕ

variable {F : Type}

/-- A size, where a `*` takes an `int` from the arguments. -/
def Size.read : Size → List (Arg F) → Option (Option ℤ × List (Arg F))
  | .absent, args => some (none, args)
  | .given n, args => some (some n, args)
  | .star, .int v :: args => some (some (v.bmod (2 ^ 32)), args)
  | .star, _ => none

/-- A negative width is a `-` flag with a width; a negative precision is none. -/
def Template.layout (t : Template) (width precision : Option ℤ) : Layout where
  left := ch '-' ∈ t.flags ∨ width.getD 0 < 0
  plus := ch '+' ∈ t.flags
  space := ch ' ' ∈ t.flags
  alternate := ch '#' ∈ t.flags
  zero := ch '0' ∈ t.flags
  width := (width.getD 0).natAbs
  precision := precision.bind fun p => if p < 0 then none else some p.toNat

def Layout.pad (l : Layout) (text : Bytes) : Bytes :=
  let spaces := List.replicate (l.width - text.length) (ch ' ')
  if l.left then text ++ spaces else spaces ++ text

/-- What stands in front of a number. -/
def Layout.sign (l : Layout) (negative : Bool) : Bytes :=
  if negative then [ch '-'] else if l.plus then [ch '+'] else if l.space then [ch ' '] else []

/-- The digits of a number, as many as the precision asks for. -/
def Layout.digits (l : Layout) (base v : ℕ) : Bytes :=
  let digits := if v = 0 ∧ l.precision = some 0 then [] else (Nat.toDigits base v).map ch
  List.replicate (l.precision.getD 0 - digits.length) (ch '0') ++ digits

/-- Digits with what stands in front of them. Zeros fill the field up if there is no precision. -/
def Layout.number (l : Layout) (sign digits : Bytes) : Bytes :=
  let zeros := if l.zero && !l.left && l.precision.isNone then l.width - (sign.length + digits.length) else 0
  l.pad (sign ++ List.replicate zeros (ch '0') ++ digits)

def toUpper (c : UInt8) : UInt8 := if ch 'a' ≤ c ∧ c ≤ ch 'z' then c - 32 else c

def isUpper (c : UInt8) : Bool := ch 'A' ≤ c ∧ c ≤ ch 'Z'

/-- The number of bits of an integer argument. -/
def bits (length : Bytes) : ℕ :=
  if length = ascii "hh" then 8 else if length = ascii "h" then 16 else if length = [] then 32 else 64

/-- `%d` and `%i`. -/
def Layout.signed (l : Layout) (v : ℤ) : Bytes := l.number (l.sign (decide (v < 0))) (l.digits 10 v.natAbs)

/-- The digits of `%o`, `%u`, `%x` and `%X`. An octal number may have to start with a `0`. -/
def Layout.unsignedDigits (l : Layout) (letter : UInt8) (v : ℕ) : Bytes :=
  if letter = ch 'u' then l.digits 10 v
  else if letter = ch 'o' then
    if l.alternate ∧ (l.digits 8 v).head? ≠ some (ch '0') then ch '0' :: l.digits 8 v else l.digits 8 v
  else if letter = ch 'x' then l.digits 16 v
  else (l.digits 16 v).map toUpper

/-- What stands in front of them. -/
def Layout.baseMark (l : Layout) (letter : UInt8) (v : ℕ) : Bytes :=
  if l.alternate ∧ v ≠ 0 ∧ letter ∈ ascii "xX" then [ch '0', letter] else []

def Layout.unsigned (l : Layout) (letter : UInt8) (v : ℕ) : Bytes :=
  l.number (l.baseMark letter v) (l.unsignedDigits letter v)

/-- A number that has no digits, with a `real` that prints the finite ones. -/
def Layout.real (l : Layout) (real : Layout → UInt8 → F → Bytes) (letter : UInt8) : Real F → Bytes
  | .nan negative => l.pad (l.sign negative ++ if isUpper letter then ascii "NAN" else ascii "nan")
  | .inf negative => l.pad (l.sign negative ++ if isUpper letter then ascii "INF" else ascii "inf")
  | .finite x => real l letter x

/-- What a conversion prints for an argument, which must have the type it asks for. -/
def printArg (real : Layout → UInt8 → F → Bytes) (letter : UInt8) (length : Bytes) (l : Layout) :
    Arg F → Option Bytes
  | .int v =>
    if letter ∈ ascii "di" then some (l.signed (v.bmod (2 ^ bits length)))
    else if letter ∈ ascii "ouxX" then some (l.unsigned letter (v % 2 ^ bits length).toNat)
    else if letter = ch 'c' then some (l.pad [UInt8.ofNat (v % 256).toNat])
    else none
  | .real x => if letter ∈ ascii "fFeEgGaA" then some (l.real real letter x) else none
  | .str s =>
    if letter = ch 's' then some (l.pad (match l.precision with | none => s | some p => s.take p)) else none
  | .ptr p =>
    if letter = ch 'p' then
      some (if p = 0 then l.pad (ascii "(nil)") else Layout.unsigned { l with alternate := true } (ch 'x') p)
    else none

/-- What a conversion prints, and the arguments it leaves. -/
def Conversion.print (real : Layout → UInt8 → F → Bytes) (c : Conversion) (args : List (Arg F)) :
    Option (Bytes × List (Arg F)) := do
  let t := templateOf c.mods
  let (width, args) ← t.width.read args
  let (precision, args) ← t.precision.read args
  match args with
  | [] => none
  | arg :: args => (printArg real c.letter t.length (t.layout width precision) arg).map (·, args)

/-- The text for the tokens of a format, if `%m` prints `errText`. Arguments that are left are ignored. -/
def expand (real : Layout → UInt8 → F → Bytes) (errText : Option Bytes) :
    List Piece → List (Arg F) → Option Bytes
  | [], _ => some []
  | .literal c :: ts, args => (expand real errText ts args).map (c :: ·)
  | .percent :: ts, args => (expand real errText ts args).map (ch '%' :: ·)
  | .errno :: ts, args => errText.bind fun e => (expand real errText ts args).map (e ++ ·)
  | .conversion c :: ts, args =>
    (c.print real args).bind fun r => (expand real errText ts r.2).map (r.1 ++ ·)

/-- What `vsnprintf()` prints, before it is cut off. -/
def vprintf (real : Layout → UInt8 → F → Bytes) (format : Bytes) (args : List (Arg F)) : Option Bytes :=
  (tokenize format).bind fun ts => expand real none ts args

/-! ### Reading a format -/

theorem isModifier_of_mem_letters : ∀ c ∈ letters, isModifier c = false := by decide +kernel

theorem ne_percent_of_isModifier {c : UInt8} (h : isModifier c = true) : c ≠ ch '%' := by
  rintro rfl
  exact absurd h (by decide)

theorem ne_percent_of_mem_letters : ∀ c ∈ letters, c ≠ ch '%' := by decide +kernel

theorem ne_m_of_mem_letters : ∀ c ∈ letters, c ≠ ch 'm' := by decide +kernel

/-- The token is what the modifiers and the byte are the source of. -/
theorem source_pieceOf {mods : Bytes} {c : UInt8} {t : Piece} (h : pieceOf mods c = some t) :
    t.source = ch '%' :: (mods ++ [c]) := by
  unfold pieceOf at h
  split_ifs at h with h1 h2 h3
  · obtain ⟨rfl, rfl⟩ := h1
    rw [← Option.some.inj h]
    decide
  · obtain ⟨rfl, rfl⟩ := h2
    rw [← Option.some.inj h]
    decide
  · rw [← Option.some.inj h]
    rfl

theorem pieceOf_ne_literal {mods : Bytes} {c d : UInt8} : pieceOf mods c ≠ some (.literal d) := by
  unfold pieceOf
  split_ifs <;> simp

theorem pieceOf_conversion (c : Conversion) : pieceOf c.mods c.letter = some (.conversion c) := by
  rw [pieceOf, if_neg fun h => ne_percent_of_mem_letters _ c.letter_mem h.2,
    if_neg fun h => ne_m_of_mem_letters _ c.letter_mem h.2,
    dif_pos ⟨List.all_eq_true.mpr c.isModifier_mods, c.letter_mem, c.length_mem⟩]

/-- A percent sign behind a percent sign and modifiers: there are none, and the two are `%%`. -/
theorem pieceOf_percent {mods : Bytes} {t : Piece} (h : pieceOf mods (ch '%') = some t) :
    mods = [] ∧ t = .percent := by
  unfold pieceOf at h
  split_ifs at h with h1 h2 h3
  · exact ⟨h1.1, (Option.some.inj h).symm⟩
  · exact absurd h2.2 (by decide)
  · exact absurd rfl (ne_percent_of_mem_letters _ h3.2.1)

/-- No other byte makes a `%%`. -/
theorem ne_percent_of_pieceOf {mods : Bytes} {c : UInt8} {t : Piece} (hc : c ≠ ch '%') (h : pieceOf mods c = some t) :
    t ≠ .percent := by
  rintro rfl
  have hsource := source_pieceOf h
  have hlast := congrArg (fun s => s.getLast?) hsource
  rw [show ch '%' :: (mods ++ [c]) = (ch '%' :: mods) ++ [c] from rfl, List.getLast?_append] at hlast
  exact hc (Option.some.inj hlast).symm

/-- What a scan has read of the token it is in. -/
def begun : Option Bytes → Bytes
  | none => []
  | some mods => ch '%' :: mods

theorem source_tokenizeFrom {state : Option Bytes} {s : Bytes} {ts : List Piece} (h : tokenizeFrom state s = some ts) :
    ts.flatMap Piece.source = begun state ++ s := by
  fun_induction tokenizeFrom state s generalizing ts with
  | case1 => rw [← Option.some.inj h]; rfl
  | case2 => cases h
  | case3 s ih => exact ih h
  | case4 c s hc ih =>
    obtain ⟨rest, hrest, rfl⟩ := Option.map_eq_some_iff.mp h
    rw [List.flatMap_cons, ih hrest]
    rfl
  | case5 mods c s hc ih =>
    rw [ih h]
    simp [begun]
  | case6 mods c s hc ih =>
    obtain ⟨t, ht, hmap⟩ := Option.bind_eq_some_iff.mp h
    obtain ⟨rest, hrest, rfl⟩ := Option.map_eq_some_iff.mp hmap
    rw [List.flatMap_cons, ih hrest, source_pieceOf ht]
    simp [begun]

/-- The tokens of a format are those it is the source of. -/
theorem source_tokenize {format : Bytes} {ts : List Piece} (h : tokenize format = some ts) :
    ts.flatMap Piece.source = format := source_tokenizeFrom h

/-- No byte that stands for itself is a percent sign. -/
def Piece.Proper : Piece → Prop
  | .literal c => c ≠ ch '%'
  | _ => True

theorem proper_tokenizeFrom {state : Option Bytes} {s : Bytes} {ts : List Piece} (h : tokenizeFrom state s = some ts) :
    ∀ t ∈ ts, t.Proper := by
  fun_induction tokenizeFrom state s generalizing ts with
  | case1 => rw [← Option.some.inj h]; exact fun _ ht => absurd ht List.not_mem_nil
  | case2 => cases h
  | case3 s ih => exact ih h
  | case4 c s hc ih =>
    obtain ⟨rest, hrest, rfl⟩ := Option.map_eq_some_iff.mp h
    exact List.forall_mem_cons.mpr ⟨hc, ih hrest⟩
  | case5 mods c s hc ih => exact ih h
  | case6 mods c s hc ih =>
    obtain ⟨t, ht, hmap⟩ := Option.bind_eq_some_iff.mp h
    obtain ⟨rest, hrest, rfl⟩ := Option.map_eq_some_iff.mp hmap
    refine List.forall_mem_cons.mpr ⟨?_, ih hrest⟩
    cases t with
    | literal d => exact absurd ht pieceOf_ne_literal
    | percent => trivial
    | errno => trivial
    | conversion c => trivial

theorem tokenizeFrom_mods {mods : Bytes} (h : ∀ c ∈ mods, isModifier c = true) (read s : Bytes) :
    tokenizeFrom (some read) (mods ++ s) = tokenizeFrom (some (read ++ mods)) s := by
  induction mods generalizing read with
  | nil => rw [List.append_nil, List.nil_append]
  | cons c mods ih =>
    obtain ⟨hc, hmods⟩ := List.forall_mem_cons.mp h
    rw [List.cons_append, tokenizeFrom, if_pos hc, ih hmods, List.append_assoc]
    rfl

theorem tokenizeFrom_literals {text : Bytes} (h : ch '%' ∉ text) (s : Bytes) :
    tokenizeFrom none (text ++ s) = (tokenizeFrom none s).map (text.map Piece.literal ++ ·) := by
  induction text with
  | nil => simp
  | cons c text ih =>
    rw [List.mem_cons, not_or] at h
    rw [List.cons_append, tokenizeFrom, if_neg (Ne.symm h.1), ih h.2, Option.map_map]
    rfl

theorem tokenizeFrom_conversion (c : Conversion) (s : Bytes) :
    tokenizeFrom none (ch '%' :: (c.mods ++ [c.letter]) ++ s) =
      (tokenizeFrom none s).map (.conversion c :: ·) := by
  have hletter : ¬ isModifier c.letter = true := by
    rw [isModifier_of_mem_letters _ c.letter_mem]
    decide
  rw [List.cons_append, tokenizeFrom, if_pos rfl, List.append_assoc, tokenizeFrom_mods c.isModifier_mods,
    List.nil_append, List.singleton_append, tokenizeFrom, if_neg hletter, pieceOf_conversion, Option.bind_some]

end Posix.Printf
