/-
# The configuration of the client

`src/client/conf.c`: the variables, and `parse_conf_file()`, which goes over the lines of the file.
A line is a key, a `=` and a value; the value is copied into a buffer of 2048 bytes, without its
quotes and escapes. A call of `die()` ends the program, so the first bad line decides.
-/
import NscaNg.Common.Util
import NscaNg.Posix.Integer
import NscaNg.Client.ConfLine

namespace NscaNg.Client

open Posix

/-- The `union` of a `conf`, with its type. -/
inductive Value where
  | string (s : Option Bytes)
  | integer (i : ℤ)
  deriving DecidableEq

structure Conf where
  key : Bytes
  value : Value
  deriving DecidableEq

/-- `lookup_conf()`. -/
def lookupConf (cfg : List Conf) (key : Bytes) : Except Bytes Conf :=
  match cfg.find? (·.key = key) with
  | none => .error (ascii "Unknown variable `" ++ key ++ ascii "'")
  | some c => .ok c

/-- The array with another value for a variable. -/
def assign (key : Bytes) (value : Value) : List Conf → List Conf
  | [] => []
  | c :: cfg => if c.key = key then ⟨c.key, value⟩ :: cfg else c :: assign key value cfg

/-- `conf_setstr()`. -/
def confSetStr (cfg : List Conf) (key value : Bytes) : Except Bytes (List Conf) :=
  (lookupConf cfg key).map fun c => assign c.key (.string (some value)) cfg

/-- `conf_setint()`. -/
def confSetInt (cfg : List Conf) (key : Bytes) (value : ℤ) : Except Bytes (List Conf) :=
  (lookupConf cfg key).map fun c => assign c.key (.integer value) cfg

/-- The array of `conf_init()` with the default settings. -/
def confDefaults : List Conf :=
  [⟨ascii "delay", .integer 0⟩,
    ⟨ascii "encryption_method", .string none⟩,
    ⟨ascii "identity", .string none⟩,
    ⟨ascii "password", .string (some (ascii "change-me"))⟩,
    ⟨ascii "port", .string (some (ascii "5668"))⟩,
    ⟨ascii "server", .string (some (ascii "localhost"))⟩,
    ⟨ascii "timeout", .integer 15⟩,
    ⟨ascii "tls_ciphers", .string (some (ascii "PSK-AES256-CBC-SHA:PSK-AES128-CBC-SHA:PSK-3DES-EDE-CBC-SHA:PSK-RC4-SHA"))⟩]

/-! ### A line -/

/-- The loop that copies the value, with the escape flag: the value, and what stands from `in` on
behind it, or `none` if the value is too long. -/
def copyValue (quoteSign : UInt8) : Bool → Bytes → Bytes → Option (Bytes × Bytes)
  | _, value, [] => some (value, [])
  | escape, value, c :: input =>
    if 2047 ≤ value.length then none
    else if escape then copyValue quoteSign false (value ++ [c]) input
    else if c = quoteSign ∨ quoteSign = 0 ∧ (c = ch '#' ∨ c = ch ' ' ∨ c = ch '\t') then some (value, input)
    else if c = ch '\\' then copyValue quoteSign true value input
    else copyValue quoteSign false (value ++ [c]) input

/-- Nothing but a comment. -/
def Ends (token : Bytes) : Prop := token = [] ∨ token.head? = some (ch '#')

instance (token : Bytes) : Decidable (Ends token) := inferInstanceAs (Decidable (_ ∨ _))

/-- A character of a key, for `strcspn()`. -/
def isKeyChar (c : UInt8) : Bool := c ≠ ch ' ' ∧ c ≠ ch '\t' ∧ c ≠ ch '='

/-- `%.*s` with the length as an `int`; with a negative one, it is the whole string. -/
def firstOf (length : ℕ) (string : Bytes) : Bytes :=
  if toInt length < 0 then string else string.take (toInt length).toNat

section

variable (located : Bytes → Bytes) (cfg : List Conf)

/-- The value is saved. -/
def saveValue (c : Conf) (value : Bytes) : Except Bytes (List Conf) :=
  match c.value with
  | .string _ => confSetStr cfg c.key value
  | .integer _ =>
    if (strtolEnd value).2 ≠ [] then
      .error (located (ascii "Nonnumeric value assigned to `" ++ c.key ++ ascii "'"))
    else confSetInt cfg c.key (strtolEnd value).1

/-- The end of the line is checked. -/
def checkEnd (c : Conf) : Option (Bytes × Bytes) → Except Bytes (List Conf)
  | none => .error (located (ascii "Value of `" ++ c.key ++ ascii "' is too long"))
  | some (value, input) =>
    if Ends (skipWhitespace input) then saveValue located cfg c value
    else .error (located (ascii "Unexpected stuff after `" ++ value ++ ascii "'"))

/-- The value is parsed. -/
def parseValue (c : Conf) : Bytes → Except Bytes (List Conf)
  | [] => .error (located (ascii "No value assigned to `" ++ c.key ++ ascii "'"))
  | q :: token =>
    if q = ch '#' then .error (located (ascii "No value assigned to `" ++ c.key ++ ascii "'"))
    else if q = ch '"' ∨ q = ch '\'' then checkEnd located cfg c (copyValue q false [] token)
    else checkEnd located cfg c (copyValue 0 false [] (q :: token))

/-- The `=` is eaten. -/
def eatEquals (c : Conf) (token : Bytes) : Except Bytes (List Conf) :=
  if token.head? ≠ some (ch '=') then
    .error (located (ascii "Expected `=' after `" ++ c.key ++ ascii "'"))
  else parseValue located cfg c (skipWhitespace token.tail)

/-- The key is parsed. -/
def parseKey (token : Bytes) : Except Bytes (List Conf) :=
  let key := token.takeWhile isKeyChar
  if key = [] then .error (located (ascii "Cannot parse line"))
  else
    match cfg.find? (·.key = key) with
    | none =>
      .error (located (ascii "Unknown variable name `" ++ firstOf key.length token ++ ascii "'"))
    | some c => eatEquals located cfg c (skipWhitespace (token.drop key.length))

/-- The body of the loop of `parse_conf_file()`. -/
def parseLine (line : Bytes) : Except Bytes (List Conf) :=
  if Ends (skipWhitespace line) then .ok cfg else parseKey located cfg (skipWhitespace line)

end

/-! ### The file -/

/-- How the program stops: with a message, or by reading a line beyond its block. -/
inductive Stop where
  | died (message : Bytes)
  | overread
  deriving DecidableEq

/-- `%s:%lu: ` in front of an error message. -/
def located (path : Bytes) (lineNumber : ℕ) (message : Bytes) : Bytes :=
  path ++ ascii ":" ++ decimal lineNumber ++ ascii ": " ++ message

/-- The program stops at a line, or goes on with what the settings are then. -/
def afterLine (next : List Conf → Except Stop (List Conf)) : Except Bytes (List Conf) → Except Stop (List Conf)
  | .error message => .error (.died message)
  | .ok cfg => next cfg

/-- The loop of `parse_conf_file()` over the lines that are returned, each with the line number
then. -/
def parseLines (path : Bytes) : List (Bytes × ℕ) → List Conf → Except Stop (List Conf)
  | [], cfg => .ok cfg
  | (block, lineNumber) :: lines, cfg =>
    if 0 ∉ block then .error .overread
    else afterLine (parseLines path lines) (parseLine (located path lineNumber) cfg (cstr block))

/-- The loop of `parse_conf_file()` from a point of the file on. -/
def parseFrom (path : Bytes) (f : ConfFile) (cfg : List Conf) : Except Stop (List Conf) :=
  parseLines path (readConfLines (f.file.length + 1) f) cfg

/-- `parse_conf_file()` for a file with this content. -/
def parseConfFile (path content : Bytes) (cfg : List Conf) : Except Stop (List Conf) :=
  parseFrom path ⟨content, 0⟩ cfg

example : parseConfFile (ascii "f") (ascii "port = '1\\' #' # x\n\ntimeout=0x10") confDefaults =
    .ok ((confDefaults.set 4 ⟨ascii "port", .string (some (ascii "1' #"))⟩).set 6 ⟨ascii "timeout", .integer 16⟩) := by
  decide

/-! ### The variables -/

/-- Whether the type is that of a string. -/
def Value.isString : Value → Bool
  | .string _ => true
  | .integer _ => false

/-- A variable, with whether it is a string. -/
def Conf.kind (c : Conf) : Bytes × Bool := (c.key, c.value.isString)

/-- The array has the variables it was made with, each with its type. -/
def Layout (cfg : List Conf) : Prop := cfg.map Conf.kind = confDefaults.map Conf.kind

theorem find?_kind (key : Bytes) (cfg : List Conf) :
    (cfg.find? (·.key = key)).map Conf.kind = (cfg.map Conf.kind).find? (·.1 = key) := by
  rw [List.find?_map]
  rfl

/-- A variable of the client is in the array, with its type. -/
theorem Layout.find {cfg : List Conf} (h : Layout cfg) {kind : Bytes × Bool} (hkind : kind ∈ confDefaults.map Conf.kind) :
    ∃ c, cfg.find? (·.key = kind.1) = some c ∧ c.kind = kind := by
  have hall : ∀ k ∈ confDefaults.map Conf.kind, (confDefaults.map Conf.kind).find? (·.1 = k.1) = some k := by decide
  have hfind := find?_kind kind.1 cfg
  rw [show cfg.map Conf.kind = confDefaults.map Conf.kind from h, hall kind hkind] at hfind
  exact Option.map_eq_some_iff.mp hfind

theorem find?_assign {cfg : List Conf} {key : Bytes} {c : Conf} (h : cfg.find? (·.key = key) = some c) (value : Value) :
    (assign key value cfg).find? (·.key = key) = some ⟨key, value⟩ := by
  induction cfg with
  | nil => cases h
  | cons d cfg ih =>
    rw [assign]
    by_cases hd : d.key = key
    · rw [if_pos hd, List.find?_cons_of_pos (by simpa using hd), hd]
    · rw [List.find?_cons_of_neg (by simpa using hd)] at h
      rw [if_neg hd, List.find?_cons_of_neg (by simpa using hd), ih h]

theorem kinds_assign {cfg : List Conf} {key : Bytes} {c : Conf} (h : cfg.find? (·.key = key) = some c) {value : Value}
    (hvalue : value.isString = c.value.isString) : (assign key value cfg).map Conf.kind = cfg.map Conf.kind := by
  induction cfg with
  | nil => cases h
  | cons d cfg ih =>
    rw [assign]
    by_cases hd : d.key = key
    · rw [List.find?_cons_of_pos (by simpa using hd), Option.some.injEq] at h
      subst h
      rw [if_pos hd, List.map_cons, List.map_cons, Conf.kind, hvalue]
      rfl
    · rw [List.find?_cons_of_neg (by simpa using hd)] at h
      rw [if_neg hd, List.map_cons, List.map_cons, ih h]

section

variable {cfg cfg' : List Conf} {c : Conf} {located : Bytes → Bytes}

/-- The value that is saved for a variable of the array. -/
theorem saveValue_of_find {key : Bytes} (h : cfg.find? (·.key = key) = some c) (value : Bytes) :
    saveValue located cfg c value =
      match c.value with
      | .string _ => .ok (assign key (.string (some value)) cfg)
      | .integer _ =>
        if (strtolEnd value).2 ≠ [] then
          .error (located (ascii "Nonnumeric value assigned to `" ++ key ++ ascii "'"))
        else .ok (assign key (.integer (strtolEnd value).1) cfg) := by
  have hkey : c.key = key := by simpa using List.find?_some h
  unfold saveValue confSetStr confSetInt lookupConf
  rw [hkey, h]
  cases c.value with
  | string s => simp only [Except.map, hkey]
  | integer i => simp only [Except.map, hkey]

theorem kinds_saveValue {key : Bytes} (h : cfg.find? (·.key = key) = some c) {value : Bytes}
    (hok : saveValue located cfg c value = .ok cfg') : cfg'.map Conf.kind = cfg.map Conf.kind := by
  rw [saveValue_of_find h] at hok
  cases hval : c.value with
  | string s =>
    rw [hval] at hok
    rw [← Except.ok.inj hok]
    exact kinds_assign h (by rw [hval]; rfl)
  | integer i =>
    rw [hval] at hok
    simp only at hok
    by_cases hnum : (strtolEnd value).2 ≠ []
    · rw [if_pos hnum] at hok
      cases hok
    · rw [if_neg hnum] at hok
      rw [← Except.ok.inj hok]
      exact kinds_assign h (by rw [hval]; rfl)

theorem kinds_checkEnd {key : Bytes} (h : cfg.find? (·.key = key) = some c) {copied : Option (Bytes × Bytes)}
    (hok : checkEnd located cfg c copied = .ok cfg') : cfg'.map Conf.kind = cfg.map Conf.kind := by
  cases copied with
  | none => cases hok
  | some p =>
    rw [checkEnd] at hok
    by_cases hend : Ends (skipWhitespace p.2)
    · rw [if_pos hend] at hok
      exact kinds_saveValue h hok
    · rw [if_neg hend] at hok
      cases hok

/-- A line leaves the variables and their types as they are. -/
theorem kinds_parseLine {line : Bytes} (hok : parseLine located cfg line = .ok cfg') :
    cfg'.map Conf.kind = cfg.map Conf.kind := by
  unfold parseLine at hok
  by_cases hend : Ends (skipWhitespace line)
  · rw [if_pos hend] at hok
    rw [Except.ok.inj hok]
  · rw [if_neg hend] at hok
    generalize skipWhitespace line = token at hok
    unfold parseKey at hok
    simp only at hok
    split at hok
    · cases hok
    · split at hok
      · cases hok
      · rename_i c h
        unfold eatEquals at hok
        split at hok
        · cases hok
        · generalize skipWhitespace (List.tail _) = value at hok
          cases value with
          | nil => cases hok
          | cons q token =>
            rw [parseValue] at hok
            split at hok
            · cases hok
            · split at hok
              · exact kinds_checkEnd h hok
              · exact kinds_checkEnd h hok

end

/-! ### Whether a line is accepted -/

section

variable {cfg cfg' : List Conf} {c c' : Conf}

/-- The value is accepted or not, whatever the settings were. -/
theorem isOk_saveValue {key : Bytes} (h : cfg.find? (·.key = key) = some c) (h' : cfg'.find? (·.key = key) = some c')
    (hkind : c.kind = c'.kind) (located located' : Bytes → Bytes) (value : Bytes) :
    (saveValue located cfg c value).isOk = (saveValue located' cfg' c' value).isOk := by
  have hstring : c.value.isString = c'.value.isString := congrArg Prod.snd hkind
  rw [saveValue_of_find h, saveValue_of_find h']
  cases hc : c.value with
  | string s =>
    cases hc' : c'.value with
    | string s' => rfl
    | integer i' => simp [hc, hc', Value.isString] at hstring
  | integer i =>
    cases hc' : c'.value with
    | string s' => simp [hc, hc', Value.isString] at hstring
    | integer i' => dsimp only; split <;> rfl

theorem isOk_checkEnd {key : Bytes} (h : cfg.find? (·.key = key) = some c) (h' : cfg'.find? (·.key = key) = some c')
    (hkind : c.kind = c'.kind) (located located' : Bytes → Bytes) (copied : Option (Bytes × Bytes)) :
    (checkEnd located cfg c copied).isOk = (checkEnd located' cfg' c' copied).isOk := by
  cases copied with
  | none => rfl
  | some p =>
    rw [checkEnd, checkEnd]
    split
    · exact isOk_saveValue h h' hkind located located' p.1
    · rfl

theorem isOk_parseValue {key : Bytes} (h : cfg.find? (·.key = key) = some c) (h' : cfg'.find? (·.key = key) = some c')
    (hkind : c.kind = c'.kind) (located located' : Bytes → Bytes) (token : Bytes) :
    (parseValue located cfg c token).isOk = (parseValue located' cfg' c' token).isOk := by
  cases token with
  | nil => rfl
  | cons q token =>
    rw [parseValue, parseValue]
    split
    · rfl
    · split
      · exact isOk_checkEnd h h' hkind located located' _
      · exact isOk_checkEnd h h' hkind located located' _

/-- **Accepted lines.** Whether the program dies on a line depends on the variables and their types only, and not on
the settings. -/
theorem isOk_parseLine (hkinds : cfg.map Conf.kind = cfg'.map Conf.kind) (located located' : Bytes → Bytes)
    (line : Bytes) : (parseLine located cfg line).isOk = (parseLine located' cfg' line).isOk := by
  unfold parseLine
  split
  · rfl
  · generalize skipWhitespace line = token
    unfold parseKey
    simp only
    split
    · rfl
    · generalize token.takeWhile isKeyChar = key
      have hfind : (cfg.find? (·.key = key)).map Conf.kind = (cfg'.find? (·.key = key)).map Conf.kind := by
        rw [find?_kind, find?_kind, hkinds]
      cases h : cfg.find? (·.key = key) with
      | none =>
        rw [h, Option.map_none, eq_comm, Option.map_eq_none_iff] at hfind
        rw [hfind]
        rfl
      | some c =>
        rw [h, Option.map_some, eq_comm, Option.map_eq_some_iff] at hfind
        obtain ⟨c', h', hkind⟩ := hfind
        rw [h']
        dsimp only [eatEquals]
        split
        · rfl
        · exact isOk_parseValue h h' hkind.symm located located' _

end

end NscaNg.Client
