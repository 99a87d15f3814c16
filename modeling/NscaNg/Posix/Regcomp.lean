/-
# Compiling extended regular expressions

`regcomp` with `REG_EXTENDED`, for the POSIX locale: the text is read byte by byte, a lexer
(`lex`) makes tokens of it and `reduce` puts them together on a stack of open groups, where
alternation binds weakest and a duplication symbol applies to the piece before it. A text that
POSIX leaves undefined is refused, as a duplication symbol with no piece before it, an escaped
ordinary character or an unmatched parenthesis; an empty alternative is taken to match the empty
text.

A compiled expression is the list of its top-level alternatives, each the list of its pieces
(`Regex`). The main result is that compiling is a homomorphism: if two texts compile on their
own, what they compile to when one is written after the other is `glue`, which joins the last
alternative of the first to the first alternative of the second (`regcomp_append`). The
alternatives further in are joined to nothing, and that is what becomes of text that is put
around a pattern.
-/
import NscaNg.Posix.Ere

namespace Posix

/-- A compiled expression: its top-level alternatives. -/
abbrev Regex := List (List Ere)

/-- The largest bound of an interval, `RE_DUP_MAX`. -/
def dupMax : ℕ := 255

inductive Token
  | piece (r : Ere)
  | dup (lo : ℕ) (hi : Option ℕ)
  | open
  | close
  | bar

/-! ### Bracket expressions -/

/-- The ranges of a character class in the POSIX locale. -/
def classRanges (name : Bytes) : Option (List (UInt8 × UInt8)) :=
  if name = ascii "alpha" then some [(ch 'A', ch 'Z'), (ch 'a', ch 'z')]
  else if name = ascii "digit" then some [(ch '0', ch '9')]
  else if name = ascii "alnum" then some [(ch '0', ch '9'), (ch 'A', ch 'Z'), (ch 'a', ch 'z')]
  else if name = ascii "upper" then some [(ch 'A', ch 'Z')]
  else if name = ascii "lower" then some [(ch 'a', ch 'z')]
  else if name = ascii "space" then some [(9, 13), (32, 32)]
  else if name = ascii "blank" then some [(9, 9), (32, 32)]
  else if name = ascii "punct" then some [(33, 47), (58, 64), (91, 96), (123, 126)]
  else if name = ascii "print" then some [(32, 126)]
  else if name = ascii "graph" then some [(33, 126)]
  else if name = ascii "cntrl" then some [(0, 31), (127, 127)]
  else if name = ascii "xdigit" then some [(ch '0', ch '9'), (ch 'A', ch 'F'), (ch 'a', ch 'f')]
  else none

/-- What stands before the next `d` followed by `]`, and what follows. -/
def untilClose (d : UInt8) : Bytes → Option (Bytes × Bytes)
  | x :: y :: s =>
    if x = d ∧ y = ch ']' then some ([], s)
    else (untilClose d (y :: s)).map fun r => (x :: r.1, r.2)
  | _ => none

/-- One end of a range: a byte, or a collating symbol of one byte. -/
def rangeEnd : Bytes → Option (UInt8 × Bytes)
  | [] => none
  | [x] => some (x, [])
  | x :: d :: s =>
    if x = ch '[' ∧ (d = ch '.' ∨ d = ch '=') then
      match untilClose d s with
      | some ([c], rest) => some (c, rest)
      | _ => none
    else some (x, d :: s)

/-- The ranges of a bracket expression, the text between the brackets without a leading `^`. -/
def bracketItems : ℕ → Bytes → Option (List (UInt8 × UInt8))
  | _, [] => some []
  | 0, _ :: _ => none
  | fuel + 1, x :: s =>
    if x = ch '[' ∧ s.head? = some (ch ':') then
      match untilClose (ch ':') s.tail with
      | some (name, rest) => do
        let ranges ← classRanges name
        let items ← bracketItems fuel rest
        return ranges ++ items
      | none => none
    else do
      let (lo, rest) ← rangeEnd (x :: s)
      if rest.head? = some (ch '-') ∧ rest.tail ≠ [] then
        let (hi, rest') ← rangeEnd rest.tail
        if lo ≤ hi then
          let items ← bracketItems fuel rest'
          return (lo, hi) :: items
        else none
      else
        let items ← bracketItems fuel rest
        return (lo, lo) :: items

/-- A bracket expression from the text between its brackets. -/
def bracketExpr (content : Bytes) : Option Ere :=
  if content.head? = some (ch '^') then
    (bracketItems content.length content.tail).map (Ere.bracket true)
  else (bracketItems content.length content).map (Ere.bracket false)

/-! ### The lexer -/

/-- Where the lexer is between the brackets: after a `[`, inside `[: :]`, `[. .]` or `[= =]`, or
after the byte that may begin its end. -/
inductive Inner
  | plain
  | opened
  | inside (d : UInt8)
  | closing (d : UInt8)

inductive Mode
  | normal
  | escape
  | bracket (content : Bytes) (inner : Inner)
  | interval (lo : Option ℕ) (hi : Option (Option ℕ))

/-- The characters a backslash takes the special meaning from. -/
def special : Bytes := ascii "^.[$()|*+?\x7b\\"

/-- The next place between the brackets. -/
def Inner.next (i : Inner) (c : UInt8) : Inner :=
  match i with
  | .plain => if c = ch '[' then .opened else .plain
  | .opened =>
    if c = ch ':' ∨ c = ch '.' ∨ c = ch '=' then .inside c
    else if c = ch '[' then .opened else .plain
  | .inside d => if c = d then .closing d else .inside d
  | .closing d => if c = ch ']' then .plain else if c = d then .closing d else .inside d

/-- Whether a `]` ends the bracket expression here. -/
def Inner.ends (i : Inner) (content : Bytes) : Bool :=
  match i with
  | .plain => content ≠ [] ∧ content ≠ [ch '^']
  | .opened => true
  | .inside _ | .closing _ => false

/-- A decimal digit's value. -/
def digit? (c : UInt8) : Option ℕ :=
  if ch '0' ≤ c ∧ c ≤ ch '9' then some (c.toNat - 48) else none

def lexInterval (lo : Option ℕ) (hi : Option (Option ℕ)) (c : UInt8) : Option (Mode × Option Token) :=
  match digit? c with
  | some d =>
    match hi with
    | none => some (.interval (some (10 * lo.getD 0 + d)) none, none)
    | some n => some (.interval lo (some (some (10 * n.getD 0 + d))), none)
  | none =>
    match lo, hi with
    | none, _ => none
    | some m, none =>
      if c = ch ',' then some (.interval (some m) (some none), none)
      else if c = ch '}' ∧ m ≤ dupMax then some (.normal, some (.dup m (some m)))
      else none
    | some m, some none =>
      if c = ch '}' ∧ m ≤ dupMax then some (.normal, some (.dup m none)) else none
    | some m, some (some n) =>
      if c = ch '}' ∧ m ≤ n ∧ n ≤ dupMax then some (.normal, some (.dup m (some n))) else none

def lex : Mode → UInt8 → Option (Mode × Option Token)
  | .normal, c =>
    if c = ch '\\' then some (.escape, none)
    else if c = ch '[' then some (.bracket [] .plain, none)
    else if c = ch '{' then some (.interval none none, none)
    else if c = ch '(' then some (.normal, some .open)
    else if c = ch ')' then some (.normal, some .close)
    else if c = ch '|' then some (.normal, some .bar)
    else if c = ch '*' then some (.normal, some (.dup 0 none))
    else if c = ch '+' then some (.normal, some (.dup 1 none))
    else if c = ch '?' then some (.normal, some (.dup 0 (some 1)))
    else if c = ch '.' then some (.normal, some (.piece .any))
    else if c = ch '^' then some (.normal, some (.piece .bol))
    else if c = ch '$' then some (.normal, some (.piece .eol))
    else some (.normal, some (.piece (.chr c)))
  | .escape, c => if c ∈ special then some (.normal, some (.piece (.chr c))) else none
  | .bracket content inner, c =>
    if c = ch ']' ∧ inner.ends content then
      (bracketExpr content).map fun r => (.normal, some (.piece r))
    else some (.bracket (content ++ [c]) (inner.next c), none)
  | .interval lo hi, c => lexInterval lo hi c

/-! ### The parser -/

/-- An open group: the alternatives before the last `|`, and the pieces after it, last first. -/
structure Frame where
  alts : List (List Ere)
  cur : List Ere

def Frame.branches (f : Frame) : Regex := f.alts ++ [f.cur.reverse]

def Frame.push (f : Frame) (r : Ere) : Frame := { f with cur := r :: f.cur }

/-- A group as one piece. -/
def union : Regex → Ere
  | [] => .eps
  | [b] => seq b
  | b :: bs => .alt (seq b) (union bs)

/-- `r{lo,hi}`, `none` for no upper bound. -/
def Ere.rep (r : Ere) (lo : ℕ) (hi : Option ℕ) : Ere :=
  seq (List.replicate lo r ++
    match hi with
    | none => [.star r]
    | some n => List.replicate (n - lo) (.alt r .eps))

/-- One token, on the stack of open groups, the innermost first. -/
def reduce : List Frame → Token → Option (List Frame)
  | f :: fs, .piece r => some (f.push r :: fs)
  | ⟨alts, p :: ps⟩ :: fs, .dup lo hi =>
    if p = .bol ∨ p = .eol then none else some (⟨alts, p.rep lo hi :: ps⟩ :: fs)
  | f :: fs, .open => some (⟨[], []⟩ :: f :: fs)
  | f :: g :: fs, .close => some (g.push (union f.branches) :: fs)
  | f :: fs, .bar => some (⟨f.branches, []⟩ :: fs)
  | _, _ => none

structure Parser where
  stack : List Frame
  mode : Mode

def Parser.start : Parser := ⟨[⟨[], []⟩], .normal⟩

def Parser.step (p : Parser) (c : UInt8) : Option Parser :=
  match lex p.mode c with
  | none => none
  | some (mode, none) => some ⟨p.stack, mode⟩
  | some (mode, some token) => (reduce p.stack token).map (⟨·, mode⟩)

def Parser.run (p : Parser) (text : Bytes) : Option Parser := text.foldlM Parser.step p

/-- The text is over: no group, bracket expression, interval or escape may be open. -/
def Parser.finish : Parser → Option Regex
  | ⟨[f], .normal⟩ => some f.branches
  | _ => none

/-- `regcomp(re, text, REG_EXTENDED | REG_NOSUB)`, `none` for an error. -/
def regcomp (text : Bytes) : Option Regex := (Parser.start.run text).bind Parser.finish

/-- The compiled expression matches somewhere in the text. -/
def Regex.Search (re : Regex) (text : Bytes) : Prop := ∃ b ∈ re, (seq b).Search text

/-- The compiled expression matches the whole of the text. -/
def Regex.Full (re : Regex) (text : Bytes) : Prop := ∃ b ∈ re, (seq b).Full text

instance (re : Regex) (text : Bytes) : Decidable (re.Full text) :=
  inferInstanceAs (Decidable (∃ b ∈ re, (seq b).Full text))

/-- `regexec(re, text, 0, NULL, 0)`: whether there is a match. -/
def regexec (re : Regex) (text : Bytes) : Bool := re.any fun b => (seq b).search text

theorem regexec_iff {re : Regex} {text : Bytes} : regexec re text = true ↔ re.Search text := by
  simp only [regexec, List.any_eq_true, search_iff, Regex.Search]

/-! ### Concatenation -/

/-- The alternatives of one text written after another. -/
def glue : Regex → Regex → Regex
  | [], re => re
  | [b], [] => [b]
  | [b], c :: re => (b ++ c) :: re
  | b :: b' :: re, re' => b :: glue (b' :: re) re'

theorem glue_concat (bs : Regex) (b c : List Ere) (cs : Regex) :
    glue (bs ++ [b]) (c :: cs) = bs ++ (b ++ c) :: cs := by
  induction bs with
  | nil => rfl
  | cons b' bs ih =>
    cases bs with
    | nil => simp [glue]
    | cons b'' bs => simpa [glue] using ih

/-- The group at the bottom of the stack, begun with the groups of `base` instead of empty. -/
def Frame.shift (base : Frame) : Frame → Frame
  | ⟨[], cur⟩ => ⟨base.alts, cur ++ base.cur⟩
  | ⟨b :: bs, cur⟩ => ⟨base.alts ++ (base.cur.reverse ++ b) :: bs, cur⟩

theorem Frame.shift_push (base f : Frame) (r : Ere) : base.shift (f.push r) = (base.shift f).push r := by
  obtain ⟨_ | ⟨b, bs⟩, cur⟩ := f <;> rfl

theorem Frame.branches_shift (base f : Frame) :
    (base.shift f).branches = glue base.branches f.branches := by
  obtain ⟨_ | ⟨b, bs⟩, cur⟩ := f
  · simp [Frame.shift, Frame.branches, glue_concat]
  · simp [Frame.shift, Frame.branches, glue_concat]

theorem Frame.shift_bar (base f : Frame) :
    base.shift ⟨f.branches, []⟩ = ⟨(base.shift f).branches, []⟩ := by
  obtain ⟨_ | ⟨b, bs⟩, cur⟩ := f <;> simp [Frame.shift, Frame.branches]

/-- The stack on top of `base`. -/
def shiftBottom (base : Frame) : List Frame → List Frame
  | [] => []
  | [f] => [base.shift f]
  | f :: g :: fs => f :: shiftBottom base (g :: fs)

theorem reduce_shiftBottom (base : Frame) {fs fs' : List Frame} {t : Token} :
    reduce fs t = some fs' → reduce (shiftBottom base fs) t = some (shiftBottom base fs') := by
  intro h
  match fs, t with
  | [], .piece _ | [], .dup .. | [], .open | [], .close | [], .bar => simp [reduce] at h
  | [f], .piece r =>
    obtain rfl : [f.push r] = fs' := by simpa [reduce] using h
    simp [shiftBottom, reduce, Frame.shift_push]
  | f :: g :: fs, .piece r =>
    obtain rfl : f.push r :: g :: fs = fs' := by simpa [reduce] using h
    simp [shiftBottom, reduce]
  | ⟨_, []⟩ :: _, .dup .. => simp [reduce] at h
  | [⟨alts, p :: ps⟩], .dup lo hi =>
    obtain ⟨hp, rfl⟩ : ¬(p = .bol ∨ p = .eol) ∧ [⟨alts, p.rep lo hi :: ps⟩] = fs' := by
      simpa [reduce] using h
    cases alts <;> simp [shiftBottom, reduce, Frame.shift, hp]
  | ⟨alts, p :: ps⟩ :: g :: fs, .dup lo hi =>
    obtain ⟨hp, rfl⟩ : ¬(p = .bol ∨ p = .eol) ∧ ⟨alts, p.rep lo hi :: ps⟩ :: g :: fs = fs' := by
      simpa [reduce] using h
    simp [shiftBottom, reduce, hp]
  | [f], .open =>
    obtain rfl : [⟨[], []⟩, f] = fs' := by simpa [reduce] using h
    simp [shiftBottom, reduce]
  | f :: g :: fs, .open =>
    obtain rfl : ⟨[], []⟩ :: f :: g :: fs = fs' := by simpa [reduce] using h
    simp [shiftBottom, reduce]
  | [_], .close => simp [reduce] at h
  | [f, g], .close =>
    obtain rfl : [g.push (union f.branches)] = fs' := by simpa [reduce] using h
    simp [shiftBottom, reduce, Frame.shift_push]
  | f :: g :: g' :: fs, .close =>
    obtain rfl : g.push (union f.branches) :: g' :: fs = fs' := by simpa [reduce] using h
    simp [shiftBottom, reduce]
  | [f], .bar =>
    obtain rfl : [⟨f.branches, []⟩] = fs' := by simpa [reduce] using h
    simp [shiftBottom, reduce, Frame.shift_bar]
  | f :: g :: fs, .bar =>
    obtain rfl : ⟨f.branches, []⟩ :: g :: fs = fs' := by simpa [reduce] using h
    simp [shiftBottom, reduce]

theorem step_shiftBottom (base : Frame) {p p' : Parser} {c : UInt8} (h : p.step c = some p') :
    Parser.step ⟨shiftBottom base p.stack, p.mode⟩ c = some ⟨shiftBottom base p'.stack, p'.mode⟩ := by
  unfold Parser.step at h ⊢
  simp only
  split at h
  · cases h
  · cases h
    rfl
  · obtain ⟨fs', hr, rfl⟩ := Option.map_eq_some_iff.mp h
    simp [reduce_shiftBottom base hr]

theorem run_shiftBottom (base : Frame) {text : Bytes} : ∀ {p p' : Parser}, p.run text = some p' →
    Parser.run ⟨shiftBottom base p.stack, p.mode⟩ text = some ⟨shiftBottom base p'.stack, p'.mode⟩ := by
  induction text with
  | nil =>
    intro p p' h
    obtain rfl : p = p' := by simpa [Parser.run] using h
    rfl
  | cons c text ih =>
    intro p p' h
    obtain ⟨q, hq, hrun⟩ : ∃ q, p.step c = some q ∧ q.run text = some p' := by
      simpa [Parser.run, Option.bind_eq_some_iff] using h
    have := ih hrun
    simpa [Parser.run, step_shiftBottom base hq] using this

theorem finish_eq_some {p : Parser} {re : Regex} :
    p.finish = some re ↔ ∃ f, p = ⟨[f], .normal⟩ ∧ re = f.branches := by
  obtain ⟨_ | ⟨f, _ | ⟨g, fs⟩⟩, mode⟩ := p <;> cases mode <;> simp [Parser.finish, eq_comm]

theorem regcomp_eq_some {text : Bytes} {re : Regex} : regcomp text = some re ↔
    ∃ f, Parser.start.run text = some ⟨[f], .normal⟩ ∧ re = f.branches := by
  simp only [regcomp, Option.bind_eq_some_iff, finish_eq_some]
  constructor
  · rintro ⟨_, h, f, rfl, rfl⟩
    exact ⟨f, h, rfl⟩
  · rintro ⟨f, h, rfl⟩
    exact ⟨_, h, f, rfl, rfl⟩

/-- **Compiling commutes with concatenation.** Two texts that compile on their own compile, one
written after the other, to their alternatives glued together. -/
theorem regcomp_append {s t : Bytes} {re re' : Regex} (hs : regcomp s = some re)
    (ht : regcomp t = some re') : regcomp (s ++ t) = some (glue re re') := by
  obtain ⟨f, hf, rfl⟩ := regcomp_eq_some.mp hs
  obtain ⟨g, hg, rfl⟩ := regcomp_eq_some.mp ht
  refine regcomp_eq_some.mpr ⟨f.shift g, ?_, (Frame.branches_shift f g).symm⟩
  have hrun := run_shiftBottom f hg
  simp only [Parser.start, shiftBottom, Frame.shift, List.nil_append] at hrun
  simp only [Parser.run, List.foldlM_append] at hf hrun ⊢
  rw [hf]
  exact hrun

theorem regcomp_ne_nil {text : Bytes} {re : Regex} (h : regcomp text = some re) : re ≠ [] := by
  obtain ⟨f, -, rfl⟩ := regcomp_eq_some.mp h
  simp [Frame.branches]

example : (regcomp (ascii "^(a[^b-d]\x7b2\x7d|[[:digit:]]+)$")).map (regexec · (ascii "axx")) = some true := by
  decide

end Posix
