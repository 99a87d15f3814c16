/-
# Quoting in the configuration file

What a text stands for as a value, with or without quotes (`decode`), and that the loop which copies
the value takes it so as long as it fits into the buffer. A value that is written between quotes,
with its backslashes and quotes escaped, is the value that is stored (`parseFrom_quoted`).
-/
import NscaNg.Client.Crlf

namespace NscaNg.Client

open Posix

/-- The value that a text stands for between quotes, or without them for a quote sign of zero, with
the escape flag; `none` if the value ends within the text, or the text in an escape. -/
def decode (quoteSign : UInt8) : Bool → Bytes → Option Bytes
  | false, [] => some []
  | true, [] => none
  | true, c :: text => (decode quoteSign false text).map (c :: ·)
  | false, c :: text =>
    if c = quoteSign ∨ quoteSign = 0 ∧ (c = ch '#' ∨ c = ch ' ' ∨ c = ch '\t') then none
    else if c = ch '\\' then decode quoteSign true text
    else (decode quoteSign false text).map (c :: ·)

/-- A value as it is written between quotes. -/
def quote (quoteSign : UInt8) (value : Bytes) : Bytes :=
  value.flatMap fun c => if c = ch '\\' ∨ c = quoteSign then [ch '\\', c] else [c]

/-- Blanks, of which there may be none. -/
def Blank (s : Bytes) : Prop := ∀ c ∈ s, c = ch ' ' ∨ c = ch '\t'

instance (s : Bytes) : Decidable (Blank s) :=
  decidable_of_iff (s.all fun c => c = ch ' ' ∨ c = ch '\t') (by simp [Blank])

/-! ### The loop that copies the value -/

theorem decode_quote {quoteSign : UInt8} (h0 : quoteSign ≠ 0) (hback : quoteSign ≠ ch '\\') (value : Bytes) :
    decode quoteSign false (quote quoteSign value) = some value := by
  induction value with
  | nil => rfl
  | cons c value ih =>
    rw [quote, List.flatMap_cons, ← quote]
    by_cases hc : c = ch '\\' ∨ c = quoteSign
    · have hsign : ¬ (ch '\\' = quoteSign ∨ quoteSign = 0 ∧ (ch '\\' = ch '#' ∨ ch '\\' = ch ' ' ∨ ch '\\' = ch '\t')) :=
        not_or.mpr ⟨hback.symm, fun he => h0 he.1⟩
      rw [if_pos hc, List.cons_append, List.cons_append, List.nil_append, decode, if_neg hsign, if_pos rfl, decode, ih]
      rfl
    · rw [not_or] at hc
      have hsign : ¬ (c = quoteSign ∨ quoteSign = 0 ∧ (c = ch '#' ∨ c = ch ' ' ∨ c = ch '\t')) :=
        not_or.mpr ⟨hc.2, fun he => h0 he.1⟩
      rw [if_neg (not_or.mpr hc), List.cons_append, List.nil_append, decode, if_neg hsign, if_neg hc.1, ih]
      rfl

theorem length_pos_of_decode {quoteSign : UInt8} {text value : Bytes} (h : decode quoteSign true text = some value) :
    0 < value.length := by
  cases text with
  | nil => cases h
  | cons c text =>
    obtain ⟨rest, -, rfl⟩ := Option.map_eq_some_iff.mp h
    exact Nat.succ_pos _

/-- The loop takes a text for its value, as long as the buffer has room for it. The induction is on
the text; the length is looked at before each character. -/
theorem copyValue_text {quoteSign : UInt8} {escape : Bool} {text decoded : Bytes}
    (h : decode quoteSign escape text = some decoded) (value : Bytes) (hvalue : value.length ≤ 2047) (rest : Bytes) :
    copyValue quoteSign escape value (text ++ rest) =
      if value.length + decoded.length ≤ 2047 then copyValue quoteSign false (value ++ decoded) rest else none := by
  induction text generalizing escape value decoded with
  | nil =>
    cases escape with
    | true => cases h
    | false =>
      rw [decode, Option.some.injEq] at h
      rw [← h, List.append_nil, List.nil_append, List.length_nil, Nat.add_zero, if_pos hvalue]
  | cons c text ih =>
    -- a character of the value, behind a backslash or not
    have hchar : ∀ {rest' : Bytes}, decode quoteSign false text = some rest' → decoded = c :: rest' →
        value.length < 2047 → copyValue quoteSign false (value ++ [c]) (text ++ rest) =
          if value.length + decoded.length ≤ 2047 then copyValue quoteSign false (value ++ decoded) rest else none := by
      intro rest' hrest hdecoded hlt
      have hnext := ih hrest (value ++ [c]) (by rw [List.length_append, List.length_singleton]; omega)
      have hlen : (value ++ [c]).length + rest'.length = value.length + decoded.length := by
        rw [hdecoded, List.length_append, List.length_singleton, List.length_cons]
        omega
      have happ : value ++ [c] ++ rest' = value ++ decoded := by rw [hdecoded, List.append_assoc, List.singleton_append]
      rw [hnext, hlen, happ]
    have hfull : 2047 ≤ value.length → 0 < decoded.length →
        none = if value.length + decoded.length ≤ 2047 then copyValue quoteSign false (value ++ decoded) rest else none := by
      intro hge hpos
      rw [if_neg (by omega)]
    rw [List.cons_append]
    cases escape with
    | true =>
      have hpos := length_pos_of_decode h
      obtain ⟨rest', hrest, hdecoded⟩ := Option.map_eq_some_iff.mp h
      rw [copyValue]
      by_cases hge : 2047 ≤ value.length
      · rw [if_pos hge]
        exact hfull hge hpos
      · rw [if_neg hge, if_pos rfl]
        exact hchar hrest hdecoded.symm (by omega)
    | false =>
      rw [decode] at h
      rw [copyValue]
      by_cases hend : c = quoteSign ∨ quoteSign = 0 ∧ (c = ch '#' ∨ c = ch ' ' ∨ c = ch '\t')
      · rw [if_pos hend] at h
        cases h
      · rw [if_neg hend] at h
        rw [if_neg Bool.false_ne_true, if_neg hend]
        by_cases hback : c = ch '\\'
        · rw [if_pos hback] at h
          rw [if_pos hback]
          by_cases hge : 2047 ≤ value.length
          · rw [if_pos hge]
            exact hfull hge (length_pos_of_decode h)
          · rw [if_neg hge]
            exact ih h value hvalue
        · rw [if_neg hback] at h
          rw [if_neg hback]
          obtain ⟨rest', hrest, hdecoded⟩ := Option.map_eq_some_iff.mp h
          by_cases hge : 2047 ≤ value.length
          · rw [if_pos hge]
            exact hfull hge (by rw [← hdecoded]; exact Nat.succ_pos _)
          · rw [if_neg hge]
            exact hchar hrest hdecoded.symm (by omega)

/-- What is copied fits into the buffer with its NUL, whatever the line is. -/
theorem length_copyValue {quoteSign : UInt8} {escape : Bool} {value input : Bytes} {copied : Bytes × Bytes}
    (hvalue : value.length ≤ 2047) (h : copyValue quoteSign escape value input = some copied) :
    copied.1.length + 1 ≤ 2048 := by
  induction input generalizing escape value with
  | nil =>
    rw [copyValue, Option.some.injEq] at h
    rw [← h]
    exact Nat.succ_le_succ hvalue
  | cons c input ih =>
    rw [copyValue] at h
    split at h
    · cases h
    · have hnext : (value ++ [c]).length ≤ 2047 := by
        rw [List.length_append, List.length_singleton]
        omega
      split at h
      · exact ih hnext h
      · split at h
        · rw [← Option.some.inj h]
          exact Nat.succ_le_succ hvalue
        · split at h
          · exact ih hvalue h
          · exact ih hnext h

/-! ### A setting -/

theorem skipWhitespace_token {blanks token : Bytes} (hblanks : Blank blanks)
    (h : ∀ c, token.head? = some c → ¬ (c = ch ' ' ∨ c = ch '\t')) : skipWhitespace (blanks ++ token) = token := by
  rw [skipWhitespace_append hblanks]
  cases token with
  | nil => rfl
  | cons c token => exact skipWhitespace_of_head (h c rfl) token

section

variable {cfg : List Conf} {before between behind : Bytes} (located : Bytes → Bytes)

/-- A variable and a `=` with blanks around them: the value is what is behind. -/
theorem parseLine_setting (hcfg : Layout cfg) {kind : Bytes × Bool} (hkind : kind ∈ confDefaults.map Conf.kind)
    (hbefore : Blank before) (hbetween : Blank between) (hbehind : Blank behind) :
    ∃ c, cfg.find? (·.key = kind.1) = some c ∧ c.kind = kind ∧ ∀ text,
      parseLine located cfg (before ++ (kind.1 ++ (between ++ ch '=' :: (behind ++ text)))) =
        parseValue located cfg c (skipWhitespace text) := by
  obtain ⟨c, hfind, hc⟩ := hcfg.find hkind
  have hkeys : ∀ k ∈ confDefaults.map Conf.kind, k.1.all isKeyChar = true ∧
      ∃ first, k.1.head? = some first ∧ ¬ (first = ch ' ' ∨ first = ch '\t') ∧ first ≠ ch '#' := by
    intro k hk
    simp only [confDefaults, List.map_cons, List.map_nil, List.mem_cons, List.not_mem_nil, or_false] at hk
    rcases hk with rfl | rfl | rfl | rfl | rfl | rfl | rfl | rfl
    all_goals exact ⟨by decide, _, rfl, by decide, by decide⟩
  obtain ⟨hall, first, hfirst, hblank, hhash⟩ := hkeys kind hkind
  refine ⟨c, hfind, hc, fun text => ?_⟩
  generalize hrest : between ++ ch '=' :: (behind ++ text) = rest
  have hstop : ∀ r, rest.head? = some r → ¬ isKeyChar r = true := by
    intro r hr
    rw [← hrest] at hr
    cases between with
    | nil =>
      rw [List.nil_append, List.head?_cons, Option.some.injEq] at hr
      rw [← hr]
      decide
    | cons b between =>
      rw [List.cons_append, List.head?_cons, Option.some.injEq] at hr
      rw [← hr]
      rcases hbetween b List.mem_cons_self with rfl | rfl
      · decide
      · decide
  have htake : (kind.1 ++ rest).takeWhile isKeyChar = kind.1 := by
    rw [List.takeWhile_append_of_pos fun x hx => List.all_eq_true.mp hall x hx]
    cases rest with
    | nil => exact List.append_nil _
    | cons r rest => rw [List.takeWhile_cons_of_neg (hstop r rfl), List.append_nil]
  have hhead : (kind.1 ++ rest).head? = some first := by rw [List.head?_append, hfirst, Option.some_or]
  have hnil : kind.1 ≠ [] := fun he => by
    rw [he] at hfirst
    cases hfirst
  have hskip : skipWhitespace (before ++ (kind.1 ++ rest)) = kind.1 ++ rest :=
    skipWhitespace_token hbefore fun d hd => by
      rw [hhead, Option.some.injEq] at hd
      rw [← hd]
      exact hblank
  have hends : ¬ Ends (kind.1 ++ rest) := by
    refine not_or.mpr ⟨fun he => hnil (List.append_eq_nil_iff.mp he).1, fun he => hhash ?_⟩
    exact Option.some.inj (hhead.symm.trans he)
  have hequals : skipWhitespace rest = ch '=' :: (behind ++ text) := by
    rw [← hrest]
    refine skipWhitespace_token hbetween fun d hd => ?_
    rw [List.head?_cons, Option.some.injEq] at hd
    rw [← hd]
    decide
  unfold parseLine parseKey
  rw [hskip, if_neg hends]
  simp only
  rw [htake, if_neg hnil, hfind, List.drop_left, hequals]
  show eatEquals located cfg c (ch '=' :: (behind ++ text)) = _
  unfold eatEquals
  rw [List.head?_cons, if_neg (not_not.mpr rfl), List.tail_cons, skipWhitespace_append hbehind]

end

/-! ### A quoted value -/

/-- The line of a setting with a quoted value. -/
def quotedLine (before key between behind : Bytes) (quoteSign : UInt8) (value trailing : Bytes) : Bytes :=
  before ++ (key ++ (between ++ ch '=' :: (behind ++ (quoteSign :: quote quoteSign value ++ quoteSign :: trailing))))

theorem mem_quote {quoteSign x : UInt8} {value : Bytes} (h : x ∈ quote quoteSign value) : x = ch '\\' ∨ x ∈ value := by
  obtain ⟨c, hc, hx⟩ := List.mem_flatMap.mp h
  by_cases hesc : c = ch '\\' ∨ c = quoteSign
  · rw [if_pos hesc] at hx
    rcases List.mem_cons.mp hx with rfl | hx
    · exact .inl rfl
    · exact .inr (List.mem_singleton.mp hx ▸ hc)
  · rw [if_neg hesc] at hx
    exact .inr (List.mem_singleton.mp hx ▸ hc)

section

variable {before key between behind value trailing : Bytes} {quoteSign : UInt8}

theorem notMem_quotedLine {x : UInt8} (hx : x = 0 ∨ x = newline)
    (hkey : (key, true) ∈ confDefaults.map Conf.kind) (hbefore : Blank before) (hbetween : Blank between)
    (hbehind : Blank behind) (hquote : quoteSign = ch '"' ∨ quoteSign = ch '\'') (hvalue : x ∉ value)
    (htrailing : x ∉ trailing) : x ∉ quotedLine before key between behind quoteSign value trailing := by
  have hne : (x ≠ ch ' ' ∧ x ≠ ch '\t') ∧ x ≠ ch '=' ∧ x ≠ ch '\\' ∧ x ≠ ch '"' ∧ x ≠ ch '\'' := by
    rcases hx with rfl | rfl
    · decide
    · decide
  obtain ⟨⟨hspace, htab⟩, hequals, hback, hdouble, hsingle⟩ := hne
  have hblank : ∀ s, Blank s → x ∉ s := fun s hs hc => (hs x hc).elim hspace htab
  have hsign : x ≠ quoteSign := by
    rcases hquote with rfl | rfl
    · exact hdouble
    · exact hsingle
  have hkeys : ∀ k ∈ confDefaults.map Conf.kind, 0 ∉ k.1 ∧ newline ∉ k.1 := by decide
  have hkey' : x ∉ key := by
    rcases hx with rfl | rfl
    · exact (hkeys _ hkey).1
    · exact (hkeys _ hkey).2
  have hquoted : x ∉ quote quoteSign value := fun hc => (mem_quote hc).elim hback hvalue
  unfold quotedLine
  simp only [List.mem_append, List.mem_cons, not_or]
  exact ⟨hblank _ hbefore, hkey', hblank _ hbetween, hequals, hblank _ hbehind,
    ⟨hsign, hquoted⟩, hsign, htrailing⟩

theorem stripCr_append {front : Bytes} (h : front.getLast? ≠ some (ch '\r')) (s : Bytes) :
    stripCr (front ++ s) = front ++ stripCr s := by
  unfold stripCr
  rcases List.eq_nil_or_concat s with rfl | ⟨init, c, hs⟩
  · rw [List.append_nil, if_neg h]
    exact (List.append_nil front).symm
  · rw [List.concat_eq_append] at hs
    rw [hs, ← List.append_assoc, List.getLast?_concat, List.getLast?_concat, List.dropLast_concat, List.dropLast_concat]
    split <;> simp

/-- A comment is one without a CR at its end, too. -/
theorem ends_stripCr (h : Ends (skipWhitespace trailing)) : Ends (skipWhitespace (stripCr trailing)) := by
  obtain ⟨blanks, hsplit, hblanks⟩ := skipWhitespace_split trailing
  have hlast : blanks.getLast? ≠ some (ch '\r') := by
    intro hc
    rcases hblanks _ (List.mem_of_getLast? hc) with he | he
    · exact absurd he (by decide)
    · exact absurd he (by decide)
  rw [hsplit, stripCr_append hlast, skipWhitespace_append hblanks]
  generalize skipWhitespace trailing = token at h
  cases token with
  | nil => exact .inl rfl
  | cons c comment =>
    obtain rfl : c = ch '#' := h.elim (fun he => absurd he (List.cons_ne_nil _ _)) fun he => Option.some.inj he
    have hcomment : stripCr (ch '#' :: comment) = ch '#' :: stripCr comment :=
      stripCr_append (by decide : [ch '#'].getLast? ≠ some (ch '\r')) comment
    rw [hcomment, skipWhitespace_of_head (by decide)]
    exact .inr rfl

variable {cfg : List Conf} {located : Bytes → Bytes}

/-- The line of a setting with a quoted value saves that value. -/
theorem parseLine_quoted (hcfg : Layout cfg) (hkey : (key, true) ∈ confDefaults.map Conf.kind) (hbefore : Blank before)
    (hbetween : Blank between) (hbehind : Blank behind) (hquote : quoteSign = ch '"' ∨ quoteSign = ch '\'')
    (hvalue : value.length ≤ 2046) (htrailing : Ends (skipWhitespace trailing)) :
    parseLine located cfg (quotedLine before key between behind quoteSign value trailing) =
      .ok (assign key (.string (some value)) cfg) := by
  obtain ⟨c, hfind, hc, hparse⟩ := parseLine_setting located hcfg hkey hbefore hbetween hbehind
  have hsign : quoteSign ≠ 0 ∧ quoteSign ≠ ch '\\' ∧ quoteSign ≠ ch '#' ∧ ¬ (quoteSign = ch ' ' ∨ quoteSign = ch '\t') := by
    rcases hquote with rfl | rfl
    · decide
    · decide
  obtain ⟨h0, hback, hhash, hblank⟩ := hsign
  have hcopy : copyValue quoteSign false [] (quote quoteSign value ++ quoteSign :: trailing) = some (value, trailing) := by
    rw [copyValue_text (decode_quote h0 hback value) [] (by decide), List.length_nil, if_pos (by omega),
      List.nil_append, copyValue, if_neg (by omega), if_neg Bool.false_ne_true, if_pos (.inl rfl)]
  have hstring : ∃ s, c.value = .string s := by
    have hkind : c.value.isString = true := congrArg Prod.snd hc
    cases hval : c.value with
    | string s => exact ⟨s, rfl⟩
    | integer i =>
      rw [hval] at hkind
      cases hkind
  obtain ⟨s, hs⟩ := hstring
  rw [quotedLine, hparse, List.cons_append, skipWhitespace_of_head hblank, parseValue, if_neg hhash, if_pos hquote, hcopy,
    checkEnd, if_pos htrailing, saveValue_of_find hfind, hs]

/-- **Quoting.** A line with a quoted value of a string variable: exactly that value is stored, and
then the next line is parsed, if the line with its newline is shorter than an `int` can say. The
buffer has room for the value with its NUL. -/
theorem parseFrom_quoted (path : Bytes) (hcfg : Layout cfg) (hkey : (key, true) ∈ confDefaults.map Conf.kind)
    (hbefore : Blank before) (hbetween : Blank between) (hbehind : Blank behind)
    (hquote : quoteSign = ch '"' ∨ quoteSign = ch '\'') (h0 : 0 ∉ value) (hnl : newline ∉ value)
    (hvalue : value.length ≤ 2046) (htrailing : Ends (skipWhitespace trailing)) (h0' : 0 ∉ trailing)
    (hnl' : newline ∉ trailing) (hback : trailing.getLast? ≠ some (ch '\\'))
    (hlen : (quotedLine before key between behind quoteSign value trailing).length + 1 < 2 ^ 31)
    (rest : Bytes) (lineNumber : ℕ) :
    parseFrom path ⟨quotedLine before key between behind quoteSign value trailing ++ newline :: rest, lineNumber⟩ cfg =
        parseFrom path ⟨rest, lineNumber + 1⟩ (assign key (.string (some value)) cfg) ∧
      lookupConf (assign key (.string (some value)) cfg) key = .ok ⟨key, .string (some value)⟩ ∧
      ∀ escape copied input, copyValue quoteSign escape [] input = some copied → copied.1.length + 1 ≤ 2048 := by
  have hfront : ∃ front, (∀ t, quotedLine before key between behind quoteSign value t = front ++ [quoteSign] ++ t) := by
    refine ⟨before ++ (key ++ (between ++ ch '=' :: (behind ++ quoteSign :: quote quoteSign value))), fun t => ?_⟩
    simp [quotedLine]
  obtain ⟨front, hfront⟩ := hfront
  have hsign : quoteSign ≠ ch '\\' ∧ quoteSign ≠ ch '\r' := by
    rcases hquote with rfl | rfl
    · decide
    · decide
  have hlast : (quotedLine before key between behind quoteSign value trailing).getLast? ≠ some (ch '\\') := by
    rw [hfront, List.getLast?_append, List.getLast?_concat]
    cases hlast : trailing.getLast? with
    | none => exact fun he => hsign.1 (Option.some.inj he)
    | some c => exact fun he => hback (hlast.trans he)
  have hstrip : stripCr (quotedLine before key between behind quoteSign value trailing) =
      quotedLine before key between behind quoteSign value (stripCr trailing) := by
    rw [hfront, hfront, stripCr_append]
    rw [List.getLast?_concat]
    exact fun he => hsign.2 (Option.some.inj he)
  refine ⟨?_, ?_, fun escape copied input h => length_copyValue (Nat.zero_le _) h⟩
  · rw [parseFrom_line path (notMem_quotedLine (.inr rfl) hkey hbefore hbetween hbehind hquote hnl hnl')
      (notMem_quotedLine (.inl rfl) hkey hbefore hbetween hbehind hquote h0 h0') hlen hlast, hstrip,
      parseLine_quoted hcfg hkey hbefore hbetween hbehind hquote hvalue (ends_stripCr htrailing), afterLine]
  · obtain ⟨c, hfind, -⟩ := hcfg.find hkey
    rw [lookupConf, find?_assign hfind]

end

/-- A value with a quote, a hash mark and a backslash at its end. -/
theorem parseFrom_quoted_password :
    parseFrom (ascii "f") ⟨quotedLine [] (ascii "password") (ascii " ") (ascii "\t") (ch '"') (ascii "a\"# \\")
        (ascii " # b") ++ newline :: ascii "port = 1\n", 3⟩ confDefaults =
        parseFrom (ascii "f") ⟨ascii "port = 1\n", 4⟩
          (assign (ascii "password") (.string (some (ascii "a\"# \\"))) confDefaults) ∧
      lookupConf (assign (ascii "password") (.string (some (ascii "a\"# \\"))) confDefaults) (ascii "password") =
        .ok ⟨ascii "password", .string (some (ascii "a\"# \\"))⟩ ∧
      ∀ escape copied input, copyValue (ch '"') escape [] input = some copied → copied.1.length + 1 ≤ 2048 :=
  parseFrom_quoted (ascii "f") rfl (by decide) (by decide) (by decide) (by decide)
    (.inl rfl) (by decide) (by decide) (by decide) (by decide) (by decide) (by decide) (by decide) (by decide)
    (ascii "port = 1\n") 3

/-- What no `int` can say the length of is cut, and is a line of its own. -/
theorem parseFrom_overlong (path : Bytes) {body : Bytes} (hlen : body.length + 1 = 2 ^ 31) (hbody : newline ∉ body)
    (h0 : 0 ∉ body) (rest : Bytes) (lineNumber : ℕ) (cfg : List Conf) :
    parseFrom path ⟨body ++ rest, lineNumber⟩ cfg =
      afterLine (parseFrom path ⟨rest, lineNumber⟩) (parseLine (located path lineNumber) cfg body) := by
  have hfile : 22 < (body ++ rest).length + 1 := by
    rw [List.length_append]
    omega
  have hread : LineState.readLoop ((body ++ rest).length + 1) (LineState.holding [] [] (body ++ rest) 512 lineNumber) =
      LineState.holding ([] ++ body) [0] rest (2 ^ 32) lineNumber :=
    LineState.readLoop_overlong 22 (by decide) hfile (by decide) (by decide)
      (by rw [List.length_nil, Nat.zero_add]; exact hlen) hbody h0
  have hne : body ≠ [] := fun he => by
    rw [he] at hlen
    cases hlen
  obtain ⟨front, c, rfl⟩ := exists_snoc hne
  have hc : c ≠ newline := fun he => hbody (by simp [he])
  have hcall : readConfLine ⟨front ++ [c] ++ rest, lineNumber⟩ = (some (front ++ [c, 0]), ⟨rest, lineNumber⟩) := by
    have hstate : LineState.holding ([] ++ (front ++ [c])) [0] rest (2 ^ 32) lineNumber =
        ⟨rest, front ++ c :: 0 :: [], front.length + 1, 2 ^ 32, lineNumber⟩ := by
      simp [LineState.holding]
    have hresult : readConfLine ⟨front ++ [c] ++ rest, lineNumber⟩ = (LineState.readLoop
        ((front ++ [c] ++ rest).length + 1)
        (LineState.holding [] [] (front ++ [c] ++ rest) 512 lineNumber)).result := rfl
    rw [hresult, hread, hstate, LineState.result, if_neg (Nat.succ_ne_zero _), LineState.block_last h0 hc]
  have hblock : front ++ [c, 0] = front ++ [c] ++ 0 :: [] := by simp
  rw [parseFrom_step path hcall cfg, hblock, if_neg (by simp), LineState.cstr_append_nul h0]

/-- The end of a comment of two gigabytes is taken for a setting. -/
theorem not_parseFrom_quoted :
    ¬ ∀ trailing, Ends (skipWhitespace trailing) → 0 ∉ trailing → newline ∉ trailing →
      trailing.getLast? ≠ some (ch '\\') →
      parseConfFile (ascii "f") (quotedLine [] (ascii "port") [] [] (ch '"') (ascii "1") trailing ++ [newline])
          confDefaults = .ok (assign (ascii "port") (.string (some (ascii "1"))) confDefaults) := by
  intro h
  obtain ⟨k, hk⟩ : ∃ k, k + 10 = 2 ^ 31 := ⟨2147483638, by norm_num⟩
  have hletters : ∀ n, ∀ c ∈ List.replicate n (ch 'a'), c = ch 'a' := fun n c hc => List.eq_of_mem_replicate hc
  have hnot : ∀ n c, c ≠ ch 'a' → c ≠ ch '#' → c ∉ ch '#' :: List.replicate n (ch 'a') := by
    intro n c ha hhash hc
    rcases List.mem_cons.mp hc with hc | hc
    · exact hhash hc
    · exact ha (hletters n c hc)
  have hends : ∀ n, Ends (skipWhitespace (ch '#' :: List.replicate n (ch 'a'))) := fun n => by
    rw [skipWhitespace_of_head (by decide)]
    exact .inr rfl
  have hbad := h (ch '#' :: List.replicate (k + 1) (ch 'a')) (hends _) (hnot _ _ (by decide) (by decide))
    (hnot _ _ (by decide) (by decide)) fun hc => ?_
  · have hsplit : quotedLine [] (ascii "port") [] [] (ch '"') (ascii "1") (ch '#' :: List.replicate (k + 1) (ch 'a')) ++
        [newline] = quotedLine [] (ascii "port") [] [] (ch '"') (ascii "1") (ch '#' :: List.replicate k (ch 'a')) ++
          ascii "a\n" := by
      rw [List.replicate_succ']
      simp only [quotedLine, List.append_assoc, List.cons_append]
      rfl
    have hline : ∀ c, c = 0 ∨ c = newline → c ∉ quotedLine [] (ascii "port") [] [] (ch '"') (ascii "1")
        (ch '#' :: List.replicate k (ch 'a')) := by
      intro c hc
      refine notMem_quotedLine hc (by decide) (by decide) (by decide) (by decide) (.inl rfl) ?_
        (hnot _ _ ?_ ?_)
      all_goals rcases hc with rfl | rfl <;> decide
    have hlen : (quotedLine [] (ascii "port") [] [] (ch '"') (ascii "1")
        (ch '#' :: List.replicate k (ch 'a'))).length + 1 = 2 ^ 31 := by
      have hlen' : ∀ t, (quotedLine [] (ascii "port") [] [] (ch '"') (ascii "1") t).length = t.length + 8 := by
        intro t
        simp only [quotedLine, List.length_append, List.length_cons, List.length_nil]
        have h1 : (ascii "port").length = 4 := by decide
        have h2 : (quote (ch '"') (ascii "1")).length = 1 := by decide
        omega
      rw [hlen', List.length_cons, List.length_replicate]
      omega
    rw [hsplit, parseConfFile, parseFrom_overlong _ hlen (hline _ (.inr rfl)) (hline _ (.inl rfl)),
      parseLine_quoted rfl (by decide) (by decide) (by decide) (by decide) (.inl rfl) (by decide)
        (hends k)] at hbad
    exact absurd hbad (by decide)
  · rw [List.replicate_succ', ← List.cons_append, List.getLast?_concat] at hc
    exact absurd hc (by decide)

end NscaNg.Client
