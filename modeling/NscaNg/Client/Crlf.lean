/-
# CRLF in the configuration file

A line that ends in CRLF is read like the same line with an LF, but for one that ends in a
backslash: with an LF it is continued, with CRLF it is not. So a file means the same with CRLF if
there is no such line before the first one that the program dies on (`parseConfFile_crlf`).
-/
import NscaNg.Client.LogicalLines
import NscaNg.Client.Conf

namespace NscaNg.Client

open Posix

/-- Every newline as CR and LF. -/
def crlf (content : Bytes) : Bytes := content.flatMap fun c => if c = newline then [ch '\r', newline] else [c]

/-! ### One line -/

/-- What is before the newline, without a CR at its end. -/
def stripCr (body : Bytes) : Bytes := if body.getLast? = some (ch '\r') then body.dropLast else body

section

variable {body : Bytes}

/-- What stands before a newline is returned, if it is not continued. -/
theorem readConfLine_line (hbody : newline ∉ body) (h0 : 0 ∉ body) (hlen : body.length + 1 < 2 ^ 31)
    (hback : body.getLast? ≠ some (ch '\\')) (rest : Bytes) (lineNumber : ℕ) :
    readConfLine ⟨body ++ newline :: rest, lineNumber⟩ =
      (some (stripCr body ++ [0, 0]), ⟨rest, lineNumber + 1⟩) := by
  have hcall : readConfLine ⟨body ++ newline :: rest, lineNumber⟩ =
      (LineState.readLoop ((body ++ newline :: rest).length + 1)
        (LineState.holding [] [] (body ++ newline :: rest) 512 lineNumber)).result := rfl
  have hfile : body.length + 1 + rest.length < (body ++ newline :: rest).length + 1 := by
    rw [List.length_append, List.length_cons]
    omega
  have htotal : ([] : Bytes).length + body.length + 1 < 2 ^ 31 := by rw [List.length_nil]; omega
  obtain ⟨m, -, hread⟩ : ∃ m, rest.length < m ∧
      LineState.readLoop ((body ++ newline :: rest).length + 1)
          (LineState.holding [] [] (body ++ newline :: rest) 512 lineNumber) =
        LineState.lineRead (LineState.readLoop m) (LineState.holding ([] ++ (body ++ [newline])) [0] rest
          (bufferSize 512 (([] : Bytes).length + body.length + 1)) lineNumber) :=
    LineState.readLoop_terminated (body.length + 1) (Nat.lt_succ_self _) hfile (by decide) (by decide) hbody h0
      (bufferSize_le htotal ⟨22, rfl⟩)
  rw [hcall, hread, List.nil_append]
  generalize bufferSize 512 _ = size
  rcases List.eq_nil_or_concat body with rfl | ⟨front, a, hfront⟩
  · rw [List.nil_append, LineState.lineRead_one]
    rfl
  · rw [List.concat_eq_append] at hfront
    subst hfront
    have hpair : front ++ [a] ++ [newline] = front ++ [a, newline] := by simp
    rw [List.getLast?_concat, Ne, Option.some.injEq] at hback
    rw [hpair, LineState.lineRead_two, if_neg hback, stripCr, List.getLast?_concat]
    by_cases hcr : a = ch '\r'
    · subst hcr
      rw [if_pos rfl, if_pos rfl, LineState.result, if_neg (Nat.succ_ne_zero _), List.dropLast_concat,
        LineState.block_newline fun hc => h0 (List.mem_append_left _ hc)]
    · have hcr' : ¬ some a = some (ch '\r') := fun he => hcr (Option.some.inj he)
      have hstate : LineState.holding (front ++ [a, newline]) [0] rest size (lineNumber + 1) =
          ⟨rest, front ++ [a] ++ newline :: 0 :: [], (front ++ [a]).length + 1, size, lineNumber + 1⟩ := by
        simp [LineState.holding]
      rw [if_neg hcr, if_neg hcr', hstate, LineState.result, if_neg (Nat.succ_ne_zero _), LineState.block_newline h0]

end

/-- A call that returns a line has read something. -/
theorem readConfLine_shorter {f f' : ConfFile} {block : Bytes} (h : readConfLine f = (some block, f')) :
    f'.file.length < f.file.length := by
  have hle := pos_readLoop_le (f.file.length + 1) ⟨f.file, [], 0, 512, f.lineNumber⟩
  unfold readConfLine at h
  generalize LineState.readLoop _ _ = s at h hle
  unfold LineState.result at h
  by_cases hpos : s.pos = 0
  · rw [if_pos hpos] at h
    cases h
  · rw [if_neg hpos] at h
    obtain ⟨-, rfl⟩ := Prod.mk.inj h
    show s.file.length < f.file.length
    have hle' : s.pos + s.file.length ≤ 0 + f.file.length := hle
    omega

/-- More calls than the file has bytes make no difference. -/
theorem readConfLines_stable {k l : ℕ} {f : ConfFile} (hk : f.file.length < k) (hl : f.file.length < l) :
    readConfLines k f = readConfLines l f := by
  induction k generalizing l f with
  | zero => omega
  | succ k ih =>
    obtain ⟨l, rfl⟩ : ∃ m, l = m + 1 := ⟨l - 1, by omega⟩
    rw [readConfLines, readConfLines]
    rcases h : readConfLine f with ⟨_ | block, f'⟩
    · rfl
    · have hlt := readConfLine_shorter h
      rw [followed, followed, ih (by omega) (by omega : f'.file.length < l)]

/-- The loop of `parse_conf_file()` goes on behind a line. -/
theorem parseFrom_step (path : Bytes) {f f' : ConfFile} {block : Bytes} (h : readConfLine f = (some block, f'))
    (cfg : List Conf) :
    parseFrom path f cfg =
      if 0 ∉ block then .error .overread
      else afterLine (parseFrom path f') (parseLine (located path f'.lineNumber) cfg (cstr block)) := by
  have hlt := readConfLine_shorter h
  have hstable := readConfLines_stable hlt (Nat.lt_add_one f'.file.length)
  have hnext : parseLines path (readConfLines f.file.length f') = parseFrom path f' := by
    rw [hstable]
    rfl
  rw [parseFrom, readConfLines, h, followed, parseLines, hnext]

/-- A line that is not continued is parsed, and then what stands behind it. -/
theorem parseFrom_line (path : Bytes) {body : Bytes} (hbody : newline ∉ body) (h0 : 0 ∉ body)
    (hlen : body.length + 1 < 2 ^ 31) (hback : body.getLast? ≠ some (ch '\\')) (rest : Bytes) (lineNumber : ℕ)
    (cfg : List Conf) :
    parseFrom path ⟨body ++ newline :: rest, lineNumber⟩ cfg =
      afterLine (parseFrom path ⟨rest, lineNumber + 1⟩)
        (parseLine (located path (lineNumber + 1)) cfg (stripCr body)) := by
  have hstring : 0 ∉ stripCr body := by
    unfold stripCr
    split
    · exact notMem_dropLast h0
    · exact h0
  rw [parseFrom_step path (readConfLine_line hbody h0 hlen hback rest lineNumber) cfg, if_neg (by simp),
    (cstr_block hstring).1]

/-! ### The whole file -/

/-- The newline-terminated lines that are read alike with CRLF. -/
def SameWithCrlf (line : Bytes) : Prop := newline ∈ line → ¬ [ch '\\', newline] <:+ line ∧ line.length + 1 < 2 ^ 31

instance (line : Bytes) : Decidable (SameWithCrlf line) := inferInstanceAs (Decidable (_ → _))

/-- `parse_conf_file()` goes on behind this line, if it is not continued. -/
def Accepted (cfg : List Conf) (line : Bytes) : Bool := (parseLine id cfg (line.takeWhile (· ≠ newline))).isOk

/-- The lines that `parse_conf_file()` gets to, if none of them is continued: those up to the first one that it dies
on. -/
def linesParsed (cfg : List Conf) : List Bytes → List Bytes
  | [] => []
  | line :: lines => line :: if Accepted cfg line then linesParsed cfg lines else []

/-- The settings do not matter for this, only the variables and their types. -/
theorem linesParsed_congr {cfg cfg' : List Conf} (h : cfg.map Conf.kind = cfg'.map Conf.kind) (lines : List Bytes) :
    linesParsed cfg lines = linesParsed cfg' lines := by
  induction lines with
  | nil => rfl
  | cons line lines ih =>
    rw [linesParsed, linesParsed, ih, Accepted, Accepted, isOk_parseLine h id id]

theorem accepted_line {body : Bytes} (hbody : newline ∉ body) (cfg : List Conf) :
    Accepted cfg (body ++ [newline]) = (parseLine id cfg body).isOk := by
  have htake : (body ++ [newline]).takeWhile (· ≠ newline) = body := by
    have hall : ∀ c ∈ body, decide (c ≠ newline) = true := fun c hc => decide_eq_true (ne_of_mem_of_not_mem hc hbody)
    rw [List.takeWhile_append_of_pos hall]
    simp
  rw [Accepted, htake]

theorem crlf_of_notMem {body : Bytes} (h : newline ∉ body) : crlf body = body := by
  unfold crlf
  induction body with
  | nil => rfl
  | cons c cs ih =>
    rw [List.mem_cons, not_or] at h
    rw [List.flatMap_cons, if_neg (Ne.symm h.1), ih h.2]
    rfl

theorem crlf_line {body : Bytes} (h : newline ∉ body) (rest : Bytes) :
    crlf (body ++ newline :: rest) = (body ++ [ch '\r']) ++ newline :: crlf rest := by
  have hhead : crlf (body ++ newline :: rest) = crlf body ++ [ch '\r', newline] ++ crlf rest := by
    unfold crlf
    rw [List.flatMap_append, List.flatMap_cons, if_pos rfl, List.append_assoc]
  rw [hhead, crlf_of_notMem h]
  simp

/-- The loop goes over the lines of both files, with the same settings and the same line number, until it dies on the
same line. -/
theorem parseFrom_crlf (path : Bytes) (k : ℕ) {content : Bytes} (hk : content.length < k) (h0 : 0 ∉ content)
    (hcr : ch '\r' ∉ content) (lineNumber : ℕ) (cfg : List Conf)
    (hsame : ∀ line ∈ linesParsed cfg (splitLines content), SameWithCrlf line) :
    parseFrom path ⟨crlf content, lineNumber⟩ cfg = parseFrom path ⟨content, lineNumber⟩ cfg := by
  induction k generalizing content lineNumber cfg with
  | zero => omega
  | succ k ih =>
    rcases file_cases content with rfl | ⟨body, rest, rfl, hbody⟩ | ⟨-, hbody⟩
    · rfl
    · rw [splitLines_line hbody, linesParsed, List.forall_mem_cons] at hsame
      obtain ⟨hline, hrest⟩ := hsame
      obtain ⟨hback, hlen⟩ := hline (by simp)
      rw [List.mem_append, not_or, List.mem_cons, not_or] at h0 hcr
      rw [List.length_append, List.length_cons] at hk
      rw [List.length_append, List.length_singleton] at hlen
      have hlast : body.getLast? ≠ some (ch '\\') := by
        intro hc
        obtain ⟨front, rfl⟩ := List.getLast?_eq_some_iff.mp hc
        exact hback ⟨front, by simp⟩
      have hstrip : stripCr body = body := by
        unfold stripCr
        rw [if_neg fun hc => hcr.1 (List.mem_of_getLast? hc)]
      have hstrip' : stripCr (body ++ [ch '\r']) = body := by
        unfold stripCr
        rw [List.getLast?_concat, if_pos rfl, List.dropLast_concat]
      rw [crlf_line hbody, parseFrom_line path hbody h0.1 (by omega) hlast, hstrip,
        parseFrom_line path ?_ ?_ ?_ ?_, hstrip']
      · cases hparsed : parseLine (located path (lineNumber + 1)) cfg body with
        | error message => rfl
        | ok cfg' =>
          have hkinds := kinds_parseLine hparsed
          -- the line is accepted, so the condition is about the lines behind it as well
          have haccepted : Accepted cfg (body ++ [newline]) = true := by
            rw [accepted_line hbody, isOk_parseLine rfl id (located path (lineNumber + 1)), hparsed]
            rfl
          rw [if_pos haccepted, ← linesParsed_congr hkinds] at hrest
          exact ih (by omega) h0.2.2 hcr.2.2 (lineNumber + 1) cfg' hrest
      · simpa [hbody] using (by decide : ¬ newline = ch '\r')
      · simpa [h0.1] using (by decide : ¬ (0 : UInt8) = ch '\r')
      · rw [List.length_append, List.length_singleton]
        omega
      · rw [List.getLast?_concat]
        decide
    · rw [crlf_of_notMem hbody]

/-- **CRLF.** A file without CR characters: parsing it with CRLF instead of each newline has the
same outcome, if none of the lines that the program gets to and that have a newline ends in a backslash or,
with its CRLF, is too long for an `int`. -/
theorem parseConfFile_crlf (path : Bytes) {content : Bytes} (h0 : 0 ∉ content) (hcr : ch '\r' ∉ content)
    (cfg : List Conf) (hsame : ∀ line ∈ linesParsed cfg (splitLines content), SameWithCrlf line) :
    parseConfFile path (crlf content) cfg = parseConfFile path content cfg :=
  parseFrom_crlf path (content.length + 1) (Nat.lt_succ_self _) h0 hcr 0 cfg hsame

/-- A comment, an empty line, a line that the program dies on, and one behind it that is continued. -/
theorem parseConfFile_crlf_settings :
    parseConfFile (ascii "f") (crlf (ascii "port = 1 # x\n\nx\ntimeout = 1\\\n2\n")) confDefaults =
      parseConfFile (ascii "f") (ascii "port = 1 # x\n\nx\ntimeout = 1\\\n2\n") confDefaults :=
  parseConfFile_crlf _ (by decide) (by decide) _ (by decide)

/-- With CRLF, a line that ends in a backslash is not continued. -/
theorem not_parseConfFile_crlf :
    ¬ ∀ path content cfg, 0 ∉ content → ch '\r' ∉ content →
      (parseConfFile path (crlf content) cfg).toOption = (parseConfFile path content cfg).toOption := by
  intro h
  have hsame := h (ascii "f") (ascii "port = 1\\\n2\n") confDefaults (by decide) (by decide)
  exact absurd hsame (by decide)

end NscaNg.Client
