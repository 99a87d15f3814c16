/-
# What the line reader makes of a file

`codeLines` says what successive calls of `read_conf_line()` return, one line of the file after the
other: a line is put behind the text that is continued, and then ends or is continued itself, as
its last character but one has it (`readConfLines_eq`). What is asked for is that the sizes for
`fgets()` fit into an `int` (`Roomy`).
-/
import NscaNg.Client.ConfLoop

namespace NscaNg.Client

open Posix

/-- The character before the last one. -/
def lastButOne (text : Bytes) : Option UInt8 := text.dropLast.getLast?

/-- The lines that are returned, each with the line number then, from a point on where there is text
that is continued, in a buffer of this size. -/
def codeLines (text : Bytes) (size lineNumber : ℕ) : List Bytes → List (Bytes × ℕ)
  | [] => if text = [] then [] else [(text ++ [ch '\\'], lineNumber)]
  | line :: lines =>
    if newline ∉ line ∧ (text ++ line).length + 1 = bufferSize size (text ++ line).length then
      (text ++ line ++ [0], lineNumber) :: codeLines [] 512 lineNumber lines
    else if lastButOne (text ++ line) = some (ch '\\') then
      codeLines (text ++ line).dropLast.dropLast (bufferSize size (text ++ line).length) (lineNumber + 1) lines
    else if lastButOne (text ++ line) = some (ch '\r') then
      ((text ++ line).dropLast.dropLast ++ [0, 0], lineNumber + 1) :: codeLines [] 512 (lineNumber + 1) lines
    else if newline ∈ line then
      ((text ++ line).dropLast ++ [0, 0], lineNumber + 1) :: codeLines [] 512 (lineNumber + 1) lines
    else (text ++ line ++ [0], lineNumber + 1) :: codeLines [] 512 (lineNumber + 1) lines

/-- Each size for `fgets()` fits into an `int`. -/
def Roomy (text : Bytes) (size : ℕ) : List Bytes → Prop
  | [] => True
  | line :: lines =>
    size - text.length < 2 ^ 31 ∧ bufferSize size (text ++ line).length ≤ 2 ^ 31 ∧
      if newline ∉ line ∧ (text ++ line).length + 1 = bufferSize size (text ++ line).length then Roomy [] 512 lines
      else if lastButOne (text ++ line) = some (ch '\\') then
        Roomy (text ++ line).dropLast.dropLast (bufferSize size (text ++ line).length) lines
      else Roomy [] 512 lines

theorem lastButOne_two (front : Bytes) (a b : UInt8) : lastButOne (front ++ [a, b]) = some a := by
  have hsplit : front ++ [a, b] = (front ++ [a]) ++ [b] := by simp
  unfold lastButOne
  rw [hsplit, List.dropLast_concat, List.getLast?_concat]

theorem dropLast_two (front : Bytes) (a b : UInt8) : (front ++ [a, b]).dropLast.dropLast = front := by
  have hsplit : front ++ [a, b] = (front ++ [a]) ++ [b] := by simp
  rw [hsplit, List.dropLast_concat, List.dropLast_concat]

theorem exists_snoc {text : Bytes} (hne : text ≠ []) : ∃ init c, text = init ++ [c] := by
  rcases List.eq_nil_or_concat text with h | ⟨init, c, h⟩
  · exact absurd h hne
  · exact ⟨init, c, h.trans List.concat_eq_append⟩

/-- A text has no characters, one, or more. -/
theorem text_cases (text : Bytes) : text = [] ∨ (∃ c, text = [c]) ∨ ∃ front a b, text = front ++ [a, b] := by
  rcases List.eq_nil_or_concat text with h | ⟨init, b, rfl⟩
  · exact .inl h
  · rcases List.eq_nil_or_concat init with rfl | ⟨front, a, rfl⟩
    · exact .inr (.inl ⟨b, rfl⟩)
    · exact .inr (.inr ⟨front, a, b, by simp⟩)

open LineState

/-! ### One call -/

/-- What one call has done: there was no more, or the block and the line number are the next, and
the lines behind it are still to come. -/
def Returns (lines : List (Bytes × ℕ)) (s : LineState) : Prop :=
  (s.pos = 0 ∧ lines = []) ∨
    (s.pos ≠ 0 ∧ lines = (s.block, s.lineNumber) :: codeLines [] 512 s.lineNumber (splitLines s.file) ∧
      Roomy [] 512 (splitLines s.file) ∧ 0 ∉ s.file)

section

variable {text behind rest : Bytes} {size lineNumber : ℕ}

/-- A line that is not continued is returned. -/
theorem returns_holding (front : Bytes) {c : UInt8} (size lineNumber : ℕ) (h0 : 0 ∉ front ++ [c]) {line : Bytes}
    (hc : c = newline ↔ newline ∈ line) (hroomy : Roomy [] 512 (splitLines rest)) (hrest : 0 ∉ rest) :
    Returns
      (if newline ∈ line then (front ++ [0, 0], lineNumber) :: codeLines [] 512 lineNumber (splitLines rest)
        else (front ++ [c] ++ [0], lineNumber) :: codeLines [] 512 lineNumber (splitLines rest))
      (holding (front ++ [c]) [0] rest size lineNumber) := by
  have hpos : (front ++ [c]).length = front.length + 1 := by simp
  have hline : front ++ [c] ++ [0] = front ++ c :: 0 :: [] := by simp
  refine .inr ⟨by simp [holding], ?_, hroomy, hrest⟩
  unfold holding
  by_cases hnl : newline ∈ line
  · rw [if_pos hnl, hpos, hline, hc.mpr hnl, block_newline fun hm => h0 (List.mem_append_left _ hm)]
  · rw [if_neg hnl, hpos, hline, block_last h0 fun he => hnl (hc.mp he)]

/-- What is done at the end of a line of the file, if what comes behind it is known. -/
theorem returns_lineRead {readOn : LineState → LineState} {line : Bytes} (hne : line ≠ [])
    (hend : ∀ front c, line = front ++ [c] → (c = newline ↔ newline ∈ line))
    (h0 : 0 ∉ text ++ line) (hrest : 0 ∉ rest)
    (hexact : ¬ (newline ∉ line ∧ (text ++ line).length + 1 = bufferSize size (text ++ line).length))
    (hroomy : Roomy text size (line :: splitLines rest))
    (hon : ∀ front b, text ++ line = front ++ [ch '\\', b] →
      Roomy front (bufferSize size (text ++ line).length) (splitLines rest) →
      Returns (codeLines front (bufferSize size (text ++ line).length) (lineNumber + 1) (splitLines rest))
        (readOn (holding front [ch '\\', b, 0] rest (bufferSize size (text ++ line).length) (lineNumber + 1)))) :
    Returns (codeLines text size lineNumber (line :: splitLines rest))
      (lineRead readOn (holding (text ++ line) [0] rest (bufferSize size (text ++ line).length) lineNumber)) := by
  obtain ⟨init, c, hline⟩ := exists_snoc hne
  have hc := hend init c hline
  have hu : text ++ line = text ++ init ++ [c] := by rw [hline, List.append_assoc]
  obtain ⟨-, -, hnext⟩ := hroomy
  rw [if_neg hexact] at hnext
  rw [codeLines, if_neg hexact]
  generalize bufferSize size (text ++ line).length = size' at hnext hon ⊢
  rcases text_cases (text ++ line) with h | ⟨x, h⟩ | ⟨front, a, b, h⟩
  · rw [hu] at h
    exact absurd h (by simp)
  · -- the line is a single character
    have hlast : lastButOne (text ++ line) = none := by rw [h]; rfl
    rw [hlast] at hnext ⊢
    simp only [reduceCtorEq, if_false] at hnext ⊢
    obtain rfl : c = x := by
      have hx := hu.symm.trans h
      simpa using congrArg List.getLast? hx
    rw [h] at h0 ⊢
    rw [lineRead_one]
    exact returns_holding [] size' (lineNumber + 1) h0 hc hnext hrest
  · obtain rfl : c = b := by
      have hx := hu.symm.trans h
      simpa using congrArg List.getLast? hx
    rw [h, lastButOne_two, dropLast_two] at hnext ⊢
    rw [lineRead_two]
    by_cases hback : a = ch '\\'
    · subst hback
      rw [if_pos rfl] at hnext ⊢
      rw [if_pos rfl]
      exact hon front c h hnext
    · have hback' : ¬ some a = some (ch '\\') := fun he => hback (Option.some.inj he)
      rw [if_neg hback'] at hnext ⊢
      rw [if_neg hback]
      rw [h] at h0
      by_cases hcr : a = ch '\r'
      · subst hcr
        rw [if_pos rfl, if_pos rfl]
        refine .inr ⟨Nat.succ_ne_zero _, ?_, hnext, hrest⟩
        rw [block_newline (fun hm => h0 (List.mem_append_left _ hm))]
      · have hcr' : ¬ some a = some (ch '\r') := fun he => hcr (Option.some.inj he)
        rw [if_neg hcr', if_neg hcr]
        have hsplit : front ++ [a, c] = front ++ [a] ++ [c] := by simp
        rw [hsplit] at h0 ⊢
        rw [List.dropLast_concat]
        exact returns_holding (front ++ [a]) size' (lineNumber + 1) h0 hc hnext hrest

theorem notMem_snoc {body : Bytes} (h0 : 0 ∉ body) : 0 ∉ body ++ [newline] := fun hc => by
  rcases List.mem_append.mp hc with hc | hc
  · exact h0 hc
  · exact absurd (List.mem_singleton.mp hc) (by decide)

theorem snoc_inj {body front : Bytes} {b c : UInt8} (h : body ++ [b] = front ++ [c]) : body = front ∧ b = c := by
  obtain ⟨h1, h2⟩ := List.append_inj' h rfl
  exact ⟨h1, (List.cons.inj h2).1⟩

/-- There is no more, whether or not text is continued. -/
theorem returns_end (n : ℕ) (h0 : 0 ∉ text) (hbehind : text ≠ [] → ∃ b, b ≠ 0 ∧ behind = [ch '\\', b, 0]) :
    Returns (codeLines text size lineNumber []) (readLoop n (holding text behind [] size lineNumber)) := by
  rw [readLoop_end]
  by_cases htext : text = []
  · subst htext
    exact .inl ⟨rfl, rfl⟩
  · obtain ⟨b, hb, rfl⟩ := hbehind htext
    refine .inr ⟨Nat.pos_iff_ne_zero.mp (List.length_pos_iff.mpr htext), ?_, trivial, List.not_mem_nil⟩
    rw [block_stale h0 hb, codeLines, if_neg htext]
    rfl

/-- The loop goes through the lines of the file as long as they are continued; the induction is on
what is left of the file. -/
theorem returns_readLoop (k : ℕ) {file : Bytes} {n : ℕ} (hk : file.length < k) (hn : file.length < n)
    (h0 : 0 ∉ text ++ file) (hsize : text.length + 1 < size) (hroomy : Roomy text size (splitLines file))
    (hbehind : text ≠ [] → ∃ b, b ≠ 0 ∧ behind = [ch '\\', b, 0]) :
    Returns (codeLines text size lineNumber (splitLines file)) (readLoop n (holding text behind file size lineNumber)) := by
  induction k generalizing text behind size lineNumber file n with
  | zero => omega
  | succ k ih =>
    rw [List.mem_append, not_or] at h0
    rcases file_cases file with rfl | ⟨body, rest, rfl, hbody⟩ | ⟨hne, hbody⟩
    · exact returns_end n h0.1 hbehind
    · have hfile : (body ++ newline :: rest).length = body.length + 1 + rest.length := by
        rw [List.length_append, List.length_cons]
        omega
      have h0body : 0 ∉ body := fun hc => h0.2 (List.mem_append_left _ hc)
      have h0rest : 0 ∉ rest := fun hc => h0.2 (List.mem_append_right _ (List.mem_cons_of_mem _ hc))
      rw [splitLines_line hbody] at hroomy ⊢
      have htotal : text.length + body.length + 1 = (text ++ (body ++ [newline])).length := by
        simp only [List.length_append, List.length_singleton]
        omega
      rw [hfile] at hk hn
      obtain ⟨m, hm, heq⟩ := readLoop_terminated (body.length + 1) (Nat.lt_succ_self _) hn hroomy.1 hsize hbody h0body
        (by rw [htotal]; exact hroomy.2.1)
      rw [heq, htotal]
      have h0line : 0 ∉ text ++ (body ++ [newline]) := fun hc => by
        rcases List.mem_append.mp hc with hc | hc
        · exact h0.1 hc
        · exact notMem_snoc h0body hc
      refine returns_lineRead (by simp) (fun front c hc => ?_) h0line h0rest (fun hc => hc.1 (by simp)) hroomy
        fun front b hline hnext => ?_
      · obtain ⟨rfl, rfl⟩ := snoc_inj hc
        exact iff_of_true rfl (by simp)
      · have hlen : front.length + 2 = (text ++ (body ++ [newline])).length := by rw [hline]; simp
        have hlt := lt_bufferSize (by omega : 0 < size) (text ++ (body ++ [newline])).length
        have hfront : ∀ c ∈ front, c ∈ text ++ (body ++ [newline]) := fun c hc => by
          rw [hline]
          exact List.mem_append_left _ hc
        refine ih (by omega) hm (fun hc => ?_) (by omega) hnext fun _ => ⟨b, fun hb => h0line ?_, rfl⟩
        · rcases List.mem_append.mp hc with hc | hc
          · exact h0line (hfront 0 hc)
          · exact h0rest hc
        · rw [hline, ← hb]
          simp
    · rw [splitLines_last hbody hne] at hroomy ⊢
      have htotal : text.length + file.length = (text ++ file).length := List.length_append.symm
      have h0line : 0 ∉ text ++ file := fun hc => (List.mem_append.mp hc).elim h0.1 h0.2
      obtain ⟨m, heq⟩ := readLoop_last (file.length + 1) (Nat.lt_succ_self _) hn hne hroomy.1 hsize hbody h0.2
        (by rw [htotal]; exact hroomy.2.1)
      rw [heq, htotal]
      by_cases hexact : (text ++ file).length + 1 = bufferSize size (text ++ file).length
      · rw [if_pos hexact, codeLines, if_pos ⟨hbody, hexact⟩]
        obtain ⟨init, c, hinit⟩ := exists_snoc hne
        have hc : c ≠ newline := fun he => hbody (by rw [hinit, he]; simp)
        have hline : text ++ file = text ++ init ++ [c] := by rw [hinit, List.append_assoc]
        have hret := returns_holding (text ++ init) (bufferSize size (text ++ file).length * 2) lineNumber
          (by rw [← hline]; exact h0line) (iff_of_false hc hbody) (show Roomy [] 512 (splitLines []) from trivial)
          List.not_mem_nil
        rw [if_neg hbody, ← hline] at hret
        exact hret
      · rw [if_neg hexact]
        refine returns_lineRead hne (fun front c hc => ?_) h0line List.not_mem_nil (fun hc => hexact hc.2) hroomy
          fun front b hline hnext => returns_end m ?_ fun _ => ⟨b, ?_, rfl⟩
        · exact iff_of_false (fun he => hbody (by rw [hc, he]; simp)) hbody
        · exact fun hc => h0line (by rw [hline]; exact List.mem_append_left _ hc)
        · exact fun hb => h0line (by rw [hline, hb]; simp)

end

/-! ### All calls -/

theorem length_upToNewline_le (n : ℕ) (file : Bytes) : (upToNewline n file).length ≤ file.length := by
  induction file generalizing n with
  | nil => cases n <;> exact Nat.le_refl _
  | cons c cs ih =>
    cases n with
    | zero => exact Nat.zero_le _
    | succ n =>
      have hrest := ih n
      rw [upToNewline]
      split
      · simp
      · simp only [List.length_cons]
        omega

/-- The position never gets further than the file has been read. -/
theorem pos_readLoop_le (n : ℕ) (s : LineState) :
    (readLoop n s).pos + (readLoop n s).file.length ≤ s.pos + s.file.length := by
  induction n generalizing s with
  | zero => exact Nat.le_refl _
  | succ n ih =>
    have hread : s.xfgets.1 + s.xfgets.2.file.length ≤ s.file.length ∧ s.xfgets.2.pos = s.pos := by
      unfold xfgets
      generalize toInt (s.size - s.pos) = size
      unfold fgets
      by_cases hnull : size ≤ 0 ∨ s.file = []
      · rw [if_pos hnull, store]
        exact ⟨(Nat.zero_add _).le, rfl⟩
      · rw [if_neg hnull, store]
        refine ⟨?_, rfl⟩
        have hle := length_upToNewline_le (size - 1).toNat s.file
        have hcstr := List.IsPrefix.length_le <| cstr_prefix (upToNewline (size - 1).toNat s.file)
        show (cstr _).length + (s.file.drop _).length ≤ _
        rw [List.length_drop]
        omega
    rw [readLoop]
    generalize s.xfgets = x at hread
    obtain ⟨len, t⟩ := x
    obtain ⟨hlen, hpos⟩ := hread
    simp only at hlen hpos
    cases len with
    | zero =>
      rw [loopBody, hpos]
      omega
    | succ len =>
      rw [loopBody]
      simp only
      split
      · refine (ih _).trans ?_
        show t.pos + (len + 1) + t.file.length ≤ _
        omega
      · unfold lineRead
        split
        · refine (ih _).trans ?_
          show t.pos + (len + 1) - 2 + t.file.length ≤ _
          omega
        · split
          · show t.pos + (len + 1) - 1 + t.file.length ≤ _
            omega
          · show t.pos + (len + 1) + t.file.length ≤ _
            omega

/-- **The line reader.** If the sizes for `fgets()` fit into an `int`, the calls of
`read_conf_line()` return what `codeLines` says. -/
theorem readConfLines_eq (k : ℕ) {f : ConfFile} (hk : f.file.length < k) (h0 : 0 ∉ f.file)
    (hroomy : Roomy [] 512 (splitLines f.file)) :
    readConfLines k f = codeLines [] 512 f.lineNumber (splitLines f.file) := by
  induction k generalizing f with
  | zero => omega
  | succ k ih =>
    have hret : Returns (codeLines [] 512 f.lineNumber (splitLines f.file))
        (readLoop (f.file.length + 1) (holding [] [] f.file 512 f.lineNumber)) :=
      returns_readLoop (f.file.length + 1) (Nat.lt_succ_self _) (Nat.lt_succ_self _) h0 (by simp) hroomy
        fun hc => absurd rfl hc
    have hle := pos_readLoop_le (f.file.length + 1) (holding [] [] f.file 512 f.lineNumber)
    have hcall : readConfLine f =
        (readLoop (f.file.length + 1) (holding [] [] f.file 512 f.lineNumber)).result := rfl
    obtain ⟨s, hs⟩ : ∃ s, readLoop (f.file.length + 1) (holding [] [] f.file 512 f.lineNumber) = s := ⟨_, rfl⟩
    have hstart : (holding [] [] f.file 512 f.lineNumber).pos + (holding [] [] f.file 512 f.lineNumber).file.length =
      f.file.length := Nat.zero_add _
    rw [hs] at hret hle hcall
    rw [readConfLines, hcall, LineState.result]
    rcases hret with ⟨hpos, hlines⟩ | ⟨hpos, hlines, hroomy', h0'⟩
    · rw [if_pos hpos, hlines, followed]
    · rw [if_neg hpos, hlines, followed]
      have hrest := ih (f := ⟨s.file, s.lineNumber⟩) (show s.file.length < k by omega) h0' hroomy'
      exact congrArg ((s.block, s.lineNumber) :: ·) hrest

end NscaNg.Client
