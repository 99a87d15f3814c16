/-
# Logical lines

What `read_conf_line()` is for: the lines of a file with those joined that are continued, each
without its LF or CRLF. The code returns them except for a few kinds of files (`WellRead`): where a
continued line is the last one, where an empty line follows continued text that ends in a backslash
itself, where the last line has no newline and a backslash or a CR for its last character but one,
and where a line is too long for an `int`.
-/
import NscaNg.Client.ConfLines

namespace NscaNg.Client

open Posix

/-- A text without the LF or CRLF at its end. -/
def stripEnd (text : Bytes) : Bytes :=
  if text.getLast? = some newline then
    if lastButOne text = some (ch '\r') then text.dropLast.dropLast else text.dropLast
  else text

/-- The logical lines from a point on, where there may be text that is continued. -/
def joinLines : Option Bytes → List Bytes → List Bytes
  | none, [] => []
  | some joined, [] => [joined]
  | before, line :: lines =>
    if [ch '\\', newline] <:+ line then joinLines (some (before.getD [] ++ line.dropLast.dropLast)) lines
    else stripEnd (before.getD [] ++ line) :: joinLines none lines

/-- The logical lines of a file. -/
def logicalLines (content : Bytes) : List Bytes := joinLines none (splitLines content)

/-- The strings that are returned, and that each fits into its block with its NUL. -/
def Strings (returned : List (Bytes × ℕ)) (strings : List Bytes) : Prop :=
  returned.map (fun r => cstr r.1) = strings ∧ ∀ r ∈ returned, 0 ∈ r.1

/-- However often `read_conf_line()` may be called, the logical lines are returned, and then there
is no more. -/
def ReadsLogicalLines (content : Bytes) : Prop :=
  ∀ calls, content.length < calls → Strings (readConfLines calls ⟨content, 0⟩) (logicalLines content)

/-- None of the lines from a point on is of a kind that is not read as it should be. -/
def WellRead : Option Bytes → ℕ → List Bytes → Prop
  | none, _, [] => True
  | some _, _, [] => False
  | before, size, line :: lines =>
    (before.getD [] ++ line).length < 2 ^ 31 ∧
      if [ch '\\', newline] <:+ line then
        WellRead (some (before.getD [] ++ line.dropLast.dropLast))
          (bufferSize size (before.getD [] ++ line).length) lines
      else if newline ∈ line then
        lastButOne (before.getD [] ++ line) ≠ some (ch '\\') ∧ WellRead none 512 lines
      else
        ((before.getD [] ++ line).length + 1 = bufferSize size (before.getD [] ++ line).length ∨
          (lastButOne (before.getD [] ++ line) ≠ some (ch '\\') ∧
            lastButOne (before.getD [] ++ line) ≠ some (ch '\r'))) ∧ WellRead none 512 lines

theorem joinLines_cons (before : Option Bytes) (line : Bytes) (lines : List Bytes) :
    joinLines before (line :: lines) =
      if [ch '\\', newline] <:+ line then joinLines (some (before.getD [] ++ line.dropLast.dropLast)) lines
      else stripEnd (before.getD [] ++ line) :: joinLines none lines := by
  cases before <;> rfl

theorem wellRead_cons (before : Option Bytes) (size : ℕ) (line : Bytes) (lines : List Bytes) :
    WellRead before size (line :: lines) ↔ (before.getD [] ++ line).length < 2 ^ 31 ∧
      if [ch '\\', newline] <:+ line then
        WellRead (some (before.getD [] ++ line.dropLast.dropLast))
          (bufferSize size (before.getD [] ++ line).length) lines
      else if newline ∈ line then
        lastButOne (before.getD [] ++ line) ≠ some (ch '\\') ∧ WellRead none 512 lines
      else
        ((before.getD [] ++ line).length + 1 = bufferSize size (before.getD [] ++ line).length ∨
          (lastButOne (before.getD [] ++ line) ≠ some (ch '\\') ∧
            lastButOne (before.getD [] ++ line) ≠ some (ch '\r'))) ∧ WellRead none 512 lines := by
  cases before <;> rfl

instance decidableWellRead (before : Option Bytes) (size : ℕ) (lines : List Bytes) :
    Decidable (WellRead before size lines) :=
  match before, lines with
  | none, [] => .isTrue trivial
  | some _, [] => .isFalse id
  | before, line :: lines =>
    have := decidableWellRead (some (before.getD [] ++ line.dropLast.dropLast))
      (bufferSize size (before.getD [] ++ line).length) lines
    have := decidableWellRead none 512 lines
    decidable_of_iff _ (wellRead_cons before size line lines).symm

/-! ### The lines of a file -/

/-- A line is not empty, has no NUL, and a newline only at its end. -/
def IsLine (line : Bytes) : Prop := line ≠ [] ∧ 0 ∉ line ∧ newline ∉ line.dropLast

theorem isLine_splitLines {content : Bytes} (h0 : 0 ∉ content) : ∀ line ∈ splitLines content, IsLine line := by
  induction content with
  | nil => exact fun line h => absurd h List.not_mem_nil
  | cons c cs ih =>
    rw [List.mem_cons, not_or] at h0
    have ih := ih h0.2
    rw [splitLines]
    by_cases hc : c = newline
    · rw [if_pos hc]
      intro line hline
      rcases List.mem_cons.mp hline with rfl | hline
      · refine ⟨List.cons_ne_nil _ _, ?_, List.not_mem_nil⟩
        rw [List.mem_singleton]
        exact h0.1
      · exact ih line hline
    · rw [if_neg hc]
      generalize splitLines cs = lines at ih
      have hmem : ∀ l : Bytes, 0 ∉ l → 0 ∉ c :: l := fun l hl hm => (List.mem_cons.mp hm).elim h0.1 hl
      cases lines with
      | nil =>
        intro line hline
        rw [List.mem_singleton.mp hline]
        exact ⟨List.cons_ne_nil _ _, hmem [] List.not_mem_nil, List.not_mem_nil⟩
      | cons first lines =>
        intro line hline
        rcases List.mem_cons.mp hline with rfl | hline
        · obtain ⟨hne, hnul, hnl⟩ := ih first List.mem_cons_self
          refine ⟨List.cons_ne_nil _ _, hmem first hnul, ?_⟩
          rw [List.dropLast_cons_of_ne_nil hne]
          exact fun hm => (List.mem_cons.mp hm).elim (fun he => hc he.symm) hnl
        · exact ih line (List.mem_cons_of_mem _ hline)

theorem IsLine.newline_iff {line : Bytes} (h : IsLine line) (text : Bytes) :
    newline ∈ line ↔ (text ++ line).getLast? = some newline := by
  obtain ⟨init, c, rfl⟩ := exists_snoc h.1
  have hinit := h.2.2
  rw [List.dropLast_concat] at hinit
  rw [← List.append_assoc, List.getLast?_concat, Option.some.injEq, List.mem_append, List.mem_singleton]
  exact ⟨fun hm => (hm.resolve_left hinit).symm, fun he => .inr he.symm⟩

/-- A line that is continued ends in a backslash before its newline. -/
theorem continued_iff {line : Bytes} : [ch '\\', newline] <:+ line ↔ ∃ front, line = front ++ [ch '\\', newline] :=
  ⟨fun ⟨front, h⟩ => ⟨front, h.symm⟩, fun ⟨front, h⟩ => ⟨front, h.symm⟩⟩

/-! ### Sizes -/

theorem enlarge_bounds {length bound : ℕ} (hlen : length < bound) (n size : ℕ) (hpow : ∃ j, bound = size * 2 ^ j) :
    (∃ j, bound = enlarge length n size * 2 ^ j) ∧ (enlarge length n size = size ∨ enlarge length n size ≤ 2 * length) := by
  induction n generalizing size with
  | zero => exact ⟨hpow, .inl rfl⟩
  | succ n ih =>
    rw [enlarge]
    by_cases hs : length < size
    · rw [if_pos hs]
      exact ⟨hpow, .inl rfl⟩
    · rw [if_neg hs]
      obtain ⟨j, hj⟩ := hpow
      cases j with
      | zero => omega
      | succ j =>
        have hdouble : bound = size * 2 * 2 ^ j := by rw [hj, Nat.pow_succ', Nat.mul_assoc]
        obtain ⟨hpow', hle⟩ := ih (size * 2) ⟨j, hdouble⟩
        exact ⟨hpow', .inr (by omega)⟩

/-- The buffer is a doubling or more below the bound, and no larger than what it held so far asks
for. -/
def Fits (bound : ℕ) (text : Bytes) (size : ℕ) : Prop :=
  (∃ j, bound = size * 2 ^ j) ∧ (size = 512 ∨ size ≤ 2 * (text.length + 2))

theorem Fits.le {bound : ℕ} {text : Bytes} {size : ℕ} (h : Fits bound text size) : size ≤ bound := by
  obtain ⟨⟨j, rfl⟩, -⟩ := h
  exact Nat.le_mul_of_pos_right _ (Nat.two_pow_pos j)

theorem fits_start (k : ℕ) : Fits (512 * 2 ^ k) [] 512 := ⟨⟨k, rfl⟩, .inl rfl⟩

theorem bufferSize_le {bound size length : ℕ} (hlen : length < bound) (hpow : ∃ j, bound = size * 2 ^ j) :
    bufferSize size length ≤ bound := by
  obtain ⟨⟨j, hj⟩, -⟩ := enlarge_bounds hlen length size hpow
  calc bufferSize size length ≤ bufferSize size length * 2 ^ j := Nat.le_mul_of_pos_right _ (Nat.two_pow_pos j)
    _ = bound := hj.symm

/-- A buffer goes on with the text that is continued. -/
theorem Fits.next {bound size : ℕ} {text text' : Bytes} {length : ℕ} (h : Fits bound text size)
    (hlen : length < bound) (htext : text.length ≤ text'.length) (hcut : text'.length + 2 = length) :
    Fits bound text' (bufferSize size length) := by
  obtain ⟨hpow, hsize⟩ := h
  obtain ⟨hpow', hle⟩ := enlarge_bounds hlen length size hpow
  refine ⟨hpow', ?_⟩
  show enlarge length length size = 512 ∨ enlarge length length size ≤ 2 * (text'.length + 2)
  omega

/-- The first read goes into what is left of the buffer. -/
theorem Fits.room {text : Bytes} {size : ℕ} (h : Fits (2 ^ 31) text size) : size - text.length < 2 ^ 31 := by
  obtain ⟨⟨j, hj⟩, hsize⟩ := h
  cases j with
  | zero =>
    rw [Nat.pow_zero, Nat.mul_one] at hj
    omega
  | succ j =>
    have hpos := Nat.two_pow_pos j
    have hhalf : size * 2 ≤ 2 ^ 31 := by
      rw [hj, Nat.pow_succ', ← Nat.mul_assoc]
      exact Nat.le_mul_of_pos_right _ hpos
    omega

/-- A continued line has a backslash before its last character, whatever text it is put behind. -/
theorem lastButOne_continued {line : Bytes} (h : [ch '\\', newline] <:+ line) (text : Bytes) :
    lastButOne (text ++ line) = some (ch '\\') ∧
      (text ++ line).dropLast.dropLast = text ++ line.dropLast.dropLast ∧ newline ∈ line ∧ 2 ≤ line.length := by
  obtain ⟨front, rfl⟩ := continued_iff.mp h
  rw [← List.append_assoc, lastButOne_two, dropLast_two, dropLast_two]
  exact ⟨rfl, rfl, by simp, by simp⟩

theorem roomy_of_wellRead {lines : List Bytes} (before : Option Bytes) {size : ℕ}
    (hfits : Fits (2 ^ 31) (before.getD []) size) (h : WellRead before size lines) :
    Roomy (before.getD []) size lines := by
  induction lines generalizing before size with
  | nil => trivial
  | cons line lines ih =>
    obtain ⟨hlen, hnext⟩ := (wellRead_cons before size line lines).mp h
    have hstart : Fits (2 ^ 31) ((none : Option Bytes).getD []) 512 := fits_start 22
    refine ⟨hfits.room, bufferSize_le hlen hfits.1, ?_⟩
    by_cases hcont : [ch '\\', newline] <:+ line
    · obtain ⟨hlast, hdrop, hnl, htwo⟩ := lastButOne_continued hcont (before.getD [])
      rw [if_pos hcont] at hnext
      rw [if_neg fun hc => hc.1 hnl, if_pos hlast, hdrop]
      refine ih (some _) ?_ hnext
      refine hfits.next hlen ?_ ?_
      · show _ ≤ (before.getD [] ++ line.dropLast.dropLast).length
        rw [List.length_append]
        omega
      · show (before.getD [] ++ line.dropLast.dropLast).length + 2 = _
        simp only [List.length_append, List.length_dropLast]
        omega
    · rw [if_neg hcont] at hnext
      by_cases hnl : newline ∈ line
      · rw [if_pos hnl] at hnext
        rw [if_neg fun hc => hc.1 hnl, if_neg hnext.1]
        exact ih none hstart hnext.2
      · rw [if_neg hnl] at hnext
        by_cases hexact : (before.getD [] ++ line).length + 1 = bufferSize size (before.getD [] ++ line).length
        · rw [if_pos ⟨hnl, hexact⟩]
          exact ih none hstart hnext.2
        · rw [if_neg fun hc => hexact hc.2, if_neg (hnext.1.resolve_left hexact).1]
          exact ih none hstart hnext.2

theorem roomy_of_short {lines : List Bytes} {text : Bytes} {size : ℕ} (hpow : ∃ j, 2 ^ 30 = size * 2 ^ j)
    (hlen : text.length + lines.flatten.length < 2 ^ 30) : Roomy text size lines := by
  induction lines generalizing text size with
  | nil => trivial
  | cons line lines ih =>
    rw [List.flatten_cons, List.length_append] at hlen
    have hline : (text ++ line).length < 2 ^ 30 := by
      rw [List.length_append]
      omega
    have hsize : size ≤ 2 ^ 30 := by
      obtain ⟨j, hj⟩ := hpow
      rw [hj]
      exact Nat.le_mul_of_pos_right _ (Nat.two_pow_pos j)
    have hbig := bufferSize_le hline hpow
    have hstart : Roomy [] 512 lines := ih ⟨21, rfl⟩ (by rw [List.length_nil]; omega)
    refine ⟨by omega, by omega, ?_⟩
    split
    · exact hstart
    · split
      · refine ih (enlarge_bounds hline _ _ hpow).1 ?_
        rw [List.length_dropLast, List.length_dropLast, List.length_append]
        omega
      · exact hstart

theorem flatten_splitLines (content : Bytes) : (splitLines content).flatten = content := by
  induction content with
  | nil => rfl
  | cons c cs ih =>
    rw [splitLines]
    by_cases hc : c = newline
    · rw [if_pos hc, List.flatten_cons, ih, hc]
      rfl
    · rw [if_neg hc]
      generalize splitLines cs = lines at ih
      cases lines with
      | nil =>
        rw [← ih]
        rfl
      | cons line lines =>
        rw [← ih]
        rfl

/-! ### Files that are read as they should be -/

theorem cstr_block {text : Bytes} (h : 0 ∉ text) : cstr (text ++ [0, 0]) = text ∧ cstr (text ++ [0]) = text :=
  ⟨LineState.cstr_append_nul h [0], LineState.cstr_append_nul h []⟩

theorem notMem_dropLast {text : Bytes} (h : 0 ∉ text) : 0 ∉ text.dropLast := fun hc => h (List.dropLast_subset _ hc)

/-- A text that is returned is without its LF or CRLF. -/
theorem stripEnd_line {line text : Bytes} (hline : IsLine line) : stripEnd (text ++ line) =
    if newline ∈ line then
      if lastButOne (text ++ line) = some (ch '\r') then (text ++ line).dropLast.dropLast else (text ++ line).dropLast
    else text ++ line := by
  unfold stripEnd
  by_cases hnl : newline ∈ line
  · rw [if_pos hnl, if_pos ((hline.newline_iff text).mp hnl)]
  · rw [if_neg hnl, if_neg fun hc => hnl ((hline.newline_iff text).mpr hc)]

theorem strings_cons {block text : Bytes} {lineNumber : ℕ} {returned : List (Bytes × ℕ)} {strings : List Bytes} :
    Strings ((block, lineNumber) :: returned) (text :: strings) ↔
      cstr block = text ∧ 0 ∈ block ∧ Strings returned strings := by
  unfold Strings
  rw [List.map_cons, List.cons.injEq, List.forall_mem_cons]
  exact ⟨fun ⟨⟨h1, h2⟩, h3, h4⟩ => ⟨h1, h3, h2, h4⟩, fun ⟨h1, h3, h2, h4⟩ => ⟨⟨h1, h2⟩, h3, h4⟩⟩

theorem strings_of_wellRead {lines : List Bytes} (before : Option Bytes) {size : ℕ} (lineNumber : ℕ)
    (hlines : ∀ line ∈ lines, IsLine line) (h0 : 0 ∉ before.getD []) (h : WellRead before size lines) :
    Strings (codeLines (before.getD []) size lineNumber lines) (joinLines before lines) := by
  induction lines generalizing before size lineNumber with
  | nil =>
    cases before with
    | none => exact ⟨rfl, fun _ hr => absurd hr List.not_mem_nil⟩
    | some text => exact h.elim
  | cons line lines ih =>
    obtain ⟨-, hnext⟩ := (wellRead_cons before size line lines).mp h
    have hline := hlines line List.mem_cons_self
    have hrest : ∀ l ∈ lines, IsLine l := fun l hl => hlines l (List.mem_cons_of_mem _ hl)
    have htext : 0 ∉ before.getD [] ++ line := fun hc => (List.mem_append.mp hc).elim h0 hline.2.1
    have ih' : ∀ n, WellRead none 512 lines → Strings (codeLines [] 512 n lines) (joinLines none lines) :=
      fun n hw => ih none n hrest List.not_mem_nil hw
    rw [joinLines_cons, codeLines]
    by_cases hcont : [ch '\\', newline] <:+ line
    · obtain ⟨hlast, hdrop, hnl, -⟩ := lastButOne_continued hcont (before.getD [])
      rw [if_pos hcont] at hnext ⊢
      rw [if_neg fun hc => hc.1 hnl, if_pos hlast]
      have hcut : 0 ∉ before.getD [] ++ line.dropLast.dropLast := hdrop ▸ notMem_dropLast (notMem_dropLast htext)
      rw [hdrop]
      exact ih (some _) (lineNumber + 1) hrest hcut hnext
    · rw [if_neg hcont] at hnext ⊢
      rw [stripEnd_line hline]
      by_cases hnl : newline ∈ line
      · rw [if_pos hnl] at hnext ⊢
        rw [if_neg fun hc => hc.1 hnl, if_neg hnext.1, if_pos hnl]
        split
        · refine strings_cons.mpr ⟨(cstr_block ?_).1, by simp, ih' _ hnext.2⟩
          exact notMem_dropLast (notMem_dropLast htext)
        · exact strings_cons.mpr ⟨(cstr_block (notMem_dropLast htext)).1, by simp, ih' _ hnext.2⟩
      · rw [if_neg hnl] at hnext ⊢
        by_cases hexact : (before.getD [] ++ line).length + 1 = bufferSize size (before.getD [] ++ line).length
        · rw [if_pos ⟨hnl, hexact⟩, if_neg hnl]
          exact strings_cons.mpr ⟨(cstr_block htext).2, by simp, ih' _ hnext.2⟩
        · obtain ⟨hback, hcr⟩ := hnext.1.resolve_left hexact
          rw [if_neg fun hc => hexact hc.2, if_neg hback, if_neg hcr, if_neg hnl]
          exact strings_cons.mpr ⟨(cstr_block htext).2, by simp, ih' _ hnext.2⟩

/-! ### Files that are not -/

/-- Where each block has its NUL, there are no more of them than logical lines. -/
theorem length_codeLines_le {lines : List Bytes} {text : Bytes} (size : ℕ) {lineNumber : ℕ} (before : Option Bytes)
    (hlines : ∀ line ∈ lines, IsLine line) (h0 : 0 ∉ text)
    (hnul : ∀ r ∈ codeLines text size lineNumber lines, 0 ∈ r.1) :
    (codeLines text size lineNumber lines).length ≤ (joinLines before lines).length := by
  induction lines generalizing text size lineNumber before with
  | nil =>
    rw [codeLines] at hnul ⊢
    by_cases htext : text = []
    · rw [if_pos htext]
      exact Nat.zero_le _
    · rw [if_neg htext] at hnul
      rcases List.mem_append.mp (hnul _ List.mem_cons_self) with hc | hc
      · exact absurd hc h0
      · exact absurd (List.mem_singleton.mp hc) (by decide)
  | cons line lines ih =>
    have hline := hlines line List.mem_cons_self
    have hrest : ∀ l ∈ lines, IsLine l := fun l hl => hlines l (List.mem_cons_of_mem _ hl)
    have htext : 0 ∉ text ++ line := fun hc => (List.mem_append.mp hc).elim h0 hline.2.1
    -- a block is returned, and a logical line ends there too
    have hone : ∀ block n, ¬ [ch '\\', newline] <:+ line → (∀ r ∈ (block, n) :: codeLines [] 512 n lines, 0 ∈ r.1) →
        ((block, n) :: codeLines [] 512 n lines).length ≤ (joinLines before (line :: lines)).length := by
      intro block n hcont hblocks
      rw [joinLines_cons, if_neg hcont, List.length_cons, List.length_cons]
      have hle := ih 512 none hrest List.not_mem_nil fun r hr => hblocks r (List.mem_cons_of_mem _ hr)
      omega
    rw [codeLines] at hnul ⊢
    by_cases hexact : newline ∉ line ∧ (text ++ line).length + 1 = bufferSize size (text ++ line).length
    · rw [if_pos hexact] at hnul ⊢
      exact hone _ _ (fun hc => hexact.1 (lastButOne_continued hc text).2.2.1) hnul
    · rw [if_neg hexact] at hnul ⊢
      by_cases hback : lastButOne (text ++ line) = some (ch '\\')
      · rw [if_pos hback] at hnul ⊢
        have hle := fun b => ih _ b hrest (notMem_dropLast (notMem_dropLast htext)) hnul
        rw [joinLines_cons]
        split
        · exact hle _
        · exact (hle none).trans (Nat.le_succ _)
      · have hcont : ¬ [ch '\\', newline] <:+ line := fun hc => hback (lastButOne_continued hc text).1
        rw [if_neg hback] at hnul ⊢
        split at hnul
        · rename_i hcr
          rw [if_pos hcr]
          exact hone _ _ hcont hnul
        · rename_i hcr
          rw [if_neg hcr]
          split at hnul
          · rename_i hnl
            rw [if_pos hnl]
            exact hone _ _ hcont hnul
          · rename_i hnl
            rw [if_neg hnl]
            exact hone _ _ hcont hnul

/-- If the strings are the logical lines, no line is of a kind that is not read as it should be. -/
theorem wellRead_of_strings {lines : List Bytes} (before : Option Bytes) {size lineNumber : ℕ}
    (hlines : ∀ line ∈ lines, IsLine line) (h0 : 0 ∉ before.getD [])
    (hshort : (before.getD []).length + lines.flatten.length < 2 ^ 31)
    (h : Strings (codeLines (before.getD []) size lineNumber lines) (joinLines before lines)) :
    WellRead before size lines := by
  induction lines generalizing before size lineNumber with
  | nil =>
    cases before with
    | none => trivial
    | some text =>
      -- the text that was to be continued is lost, or has no NUL
      rw [codeLines, joinLines] at h
      by_cases htext : text = []
      · rw [Option.getD_some, if_pos htext] at h
        exact absurd h.1 (by simp)
      · rw [Option.getD_some, if_neg htext, strings_cons] at h
        rcases List.mem_append.mp h.2.1 with hc | hc
        · exact absurd hc h0
        · exact absurd (List.mem_singleton.mp hc) (by decide)
  | cons line lines ih =>
    have hline := hlines line List.mem_cons_self
    have hrest : ∀ l ∈ lines, IsLine l := fun l hl => hlines l (List.mem_cons_of_mem _ hl)
    have htext : 0 ∉ before.getD [] ++ line := fun hc => (List.mem_append.mp hc).elim h0 hline.2.1
    rw [List.flatten_cons, List.length_append] at hshort
    have hlen : (before.getD [] ++ line).length + lines.flatten.length < 2 ^ 31 := by
      rw [List.length_append]
      omega
    have ih' : ∀ n, Strings (codeLines [] 512 n lines) (joinLines none lines) → WellRead none 512 lines :=
      fun n hs => ih none hrest List.not_mem_nil (by rw [Option.getD_none, List.length_nil]; omega) hs
    -- text that is continued by the code alone makes a line less
    have hmerged : ∀ text size' n, 0 ∉ text → ¬ Strings (codeLines text size' n lines)
        (stripEnd (before.getD [] ++ line) :: joinLines none lines) := by
      intro text size' n hnul hs
      have hle := length_codeLines_le _ none hrest hnul hs.2
      have heq := congrArg List.length hs.1
      rw [List.length_map, List.length_cons] at heq
      omega
    rw [joinLines_cons, codeLines] at h
    refine (wellRead_cons before size line lines).mpr ⟨by omega, ?_⟩
    by_cases hcont : [ch '\\', newline] <:+ line
    · obtain ⟨hlast, hdrop, hnl, htwo⟩ := lastButOne_continued hcont (before.getD [])
      rw [if_pos hcont] at h ⊢
      rw [if_neg fun hc => hc.1 hnl, if_pos hlast, hdrop] at h
      refine ih (some _) hrest (hdrop ▸ notMem_dropLast (notMem_dropLast htext)) ?_ h
      show (before.getD [] ++ line.dropLast.dropLast).length + _ < _
      rw [← hdrop, List.length_dropLast, List.length_dropLast]
      omega
    · rw [if_neg hcont] at h ⊢
      have hcut : 0 ∉ (before.getD [] ++ line).dropLast.dropLast := notMem_dropLast (notMem_dropLast htext)
      by_cases hnl : newline ∈ line
      · rw [if_pos hnl]
        rw [if_neg fun hc => hc.1 hnl] at h
        by_cases hback : lastButOne (before.getD [] ++ line) = some (ch '\\')
        · rw [if_pos hback] at h
          exact absurd h (hmerged _ _ _ hcut)
        · rw [if_neg hback, if_pos hnl] at h
          refine ⟨hback, ?_⟩
          split at h
          · exact ih' _ (strings_cons.mp h).2.2
          · exact ih' _ (strings_cons.mp h).2.2
      · rw [if_neg hnl]
        by_cases hexact : (before.getD [] ++ line).length + 1 = bufferSize size (before.getD [] ++ line).length
        · rw [if_pos ⟨hnl, hexact⟩] at h
          exact ⟨.inl hexact, ih' _ (strings_cons.mp h).2.2⟩
        · rw [if_neg fun hc => hexact hc.2] at h
          by_cases hback : lastButOne (before.getD [] ++ line) = some (ch '\\')
          · rw [if_pos hback] at h
            exact absurd h (hmerged _ _ _ hcut)
          · rw [if_neg hback] at h
            by_cases hcr : lastButOne (before.getD [] ++ line) = some (ch '\r')
            · -- two characters are missing
              rw [if_pos hcr, strings_cons, (cstr_block hcut).1, stripEnd_line hline, if_neg hnl] at h
              have hlost := congrArg List.length h.1
              have hpos := List.length_pos_iff.mpr hline.1
              rw [List.length_dropLast, List.length_dropLast, List.length_append] at hlost
              omega
            · rw [if_neg hcr, if_neg hnl] at h
              exact ⟨.inr ⟨hback, hcr⟩, ih' _ (strings_cons.mp h).2.2⟩

/-- **Logical lines.** A file without a NUL: the calls of `read_conf_line()` return its logical
lines, each in a block that has room for it, if no line is of a kind that is not read as it should
be; and for files shorter than a gigabyte only then. -/
theorem readsLogicalLines_of_wellRead {content : Bytes} (h0 : 0 ∉ content) :
    (WellRead none 512 (splitLines content) → ReadsLogicalLines content) ∧
      (content.length < 2 ^ 30 → ReadsLogicalLines content → WellRead none 512 (splitLines content)) := by
  have hlines := isLine_splitLines h0
  have hread : Roomy [] 512 (splitLines content) → ∀ calls, content.length < calls →
      readConfLines calls ⟨content, 0⟩ = codeLines [] 512 0 (splitLines content) :=
    fun hroomy calls hcalls => readConfLines_eq calls (f := ⟨content, 0⟩) hcalls h0 hroomy
  constructor
  · intro h calls hcalls
    rw [hread (roomy_of_wellRead none (fits_start 22) h) calls hcalls]
    exact strings_of_wellRead none 0 hlines List.not_mem_nil h
  · intro hshort h
    have hflat := flatten_splitLines content
    have hroomy : Roomy [] 512 (splitLines content) := by
      refine roomy_of_short ⟨21, rfl⟩ ?_
      rw [hflat, List.length_nil]
      omega
    have hstrings := h (content.length + 1) (Nat.lt_succ_self _)
    rw [hread hroomy _ (Nat.lt_succ_self _)] at hstrings
    refine wellRead_of_strings none hlines List.not_mem_nil ?_ hstrings
    rw [hflat, Option.getD_none, List.length_nil]
    omega

/-- A setting that is continued, with CRLF, and a comment without a newline. -/
theorem readsLogicalLines_setting : ReadsLogicalLines (ascii "port =\\\n 1\r\n# x") :=
  (readsLogicalLines_of_wellRead (by decide)).1 (by decide)

/-- A backslash at the end of the last line is not removed, and the NUL has no room. -/
theorem not_readsLogicalLines_continued :
    ¬ ∀ content : Bytes, 0 ∉ content → ReadsLogicalLines content := by
  intro h
  have hread := h (ascii "a\\\n") (by decide) 4 (by decide)
  exact absurd hread.2 (by decide)

end NscaNg.Client
