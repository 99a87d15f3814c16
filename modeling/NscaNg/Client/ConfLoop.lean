/-
# The loop of the line reader

What the loop of `read_conf_line()` comes to for one line of the file, however often `fgets()` is
called and the buffer is doubled for it: the line stands behind the text that is continued, and the
buffer has the size for both (`readLoop_terminated`, `readLoop_last`). The sizes for `fgets()` must
fit into an `int`; where one does not, the text is cut (`readLoop_overlong`).
-/
import NscaNg.Client.ConfLine

namespace NscaNg.Client

open Posix

/-- The lines of a file, each with its newline. -/
def splitLines : Bytes → List Bytes
  | [] => []
  | c :: cs =>
    if c = newline then [c] :: splitLines cs
    else
      match splitLines cs with
      | [] => [[c]]
      | line :: lines => (c :: line) :: lines

theorem splitLines_line {body : Bytes} (h : newline ∉ body) (rest : Bytes) :
    splitLines (body ++ newline :: rest) = (body ++ [newline]) :: splitLines rest := by
  induction body with
  | nil =>
    show splitLines (newline :: rest) = _
    rw [splitLines, if_pos rfl]
    rfl
  | cons c cs ih =>
    rw [List.mem_cons, not_or] at h
    show splitLines (c :: (cs ++ newline :: rest)) = _
    rw [splitLines, if_neg (Ne.symm h.1), ih h.2]
    rfl

theorem splitLines_last {body : Bytes} (h : newline ∉ body) (hne : body ≠ []) : splitLines body = [body] := by
  induction body with
  | nil => exact absurd rfl hne
  | cons c cs ih =>
    rw [List.mem_cons, not_or] at h
    rw [splitLines, if_neg (Ne.symm h.1)]
    by_cases hcs : cs = []
    · subst hcs
      rfl
    · rw [ih h.2 hcs]

/-- A file is empty, begins with a line, or is one line without a newline. -/
theorem file_cases (file : Bytes) : file = [] ∨
    (∃ body rest, file = body ++ newline :: rest ∧ newline ∉ body) ∨ (file ≠ [] ∧ newline ∉ file) := by
  by_cases hnil : file = []
  · exact .inl hnil
  · by_cases hnl : newline ∈ file
    · obtain ⟨body, rest, hfile, hbody⟩ := List.eq_append_cons_of_mem hnl
      exact .inr (.inl ⟨body, rest, hfile, hbody⟩)
    · exact .inr (.inr ⟨hnil, hnl⟩)

/-! ### The growth of the buffer -/

/-- The size of the buffer when it holds a text, after at most so many doublings. -/
def enlarge (length : ℕ) : ℕ → ℕ → ℕ
  | 0, size => size
  | n + 1, size => if length < size then size else enlarge length n (size * 2)

/-- The size of the buffer when it holds a text. -/
def bufferSize (size length : ℕ) : ℕ := enlarge length length size

theorem le_enlarge (length n size : ℕ) : size ≤ enlarge length n size := by
  induction n generalizing size with
  | zero => exact Nat.le_refl _
  | succ n ih =>
    rw [enlarge]
    split
    · exact Nat.le_refl _
    · exact (Nat.le_mul_of_pos_right size (by omega)).trans (ih (size * 2))

theorem enlarge_of_lt {length size : ℕ} (h : length < size) (n : ℕ) : enlarge length n size = size := by
  cases n with
  | zero => rfl
  | succ n => rw [enlarge, if_pos h]

/-- A doubling more than needed makes no difference. -/
theorem enlarge_double {length n size : ℕ} (hle : size ≤ length) (hn : length < size * 2 ^ n) :
    enlarge length n size = bufferSize (size * 2) length := by
  have hstable : ∀ m k s : ℕ, length < s * 2 ^ m → length < s * 2 ^ k → enlarge length m s = enlarge length k s := by
    intro m
    induction m with
    | zero =>
      intro k s hm _
      rw [enlarge_of_lt (by omega), enlarge_of_lt (by omega)]
    | succ m ih =>
      intro k s hm hk
      by_cases hs : length < s
      · rw [enlarge_of_lt hs, enlarge_of_lt hs]
      · cases k with
        | zero => omega
        | succ k =>
          rw [enlarge, if_neg hs, enlarge, if_neg hs]
          refine ih k (s * 2) ?_ ?_
          · rw [Nat.mul_assoc, ← Nat.pow_succ']
            exact hm
          · rw [Nat.mul_assoc, ← Nat.pow_succ']
            exact hk
  cases n with
  | zero => omega
  | succ n =>
    rw [enlarge, if_neg (by omega)]
    refine hstable n length (size * 2) ?_ ?_
    · rw [Nat.mul_assoc, ← Nat.pow_succ']
      exact hn
    · have hpos : 0 < size := by
        by_contra h0
        have hz : size = 0 := by omega
        rw [hz, Nat.zero_mul] at hn
        omega
      calc length < 2 ^ length := Nat.lt_two_pow_self
        _ ≤ size * 2 * 2 ^ length := Nat.le_mul_of_pos_left _ (by omega)

theorem lt_bufferSize {size : ℕ} (hpos : 0 < size) (length : ℕ) : length < bufferSize size length := by
  have hstep : ∀ n s : ℕ, length < s * 2 ^ n → length < enlarge length n s := by
    intro n
    induction n with
    | zero =>
      intro s h
      rw [enlarge]
      omega
    | succ n ih =>
      intro s h
      rw [enlarge]
      by_cases hs : length < s
      · rw [if_pos hs]
        exact hs
      · rw [if_neg hs]
        exact ih (s * 2) (by rw [Nat.mul_assoc, ← Nat.pow_succ']; exact h)
  exact hstep length size (Nat.lt_two_pow_self.trans_le (Nat.le_mul_of_pos_left _ hpos))

theorem bufferSize_of_lt {size length : ℕ} (h : length < size) : bufferSize size length = size := enlarge_of_lt h length

theorem bufferSize_double {size length : ℕ} (hpos : 0 < size) (h : size ≤ length) :
    bufferSize size length = bufferSize (size * 2) length := by
  refine enlarge_double h ?_
  calc length < 2 ^ length := Nat.lt_two_pow_self
    _ ≤ size * 2 ^ length := Nat.le_mul_of_pos_left _ hpos

theorem le_bufferSize (size length : ℕ) : size ≤ bufferSize size length := le_enlarge length length size

/-! ### The loop over `fgets()` -/

theorem getD_append_cons (front : Bytes) (c : UInt8) (rest : Bytes) : (front ++ c :: rest).getD front.length 0 = c := by
  simp

namespace LineState

/-- The line so far, with what stands behind it in the buffer. -/
def holding (text behind file : Bytes) (size lineNumber : ℕ) : LineState :=
  ⟨file, text ++ behind, text.length, size, lineNumber⟩

section

variable {text behind body file rest : Bytes} {size lineNumber n : ℕ}

theorem xfgets_holding {input : Bytes} (hint : size - text.length < 2 ^ 31) (hsize : text.length + 1 < size)
    (hne : file ≠ []) (hinput : upToNewline (size - text.length - 1) file = input) (h0 : 0 ∉ input)
    (hrest : file.drop input.length = rest) :
    (holding text behind file size lineNumber).xfgets =
      (input.length, ⟨rest, text ++ input ++ [0], text.length, size, lineNumber⟩) := by
  have hfgets : fgets (toInt (size - text.length)) file = some (input, rest) := by
    rw [toInt_of_lt hint, fgets_of_pos (by omega) hne, hinput, hrest]
  unfold xfgets
  show store _ (fgets (toInt (size - text.length)) file) = _
  rw [hfgets, store, (cstr_eq_self_iff input).mpr h0]
  simp only [holding, List.take_left]

/-- Where `fgets()` returns a null pointer, the loop ends. -/
theorem readLoop_null (h : fgets (toInt (size - text.length)) file = none) :
    readLoop n (holding text behind file size lineNumber) = holding text behind file size lineNumber := by
  cases n with
  | zero => rfl
  | succ n =>
    have hnone : (holding text behind file size lineNumber).xfgets = (0, holding text behind file size lineNumber) := by
      unfold xfgets
      show store _ (fgets (toInt (size - text.length)) file) = _
      rw [h, store]
    rw [readLoop, hnone, loopBody]

/-- At the end of the file nothing is read. -/
theorem readLoop_end : readLoop n (holding text behind [] size lineNumber) = holding text behind [] size lineNumber :=
  readLoop_null (if_pos (.inr rfl))

/-- What is read does not fill the buffer or ends with a newline. -/
theorem readLoop_read (behind : Bytes) (lineNumber n : ℕ) {input : Bytes} {c : UInt8} (hint : size - text.length < 2 ^ 31)
    (hsize : text.length + 1 < size) (hne : file ≠ [])
    (hinput : upToNewline (size - text.length - 1) file = input ++ [c]) (h0 : 0 ∉ input ++ [c])
    (hrest : file.drop (input ++ [c]).length = rest) :
    readLoop (n + 1) (holding text behind file size lineNumber) =
      if c ≠ newline ∧ text.length + (input.length + 1) = size - 1 then
        readLoop n (holding (text ++ (input ++ [c])) [0] rest (size * 2) lineNumber)
      else lineRead (readLoop n) (holding (text ++ (input ++ [c])) [0] rest size lineNumber) := by
  have hlen : (input ++ [c]).length = input.length + 1 := by simp
  have hpos : (text ++ (input ++ [c])).length = text.length + (input.length + 1) := by simp
  have hlast : (text ++ (input ++ [c]) ++ [0]).getD (text.length + (input.length + 1) - 1) 0 = c := by
    have hidx : text.length + (input.length + 1) - 1 = (text ++ input).length := by simp
    have hline : text ++ (input ++ [c]) ++ [0] = (text ++ input) ++ c :: [0] := by simp
    rw [hidx, hline, getD_append_cons]
  rw [readLoop, xfgets_holding hint hsize hne hinput h0 hrest, hlen, loopBody]
  simp only [hlast, holding, hpos]

/-- The buffer is filled, and doubled. -/
theorem readLoop_full (behind rest : Bytes) (lineNumber n : ℕ) (hint : size - text.length < 2 ^ 31) (hsize : text.length + body.length + 1 = size)
    (hne : body ≠ []) (hbody : newline ∉ body) (h0 : 0 ∉ body) :
    readLoop (n + 1) (holding text behind (body ++ rest) size lineNumber) =
      readLoop n (holding (text ++ body) [0] rest (size * 2) lineNumber) := by
  have hlen := List.length_pos_iff.mpr hne
  have hroom : size - text.length - 1 = body.length := by omega
  have hlast : body = body.dropLast ++ [body.getLast hne] := (List.dropLast_append_getLast hne).symm
  have hc : body.getLast hne ≠ newline := fun hc => hbody (hc ▸ List.getLast_mem hne)
  have hinput : upToNewline (size - text.length - 1) (body ++ rest) = body.dropLast ++ [body.getLast hne] := by
    rw [hroom, upToNewline_full hbody, ← hlast]
  have hread := readLoop_read behind lineNumber n hint (by omega) (List.append_ne_nil_of_left_ne_nil hne rest) hinput
    (by rw [← hlast]; exact h0) rfl
  rw [if_pos ⟨hc, by rw [List.length_dropLast]; omega⟩, ← hlast, List.drop_left] at hread
  exact hread

/-- The rest of a line fits into the buffer. -/
theorem readLoop_line (hint : size - text.length < 2 ^ 31) (hsize : text.length + body.length + 1 < size)
    (hbody : newline ∉ body) (h0 : 0 ∉ body) :
    readLoop (n + 1) (holding text behind (body ++ newline :: rest) size lineNumber) =
      lineRead (readLoop n) (holding (text ++ (body ++ [newline])) [0] rest size lineNumber) := by
  have hdrop : (body ++ newline :: rest).drop (body ++ [newline]).length = rest := by
    have hsplit : body ++ newline :: rest = (body ++ [newline]) ++ rest := by simp
    rw [hsplit, List.drop_left]
  have h0' : 0 ∉ body ++ [newline] := fun hc => by
    rcases List.mem_append.mp hc with hc | hc
    · exact h0 hc
    · exact absurd (List.mem_singleton.mp hc) (by decide)
  rw [readLoop_read behind lineNumber n hint (by omega) (by simp) (upToNewline_newline hbody (by omega) rest) h0' hdrop,
    if_neg fun hc => hc.1 rfl]

/-- The rest of the file fits into the buffer. -/
theorem readLoop_rest (hint : size - text.length < 2 ^ 31) (hsize : text.length + body.length + 1 < size)
    (hne : body ≠ []) (hbody : newline ∉ body) (h0 : 0 ∉ body) :
    readLoop (n + 1) (holding text behind body size lineNumber) =
      lineRead (readLoop n) (holding (text ++ body) [0] [] size lineNumber) := by
  have hlen := List.length_pos_iff.mpr hne
  have hlast : body = body.dropLast ++ [body.getLast hne] := (List.dropLast_append_getLast hne).symm
  have hinput : upToNewline (size - text.length - 1) body = body.dropLast ++ [body.getLast hne] := by
    rw [upToNewline_last hbody (by omega), ← hlast]
  have hread := readLoop_read behind lineNumber n hint (by omega) hne hinput (by rw [← hlast]; exact h0) rfl
  rw [if_neg (by rw [List.length_dropLast]; omega), ← hlast, List.drop_length] at hread
  exact hread

/-- The part of a text that still goes into the buffer. -/
theorem split_full (hsize : text.length + 1 < size) (hlong : size ≤ text.length + body.length + 1) :
    ∃ chunk tail, body = chunk ++ tail ∧ chunk ≠ [] ∧ text.length + chunk.length + 1 = size := by
  refine ⟨body.take (size - 1 - text.length), body.drop (size - 1 - text.length), (List.take_append_drop _ _).symm, ?_, ?_⟩
  · rw [Ne, List.take_eq_nil_iff, not_or]
    refine ⟨by omega, fun hnil => ?_⟩
    rw [hnil, List.length_nil] at hlong
    omega
  · rw [List.length_take]
    omega

/-- A line of the file is read to its newline, whatever its length. -/
theorem readLoop_terminated (k : ℕ) (hk : body.length < k) (hn : body.length + 1 + rest.length < n)
    (hint : size - text.length < 2 ^ 31) (hsize : text.length + 1 < size) (hbody : newline ∉ body) (h0 : 0 ∉ body)
    (hbig : bufferSize size (text.length + body.length + 1) ≤ 2 ^ 31) :
    ∃ m, rest.length < m ∧ readLoop n (holding text behind (body ++ newline :: rest) size lineNumber) =
      lineRead (readLoop m) (holding (text ++ (body ++ [newline])) [0] rest
        (bufferSize size (text.length + body.length + 1)) lineNumber) := by
  induction k generalizing n text behind body size with
  | zero => omega
  | succ k ih =>
    obtain ⟨n, rfl⟩ : ∃ m, n = m + 1 := ⟨n - 1, by omega⟩
    by_cases hfit : text.length + body.length + 1 < size
    · rw [bufferSize_of_lt hfit]
      exact ⟨n, by omega, readLoop_line hint hfit hbody h0⟩
    · -- the buffer is full before the newline
      obtain ⟨chunk, tail, rfl, hchunk, hfull⟩ := split_full hsize (by omega : size ≤ text.length + body.length + 1)
      rw [List.mem_append, not_or] at hbody h0
      have hlen := List.length_pos_iff.mpr hchunk
      rw [List.length_append] at hk hn hfit hbig ⊢
      have hdouble := bufferSize_double (by omega : 0 < size) (not_lt.mp hfit)
      rw [hdouble] at hbig ⊢
      have hle := le_bufferSize (size * 2) (text.length + (chunk.length + tail.length) + 1)
      have htotal : (text ++ chunk).length + tail.length + 1 = text.length + (chunk.length + tail.length) + 1 := by
        rw [List.length_append]
        omega
      have htext : (text ++ chunk).length + 1 = size := by rw [List.length_append]; exact hfull
      obtain ⟨m, hm, heq⟩ := @ih (text ++ chunk) [0] tail (size * 2) n
        (by omega) (by omega) (by omega) (by omega) hbody.2 h0.2 (by rw [htotal]; exact hbig)
      rw [htotal] at heq
      refine ⟨m, hm, ?_⟩
      have happ : chunk ++ tail ++ newline :: rest = chunk ++ (tail ++ newline :: rest) := List.append_assoc ..
      rw [happ, readLoop_full _ _ _ _ hint hfull hchunk hbody.1 h0.1, heq]
      simp only [List.append_assoc]

/-- A last line without a newline is read to the end of the file. If it fills the buffer to the
last byte, that is found out when the buffer has been doubled. -/
theorem readLoop_last (k : ℕ) (hk : body.length < k) (hn : body.length < n) (hne : body ≠ [])
    (hint : size - text.length < 2 ^ 31) (hsize : text.length + 1 < size) (hbody : newline ∉ body) (h0 : 0 ∉ body)
    (hbig : bufferSize size (text.length + body.length) ≤ 2 ^ 31) :
    ∃ m, readLoop n (holding text behind body size lineNumber) =
      if text.length + body.length + 1 = bufferSize size (text.length + body.length) then
        holding (text ++ body) [0] [] (bufferSize size (text.length + body.length) * 2) lineNumber
      else
        lineRead (readLoop m) (holding (text ++ body) [0] [] (bufferSize size (text.length + body.length)) lineNumber) := by
  induction k generalizing n text behind body size with
  | zero => omega
  | succ k ih =>
    obtain ⟨n, rfl⟩ : ∃ m, n = m + 1 := ⟨n - 1, by omega⟩
    by_cases hfit : text.length + body.length + 1 < size
    · refine ⟨n, ?_⟩
      rw [bufferSize_of_lt (by omega), if_neg (by omega)]
      exact readLoop_rest hint hfit hne hbody h0
    · by_cases hexact : text.length + body.length + 1 = size
      · have hfull := readLoop_full behind [] lineNumber n hint hexact hne hbody h0
        rw [List.append_nil, readLoop_end] at hfull
        refine ⟨0, ?_⟩
        rw [bufferSize_of_lt (by omega), if_pos hexact]
        exact hfull
      · obtain ⟨chunk, tail, rfl, hchunk, hfull⟩ := split_full hsize (by omega : size ≤ text.length + body.length + 1)
        rw [List.mem_append, not_or] at hbody h0
        have hlen := List.length_pos_iff.mpr hchunk
        rw [List.length_append] at hk hn hfit hexact hbig ⊢
        have htail : tail ≠ [] := by
          rintro rfl
          rw [List.length_nil] at hexact
          omega
        have hdouble := bufferSize_double (by omega : 0 < size)
          (by omega : size ≤ text.length + (chunk.length + tail.length))
        rw [hdouble] at hbig ⊢
        have hle := le_bufferSize (size * 2) (text.length + (chunk.length + tail.length))
        have htotal : (text ++ chunk).length + tail.length = text.length + (chunk.length + tail.length) := by
          rw [List.length_append]
          omega
        have htext : (text ++ chunk).length + 1 = size := by rw [List.length_append]; exact hfull
        obtain ⟨m, heq⟩ := @ih (text ++ chunk) [0] tail (size * 2) n
          (by omega) (by omega) htail (by omega) (by omega) hbody.2 h0.2 (by rw [htotal]; exact hbig)
        rw [htotal] at heq
        refine ⟨m, ?_⟩
        rw [readLoop_full _ _ _ _ hint hfull hchunk hbody.1 h0.1, heq]
        simp only [List.append_assoc]

/-- Text that no `int` can say the length of is cut: the size for `fgets()` becomes negative. -/
theorem readLoop_overlong (k : ℕ) (hk : size * 2 ^ k = 2 ^ 31) (hn : k < n) (hint : size - text.length < 2 ^ 31)
    (hsize : text.length + 1 < size) (hlen : text.length + body.length + 1 = 2 ^ 31) (hbody : newline ∉ body)
    (h0 : 0 ∉ body) :
    readLoop n (holding text behind (body ++ rest) size lineNumber) =
      holding (text ++ body) [0] rest (2 ^ 32) lineNumber := by
  induction k generalizing n text behind body size with
  | zero =>
    obtain ⟨n, rfl⟩ : ∃ m, n = m + 1 := ⟨n - 1, by omega⟩
    have hbodyne : body ≠ [] := by
      rintro rfl
      rw [List.length_nil] at hlen
      omega
    have htwo : size * 2 = 2 ^ 32 := by omega
    have hneg : toInt (2 ^ 32 - (text ++ body).length) < 0 := by
      rw [List.length_append]
      exact toInt_neg (by omega) (by omega)
    rw [readLoop_full _ _ _ _ hint (by omega) hbodyne hbody h0, htwo]
    exact readLoop_null (if_pos (.inl (by omega)))
  | succ k ih =>
    obtain ⟨n, rfl⟩ : ∃ m, n = m + 1 := ⟨n - 1, by omega⟩
    have hpow : size * 2 * 2 ^ k = 2 ^ 31 := by rw [Nat.mul_assoc, ← Nat.pow_succ']; exact hk
    have hpos : 1 ≤ 2 ^ k := Nat.one_le_two_pow
    have hhalf : size * 2 ≤ 2 ^ 31 := hpow ▸ Nat.le_mul_of_pos_right _ hpos
    obtain ⟨chunk, tail, rfl, hchunk, hfull⟩ := split_full hsize (by omega : size ≤ text.length + body.length + 1)
    rw [List.mem_append, not_or] at hbody h0
    rw [List.length_append] at hlen
    have htext : (text ++ chunk).length + 1 = size := by rw [List.length_append]; exact hfull
    rw [List.append_assoc, readLoop_full _ _ _ _ hint hfull hchunk hbody.1 h0.1]
    rw [@ih (text ++ chunk) [0] tail (size * 2) n hpow (by omega) (by omega)
      (by omega) (by rw [List.length_append]; omega) hbody.2 h0.2, List.append_assoc]

end

/-! ### The end of a line -/

section

variable {front rest : Bytes} {size lineNumber : ℕ}

theorem lineRead_two (readOn : LineState → LineState) (a b : UInt8) :
    lineRead readOn (holding (front ++ [a, b]) [0] rest size lineNumber) =
      if a = ch '\\' then readOn (holding front [a, b, 0] rest size (lineNumber + 1))
      else if a = ch '\r' then ⟨rest, front ++ [newline, 0, 0], front.length + 1, size, lineNumber + 1⟩
      else holding (front ++ [a, b]) [0] rest size (lineNumber + 1) := by
  have hpos : (front ++ [a, b]).length = front.length + 2 := by simp
  have hget : (front ++ [a, b, 0]).getD front.length 0 = a := getD_append_cons front a [b, 0]
  have hset : ((front ++ [a, b, 0]).set front.length newline).set (front.length + 1) 0 = front ++ [newline, 0, 0] := by
    rw [List.set_append_right _ _ (Nat.le_refl _), Nat.sub_self, List.set_append_right _ _ (by omega),
      Nat.add_sub_cancel_left]
    rfl
  unfold lineRead holding
  simp only [hpos, hget, hset, Nat.le_add_left, true_and, Nat.add_sub_cancel, List.append_assoc, List.cons_append,
    List.nil_append, Nat.add_succ_sub_one]

theorem lineRead_one (readOn : LineState → LineState) (c : UInt8) :
    lineRead readOn (holding [c] [0] rest size lineNumber) = holding [c] [0] rest size (lineNumber + 1) := by
  have hpos : ¬ 2 ≤ [c].length := by simp
  unfold lineRead holding
  simp only [hpos, false_and, if_false]

/-! ### The block that is returned -/

theorem cstr_append_nul {s : Bytes} (h : 0 ∉ s) (behind : Bytes) : cstr (s ++ 0 :: behind) = s := by
  rw [cstr_terminated, (cstr_eq_self_iff s).mpr h]

theorem block_newline {behind : Bytes} (h : 0 ∉ front) :
    block ⟨rest, front ++ newline :: 0 :: behind, front.length + 1, size, lineNumber⟩ = front ++ [0, 0] := by
  have hstring : cstr (front ++ newline :: 0 :: behind) = front ++ [newline] := by
    have hsplit : front ++ newline :: 0 :: behind = (front ++ [newline]) ++ 0 :: behind := by simp
    rw [hsplit, cstr_append_nul fun hc => ?_]
    rcases List.mem_append.mp hc with hc | hc
    · exact h hc
    · exact absurd (List.mem_singleton.mp hc) (by decide)
  have hlen : (front ++ [newline]).length - 1 = front.length := by simp
  unfold block chomp
  simp only [hstring, List.getLast?_concat, if_true, hlen]
  rw [List.set_append_right _ _ (Nat.le_refl _), Nat.sub_self, List.set_cons_zero]
  have htake : front.length + 1 + 1 = (front ++ [0, 0]).length := by simp
  have hsplit : front ++ 0 :: 0 :: behind = (front ++ [0, 0]) ++ behind := by simp
  rw [htake, hsplit, List.take_left]

theorem block_last {c : UInt8} {behind : Bytes} (h : 0 ∉ front ++ [c]) (hc : c ≠ newline) :
    block ⟨rest, front ++ c :: 0 :: behind, front.length + 1, size, lineNumber⟩ = front ++ [c, 0] := by
  have hsplit : front ++ c :: 0 :: behind = (front ++ [c]) ++ 0 :: behind := by simp
  have hlast : ¬ (some c = some newline) := fun he => hc (Option.some.inj he)
  unfold block chomp
  simp only [hsplit, cstr_append_nul h, List.getLast?_concat, if_neg hlast]
  have htake : front.length + 1 + 1 = (front ++ [c, 0]).length := by simp
  have hsplit' : front ++ [c] ++ 0 :: behind = (front ++ [c, 0]) ++ behind := by simp
  rw [htake, hsplit', List.take_left]

/-- Where a line was to be continued and there is no more, the NUL of what is in the buffer stands
behind the end of the block. -/
theorem block_stale {b : UInt8} (h : 0 ∉ front) (hb : b ≠ 0) :
    block (holding front [ch '\\', b, 0] rest size lineNumber) = front ++ [ch '\\'] := by
  have hstring : cstr (front ++ [ch '\\', b, 0]) = front ++ [ch '\\', b] := by
    have hsplit : front ++ [ch '\\', b, 0] = (front ++ [ch '\\', b]) ++ 0 :: [] := by simp
    rw [hsplit, cstr_append_nul fun hc => ?_]
    rcases List.mem_append.mp hc with hc | hc
    · exact h hc
    · rcases List.mem_cons.mp hc with hc | hc
      · exact absurd hc (by decide)
      · exact hb (List.mem_singleton.mp hc).symm
  have hidx : (front ++ [ch '\\', b]).length - 1 = front.length + 1 := by simp
  have htake : ∀ x y : UInt8, (front ++ [ch '\\', x, y]).take (front.length + 1) = front ++ [ch '\\'] := by
    intro x y
    have hsplit : front ++ [ch '\\', x, y] = (front ++ [ch '\\']) ++ [x, y] := by simp
    rw [hsplit, List.take_left' (by simp)]
  unfold block chomp holding
  simp only [hstring, hidx]
  split
  · rw [List.set_append_right _ _ (by omega), Nat.add_sub_cancel_left]
    exact htake 0 0
  · exact htake b 0

end

end LineState

end NscaNg.Client
