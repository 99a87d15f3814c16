/-
# Responses in the Perl and the Python module

`nscang_client_response()`, of which `src/perl/client.c` and `src/python/client.c` have the same text: it
reads into a buffer of 1024 bytes until a piece that `SSL_read()` returns ends with a newline, puts a NUL in
the place of the line's end, and compares what is in the buffer.

What it should do is said of the bytes that arrive, whatever the pieces are (`intended`): the answer is
made from the first line, and what is behind the line is left. The code does so exactly if no piece has
anything behind the first newline, the line is not a newline alone, and it is not one of three keywords
alone, whose text would begin behind the buffer's contents (`response_eq_iff`).
-/
import NscaNg.Bindings.Submission

namespace NscaNg.Bindings

open Posix

/-- What a call of `SSL_read()` finds: a record, which is not empty and of which it returns as much as there
is room for, nothing yet, or a failure for good. -/
inductive Read
  | data (first : UInt8) (rest : Bytes)
  | retry
  | failed

/-- A turn of the loop: what `SSL_read()` finds, and whether the time is up after it. -/
structure Turn where
  read : Read
  late : Bool

/-- What the function leaves behind: its return value, `_errno` and `errstr`, what it tells the server, and
whether it disconnects. -/
structure Answer where
  result : Option Response := none
  error : Option Error := none
  errstr : Option Bytes := none
  told : Option Bytes := none
  disconnected : Bool := false
  deriving DecidableEq

/-- It still reads, or it has accessed the buffer outside what was received, or it has answered and left
these bytes unread. -/
inductive Verdict
  | waiting
  | strayed
  | answered (a : Answer) (left : Bytes)
  deriving DecidableEq

/-- The string `errstr` holds after `strncpy()` from a place in the buffer. -/
def errstrOf (text : Bytes) : Bytes := (cstr text).take 1023

/-! ### The line in the buffer -/

/-- The string from an index on, if a NUL has been received behind it. -/
def stringFrom (buf : Bytes) (i : ℕ) : Option Bytes := if 0 ∈ buf.drop i then some (cstr (buf.drop i)) else none

/-- The end of the line is replaced by a NUL, `none` for a line at the start of the buffer that has nothing
in front of its newline. -/
def terminateLine (buf : Bytes) : Option Bytes :=
  if buf.length < 2 then none
  else if buf[buf.length - 2]? = some (ch '\r') then some (buf.set (buf.length - 2) 0)
  else some (buf.set (buf.length - 1) 0)

/-- The comparisons, `none` if a text is copied from behind what was received. -/
def compareLine (buf : Bytes) : Option Answer :=
  if (cstr buf).take 4 = ascii "MOIN" then
    if cstr buf = ascii "MOIN 1" then some { result := some .moin }
    else (stringFrom buf 5).map fun text => { error := some .badProtoVersion, errstr := some (text.take 1023) }
  else if (cstr buf).take 4 = ascii "OKAY" then some { result := some .okay }
  else if (cstr buf).take 4 = ascii "FAIL" then
    (stringFrom buf 5).map fun text => { error := some .fail, errstr := some (text.take 1023) }
  else if (cstr buf).take 4 = ascii "BAIL" then
    (stringFrom buf 5).map fun text =>
      { error := some .bail, errstr := some (text.take 1023), disconnected := true }
  else
    -- `sizeof(msg)` is the size of a pointer
    some { error := some .unknownResponse, errstr := some (errstrOf buf)
           told := some ((ascii "BAIL Unknown response!").take 8), disconnected := true }

/-! ### The loop -/

/-- The bytes of a record, none for a call that finds nothing. -/
def Read.bytes : Read → Bytes
  | .data first rest => first :: rest
  | _ => []

/-- The bytes of all records. -/
def stream (turns : List Turn) : Bytes := turns.flatMap fun t => t.read.bytes

/-- What follows once the buffer ends with a newline. -/
def finishLine (buf left : Bytes) : Verdict :=
  match (terminateLine buf).bind compareLine with
  | none => .strayed
  | some a => .answered a left

/-- `nscang_client_response()`, with what it has read into `buf`. -/
def response : List Turn → Bytes → Verdict
  | [], _ => .waiting
  | t :: turns, buf =>
    match t.read with
    | .data first rest =>
      let piece := (first :: rest).take (1024 - buf.length)
      let left := (first :: rest).drop (1024 - buf.length) ++ stream turns
      if piece.getLast? = some newline then finishLine (buf ++ piece) left
      else if (buf ++ piece).length = 1024 then .answered { error := some .tooLongResponse } left
      else if t.late then .answered { error := some .timeout } left
      else response turns (buf ++ piece)
    | .retry =>
      if t.late then .answered { error := some .timeout } (stream turns) else response turns buf
    | .failed => .answered { error := some .ssl } (stream turns)

/-! ### What it should do -/

/-- The bytes that arrive before the time is up or the connection fails. -/
def delivered : List Turn → Bytes
  | [] => []
  | t :: turns =>
    match t.read with
    | .failed => []
    | read => if t.late then read.bytes else read.bytes ++ delivered turns

/-- How the turns end, if no line comes. -/
def ending : List Turn → Option Error
  | [] => none
  | t :: turns =>
    match t.read with
    | .failed => some .ssl
    | _ => if t.late then some .timeout else ending turns

/-- A line without the CR in front of its newline. -/
def stripCr (line : Bytes) : Bytes := if line.getLast? = some (ch '\r') then line.dropLast else line

/-- The answer to a line. -/
def answerTo (line : Bytes) : Answer :=
  if (cstr line).take 4 = ascii "MOIN" then
    if cstr line = ascii "MOIN 1" then { result := some .moin }
    else { error := some .badProtoVersion, errstr := some (errstrOf (line.drop 5)) }
  else if (cstr line).take 4 = ascii "OKAY" then { result := some .okay }
  else if (cstr line).take 4 = ascii "FAIL" then { error := some .fail, errstr := some (errstrOf (line.drop 5)) }
  else if (cstr line).take 4 = ascii "BAIL" then
    { error := some .bail, errstr := some (errstrOf (line.drop 5)), disconnected := true }
  else
    { error := some .unknownResponse, errstr := some (errstrOf line)
      told := some ((ascii "BAIL Unknown response!").take 8), disconnected := true }

/-- The bytes in front of the first newline. -/
def firstLine (s : Bytes) : Bytes := s.takeWhile (· ≠ newline)

/-- What is behind the first newline. -/
def behindLine (s : Bytes) : Bytes := (s.dropWhile (· ≠ newline)).tail

/-- What should become of the bytes that have arrived (`s`), out of all (`s ++ later`): the answer to the
first line, if it has at most 1024 bytes with its end. -/
def verdictOn (s later : Bytes) (ending : Option Error) : Verdict :=
  if newline ∈ s.take 1024 then .answered (answerTo (stripCr (firstLine s))) (behindLine s ++ later)
  else if 1024 ≤ s.length then .answered { error := some .tooLongResponse } (s.drop 1024 ++ later)
  else
    match ending with
    | none => .waiting
    | some e => .answered { error := some e } later

/-- The bytes that arrive afterwards. -/
def afterwards (turns : List Turn) : Bytes := (stream turns).drop (delivered turns).length

/-- What `nscang_client_response()` should do. -/
def intended (turns : List Turn) : Verdict := verdictOn (delivered turns) (afterwards turns) (ending turns)

/-- No piece has anything behind the first newline, where so many bytes have been read. -/
def Aligned : ℕ → List Turn → Prop
  | _, [] => True
  | n, t :: turns =>
    match t.read with
    | .data first rest =>
      let piece := (first :: rest).take (1024 - n)
      behindLine piece = [] ∧
        (newline ∈ piece ∨ n + piece.length = 1024 ∨ t.late = true ∨ Aligned (n + piece.length) turns)
    | .retry => t.late = true ∨ Aligned n turns
    | .failed => True

/-- The keywords behind which a text is expected. -/
def bareKeywords : List Bytes := [ascii "MOIN", ascii "FAIL", ascii "BAIL"]

/-- A line the code can answer: not a newline alone, and not a keyword whose text would follow it. -/
def Answerable (line : Bytes) : Prop := line ≠ [] ∧ stripCr line ∉ bareKeywords

instance (line : Bytes) : Decidable (Answerable line) := inferInstanceAs (Decidable (_ ∧ _))

/-- The first line that has arrived, if it is not too long, can be answered. -/
def Fit (turns : List Turn) : Prop :=
  newline ∈ (delivered turns).take 1024 → Answerable (firstLine (delivered turns))

instance (turns : List Turn) : Decidable (Fit turns) := inferInstanceAs (Decidable (_ → _))

/-! ### Comparing a line -/

/-- A line whose string begins with a keyword of four bytes is that keyword, or has a byte behind it. -/
theorem eq_keyword_or_lt {line kw : Bytes} (hkw : kw.length = 4) (h : (cstr line).take 4 = kw) :
    line = kw ∨ 5 ≤ line.length := by
  have hprefix := cstr_prefix line
  have h4 : 4 ≤ (cstr line).length := by
    have hlen := congrArg List.length h
    rw [List.length_take, hkw] at hlen
    omega
  rcases Nat.lt_or_ge line.length 5 with hlt | hge
  · have heq : cstr line = line := List.IsPrefix.eq_of_length hprefix (by have := List.IsPrefix.length_le hprefix; omega)
    rw [heq, List.take_of_length_le (by omega)] at h
    exact .inl h
  · exact .inr hge

/-- The text behind a keyword in a line that was terminated in the buffer. -/
theorem stringFrom_terminated {line kw rest : Bytes} (hkw : kw.length = 4) (h : (cstr line).take 4 = kw)
    (hrest : 0 ∉ rest) :
    stringFrom (line ++ 0 :: rest) 5 = if line = kw then none else some (cstr (line.drop 5)) := by
  unfold stringFrom
  rcases eq_keyword_or_lt hkw h with heq | hlen
  · have hdrop : (line ++ 0 :: rest).drop 5 = rest := by
      rw [heq, List.drop_append, hkw, List.drop_of_length_le (by omega)]
      rfl
    rw [if_pos heq, hdrop, if_neg hrest]
  · have hne : line ≠ kw := fun he => by rw [he, hkw] at hlen; omega
    have hdrop : (line ++ 0 :: rest).drop 5 = line.drop 5 ++ 0 :: rest := by
      rw [List.drop_append_of_le_length hlen]
    rw [if_neg hne, hdrop, if_pos (by simp), cstr_terminated]

/-- Which of the keywords a line can be is said by its first four bytes. -/
theorem mem_bareKeywords_iff {line kw : Bytes} (h : (cstr line).take 4 = kw) :
    line ∈ bareKeywords ↔ kw ∈ bareKeywords ∧ line = kw := by
  have hself : ∀ k ∈ bareKeywords, (cstr k).take 4 = k := by decide
  constructor
  · intro hline
    have hkw : line = kw := (hself line hline).symm.trans h
    exact ⟨hkw ▸ hline, hkw⟩
  · rintro ⟨hkw, rfl⟩
    exact hkw

/-- The answer with the text behind a keyword, if there is a text. -/
theorem textAnswer_terminated {line kw rest : Bytes} (hkw : kw ∈ bareKeywords) (h : (cstr line).take 4 = kw)
    (hrest : 0 ∉ rest) (answer : Bytes → Answer) :
    (stringFrom (line ++ 0 :: rest) 5).map answer =
      if line ∈ bareKeywords then none else some (answer (cstr (line.drop 5))) := by
  have hlen : ∀ k ∈ bareKeywords, k.length = 4 := by decide
  rw [stringFrom_terminated (hlen kw hkw) h hrest]
  have hiff := mem_bareKeywords_iff h
  by_cases hline : line = kw
  · rw [if_pos hline, if_pos (hiff.mpr ⟨hkw, hline⟩)]
    rfl
  · rw [if_neg hline, if_neg fun hm => hline (hiff.mp hm).2]
    rfl

/-- The comparisons give the answer to the line, unless it is a keyword whose text would follow it. -/
theorem compareLine_terminated {line rest : Bytes} (hrest : 0 ∉ rest) :
    compareLine (line ++ 0 :: rest) = if line ∈ bareKeywords then none else some (answerTo line) := by
  have hself : ∀ k ∈ bareKeywords, (cstr k).take 4 ∈ bareKeywords := by decide
  unfold compareLine answerTo errstrOf
  rw [cstr_terminated]
  by_cases hmoin : (cstr line).take 4 = ascii "MOIN"
  · rw [if_pos hmoin, if_pos hmoin]
    by_cases hone : cstr line = ascii "MOIN 1"
    · have hne : line ∉ bareKeywords := fun hm => by
        rw [(mem_bareKeywords_iff hmoin).mp hm |>.2] at hone
        exact absurd hone (by decide)
      rw [if_pos hone, if_pos hone, if_neg hne]
    · rw [if_neg hone, if_neg hone]
      exact textAnswer_terminated (by decide) hmoin hrest _
  · rw [if_neg hmoin, if_neg hmoin]
    by_cases hokay : (cstr line).take 4 = ascii "OKAY"
    · have hne : line ∉ bareKeywords := fun hm => absurd ((mem_bareKeywords_iff hokay).mp hm).1 (by decide)
      rw [if_pos hokay, if_pos hokay, if_neg hne]
    · rw [if_neg hokay, if_neg hokay]
      by_cases hfail : (cstr line).take 4 = ascii "FAIL"
      · rw [if_pos hfail, if_pos hfail]
        exact textAnswer_terminated (by decide) hfail hrest _
      · rw [if_neg hfail, if_neg hfail]
        by_cases hbail : (cstr line).take 4 = ascii "BAIL"
        · rw [if_pos hbail, if_pos hbail]
          exact textAnswer_terminated (by decide) hbail hrest _
        · have hne : line ∉ bareKeywords := fun hm => by
            have h4 := hself line hm
            simp only [bareKeywords, List.mem_cons, List.not_mem_nil, or_false] at h4
            rcases h4 with h4 | h4 | h4
            · exact hmoin h4
            · exact hfail h4
            · exact hbail h4
          rw [if_neg hbail, if_neg hbail, if_neg hne]

/-! ### Finding the end of a line -/

theorem stripCr_concat (init : Bytes) (last : UInt8) :
    stripCr (init ++ [last]) = if last = ch '\r' then init else init ++ [last] := by
  unfold stripCr
  by_cases hcr : last = ch '\r'
  · rw [if_pos (by rw [List.getLast?_concat, hcr]), if_pos hcr, List.dropLast_concat]
  · rw [if_neg (by rw [List.getLast?_concat]; exact fun h => hcr (Option.some.inj h)), if_neg hcr]

/-- The NUL is put where the line ends, or where its CR is. -/
theorem terminateLine_eq {line : Bytes} (hne : line ≠ []) :
    ∃ rest, 0 ∉ rest ∧ terminateLine (line ++ [newline]) = some (stripCr line ++ 0 :: rest) := by
  obtain ⟨init, last, rfl⟩ : ∃ init last, line = init ++ [last] :=
    ⟨line.dropLast, line.getLast hne, (List.dropLast_append_getLast hne).symm⟩
  have hbuf : init ++ [last] ++ [newline] = init ++ [last, newline] := by simp
  have hlen : (init ++ [last, newline]).length = init.length + 2 := List.length_append
  have hsub2 : init.length + 2 - 2 = init.length := rfl
  have hsub1 : init.length + 2 - 1 = init.length + 1 := rfl
  have hlast : (init ++ [last, newline])[init.length]? = some last := by
    rw [List.getElem?_append_right (le_refl _), Nat.sub_self]
    rfl
  rw [hbuf, terminateLine, hlen, if_neg (by omega), hsub2, hsub1, stripCr_concat]
  by_cases hcr : last = ch '\r'
  · refine ⟨[newline], by decide, ?_⟩
    rw [if_pos (hlast.trans (congrArg some hcr)), if_pos hcr, List.set_append_right _ _ (le_refl _), Nat.sub_self]
    rfl
  · refine ⟨[], List.not_mem_nil, ?_⟩
    have hone : init.length + 1 - init.length = 1 := by omega
    rw [if_neg (by rw [hlast]; exact fun h => hcr (Option.some.inj h)), if_neg hcr,
      List.set_append_right _ _ (by omega), hone, List.append_assoc]
    rfl

/-- What becomes of a buffer that ends with its only newline. -/
theorem finishLine_eq (line left : Bytes) :
    finishLine (line ++ [newline]) left =
      if Answerable line then .answered (answerTo (stripCr line)) left else .strayed := by
  unfold finishLine
  by_cases hne : line = []
  · rw [hne, if_neg fun h => h.1 rfl]
    rfl
  · obtain ⟨rest, hrest, hterm⟩ := terminateLine_eq hne
    rw [hterm, Option.bind_some, compareLine_terminated hrest]
    by_cases hm : stripCr line ∈ bareKeywords
    · rw [if_pos hm, if_neg fun h => h.2 hm]
    · rw [if_neg hm, if_pos ⟨hne, hm⟩]

/-! ### What is left unread -/

theorem delivered_le (turns : List Turn) : delivered turns <+: stream turns := by
  induction turns with
  | nil => exact List.prefix_rfl
  | cons t turns ih =>
    obtain ⟨read, late⟩ := t
    have hstream : stream (⟨read, late⟩ :: turns) = read.bytes ++ stream turns := List.flatMap_cons
    rw [hstream]
    have hgo : (if late then read.bytes else read.bytes ++ delivered turns) <+: read.bytes ++ stream turns := by
      split
      · exact List.prefix_append _ _
      · exact (List.prefix_append_right_inj _).mpr ih
    cases read with
    | data first rest => exact hgo
    | retry => exact hgo
    | failed => exact List.nil_prefix

theorem delivered_append_afterwards (turns : List Turn) : delivered turns ++ afterwards turns = stream turns := by
  obtain ⟨r, hr⟩ := delivered_le turns
  rw [afterwards, ← hr, List.drop_left']
  rfl

theorem stream_cons (t : Turn) (turns : List Turn) : stream (t :: turns) = t.read.bytes ++ stream turns :=
  List.flatMap_cons

section

variable {turns : List Turn} {buf left : Bytes} {a : Answer} {first : UInt8} {rest : Bytes} {late : Bool}

/-- A record that is read leaves at most its end unread, and what comes behind it. -/
theorem length_left_data
    (hturns : ∀ buf left a, response turns buf = .answered a left → left.length ≤ (stream turns).length)
    (h : response (⟨.data first rest, late⟩ :: turns) buf = .answered a left) :
    left.length ≤ ((first :: rest).drop (1024 - buf.length) ++ stream turns).length := by
  simp only [response] at h
  split_ifs at h
  · unfold finishLine at h
    split at h
    · cases h
    · cases h
      exact le_refl _
  · cases h
    exact le_refl _
  · cases h
    exact le_refl _
  · rw [List.length_append]
    exact (hturns _ _ _ h).trans (Nat.le_add_left _ _)

end

/-- The code leaves no more unread than there was. -/
theorem length_left_le {turns : List Turn} {buf left : Bytes} {a : Answer} (h : response turns buf = .answered a left) :
    left.length ≤ (stream turns).length := by
  induction turns generalizing buf left a with
  | nil => cases h
  | cons t turns ih =>
    obtain ⟨read, late⟩ := t
    rw [stream_cons, List.length_append]
    cases read with
    | data first rest =>
      have hdata := length_left_data (fun _ _ _ => ih) h
      rw [List.length_append, List.length_drop] at hdata
      exact hdata.trans (Nat.add_le_add_right (Nat.sub_le _ _) _)
    | retry =>
      simp only [response] at h
      split_ifs at h
      · cases h
        exact Nat.le_add_left _ _
      · exact (ih h).trans (Nat.le_add_left _ _)
    | failed =>
      cases h
      exact Nat.le_add_left _ _

/-! ### What should become of the bytes -/

theorem firstLine_append {line : Bytes} (h : newline ∉ line) (behind : Bytes) :
    firstLine (line ++ newline :: behind) = line := by
  have hall : ∀ c ∈ line, (decide (c ≠ newline)) = true := fun c hc => by
    simpa using fun he : c = newline => h (he ▸ hc)
  rw [firstLine, List.takeWhile_append_of_pos hall, List.takeWhile_cons_of_neg (by simp), List.append_nil]

theorem behindLine_append {line : Bytes} (h : newline ∉ line) (behind : Bytes) :
    behindLine (line ++ newline :: behind) = behind := by
  have hall : ∀ c ∈ line, (decide (c ≠ newline)) = true := fun c hc => by
    simpa using fun he : c = newline => h (he ▸ hc)
  rw [behindLine, List.dropWhile_append_of_pos hall, List.dropWhile_cons_of_neg (by simp)]
  rfl

theorem behindLine_of_notMem {s : Bytes} (h : newline ∉ s) : behindLine s = [] := by
  have hall : ∀ c ∈ s, (decide (c ≠ newline)) = true := fun c hc => by
    simpa using fun he : c = newline => h (he ▸ hc)
  rw [behindLine, List.dropWhile_eq_nil_iff.mpr hall]
  rfl

section

variable {s line behind later : Bytes} {ending : Option Error}

theorem newline_mem_take (hlen : line.length < 1024) : newline ∈ (line ++ newline :: behind).take 1024 := by
  rw [List.take_append, List.mem_append]
  right
  obtain ⟨n, hn⟩ : ∃ n, 1024 - line.length = n + 1 := ⟨1023 - line.length, by omega⟩
  rw [hn]
  exact List.mem_cons_self

theorem verdictOn_line (h : newline ∉ line) (hlen : line.length < 1024) :
    verdictOn (line ++ newline :: behind) later ending = .answered (answerTo (stripCr line)) (behind ++ later) := by
  unfold verdictOn
  rw [if_pos (newline_mem_take hlen), firstLine_append h, behindLine_append h]

theorem verdictOn_long (h : newline ∉ s.take 1024) (hlen : 1024 ≤ s.length) :
    verdictOn s later ending = .answered { error := some .tooLongResponse } (s.drop 1024 ++ later) := by
  unfold verdictOn
  rw [if_neg h, if_pos hlen]

theorem verdictOn_short (h : newline ∉ s) (hlen : s.length < 1024) :
    verdictOn s later ending =
      match ending with
      | none => .waiting
      | some e => .answered { error := some e } later := by
  unfold verdictOn
  rw [if_neg fun hm => h (List.mem_of_mem_take hm), if_neg (by omega)]

end

/-! ### The loop and the bytes -/

/-- The answer is right where so much has been read already. -/
def RightFrom (buf : Bytes) (turns : List Turn) : Prop :=
  response turns buf = verdictOn (buf ++ delivered turns) (afterwards turns) (ending turns)

/-- The line that has been begun can be answered, if it comes to an end in time. -/
def FitFrom (buf : Bytes) (turns : List Turn) : Prop :=
  newline ∈ (buf ++ delivered turns).take 1024 → Answerable (firstLine (buf ++ delivered turns))

theorem delivered_data (turns : List Turn) (first : UInt8) (rest : Bytes) (late : Bool) :
    ∃ d, delivered (⟨.data first rest, late⟩ :: turns) = first :: rest ++ d ∧
    d ++ afterwards (⟨.data first rest, late⟩ :: turns) = stream turns := by
  obtain ⟨d, hd⟩ : ∃ d, delivered (⟨.data first rest, late⟩ :: turns) = first :: rest ++ d := by
    cases late with
    | true => exact ⟨[], (List.append_nil _).symm⟩
    | false => exact ⟨delivered turns, rfl⟩
  refine ⟨d, hd, ?_⟩
  have hall := delivered_append_afterwards (⟨.data first rest, late⟩ :: turns)
  rw [hd, stream_cons, List.append_assoc] at hall
  exact List.append_cancel_left hall

section

variable {buf : Bytes} {turns : List Turn} {first : UInt8} {rest : Bytes} {late : Bool}

/-- A piece with the newline in it: the code is right exactly if the piece ends there and the line can be
answered. -/
theorem right_of_newline {pre post : Bytes} (hbuf : newline ∉ buf) (hlen : buf.length < 1024) (hpre : newline ∉ pre)
    (hpiece : (first :: rest).take (1024 - buf.length) = pre ++ newline :: post) :
    RightFrom buf (⟨.data first rest, late⟩ :: turns) ↔ post = [] ∧ Answerable (buf ++ pre) := by
  obtain ⟨d, hd, hafter⟩ := delivered_data turns first rest late
  obtain ⟨tail, htail⟩ : ∃ tail, (first :: rest).drop (1024 - buf.length) = tail := ⟨_, rfl⟩
  have hsplit : first :: rest = pre ++ newline :: post ++ tail := by
    rw [← hpiece, ← htail, List.take_append_drop]
  have hcount : (pre ++ newline :: post).length ≤ 1024 - buf.length := by
    rw [← hpiece]
    exact List.length_take_le _ _
  rw [List.length_append, List.length_cons] at hcount
  have hline : newline ∉ buf ++ pre := fun h => (List.mem_append.mp h).elim hbuf hpre
  have hshort : (buf ++ pre).length < 1024 := by
    rw [List.length_append]
    omega
  have hs : buf ++ (first :: rest ++ d) = (buf ++ pre) ++ newline :: (post ++ tail ++ d) := by
    rw [hsplit]
    simp
  unfold RightFrom
  rw [hd, hs, verdictOn_line hline hshort, List.append_assoc (post ++ tail), hafter]
  cases post with
  | nil =>
    have hlast : (pre ++ [newline]).getLast? = some newline := List.getLast?_concat
    have hfinish := finishLine_eq (buf ++ pre) (tail ++ stream turns)
    simp only [response, hpiece, htail]
    rw [if_pos hlast, ← List.append_assoc, hfinish, List.nil_append]
    by_cases ha : Answerable (buf ++ pre)
    · rw [if_pos ha]
      exact ⟨fun _ => ⟨trivial, ha⟩, fun _ => rfl⟩
    · rw [if_neg ha]
      exact ⟨fun h => (by cases h), fun h => absurd h.2 ha⟩
  | cons c post =>
    refine ⟨fun h => ?_, fun h => absurd h.1 (List.cons_ne_nil _ _)⟩
    -- the code has read what is behind the line, and so leaves less
    have hle := length_left_data (fun _ _ _ => length_left_le) h
    rw [htail, List.append_assoc, List.length_append, List.length_cons] at hle
    omega

/-- A piece without a newline that fills the buffer. -/
theorem right_of_full (hbuf : newline ∉ buf) (hpiece : newline ∉ (first :: rest).take (1024 - buf.length))
    (hfull : (buf ++ (first :: rest).take (1024 - buf.length)).length = 1024) :
    RightFrom buf (⟨.data first rest, late⟩ :: turns) ∧ FitFrom buf (⟨.data first rest, late⟩ :: turns) := by
  obtain ⟨d, hd, hafter⟩ := delivered_data turns first rest late
  obtain ⟨tail, htail⟩ : ∃ tail, (first :: rest).drop (1024 - buf.length) = tail := ⟨_, rfl⟩
  obtain ⟨piece, hp⟩ : ∃ piece, (first :: rest).take (1024 - buf.length) = piece := ⟨_, rfl⟩
  have hsplit : first :: rest = piece ++ tail := by rw [← hp, ← htail, List.take_append_drop]
  rw [hp] at hpiece hfull
  have hs : buf ++ (first :: rest ++ d) = (buf ++ piece) ++ (tail ++ d) := by
    rw [hsplit]
    simp
  have hnone : newline ∉ (buf ++ (first :: rest ++ d)).take 1024 := by
    rw [hs, List.take_left' hfull]
    exact fun h => (List.mem_append.mp h).elim hbuf hpiece
  have hlast : piece.getLast? ≠ some newline := fun h => hpiece (List.mem_of_getLast? h)
  have hlong : 1024 ≤ (buf ++ (first :: rest ++ d)).length := by
    rw [hs, List.length_append, hfull]
    exact Nat.le_add_right _ _
  refine ⟨?_, fun h => absurd (hd ▸ h) hnone⟩
  unfold RightFrom
  rw [hd, verdictOn_long hnone hlong, hs, List.drop_left' hfull, List.append_assoc, hafter]
  simp only [response, hp, htail]
  rw [if_neg hlast, if_pos hfull]

/-- The line that a piece brings to an end. -/
theorem fitFrom_newline {pre post : Bytes} (hbuf : newline ∉ buf) (hlen : buf.length < 1024) (hpre : newline ∉ pre)
    (hpiece : (first :: rest).take (1024 - buf.length) = pre ++ newline :: post) :
    FitFrom buf (⟨.data first rest, late⟩ :: turns) ↔ Answerable (buf ++ pre) := by
  obtain ⟨d, hd, -⟩ := delivered_data turns first rest late
  have hsplit : first :: rest = pre ++ newline :: post ++ (first :: rest).drop (1024 - buf.length) := by
    rw [← hpiece, List.take_append_drop]
  have hcount : (pre ++ newline :: post).length ≤ 1024 - buf.length := by
    rw [← hpiece]
    exact List.length_take_le _ _
  rw [List.length_append, List.length_cons] at hcount
  have hline : newline ∉ buf ++ pre := fun h => (List.mem_append.mp h).elim hbuf hpre
  have hshort : (buf ++ pre).length < 1024 := by
    rw [List.length_append]
    omega
  obtain ⟨behind, hs⟩ : ∃ behind, buf ++ (first :: rest ++ d) = (buf ++ pre) ++ newline :: behind :=
    ⟨post ++ (first :: rest).drop (1024 - buf.length) ++ d, by
      conv_lhs => rw [hsplit]
      simp⟩
  unfold FitFrom
  rw [hd, hs, firstLine_append hline]
  exact ⟨fun h => h (newline_mem_take hshort), fun h _ => h⟩

end

/-- Without a newline there is nothing to answer. -/
theorem fitFrom_of_notMem {buf : Bytes} {turns : List Turn} (h : newline ∉ buf ++ delivered turns) :
    FitFrom buf turns := fun hmem => absurd (List.mem_of_mem_take hmem) h

/-- Without a newline the loop goes on until the turns end it. -/
theorem rightFrom_of_notMem {buf : Bytes} {turns : List Turn} (hbuf : newline ∉ buf ++ delivered turns)
    (hlen : (buf ++ delivered turns).length < 1024)
    (h : response turns buf =
      match ending turns with
      | none => .waiting
      | some e => .answered { error := some e } (afterwards turns)) :
    RightFrom buf turns ∧ FitFrom buf turns := by
  refine ⟨?_, fitFrom_of_notMem hbuf⟩
  unfold RightFrom
  rw [verdictOn_short hbuf hlen, h]

section

variable {buf : Bytes} (turns : List Turn) {first : UInt8} {rest : Bytes}

/-- A record without a newline, all of which has been read, when the time is up. -/
theorem right_of_late (hbuf : newline ∉ buf ++ first :: rest) (hlen : (buf ++ first :: rest).length < 1024) :
    RightFrom buf (⟨.data first rest, true⟩ :: turns) ∧ FitFrom buf (⟨.data first rest, true⟩ :: turns) := by
  have hroom : (first :: rest).length ≤ 1024 - buf.length := by
    rw [List.length_append] at hlen
    omega
  have hlast : (first :: rest).getLast? ≠ some newline := fun h =>
    hbuf (List.mem_append_right _ (List.mem_of_getLast? h))
  have hafter : afterwards (⟨.data first rest, true⟩ :: turns) = stream turns := by
    rw [afterwards, stream_cons]
    exact List.drop_left' rfl
  refine rightFrom_of_notMem hbuf hlen ?_
  simp only [response, List.take_of_length_le hroom, List.drop_of_length_le hroom]
  rw [if_neg hlast, if_neg hlen.ne, if_pos trivial, ← hafter]
  rfl

/-- A record without a newline, all of which has been read, when there is time left: the loop goes on. -/
theorem goes_on (hbuf : newline ∉ buf ++ first :: rest) (hlen : (buf ++ first :: rest).length < 1024) :
    (RightFrom buf (⟨.data first rest, false⟩ :: turns) ↔ RightFrom (buf ++ first :: rest) turns) ∧
      (FitFrom buf (⟨.data first rest, false⟩ :: turns) ↔ FitFrom (buf ++ first :: rest) turns) ∧
      (Aligned buf.length (⟨.data first rest, false⟩ :: turns) ↔ Aligned (buf ++ first :: rest).length turns) := by
  have hroom : (first :: rest).length ≤ 1024 - buf.length := by
    rw [List.length_append] at hlen
    omega
  have hmem : newline ∉ first :: rest := fun h => hbuf (List.mem_append_right _ h)
  have hlast : (first :: rest).getLast? ≠ some newline := fun h => hmem (List.mem_of_getLast? h)
  have hgo : response (⟨.data first rest, false⟩ :: turns) buf = response turns (buf ++ first :: rest) := by
    simp only [response, List.take_of_length_le hroom]
    rw [if_neg hlast, if_neg hlen.ne, if_neg Bool.false_ne_true]
  have hdelivered : buf ++ delivered (⟨.data first rest, false⟩ :: turns) =
      (buf ++ first :: rest) ++ delivered turns := (List.append_assoc _ _ _).symm
  have hafter : afterwards (⟨.data first rest, false⟩ :: turns) = afterwards turns := by
    have hcons : delivered (⟨.data first rest, false⟩ :: turns) = first :: rest ++ delivered turns := rfl
    rw [afterwards, stream_cons, hcons, List.length_append, ← List.drop_drop]
    exact congrArg _ (List.drop_left' rfl)
  refine ⟨?_, ?_, ?_⟩
  · unfold RightFrom
    rw [hgo, hdelivered, hafter]
    rfl
  · unfold FitFrom
    rw [hdelivered]
  · have hne : buf.length + (first :: rest).length ≠ 1024 := by
      rw [← List.length_append]
      exact hlen.ne
    simp only [Aligned, List.take_of_length_le hroom, List.length_append]
    exact ⟨fun h => ((h.2.resolve_left hmem).resolve_left hne).resolve_left (by simp),
      fun h => ⟨behindLine_of_notMem hmem, .inr (.inr (.inr h))⟩⟩

end

/-- The loop, from any point on. -/
theorem rightFrom_iff (turns : List Turn) {buf : Bytes} (hbuf : newline ∉ buf) (hlen : buf.length < 1024) :
    RightFrom buf turns ↔ Aligned buf.length turns ∧ FitFrom buf turns := by
  have hidle : newline ∉ buf ++ [] := by rwa [List.append_nil]
  have hshort : (buf ++ []).length < 1024 := by rwa [List.append_nil]
  induction turns generalizing buf with
  | nil =>
    have h : RightFrom buf [] ∧ FitFrom buf [] := rightFrom_of_notMem hidle hshort rfl
    exact iff_of_true h.1 ⟨trivial, h.2⟩
  | cons t turns ih =>
    obtain ⟨read, late⟩ := t
    cases read with
    | failed =>
      have h : RightFrom buf (⟨.failed, late⟩ :: turns) ∧ FitFrom buf (⟨.failed, late⟩ :: turns) :=
        rightFrom_of_notMem hidle hshort rfl
      exact iff_of_true h.1 ⟨trivial, h.2⟩
    | retry =>
      cases late with
      | true =>
        have h : RightFrom buf (⟨.retry, true⟩ :: turns) ∧ FitFrom buf (⟨.retry, true⟩ :: turns) :=
          rightFrom_of_notMem hidle hshort rfl
        exact iff_of_true h.1 ⟨.inl rfl, h.2⟩
      | false =>
        have haligned : Aligned buf.length (⟨.retry, false⟩ :: turns) ↔ Aligned buf.length turns :=
          ⟨fun h => h.resolve_left Bool.false_ne_true, .inr⟩
        rw [haligned]
        exact ih hbuf hlen hidle hshort
    | data first rest =>
      by_cases hmem : newline ∈ (first :: rest).take (1024 - buf.length)
      · obtain ⟨pre, post, hpiece, hpre⟩ := List.eq_append_cons_of_mem hmem
        have haligned : Aligned buf.length (⟨.data first rest, late⟩ :: turns) ↔ post = [] := by
          simp only [Aligned, hpiece, behindLine_append hpre]
          exact ⟨And.left, fun h => ⟨h, .inl (by simp)⟩⟩
        rw [right_of_newline hbuf hlen hpre hpiece, haligned, fitFrom_newline hbuf hlen hpre hpiece]
      · by_cases hfull : (buf ++ (first :: rest).take (1024 - buf.length)).length = 1024
        · have h : RightFrom buf (⟨.data first rest, late⟩ :: turns) ∧ FitFrom buf (⟨.data first rest, late⟩ :: turns) :=
            right_of_full hbuf hmem hfull
          refine iff_of_true h.1 ⟨⟨behindLine_of_notMem hmem, .inr (.inl ?_)⟩, h.2⟩
          rwa [← List.length_append]
        · -- the whole record has been read, and there is still room
          have hroom : (first :: rest).length < 1024 - buf.length := by
            rw [List.length_append, List.length_take] at hfull
            have := Nat.min_le_left (1024 - buf.length) (first :: rest).length
            omega
          rw [List.take_of_length_le hroom.le] at hmem
          have hbuf' : newline ∉ buf ++ first :: rest := fun h => (List.mem_append.mp h).elim hbuf hmem
          have hlen' : (buf ++ first :: rest).length < 1024 := by
            rw [List.length_append]
            omega
          cases late with
          | true =>
            have h : RightFrom buf (⟨.data first rest, true⟩ :: turns) ∧ FitFrom buf (⟨.data first rest, true⟩ :: turns) :=
              right_of_late turns hbuf' hlen'
            refine iff_of_true h.1 ⟨?_, h.2⟩
            simp only [Aligned, List.take_of_length_le hroom.le]
            exact ⟨behindLine_of_notMem hmem, .inr (.inr (.inl trivial))⟩
          | false =>
            obtain ⟨hright, hfit, haligned⟩ := goes_on turns hbuf' hlen'
            rw [hright, hfit, haligned]
            exact ih hbuf' hlen' (by rwa [List.append_nil]) (by rwa [List.append_nil])

/-- **Responses.** For all records and turns: the verdict is the one that is made from the bytes that arrive,
and nothing outside the received part of the buffer is accessed, exactly if no piece has anything behind the
first newline and the line can be answered. -/
theorem response_eq_iff (turns : List Turn) :
    response turns [] = intended turns ↔ Aligned 0 turns ∧ Fit turns :=
  rightFrom_iff turns List.not_mem_nil (by decide)

/-- Two answers in one record, a newline alone, and a keyword alone. -/
theorem not_response_eq :
    (response [⟨.data (ch 'O') (ascii "KAY\nFAIL no\n"), false⟩] [] = .answered { result := some .okay } [] ∧
        intended [⟨.data (ch 'O') (ascii "KAY\nFAIL no\n"), false⟩] =
          .answered { result := some .okay } (ascii "FAIL no\n")) ∧
      response [⟨.data newline [], false⟩] [] = .strayed ∧
      response [⟨.data (ch 'F') (ascii "AIL\r\n"), false⟩] [] = .strayed := by
  decide

end NscaNg.Bindings
