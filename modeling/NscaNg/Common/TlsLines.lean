/-
# The lines of a stream

A connection whose handlers ask for lines only gives them the lines of the stream one after the other,
however `SSL_read()` cuts it into pieces (`lines_in_order`). Pieces are put into `input_buffer` until
there is a line in it; when the next piece might not fit, the line is refused (`refuses`). That only
comes to pass when what is in the buffer belongs to one line, which then is longer than 1921 octets,
and from then on no handler gets anything (`Stuck`).
-/
import NscaNg.Common.TlsRelease
import NscaNg.Common.TlsFrame
import NscaNg.Common.TlsInput

namespace NscaNg
namespace Tls

open Posix Libev

variable {η : Type}

/-! ### Lines -/

/-- A line without the carriage return at its end. -/
def chomp (line : Bytes) : Bytes := if line.getLast? = some (ch '\r') then line.dropLast else line

/-- The lines that are complete in a stream which goes on with these bytes, when the current line has
begun with others. -/
def linesFrom (line : Bytes) : Bytes → List Bytes
  | [] => []
  | c :: rest => if c = newline then chomp line :: linesFrom [] rest else linesFrom (line ++ [c]) rest

/-- The complete lines of a stream, without their terminators. -/
def streamLines (stream : Bytes) : List Bytes := linesFrom [] stream

theorem linesFrom_of_notMem {bytes : Bytes} (h : newline ∉ bytes) (line : Bytes) : linesFrom line bytes = [] := by
  induction bytes generalizing line with
  | nil => rfl
  | cons c bytes ih =>
    rw [List.mem_cons, not_or] at h
    rw [linesFrom, if_neg (Ne.symm h.1), ih h.2]

theorem linesFrom_append {bytes : Bytes} (h : newline ∉ bytes) (line rest : Bytes) :
    linesFrom line (bytes ++ newline :: rest) = chomp (line ++ bytes) :: streamLines rest := by
  induction bytes generalizing line with
  | nil => rw [List.nil_append, linesFrom, if_pos rfl, List.append_nil, streamLines]
  | cons c bytes ih =>
    rw [List.mem_cons, not_or] at h
    rw [List.cons_append, linesFrom, if_neg (Ne.symm h.1), ih h.2, List.append_assoc, List.singleton_append]

/-- The stream of these lines. -/
def unlines (lines : List Bytes) : Bytes := lines.flatMap (· ++ [newline])

theorem streamLines_unlines {lines : List Bytes} (h : ∀ l ∈ lines, newline ∉ l) (rest : Bytes) :
    streamLines (unlines lines ++ rest) = lines.map chomp ++ streamLines rest := by
  induction lines with
  | nil => rfl
  | cons l lines ih =>
    have htail := ih fun l' hl' => h l' (List.mem_cons_of_mem l hl')
    have hsplit : unlines (l :: lines) ++ rest = l ++ newline :: (unlines lines ++ rest) := by
      simp [unlines]
    rw [hsplit, streamLines, linesFrom_append (h l List.mem_cons_self), htail]
    rfl

/-- What a handler sees of a line. -/
theorem cstr_terminateLine {line : Bytes} (h : 0 ∉ line) : cstr (terminateLine (line ++ [newline])) = chomp line := by
  have hcstr : ∀ s rest : Bytes, 0 ∉ s → cstr (s ++ 0 :: rest) = s := by
    intro s rest hs
    rw [cstr_terminated, (cstr_eq_self_iff s).mpr hs]
  rcases List.eq_nil_or_concat line with rfl | ⟨front, last, rfl⟩
  · rfl
  · rw [List.concat_eq_append] at h ⊢
    have hfront : 0 ∉ front := fun hc => h (List.mem_append_left _ hc)
    have hlen : (front ++ [last] ++ [newline]).length = front.length + 2 := by simp
    have hget : (front ++ [last] ++ [newline]).getD (front.length + 2 - 2) 0 = last := by
      simp [List.getD_eq_getElem?_getD]
    unfold terminateLine chomp
    rw [hlen, hget, List.getLast?_append, List.getLast?_singleton, Option.some_or]
    by_cases hlast : last = ch '\r'
    · rw [if_pos ⟨by omega, hlast⟩, if_pos (congrArg some hlast), List.dropLast_concat]
      have hset : (front ++ [last] ++ [newline]).set (front.length + 2 - 2) 0 = front ++ 0 :: [newline] := by
        simp
      rw [hset, hcstr _ _ hfront]
    · rw [if_neg (fun hc => hlast hc.2), if_neg (fun hc => hlast (Option.some.inj hc))]
      have hset : (front ++ [last] ++ [newline]).set (front.length + 2 - 1) 0 = (front ++ [last]) ++ 0 :: [] := by
        simp
      rw [hset, hcstr _ _ h]

theorem length_terminateLine (line : Bytes) : (terminateLine line).length = line.length := by
  unfold terminateLine
  split <;> exact List.length_set

/-! ### Reading lines -/

/-- The loop of `read_line()` comes to refuse a line. -/
def refuses (replies : List SslRead) (s : State η) : Prop :=
  match bufferReadLine s.inputBuffer with
  | some _ => False
  | none =>
    if lineMaxSize < s.inputBuffer.length + s.inputSize then True
    else
      match replies with
      | [] => False
      | reply :: replies =>
        match sslRead (toInt s.inputSize) reply with
        | .error _ => False
        | .ok bytes => refuses replies (s.receiveLine bytes)

/-- Either there is a line now, or nothing in the buffer is the end of one. -/
def LineOrNot (buffered rest : Bytes) : Option Bytes → Prop
  | some data => ∃ line, newline ∉ line ∧ buffered = line ++ newline :: rest ∧
      data = terminateLine (line ++ [newline]) ∧ line.length < lineMaxSize
  | none => rest = buffered ∧ newline ∉ rest

/-- What reading a line comes to, when bytes have been received. -/
structure ReadsLine (s t : State η) (data : Option Bytes) (refused : Prop) : Prop where
  same : Same s t
  mode : t.readMode = s.readMode
  short : t.inputBuffer.length ≤ lineMaxSize
  size : data = none → t.inputSize = s.inputSize
  refused : refused → data = none ∧ lineMaxSize < t.inputBuffer.length + s.inputSize
  received : ∃ bytes, t.history.received = s.history.received ++ bytes ∧
    LineOrNot (s.inputBuffer ++ bytes) t.inputBuffer data

theorem readsLine_none {s t : State η} {refused : Prop} (hside : t.inputSide = s.inputSide)
    (hline : bufferReadLine s.inputBuffer = none) (hshort : s.inputBuffer.length ≤ lineMaxSize)
    (hrefused : refused → lineMaxSize < s.inputBuffer.length + s.inputSize) : ReadsLine s t none refused := by
  have hsame := same_of_side hside
  simp only [State.inputSide, InputSide.mk.injEq] at hside
  obtain ⟨hbuf, -, hsize, -, hmode, -, -, hrec, -⟩ := hside
  refine ⟨hsame, hmode, hbuf ▸ hshort, fun _ => hsize, fun h => ⟨rfl, hbuf ▸ hrefused h⟩, [], ?_, ?_, ?_⟩
  · rw [hrec, List.append_nil]
  · rw [hbuf, List.append_nil]
  · rw [hbuf]
    exact bufferReadLine_eq_none.mp hline

theorem readsLine_readLineLoop (replies : List SslRead) {s : State η} (hshort : s.inputBuffer.length ≤ lineMaxSize)
    (hsize : s.inputSize = lineBufferSize) :
    ReadsLine s (readLineLoop replies s).1 (readLineLoop replies s).2 (refuses replies s) := by
  -- by induction on the results of `SSL_read()`: each adds a piece to the buffer
  fun_induction readLineLoop replies s with
  | case1 replies s line rest hline =>
    have hmem : newline ∈ s.inputBuffer := by
      by_contra hc
      rw [bufferReadLine_eq_none.mpr hc] at hline
      cases hline
    obtain ⟨l, r, hsplit, hl⟩ := exists_line hmem
    rw [hsplit, bufferReadLine_line hl, Option.some.injEq, Prod.mk.injEq] at hline
    have hlen : s.inputBuffer.length = l.length + (r.length + 1) := by rw [hsplit]; simp
    refine ⟨⟨rfl, rfl, rfl⟩, rfl, ?_, fun h => (by cases h), fun h => ?_, [], ?_, l, hl, ?_, hline.1.symm, ?_⟩
    · change rest.length ≤ lineMaxSize
      rw [← hline.2]
      omega
    · unfold refuses at h
      rw [hsplit, bufferReadLine_line hl] at h
      exact h.elim
    · exact (List.append_nil _).symm
    · rw [List.append_nil, hsplit, hline.2]
    · omega
  | case2 replies s hline hlong =>
    exact readsLine_none (frame_lineTooLong (v := .read) s).side hline hshort fun _ => hlong
  | case3 s hline hlong =>
    refine readsLine_none (inputSide_checkTlsError .read _ s) hline hshort fun h => ?_
    unfold refuses at h
    rw [hline, if_neg hlong] at h
    exact h.elim
  | case4 s hline hlong reply replies e he =>
    refine readsLine_none (inputSide_checkTlsError .read e s) hline hshort fun h => ?_
    unfold refuses at h
    rw [hline, if_neg hlong] at h
    dsimp only at h
    rw [he] at h
    exact h.elim
  | case5 s hline hlong reply replies bytes hbytes ih =>
    have hle : bytes.length ≤ lineBufferSize := by
      have hread := (sslRead_ok hbytes).2
      rw [hsize] at hread
      exact hread
    have hmore : (s.receiveLine bytes).inputBuffer.length ≤ lineMaxSize := by
      change (s.inputBuffer ++ bytes).length ≤ lineMaxSize
      rw [List.length_append]
      omega
    have h := ih hmore hsize
    have hrefuses : refuses (reply :: replies) s ↔ refuses replies (s.receiveLine bytes) := by
      rw [refuses, hline]
      dsimp only
      rw [if_neg hlong, hbytes]
    obtain ⟨more, hrec, hdata⟩ := h.received
    have hrec' : (s.receiveLine bytes).history.received = s.history.received ++ bytes := rfl
    have hbuf' : (s.receiveLine bytes).inputBuffer = s.inputBuffer ++ bytes := rfl
    rw [hrec', List.append_assoc] at hrec
    rw [hbuf', List.append_assoc] at hdata
    rw [hrefuses]
    exact ⟨⟨h.same.requests, h.same.delivered, h.same.waits⟩, h.mode, h.short, h.size, h.refused, bytes ++ more, hrec,
      hdata⟩

/-! ### Steps -/

/-- Only lines are asked for. -/
def LinesOnly (_ : State η) : Event η → Prop
  | .tlsRead _ size => size = 0
  | _ => True

instance decidableLinesOnly (s : State η) : (e : Event η) → Decidable (LinesOnly s e)
  | .tlsRead _ size => inferInstanceAs (Decidable (size = 0))
  | .advance _ | .ready _ | .expire | .acceptSslCb _ | .readCb _ | .writeCb _ | .shutdownCb _ | .timeoutCb
  | .tlsWrite _ _ | .tlsWriteLine _ | .tlsShutdown | .tlsOnError _ | .tlsOnTimeout _ | .tlsOnLineTooLong _ =>
    instDecidableTrue

/-- The handlers have got the lines of the stream, and what is left is in the buffer. -/
structure InLines (s : State η) : Prop where
  fed : IoFed s
  mode : s.readMode = .readLine
  short : s.inputBuffer.length ≤ lineMaxSize
  size : .read ∈ s.loop.active → s.inputSize = lineBufferSize
  waits : .read ∈ s.loop.active → s.readHandler.isSome
  lines : ∃ lines : List Bytes, (∀ l ∈ lines, newline ∉ l ∧ l.length < lineMaxSize) ∧
    s.history.received = unlines lines ++ s.inputBuffer ∧
    s.delivered = lines.map fun l => terminateLine (l ++ [newline])
  caught : .read ∈ s.loop.active → .read ∉ s.loop.pending → newline ∉ s.inputBuffer

theorem Tended.active {v : Watcher} {l l' : Loop Watcher} (h : Tended v l l') (hv : v ≠ .write)
    (hact : v ∈ l'.active) : v ∈ l.active := by
  cases h with
  | same hact' _ => exact hact'.mp hact
  | fed _ _ hw => exact hw.resolve_left hv
  | stopped hoff _ => exact absurd hact hoff

theorem Frame.inLines {s t : State η} (h : Frame .read s t) (hfed : IoFed t) (hs : InLines s) : InLines t := by
  have hside := h.side
  simp only [State.inputSide, InputSide.mk.injEq] at hside
  obtain ⟨hbuf, -, hsize, -, hmode, hwaits, -, hrec, hdel⟩ := hside
  have hact := h.tended.active (by decide)
  refine ⟨hfed, hmode.trans hs.mode, hbuf ▸ hs.short, fun ha => hsize.trans (hs.size (hact ha)),
    fun ha => hwaits.trans (hs.waits (hact ha)), ?_, fun ha hp => ?_⟩
  · rw [hrec, hbuf, hdel]
    exact hs.lines
  · rw [hbuf]
    cases h.tended with
    | same ha' hp' => exact hs.caught (ha'.mp ha) (mt hp'.mpr hp)
    | fed _ hp' _ => exact absurd hp' hp
    | stopped ha' _ => exact absurd ha ha'

theorem inLines_tlsRead {s : State η} (hs : InLines s) (handler : η) : InLines (tlsRead handler 0 s) := by
  have hfed := ioFed_tlsRead hs.fed handler 0
  by_cases hact : .read ∈ s.loop.active
  · have hdied : tlsRead handler 0 s = { s with died := true } := if_pos hact
    have hframe : Frame .read s { s with died := true } := frame_same rfl Iff.rfl Iff.rfl
    rw [hdied] at hfed ⊢
    exact hframe.inLines hfed hs
  · have hread : tlsRead handler 0 s = (s.ask handler 0).arm .read .read := if_neg hact
    rw [hread] at hfed ⊢
    exact ⟨hfed, rfl, hs.short, fun _ => rfl, fun _ => rfl, hs.lines,
      fun _ hpen => absurd (Finset.mem_insert_self Watcher.read _) hpen⟩

theorem InLines.deliver {s t : State η} {data : Bytes} {refused : Prop} (hs : InLines s) (hact : .read ∈ s.loop.active)
    (h : ReadsLine s t (some data) refused) (hfed : IoFed (deliver data t)) : InLines (deliver data t) := by
  obtain ⟨lines, hall, hrec, hdel⟩ := hs.lines
  obtain ⟨bytes, hrec', line, hline, hsplit, hdata, hlen⟩ := h.received
  obtain ⟨handler, hhandler⟩ := Option.isSome_iff_exists.mp (h.same.waits.trans (hs.waits hact))
  have heq : Tls.deliver data t = ({ t with loop := t.loop.stop .read }).call (.read handler data) := by
    unfold Tls.deliver
    dsimp only
    rw [hhandler]
  have hdelivered : (Tls.deliver data t).delivered = s.delivered ++ [data] := by
    rw [heq, ← h.same.delivered]
    simp [State.delivered, State.call, Upcall.data?]
  rw [heq] at hfed hdelivered ⊢
  have hoff : .read ∉ (({ t with loop := t.loop.stop .read }).call (.read handler data)).loop.active :=
    Finset.notMem_erase _ _
  refine ⟨hfed, h.mode.trans hs.mode, h.short, fun ha => absurd ha hoff, fun ha => absurd ha hoff,
    ⟨lines ++ [line], fun l hl => ?_, ?_, ?_⟩, fun ha => absurd ha hoff⟩
  · rcases List.mem_append.mp hl with hl | hl
    · exact hall l hl
    · obtain rfl := List.mem_singleton.mp hl
      exact ⟨hline, hlen⟩
  · change t.history.received = _ ++ t.inputBuffer
    rw [hrec', hrec, List.append_assoc, hsplit]
    simp [unlines]
  · rw [hdelivered, hdel, hdata, List.map_append]
    rfl

theorem InLines.wait {s t : State η} {refused : Prop} (hs : InLines s) (h : ReadsLine s t none refused)
    (hact : .read ∈ s.loop.active) (hfed : IoFed t) : InLines t := by
  obtain ⟨lines, hall, hrec, hdel⟩ := hs.lines
  obtain ⟨bytes, hrec', hbuf, hline⟩ := h.received
  refine ⟨hfed, h.mode.trans hs.mode, h.short, fun _ => (h.size rfl).trans (hs.size hact),
    fun _ => h.same.waits.trans (hs.waits hact), ⟨lines, hall, ?_, h.same.delivered.trans hdel⟩, fun _ _ => hline⟩
  rw [hrec', hrec, List.append_assoc, hbuf]

theorem refuses_same (replies : List SslRead) (s : State η) (loop : Loop Watcher) (time : ℚ)
    (input : Option Bytes) :
    refuses replies { s with loop := loop, lastActivity := time, input := input } = refuses replies s := by
  induction replies generalizing s input with
  | nil =>
    unfold refuses
    rfl
  | cons reply replies ih =>
    unfold refuses
    dsimp only
    split
    · rfl
    · split
      · rfl
      · split
        · rfl
        · rename_i bytes _
          exact ih (s.receiveLine bytes) _

theorem ReadsLine.of_side {s u t : State η} {data : Option Bytes} {refused : Prop} (h : ReadsLine u t data refused)
    (hside : u.inputSide = s.inputSide) : ReadsLine s t data refused := by
  have hsame := same_of_side hside
  simp only [State.inputSide, InputSide.mk.injEq] at hside
  obtain ⟨hbuf, -, hsize, -, hmode, -, -, hrec, -⟩ := hside
  refine ⟨⟨h.same.requests.trans hsame.requests, h.same.delivered.trans hsame.delivered,
    h.same.waits.trans hsame.waits⟩, h.mode.trans hmode, h.short, fun hd => (h.size hd).trans hsize, ?_, ?_⟩
  · rw [← hsize]
    exact h.refused
  · rw [← hrec, ← hbuf]
    exact h.received

theorem readsLine_readLine (replies : List SslRead) {s : State η} (hshort : s.inputBuffer.length ≤ lineMaxSize)
    (hsize : s.inputSize = lineBufferSize) :
    ReadsLine s (readLine replies s).1 (readLine replies s).2 (refuses replies s) := by
  have h := readsLine_readLineLoop replies (s := { s with input := some (s.input.getD []) }) hshort hsize
  rw [refuses_same replies s s.loop s.lastActivity] at h
  exact ⟨⟨h.same.requests, h.same.delivered, h.same.waits⟩, h.mode, h.short, h.size, h.refused, h.received⟩

/-- What is left when a line is refused, and from then on: a line that is not complete. -/
structure Stuck (s : State η) : Prop where
  line : newline ∉ s.inputBuffer
  long : lineMaxSize < s.inputBuffer.length + lineBufferSize

theorem readsLine_readCb {s t : State η} {replies : List SslRead} (hs : InLines s)
    (h : stepAlive s (.readCb replies) = some t) : .read ∈ s.loop.active ∧
      ∃ (u : State η) (data : Option Bytes), ReadsLine s u data (refuses replies s) ∧
        ((∃ line, data = some line ∧ t = deliver line u) ∨ (data = none ∧ t = u)) := by
  obtain ⟨hpen, rfl⟩ := invoke_eq_some h
  have hact := hs.fed.fed .read (by decide) hpen
  have hrefuses : refuses replies (resetWatcherState .write { s with loop := s.loop.take .read }).touch =
      refuses replies s := refuses_same _ s _ _ _
  have hside : ((resetWatcherState .write { s with loop := s.loop.take .read }).touch).inputSide =
      s.inputSide := (frame_resetWatcherState (v := .read) .write _).side
  refine ⟨hact, ?_⟩
  unfold readCb
  generalize (resetWatcherState .write { s with loop := s.loop.take .read }).touch = u at hrefuses hside
  have hfields := hside
  simp only [State.inputSide, InputSide.mk.injEq] at hfields
  obtain ⟨hbuf, -, hsize, -, hmode, -⟩ := hfields
  have hdata := readData_of_line (hmode.trans hs.mode) replies
  have hreads := readsLine_readLine replies (hbuf ▸ hs.short) (hsize.trans (hs.size hact))
  rw [← hdata, hrefuses] at hreads
  refine ⟨(readData replies u).1, (readData replies u).2, hreads.of_side hside, ?_⟩
  split
  · rename_i v line heq
    exact Or.inl ⟨line, by rw [heq], by rw [heq]⟩
  · rename_i v heq
    exact Or.inr ⟨by rw [heq], by rw [heq]⟩

theorem inLines_readCb {s t : State η} {replies : List SslRead} (hs : InLines s) (hfed : IoFed t)
    (h : stepAlive s (.readCb replies) = some t) : InLines t ∧ (refuses replies s → Stuck t) := by
  obtain ⟨hact, u, data, hreads, ⟨line, rfl, rfl⟩ | ⟨rfl, rfl⟩⟩ := readsLine_readCb hs h
  · refine ⟨hs.deliver hact hreads hfed, fun hr => ?_⟩
    cases (hreads.refused hr).1
  · obtain ⟨bytes, -, -, hline⟩ := hreads.received
    refine ⟨hs.wait hreads hact hfed, fun hr => ⟨hline, ?_⟩⟩
    rw [← hs.size hact]
    exact (hreads.refused hr).2

/-- **One step of reading lines.** -/
theorem inLines_step {s t : State η} {e : Event η} (hs : InLines s) (hok : LinesOnly s e) (h : step s e = some t) :
    InLines t := by
  have hfed := ioFed_step hs.fed h
  obtain ⟨-, -, halive⟩ := step_eq_some h
  rcases e.aside_or with haside | ⟨replies, rfl⟩ | ⟨replies, rfl⟩ | ⟨handler, size, rfl⟩
  · exact (frame_stepAlive (Or.inl rfl) haside halive).inLines hfed hs
  · exact (inLines_readCb hs hfed halive).1
  · obtain ⟨-, rfl⟩ := invoke_eq_some halive
    exact (frame_writeCb replies s).inLines hfed hs
  · have hsize : size = 0 := hok
    rw [hsize] at halive
    cases halive
    exact inLines_tlsRead hs handler

theorem Started.inLines {s : State η} (h : Started s) : InLines s := by
  obtain ⟨connectHandler, timeout, now, hframe⟩ := h.frame
  refine hframe.inLines h.ioFed ⟨ioFed_tlsNew connectHandler timeout now, rfl, Nat.zero_le _,
    fun ha => ?_, fun ha => ?_, ⟨[], fun l hl => ?_, rfl, rfl⟩, fun ha => ?_⟩
  · exact absurd ha (Finset.notMem_empty _)
  · exact absurd ha (Finset.notMem_empty _)
  · exact absurd hl List.not_mem_nil
  · exact absurd ha (Finset.notMem_empty _)

/-! ### Refusals -/

/-- A refusal is a call of `lineTooLong`, and nothing else is. -/
theorem refuses_readLineLoop (replies : List SslRead) (s : State η) :
    (refuses replies s → ∃ u, u.userSide = s.userSide ∧ readLineLoop replies s = (lineTooLong u, none)) ∧
    (¬ refuses replies s → ∃ u, u.userSide = s.userSide ∧
      ((∃ line, readLineLoop replies s = (u, some line)) ∨
        ∃ e, readLineLoop replies s = (checkTlsError .read e u, none))) := by
  fun_induction readLineLoop replies s with
  | case1 replies s line rest hline =>
    refine ⟨fun h => ?_, fun _ => ⟨{ s with inputBuffer := rest, input := none, inputSize := 0 }, rfl, Or.inl ⟨line, rfl⟩⟩⟩
    unfold refuses at h
    rw [hline] at h
    exact h.elim
  | case2 replies s hline hlong =>
    refine ⟨fun _ => ⟨s, rfl, rfl⟩, fun h => ?_⟩
    unfold refuses at h
    rw [hline, if_pos hlong] at h
    exact absurd trivial h
  | case3 s hline hlong =>
    refine ⟨fun h => ?_, fun _ => ⟨s, rfl, Or.inr ⟨.wantRead, rfl⟩⟩⟩
    unfold refuses at h
    rw [hline, if_neg hlong] at h
    exact h.elim
  | case4 s hline hlong reply replies e he =>
    refine ⟨fun h => ?_, fun _ => ⟨s, rfl, Or.inr ⟨e, rfl⟩⟩⟩
    unfold refuses at h
    rw [hline, if_neg hlong] at h
    dsimp only at h
    rw [he] at h
    exact h.elim
  | case5 s hline hlong reply replies bytes hbytes ih =>
    have hrefuses : refuses (reply :: replies) s ↔ refuses replies (s.receiveLine bytes) := by
      rw [refuses, hline]
      dsimp only
      rw [if_neg hlong, hbytes]
    rw [hrefuses]
    exact ih

theorem upcalls_checkTlsError (w : Watcher) (e : SslError) (s : State η) :
    (checkTlsError w e s).history.upcalls = s.history.upcalls ∨
      ∃ handler, (checkTlsError w e s).history.upcalls = s.history.upcalls ++ [.error handler] := by
  cases e with
  | wantRead => exact Or.inl rfl
  | wantWrite => exact Or.inl rfl
  | interrupted => exact Or.inl rfl
  | failed =>
    unfold checkTlsError tlsError
    dsimp only
    split
    · rename_i handler _
      exact Or.inr ⟨handler, by rw [history_tlsFree]; rfl⟩
    · exact Or.inl (by rw [history_tlsFree])

theorem upcalls_deliver (data : Bytes) (s : State η) : (deliver data s).history.upcalls = s.history.upcalls ∨
    ∃ handler, (deliver data s).history.upcalls = s.history.upcalls ++ [.read handler data] := by
  unfold deliver
  dsimp only
  split
  · rename_i handler _
    exact Or.inr ⟨handler, rfl⟩
  · exact Or.inl rfl

/-- The handler for lines that are too long is called exactly when one is refused. -/
theorem refuses_iff {s t : State η} {replies : List SslRead} {handler : η} (hs : InLines s)
    (hhandler : s.lineTooLongHandler = some handler) (h : stepAlive s (.readCb replies) = some t) :
    refuses replies s ↔ t.history.upcalls = s.history.upcalls ++ [.lineTooLong handler] := by
  obtain ⟨hpen, rfl⟩ := invoke_eq_some h
  have hrefuses : refuses replies (resetWatcherState .write { s with loop := s.loop.take .read }).touch =
      refuses replies s := refuses_same _ s _ _ _
  have hmode : (resetWatcherState .write { s with loop := s.loop.take .read }).touch.readMode = .readLine := hs.mode
  have huser : (resetWatcherState .write { s with loop := s.loop.take .read }).touch.userSide = s.userSide := rfl
  unfold readCb
  generalize (resetWatcherState .write { s with loop := s.loop.take .read }).touch = u at hrefuses hmode huser
  obtain ⟨hyes, hno⟩ := refuses_readLineLoop replies { u with input := some (u.input.getD []) }
  rw [refuses_same replies u u.loop u.lastActivity, hrefuses] at hyes hno
  have hupcalls : ∀ v : State η, v.userSide = u.userSide → v.history.upcalls = s.history.upcalls :=
    fun v hv => congrArg UserSide.upcalls (hv.trans huser)
  rw [readData_of_line hmode]
  constructor
  · intro hr
    obtain ⟨v, hv, heq⟩ := hyes hr
    have hlong : v.lineTooLongHandler = some handler :=
      (congrArg UserSide.lineTooLongHandler (hv.trans huser)).trans hhandler
    have hloop : readLine replies u = (lineTooLong v, none) := heq
    rw [hloop, lineTooLong]
    dsimp only
    rw [hlong]
    exact congrArg (· ++ [Upcall.lineTooLong handler]) (hupcalls v hv)
  · intro hcall
    by_contra hr
    obtain ⟨v, hv, ⟨line, heq⟩ | ⟨e, heq⟩⟩ := hno hr
    · have hloop : readLine replies u = (v, some line) := heq
      rw [hloop] at hcall
      dsimp only at hcall
      rcases upcalls_deliver line v with hsame | ⟨handler', hread⟩
      · simp [hsame, hupcalls v hv] at hcall
      · simp [hread, hupcalls v hv] at hcall
    · have hloop : readLine replies u = (checkTlsError .read e v, none) := heq
      rw [hloop] at hcall
      dsimp only at hcall
      rcases upcalls_checkTlsError .read e v with hsame | ⟨handler', herror⟩
      · simp [hsame, hupcalls v hv] at hcall
      · simp [herror, hupcalls v hv] at hcall

/-- When what is in the buffer is too long already, nothing is read. -/
theorem readLineLoop_stuck (replies : List SslRead) {s : State η} (hs : Stuck s) (hsize : s.inputSize = lineBufferSize) :
    readLineLoop replies s = (lineTooLong s, none) := by
  have hlong : lineMaxSize < s.inputBuffer.length + s.inputSize := by
    rw [hsize]
    exact hs.long
  unfold readLineLoop
  rw [bufferReadLine_eq_none.mpr hs.line, if_pos hlong]

theorem Stuck.of_side {s t : State η} (h : t.inputSide = s.inputSide) (hs : Stuck s) :
    Stuck t ∧ t.delivered = s.delivered := by
  have hbuf : t.inputBuffer = s.inputBuffer := congrArg InputSide.inputBuffer h
  exact ⟨⟨hbuf ▸ hs.line, hbuf ▸ hs.long⟩, congrArg InputSide.delivered h⟩

/-- Nobody gets anything any more. -/
theorem stuck_step {s t : State η} {e : Event η} (hs : InLines s) (hstuck : Stuck s) (hok : LinesOnly s e)
    (h : step s e = some t) : Stuck t ∧ t.delivered = s.delivered := by
  obtain ⟨-, -, halive⟩ := step_eq_some h
  rcases e.aside_or with haside | ⟨replies, rfl⟩ | ⟨replies, rfl⟩ | ⟨handler, size, rfl⟩
  · exact hstuck.of_side (frame_stepAlive (Or.inl rfl) haside halive).side
  · obtain ⟨hpen, rfl⟩ := invoke_eq_some halive
    have hact := hs.fed.fed .read (by decide) hpen
    have hside : ((resetWatcherState .write { s with loop := s.loop.take .read }).touch).inputSide =
        s.inputSide := (frame_resetWatcherState (v := .read) .write _).side
    unfold readCb
    generalize (resetWatcherState .write { s with loop := s.loop.take .read }).touch = u at hside
    have hu := hstuck.of_side hside
    have hfields := hside
    simp only [State.inputSide, InputSide.mk.injEq] at hfields
    obtain ⟨-, -, hsize, -, hmode, -⟩ := hfields
    have hdata : readData replies u = (lineTooLong { u with input := some (u.input.getD []) }, none) := by
      rw [readData_of_line (hmode.trans hs.mode)]
      exact readLineLoop_stuck replies ⟨hu.1.line, hu.1.long⟩ (hsize.trans (hs.size hact))
    have hlong := (frame_lineTooLong (v := .read) { u with input := some (u.input.getD []) }).side
    have hblock : Stuck { u with input := some (u.input.getD []) } := ⟨hu.1.line, hu.1.long⟩
    rw [hdata]
    have ht := hblock.of_side hlong
    exact ⟨ht.1, ht.2.trans hu.2⟩
  · obtain ⟨-, rfl⟩ := invoke_eq_some halive
    exact hstuck.of_side (frame_writeCb replies s).side
  · cases halive
    unfold tlsRead
    split <;> exact ⟨⟨hstuck.line, hstuck.long⟩, rfl⟩

/-! ### Runs -/

theorem notMem_of_mem_unlines {lines : List Bytes} {rest : Bytes} (h : 0 ∉ unlines lines ++ rest) {l : Bytes}
    (hl : l ∈ lines) : 0 ∉ l := by
  intro hc
  have hmem : 0 ∈ unlines lines := List.mem_flatMap.mpr ⟨l, hl, List.mem_append_left _ hc⟩
  exact h (List.mem_append_left _ hmem)

/-- What has been delivered is cut from the stream, and what follows is in the buffer. -/
theorem InLines.cut {s : State η} (hs : InLines s) (h0 : 0 ∉ s.history.received) (more : Bytes) :
    streamLines (s.history.received ++ more) = s.delivered.map cstr ++ streamLines (s.inputBuffer ++ more) := by
  obtain ⟨lines, hall, hrec, hdel⟩ := hs.lines
  have hcstr : s.delivered.map cstr = lines.map chomp := by
    rw [hdel, List.map_map]
    refine List.map_congr_left fun l hl => cstr_terminateLine ?_
    exact notMem_of_mem_unlines (hrec ▸ h0) hl
  rw [hrec, List.append_assoc, streamLines_unlines (fun l hl => (hall l hl).1), hcstr]

theorem InLines.delivered_all {s : State η} (hs : InLines s) (hline : newline ∉ s.inputBuffer)
    (h0 : 0 ∉ s.history.received) : s.delivered.map cstr = streamLines s.history.received := by
  have hcut := hs.cut h0 []
  rw [List.append_nil, List.append_nil, streamLines, streamLines, linesFrom_of_notMem hline, List.append_nil] at hcut
  exact hcut.symm

theorem InLines.delivered_short {s : State η} (hs : InLines s) : ∀ data ∈ s.delivered, data.length ≤ 2048 := by
  obtain ⟨lines, hall, -, hdel⟩ := hs.lines
  intro data hdata
  rw [hdel] at hdata
  obtain ⟨l, hl, rfl⟩ := List.mem_map.mp hdata
  have hlt := (hall l hl).2
  rw [length_terminateLine, List.length_append, List.length_singleton]
  exact hlt

theorem Stuck.long_line {s : State η} (hs : Stuck s) {more line rest : Bytes}
    (hsplit : s.inputBuffer ++ more = line ++ newline :: rest) : 1921 < (line ++ [newline]).length := by
  have hlong : 2048 < s.inputBuffer.length + 128 := hs.long
  have hle : s.inputBuffer.length ≤ line.length := by
    by_contra hc
    have hmem : newline ∈ s.inputBuffer := by
      have hget := congrArg (·[line.length]?) hsplit
      simp only [List.getElem?_append_left (Nat.lt_of_not_le hc), List.getElem?_append_right (le_refl _),
        Nat.sub_self, List.getElem?_cons_zero] at hget
      exact List.mem_of_getElem? hget
    exact hs.line hmem
  rw [List.length_append, List.length_singleton]
  omega

/-- **Lines in order.** When only lines are asked for, what the handlers get of a stream without NUL are
its lines one after the other, all of them that have been received when the connection waits for more.
None is longer than 2048 octets, nor is what is buffered. A line is only refused when it has more than
1921 octets, with its terminator; the handlers have got the lines before it then, and get no more. -/
theorem lines_in_order {es : List (Event η)} {s : State η} (h : Lives LinesOnly es s) :
    (0 ∉ s.history.received → (∀ more, s.delivered.map cstr <+: streamLines (s.history.received ++ more)) ∧
      (.read ∈ s.loop.active → .read ∉ s.loop.pending → s.delivered.map cstr = streamLines s.history.received)) ∧
    (∀ data ∈ s.delivered, data.length ≤ 2048) ∧ s.inputBuffer.length ≤ lineMaxSize ∧
    ∀ replies t, step s (.readCb replies) = some t →
      (∀ handler, s.lineTooLongHandler = some handler →
        (refuses replies s ↔ t.history.upcalls = s.history.upcalls ++ [.lineTooLong handler])) ∧
      (refuses replies s →
        (∀ more line rest, t.inputBuffer ++ more = line ++ newline :: rest → newline ∉ line →
          1921 < (line ++ [newline]).length) ∧
        (0 ∉ t.history.received → t.delivered.map cstr = streamLines t.history.received) ∧
        ∀ es' u, Machine.Runs (Machine.Meeting LinesOnly (Machine.Steps step)) t es' u →
          u.delivered = t.delivered) := by
  have hs : InLines s := h.invariant (fun _ hstart => hstart.inLines) (fun _ _ _ hs hok h => inLines_step hs hok h)
  refine ⟨fun h0 => ⟨fun more => ?_, fun hact hpen => hs.delivered_all (hs.caught hact hpen) h0⟩,
    hs.delivered_short, hs.short, fun replies t hstep => ?_⟩
  · rw [hs.cut h0 more]
    exact List.prefix_append _ _
  obtain ⟨-, -, halive⟩ := step_eq_some hstep
  obtain ⟨ht, hstuck⟩ := inLines_readCb hs (ioFed_step hs.fed hstep) halive
  refine ⟨fun handler hhandler => refuses_iff hs hhandler halive, fun hr => ?_⟩
  have hst := hstuck hr
  refine ⟨fun more line rest hsplit _ => hst.long_line hsplit,
    fun h0 => ht.delivered_all hst.line h0, fun es' u hruns => ?_⟩
  have hkept : InLines u ∧ Stuck u ∧ u.delivered = t.delivered := by
    refine hruns.invariant (I := fun u => InLines u ∧ Stuck u ∧ u.delivered = t.delivered) ?_ ⟨ht, hst, rfl⟩
    intro v e w hv hvw
    obtain ⟨hwst, hwdel⟩ := stuck_step hv.1 hv.2.1 hvw.1 hvw.2
    exact ⟨inLines_step hv.1 hvw.1 hvw.2, hwst, hwdel.trans hv.2.2⟩
  exact hkept.2.2

/-- Two lines and the beginning of a third come in two pieces. -/
theorem lines_in_order_moin : ∃ s : State Unit, s.delivered.map cstr = [ascii "MOIN", ascii "NOOP"] ∧
    s.delivered.map cstr <+: streamLines (s.history.received ++ ascii "T\n") := by
  obtain ⟨s, hs, hp⟩ := (Option.any_eq_true _ _).mp (by decide +kernel : Option.any
    (fun s => decide (0 ∉ s.history.received ∧ s.delivered.map cstr = [ascii "MOIN", ascii "NOOP"]))
    (Machine.run (Machine.guarded LinesOnly step) (accepted () 5 0) [.ready .init, .acceptSslCb (.established true),
      .tlsRead () 0, .readCb [.data (ch 'M') (ascii "OI")], .ready .read,
      .readCb [.data (ch 'N') (ascii "\r\nNOOP\nQUI")], .tlsRead () 0, .readCb []]) = true)
  obtain ⟨h0, hdel⟩ := of_decide_eq_true hp
  exact ⟨s, hdel, ((lines_in_order (lives_of_run hs)).1 h0).1 (ascii "T\n")⟩

end Tls
end NscaNg
