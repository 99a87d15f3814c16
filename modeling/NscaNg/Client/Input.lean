/-
# Standard input in chunks

`src/client/input.c`. The reader hands out a chunk for each request. A request calls `read_cb()`
at once, and the handler of a chunk may make the next one itself, so `read_cb()` is entered again
from within; at the end of the input it calls the EOF handler and frees the reader, while the
outer calls have yet to return. What `read(2)` does, and whether a handler asks at once, is left
to the surroundings.

The trace says in which order there were requests, chunks and the end of the input. Using the
reader after it was freed is a fault, and so is not to come back from `read_cb()`.
-/
import NscaNg.Common.Buffer
import NscaNg.Machine.Runs

namespace NscaNg.Client

open Posix

/-- How a call of `read(2)` comes out: with `EAGAIN` or `EINTR`, with another error, or with one
byte and so many more, as far as there are any. -/
inductive Reading
  | again
  | failed
  | data (more : ℕ)
  deriving DecidableEq

/-- What there is to see of the reader. -/
inductive Item
  | request
  | chunk (bytes : Bytes)
  | eof
  deriving DecidableEq

structure Reader where
  /-- What has not been read yet. -/
  stdin : Bytes
  /-- How the next calls of `read(2)` come out. -/
  readings : List Reading
  buffer : Bytes
  eof : Bool
  /-- The watcher is active. -/
  active : Bool
  freed : Bool
  /-- The next request is up to the handler. -/
  owed : Bool
  /-- `client_stop()` stopped the reader. -/
  cancelled : Bool
  died : Bool
  fault : Bool
  trace : List Item
  deriving DecidableEq

namespace Reader

/-- `input_start()`. -/
def start (stdin : Bytes) : Reader where
  stdin := stdin
  readings := []
  buffer := []
  eof := false
  active := false
  freed := false
  owed := true
  cancelled := false
  died := false
  fault := false
  trace := []

/-- The reader is used. -/
def use (r : Reader) : Reader := { r with fault := r.fault || r.freed }

/-- `input_stop()`. -/
def stop (r : Reader) : Reader := { r.use with active := false, freed := true }

/-- The EOF handler is called, and the reader is stopped. -/
def finish (r : Reader) : Reader := stop { r with trace := r.trace ++ [.eof] }

/-- `read(2)`: an error number if there is an error, and otherwise the bytes that were read. -/
def read (r : Reader) : Reading ⊕ Bytes × Reader :=
  match r.readings with
  | .data more :: readings =>
    .inr (r.stdin.take (min (more + 1) 128),
      { r with readings := readings, stdin := r.stdin.drop (min (more + 1) 128) })
  | .failed :: _ => .inl .failed
  | .again :: _ => .inl .again
  | [] => .inl .again

section

variable (separator : UInt8) (asks : List Item → Bool)

/-- A request reaches the reader. -/
def asked (r : Reader) : Reader := { r.use with owed := false, trace := r.trace ++ [.request] }

/-- `input_read_chunk()`, with a callback for `ev_invoke()` to call. -/
def request (readCb : Reader → Reader) (r : Reader) : Reader :=
  if r.asked.eof then r.asked.finish else readCb { r.asked with active := true }

/-- A chunk reaches the read handler. -/
def handed (r : Reader) (chunk : Bytes) : Reader := { r with owed := true, trace := r.trace ++ [.chunk chunk] }

/-- The read handler is called with a chunk, and may ask for the next. -/
def handle (readCb : Reader → Reader) (r : Reader) (chunk : Bytes) : Reader :=
  if asks (r.handed chunk).trace then (r.handed chunk).request readCb else r.handed chunk

/-- `read(2)` has come to the end of the input. -/
def atEof (readCb : Reader → Reader) (r : Reader) : Reader :=
  if r.buffer ≠ [] then
    handle asks readCb { r with eof := true, active := false, buffer := [] } (r.buffer ++ [0])
  else finish { r with eof := true }

/-- `read_cb()`. Behind a call of a handler nothing is left to do: the loop is left by a `break`, or
since `n` is 0. -/
def readCb : ℕ → Reader → Reader
  | 0, r => { r with fault := true }
  | fuel + 1, r =>
    match bufferReadChunk r.use.buffer separator with
    | some (chunk, buffer) => handle asks (readCb fuel) { r.use with active := false, buffer := buffer } chunk
    | none =>
      match r.use.read with
      | .inl .failed => { r.use with died := true, active := false }
      | .inl _ => r.use
      | .inr ([], r) => r.atEof asks (readCb fuel)
      | .inr (bytes, r) => readCb fuel { r with buffer := r.buffer ++ bytes }

/-- What `read_cb()` has left to do at most. -/
def work (r : Reader) : ℕ := 2 * r.stdin.length + r.buffer.length

/-- An event: the loop calls `read_cb()`, the handler asks for the next chunk later, or
`client_stop()` stops the reader. -/
inductive Event
  | ready (readings : List Reading)
  | ask (readings : List Reading)
  | stop
  deriving DecidableEq

def step (r : Reader) : Event → Option Reader
  | .ready readings =>
    if r.active then some (readCb separator asks (r.work + 1) { r with readings := readings }) else none
  | .ask readings =>
    if r.owed then some (request (readCb separator asks (r.work + 1)) { r with readings := readings }) else none
  | .stop =>
    if r.freed ∨ r.died then none else some { r.stop with owed := false, cancelled := true }

end

/-! ### What the trace has to be -/

/-- The input split at the separator; what stands behind the last separator counts unless it is
empty. -/
def chunksOf (separator : UInt8) (input : Bytes) : List Bytes :=
  if (input.splitOn separator).getLast? = some [] then (input.splitOn separator).dropLast
  else input.splitOn separator

/-- The calls of the handlers for an input. -/
def calls (separator : UInt8) (input : Bytes) : List Item :=
  (chunksOf separator input).map (fun data => .chunk (data ++ [0])) ++ [.eof]

/-- Each call answers a request. -/
def exchange (items : List Item) : List Item := items.flatMap fun item => [.request, item]

/-- The whole trace for an input. -/
def expected (separator : UInt8) (input : Bytes) : List Item := exchange (calls separator input)

section

variable {separator : UInt8}

theorem chunksOf_cons {data : Bytes} (h : separator ∉ data) (rest : Bytes) :
    chunksOf separator (data ++ separator :: rest) = data :: chunksOf separator rest := by
  obtain ⟨part, parts, hparts⟩ := List.exists_cons_of_ne_nil (List.splitOn_ne_nil separator rest)
  unfold chunksOf
  rw [List.splitOn_append_cons_self_of_not_mem h, hparts, List.getLast?_cons_cons]
  by_cases hlast : (part :: parts).getLast? = some []
  · rw [if_pos hlast, if_pos hlast, List.dropLast_cons_cons]
  · rw [if_neg hlast, if_neg hlast]

theorem chunksOf_rest {data : Bytes} (h : separator ∉ data) :
    chunksOf separator data = if data = [] then [] else [data] := by
  unfold chunksOf
  rw [List.splitOn_eq_singleton h]
  by_cases hd : data = []
  · simp [hd]
  · simp [hd]

theorem calls_cons {data : Bytes} (h : separator ∉ data) (rest : Bytes) :
    calls separator (data ++ separator :: rest) = .chunk (data ++ [0]) :: calls separator rest := by
  unfold calls
  rw [chunksOf_cons h]
  rfl

theorem calls_rest {data : Bytes} (h : separator ∉ data) :
    calls separator data = if data = [] then [.eof] else [.chunk (data ++ [0]), .eof] := by
  unfold calls
  rw [chunksOf_rest h]
  by_cases hd : data = []
  · rw [if_pos hd, if_pos hd]
    rfl
  · rw [if_neg hd, if_neg hd]
    rfl

end

/-! ### One callback -/

/-- What is still to come of the trace while the reader lives. -/
def todo (separator : UInt8) (r : Reader) : List Item :=
  let rest := exchange (if r.eof then [.eof] else calls separator (r.buffer ++ r.stdin))
  if r.owed then rest else rest.tail

/-- The reader has done what it has to for the requests there were, and nothing that it must not
do. -/
structure Sound (separator : UInt8) (input : Bytes) (r : Reader) : Prop where
  fault : r.fault = false
  trace : r.freed = false → expected separator input = r.trace ++ r.todo separator
  ended : r.freed = true → r.cancelled = false → expected separator input = r.trace
  before : r.trace <+: expected separator input
  freed : r.freed = true → r.active = false ∧ r.owed = false
  died : r.died = true → r.active = false ∧ r.owed = false
  waits : r.freed = false → r.died = false → r.active = !r.owed
  flushed : r.eof = true → r.buffer = [] ∧ r.active = false
  cancelled : r.cancelled = true → r.freed = true

/-- What a callback that does anything makes smaller. -/
def left (r : Reader) : ℕ :=
  3 * r.stdin.length + 2 * r.buffer.length + (if r.owed then 1 else 0) + if r.freed then 0 else 2

/-- The next call of `read(2)` has bytes, or the end of the input. -/
def readsData (readings : List Reading) : Bool :=
  match readings with
  | .data _ :: _ => true
  | _ => false

section

variable {separator : UInt8} {asks : List Item → Bool} {input : Bytes} {r : Reader}

theorem sound_start (separator : UInt8) (input : Bytes) : Sound separator input (start input) where
  fault := rfl
  trace _ := rfl
  ended h := by cases h
  before := List.nil_prefix
  freed h := by cases h
  died h := by cases h
  waits _ _ := rfl
  flushed h := by cases h
  cancelled h := by cases h

theorem use_of_not_freed (h : r.freed = false) : r.use = r := by
  cases r
  cases h
  simp [use]

theorem Sound.not_freed (h : Sound separator input r) (ha : r.active = true ∨ r.owed = true) : r.freed = false := by
  by_contra hc
  obtain ⟨h1, h2⟩ := h.freed (by simpa using hc)
  rcases ha with ha | ha
  · exact Bool.false_ne_true (h1.symm.trans ha)
  · exact Bool.false_ne_true (h2.symm.trans ha)

theorem Sound.not_died (h : Sound separator input r) (ha : r.active = true ∨ r.owed = true) : r.died = false := by
  by_contra hc
  obtain ⟨h1, h2⟩ := h.died (by simpa using hc)
  rcases ha with ha | ha
  · exact Bool.false_ne_true (h1.symm.trans ha)
  · exact Bool.false_ne_true (h2.symm.trans ha)

/-- The end of the input is told to the handler that asked for more. -/
theorem sound_finish (hf : r.freed = false) (hfault : r.fault = false) (ho : r.owed = false) (hd : r.died = false)
    (hb : r.buffer = []) (ht : expected separator input = r.trace ++ [.eof]) :
    Sound separator input r.finish := by
  have hstop : r.finish.fault = false := by simp [finish, stop, use, hf, hfault]
  exact {
    fault := hstop
    trace := fun h => by cases h
    ended := fun _ _ => ht
    before := ht ▸ List.prefix_rfl
    freed := fun _ => ⟨rfl, ho⟩
    died := fun h => absurd (hd.symm.trans h) Bool.false_ne_true
    waits := fun h => by cases h
    flushed := fun _ => ⟨hb, rfl⟩
    cancelled := fun _ => rfl }

/-- A callback keeps the reader sound, and adds nothing to what is left. -/
def Keeps (separator : UInt8) (input : Bytes) (cb : Reader → Reader) (bound : ℕ) : Prop :=
  ∀ r : Reader, Sound separator input r → r.active = true → r.work < bound →
    Sound separator input (cb r) ∧ (cb r).left + (if readsData r.readings then 1 else 0) ≤ r.left

/-- A request that the reader has to answer. -/
theorem sound_asked (h : Sound separator input r) (ho : r.owed = true) (he : r.eof = false) :
    Sound separator input { r.asked with active := true } := by
  have hf := h.not_freed (.inr ho)
  have hd := h.not_died (.inr ho)
  have htrace := h.trace hf
  unfold todo at htrace
  rw [if_pos ho, he, if_neg Bool.false_ne_true] at htrace
  unfold asked
  rw [use_of_not_freed hf]
  refine ⟨h.fault, fun _ => ?_, fun hc => absurd (hf.symm.trans hc) Bool.false_ne_true, ?_,
    fun hc => absurd (hf.symm.trans hc) Bool.false_ne_true, fun hc => absurd (hd.symm.trans hc) Bool.false_ne_true,
    fun _ _ => rfl, fun hc => absurd (he.symm.trans hc) Bool.false_ne_true, h.cancelled⟩
  · show _ = (r.trace ++ [.request]) ++ _
    unfold todo
    simp only [he, Bool.false_eq_true, if_false]
    rw [htrace, List.append_assoc]
    unfold calls
    cases chunksOf separator (r.buffer ++ r.stdin) <;> rfl
  · show r.trace ++ [.request] <+: _
    rw [htrace]
    unfold calls
    cases chunksOf separator (r.buffer ++ r.stdin) <;> exact (List.prefix_append_right_inj _).mpr ⟨_, rfl⟩

theorem sound_request {cb : Reader → Reader} {bound : ℕ} (hcb : Keeps separator input cb bound)
    (h : Sound separator input r) (ho : r.owed = true) (hw : r.work < bound) :
    Sound separator input (r.request cb) ∧ (r.request cb).left + 1 ≤ r.left := by
  have hf := h.not_freed (.inr ho)
  have hasked : r.asked = { r with owed := false, trace := r.trace ++ [.request] } := by
    unfold asked
    rw [use_of_not_freed hf]
  have hleft : r.asked.left + 1 = r.left := by
    rw [hasked]
    simp only [left, ho, hf, if_true, Bool.false_eq_true, if_false]
  unfold request
  by_cases he : r.eof = true
  · -- the end of the input is known
    have htrace := h.trace hf
    unfold todo at htrace
    rw [if_pos ho, if_pos he] at htrace
    have heof : r.asked.eof = true := by rw [hasked]; exact he
    rw [if_pos heof, hasked]
    refine ⟨sound_finish hf h.fault rfl (h.not_died (.inr ho)) (h.flushed he).1 ?_, ?_⟩
    · show _ = (r.trace ++ [.request]) ++ [.eof]
      rw [htrace, List.append_assoc]
      rfl
    · rw [← hleft, hasked]
      simp only [left, finish, stop, use, hf, if_true, Bool.false_eq_true, if_false]
      omega
  · simp only [Bool.not_eq_true] at he
    have heof : ¬ r.asked.eof = true := by rw [hasked]; exact fun hc => Bool.false_ne_true (he.symm.trans hc)
    rw [if_neg heof]
    have hwork : ({ r.asked with active := true } : Reader).work < bound := by rw [hasked]; exact hw
    obtain ⟨h1, h2⟩ := hcb _ (sound_asked h ho he) rfl hwork
    have hsame : left { r.asked with active := true } = r.asked.left := rfl
    exact ⟨h1, by omega⟩

theorem left_handed (hf : r.freed = false) (chunk : Bytes) :
    (r.handed chunk).left = 3 * r.stdin.length + 2 * r.buffer.length + 3 := by
  simp only [left, handed, hf, if_true, Bool.false_eq_true, if_false]

theorem left_waiting (hf : r.freed = false) (ho : r.owed = false) :
    r.left = 3 * r.stdin.length + 2 * r.buffer.length + 2 := by
  simp only [left, ho, hf, Bool.false_eq_true, if_false]

theorem readsData_le (readings : List Reading) : (if readsData readings then 1 else 0) ≤ 1 := by
  split <;> omega

/-- A chunk is told to the handler that asked for it. -/
theorem sound_handed (hf : r.freed = false) (hfault : r.fault = false) (ha : r.active = false) (hd : r.died = false)
    (hb : r.eof = true → r.buffer = []) (hc : r.cancelled = true → r.freed = true) {chunk : Bytes}
    (ht : expected separator input = r.trace ++
      .chunk chunk :: exchange (if r.eof then [.eof] else calls separator (r.buffer ++ r.stdin))) :
    Sound separator input (r.handed chunk) where
  fault := hfault
  trace _ := by
    rw [ht]
    show _ = (r.trace ++ [.chunk chunk]) ++ _
    rw [List.append_assoc]
    rfl
  ended h := absurd (hf.symm.trans h) Bool.false_ne_true
  before := by
    rw [ht]
    exact (List.prefix_append_right_inj _).mpr ⟨_, rfl⟩
  freed h := absurd (hf.symm.trans h) Bool.false_ne_true
  died h := absurd (hd.symm.trans h) Bool.false_ne_true
  waits _ _ := ha
  flushed h := ⟨hb h, ha⟩
  cancelled := hc

/-- The handler asks at once or leaves it for later. -/
theorem sound_handle (asks : List Item → Bool) {cb : Reader → Reader} {bound : ℕ} (hcb : Keeps separator input cb bound) {chunk : Bytes}
    (h : Sound separator input (r.handed chunk)) (hw : r.work < bound) :
    Sound separator input (r.handle asks cb chunk) ∧ (r.handle asks cb chunk).left ≤ (r.handed chunk).left := by
  unfold handle
  split
  · obtain ⟨h1, h2⟩ := sound_request hcb h rfl hw
    exact ⟨h1, by omega⟩
  · exact ⟨h, Nat.le_refl _⟩

/-- At the end of the input the handler is given what is left of it, and else the EOF handler is
called. -/
theorem sound_atEof (asks : List Item → Bool) {cb : Reader → Reader} {bound : ℕ}
    (hcb : Keeps separator input cb bound) (h : Sound separator input r) (ha : r.active = true)
    (hstdin : r.stdin = []) (hsep : separator ∉ r.buffer) (hw : r.work < bound + 1) :
    Sound separator input (r.atEof asks cb) ∧ (r.atEof asks cb).left + 1 ≤ r.left := by
  have hf := h.not_freed (.inl ha)
  have hd := h.not_died (.inl ha)
  have ho : r.owed = false := by
    have hwaits := h.waits hf hd
    rw [ha] at hwaits
    simpa using hwaits.symm
  have he : r.eof = false := by
    by_contra hc
    exact Bool.false_ne_true ((h.flushed (by simpa using hc)).2.symm.trans ha)
  have htrace := h.trace hf
  unfold todo at htrace
  rw [ho, he, if_neg Bool.false_ne_true, if_neg Bool.false_ne_true, hstdin, List.append_nil, calls_rest hsep] at htrace
  rw [left_waiting hf ho]
  unfold atEof
  by_cases hb : r.buffer = []
  · rw [if_neg (not_not.mpr hb)]
    rw [if_pos hb] at htrace
    refine ⟨sound_finish hf h.fault ho hd hb htrace, ?_⟩
    simp only [left, finish, stop, use, ho, if_true, Bool.false_eq_true, if_false]
    omega
  · rw [if_pos hb]
    rw [if_neg hb] at htrace
    have hlen := List.length_pos_iff.mpr hb
    have hhanded := sound_handed (r := { r with eof := true, active := false, buffer := [] }) hf h.fault rfl hd
      (fun _ => rfl) h.cancelled htrace
    have hwork : work { r with eof := true, active := false, buffer := [] } < bound := by
      unfold work at hw ⊢
      show 2 * r.stdin.length + 0 < bound
      omega
    obtain ⟨h1, h2⟩ := sound_handle asks hcb hhanded hwork
    refine ⟨h1, ?_⟩
    have hleft := left_handed (r := { r with eof := true, active := false, buffer := [] }) hf (r.buffer ++ [0])
    refine (Nat.add_le_add_right (h2.trans hleft.le) 1).trans ?_
    show 3 * r.stdin.length + 2 * 0 + 3 + 1 ≤ _
    omega

/-- Bytes of the input go into the buffer. -/
theorem sound_moved (h : Sound separator input r) (he : r.eof = false) (readings : List Reading) {stdin buffer : Bytes}
    (hsame : buffer ++ stdin = r.buffer ++ r.stdin) :
    Sound separator input { r with readings := readings, stdin := stdin, buffer := buffer } :=
  { h with
    trace := fun hf => by
      have htrace := h.trace hf
      unfold todo at htrace ⊢
      rw [he] at htrace ⊢
      simp only [hsame]
      exact htrace
    flushed := fun hc => absurd (he.symm.trans hc) Bool.false_ne_true }

/-- `read_cb()` gives what was asked for, if it is there, and whatever the handlers ask for from
within; the induction is on the calls that may be needed. -/
theorem sound_readCb (fuel : ℕ) : Keeps separator input (readCb separator asks fuel) fuel := by
  induction fuel with
  | zero => exact fun r _ _ hw => absurd hw (Nat.not_lt_zero _)
  | succ fuel ih =>
    intro r h ha hw
    have hf := h.not_freed (.inl ha)
    have hd := h.not_died (.inl ha)
    have ho : r.owed = false := by
      have hwaits := h.waits hf hd
      rw [ha] at hwaits
      simpa using hwaits.symm
    have he : r.eof = false := by
      by_contra hc
      exact Bool.false_ne_true ((h.flushed (by simpa using hc)).2.symm.trans ha)
    have htrace := h.trace hf
    unfold todo at htrace
    rw [ho, he, if_neg Bool.false_ne_true, if_neg Bool.false_ne_true] at htrace
    rw [readCb, use_of_not_freed hf]
    split
    · -- there is a whole chunk
      rename_i chunk rest hchunk
      obtain ⟨data, hdata, hbuf, rfl⟩ := bufferReadChunk_eq_some hchunk
      rw [hbuf, List.append_assoc, List.cons_append, calls_cons hdata] at htrace
      have hlen : r.buffer.length = data.length + (rest.length + 1) := by
        rw [hbuf, List.length_append, List.length_cons]
      have ht : expected separator input = r.trace ++ .chunk (data ++ [0]) ::
          exchange (if r.eof then [.eof] else calls separator (rest ++ r.stdin)) := by
        rw [htrace, he]
        rfl
      have hhanded := sound_handed (r := { r with active := false, buffer := rest }) hf h.fault rfl hd
        (fun hc => absurd (he.symm.trans hc) Bool.false_ne_true) h.cancelled ht
      have hwork : work { r with active := false, buffer := rest } < fuel := by
        unfold work at hw ⊢
        show 2 * r.stdin.length + rest.length < fuel
        omega
      obtain ⟨h1, h2⟩ := sound_handle asks ih hhanded hwork
      refine ⟨h1, ?_⟩
      have hleft := left_handed (r := { r with active := false, buffer := rest }) hf (data ++ [0])
      have hone := readsData_le r.readings
      rw [left_waiting hf ho]
      refine (Nat.add_le_add (h2.trans hleft.le) hone).trans ?_
      show 3 * r.stdin.length + 2 * rest.length + 3 + 1 ≤ _
      omega
    · rename_i hnone
      have hsep := bufferReadChunk_eq_none.mp hnone
      have hagain : readsData r.readings = false →
          Sound separator input r ∧ r.left + (if readsData r.readings then 1 else 0) ≤ r.left := fun hr => by
        rw [hr, if_neg Bool.false_ne_true]
        exact ⟨h, Nat.le_refl _⟩
      cases hr : r.readings with
      | nil =>
        have hread : r.read = .inl .again := by simp only [read, hr]
        rw [hread, ← hr]
        exact hagain (by rw [hr]; rfl)
      | cons reading readings =>
        cases reading with
        | again =>
          have hread : r.read = .inl .again := by simp only [read, hr]
          rw [hread, ← hr]
          exact hagain (by rw [hr]; rfl)
        | failed =>
          have hread : r.read = .inl .failed := by simp only [read, hr]
          rw [hread]
          refine ⟨⟨h.fault, fun _ => ?_, h.ended, h.before, fun _ => ⟨rfl, ho⟩, fun _ => ⟨rfl, ho⟩,
            fun _ hc => (by cases hc), fun hc => ⟨(h.flushed hc).1, rfl⟩, h.cancelled⟩, Nat.le_refl _⟩
          exact h.trace hf
        | data more =>
          have hread : r.read = .inr (r.stdin.take (min (more + 1) 128),
              { r with readings := readings, stdin := r.stdin.drop (min (more + 1) 128) }) := by
            simp only [read, hr]
          rw [hread]
          have hone := readsData_le (.data more :: readings)
          have hstdin := List.take_append_drop (min (more + 1) 128) r.stdin
          generalize hbytes : r.stdin.take (min (more + 1) 128) = bytes at hstdin
          generalize hrest : r.stdin.drop (min (more + 1) 128) = rest at hstdin
          cases bytes with
          | nil =>
            -- there is nothing to read any more
            have hstdin0 : r.stdin = [] := by
              rcases List.take_eq_nil_iff.mp hbytes with h0 | h0
              · omega
              · exact h0
            obtain rfl : rest = [] := by simpa [hstdin0] using hrest.symm
            have hsame : r.buffer ++ [] = r.buffer ++ r.stdin := by rw [hstdin0]
            have hwork : work { r with readings := readings, stdin := [] } < fuel + 1 := by
              unfold work at hw ⊢
              show 2 * 0 + r.buffer.length < fuel + 1
              omega
            obtain ⟨h1, h2⟩ := sound_atEof asks ih (sound_moved h he readings hsame) ha rfl hsep hwork
            refine ⟨h1, (Nat.add_le_add_left hone _).trans (h2.trans ?_)⟩
            rw [left_waiting (r := { r with readings := readings, stdin := [] }) hf ho, left_waiting hf ho]
            show 3 * 0 + 2 * r.buffer.length + 2 ≤ _
            omega
          | cons b bs =>
            have hsame : (r.buffer ++ b :: bs) ++ rest = r.buffer ++ r.stdin := by rw [List.append_assoc, hstdin]
            have hlen : r.stdin.length = bs.length + 1 + rest.length := by
              rw [← hstdin, List.length_append, List.length_cons]
            have hwork : work { r with readings := readings, stdin := rest, buffer := r.buffer ++ b :: bs } < fuel := by
              unfold work at hw ⊢
              show 2 * rest.length + (r.buffer ++ b :: bs).length < fuel
              rw [List.length_append, List.length_cons]
              omega
            obtain ⟨h1, h2⟩ := ih _ (sound_moved h he readings hsame) ha hwork
            refine ⟨h1, (Nat.add_le_add ((Nat.le_add_right _ _).trans h2) hone).trans ?_⟩
            rw [left_waiting (r := { r with readings := readings, stdin := rest, buffer := r.buffer ++ b :: bs }) hf ho,
              left_waiting hf ho]
            show 3 * rest.length + 2 * (r.buffer ++ b :: bs).length + 2 + 1 ≤ _
            rw [List.length_append, List.length_cons]
            omega

/-! ### Runs -/

/-- An event that does not only find that there is nothing to read. -/
def acts : Event → Bool
  | .ready readings => readsData readings
  | .ask _ => true
  | .stop => true

theorem sound_step {e : Event} {r' : Reader} (h : Sound separator input r)
    (hstep : r.step separator asks e = some r') :
    Sound separator input r' ∧ r'.left + (if acts e then 1 else 0) ≤ r.left := by
  have hread : ∀ readings, Sound separator input { r with readings := readings } := fun _ => { h with }
  cases e with
  | ready readings =>
    simp only [step] at hstep
    by_cases ha : r.active = true
    · rw [if_pos ha, Option.some.injEq] at hstep
      subst hstep
      exact sound_readCb (r.work + 1) _ (hread readings) ha (Nat.lt_succ_self _)
    · rw [if_neg ha] at hstep
      cases hstep
  | ask readings =>
    simp only [step] at hstep
    by_cases ho : r.owed = true
    · rw [if_pos ho, Option.some.injEq] at hstep
      subst hstep
      exact sound_request (sound_readCb (r.work + 1)) (hread readings) ho (Nat.lt_succ_self _)
    · rw [if_neg ho] at hstep
      cases hstep
  | stop =>
    simp only [step] at hstep
    by_cases hc : r.freed = true ∨ r.died = true
    · rw [if_pos hc] at hstep
      cases hstep
    · rw [if_neg hc, Option.some.injEq] at hstep
      rw [not_or, Bool.not_eq_true, Bool.not_eq_true] at hc
      subst hstep
      rw [stop, use_of_not_freed hc.1]
      refine ⟨{ h with
        trace := nofun
        ended := nofun
        freed := fun _ => ⟨rfl, rfl⟩
        died := fun _ => ⟨rfl, rfl⟩
        waits := nofun
        flushed := fun he => ⟨(h.flushed he).1, rfl⟩
        cancelled := fun _ => rfl }, ?_⟩
      simp only [left, acts, hc.1, if_true, Bool.false_eq_true, if_false]
      split <;> omega

/-- **Standard input in chunks.** Whatever the input and its separator, however `read(2)` delivers
it, and whether a handler asks at once or later: the reader is not used after it was freed, and the
trace is the beginning of this one: a request, the chunk that answers it, and so on for the input
split at the separator, and at last a request with the EOF handler called. Where nothing more can
happen it is all of it, unless the reader was stopped or `read(2)` failed; and after so many events
that act nothing more can happen. -/
theorem reader_trace {events : List Event} (h : Machine.Runs (Machine.Steps (step separator asks)) (start input) events r) :
    r.fault = false ∧ r.trace <+: expected separator input ∧
      (r.active = false → r.owed = false → r.died = false → r.cancelled = false →
        r.trace = expected separator input) ∧
      events.countP acts ≤ 3 * input.length + 3 := by
  have hsound : Sound separator input r :=
    h.invariant (I := Sound separator input) (fun s e t hs hstep => (sound_step hs hstep).1)
      (sound_start separator input)
  refine ⟨hsound.fault, hsound.before, fun ha ho hd hc => ?_, ?_⟩
  · by_cases hf : r.freed = true
    · exact (hsound.ended hf hc).symm
    · have hwaits := hsound.waits (by simpa using hf) hd
      rw [ha, ho] at hwaits
      cases hwaits
  · have hcount := h.countP_le (p := acts) (I := Sound separator input) (μ := left)
      (fun s e t hs hstep => sound_step hs hstep) (sound_start separator input)
    exact hcount

end

/-- Two records and an empty line between them, which the handler skips at once; the reader is woken
in vain, and the last record has no separator behind it. -/
theorem reader_trace_lines : ∃ r, r.trace = expected newline (ascii "one\n\ntwo") ∧ r.fault = false ∧
    Machine.run (step newline fun trace => trace.getLast? = some (.chunk [0])) (start (ascii "one\n\ntwo"))
      [.ask [.again], .ready [.data 1, .data 7], .ask [.data 0, .data 127], .ask []] = some r := by
  obtain ⟨r, hr, htrace⟩ := (Option.any_eq_true _ _).mp
    (show (Machine.run (step newline fun trace => trace.getLast? = some (.chunk [0])) (start (ascii "one\n\ntwo"))
      [.ask [.again], .ready [.data 1, .data 7], .ask [.data 0, .data 127], .ask []]).any
        (fun r => !r.active && !r.owed && !r.died && !r.cancelled) = true by decide)
  simp only [Bool.and_eq_true, Bool.not_eq_true'] at htrace
  obtain ⟨⟨⟨ha, ho⟩, hd⟩, hc⟩ := htrace
  obtain ⟨hfault, -, hall, -⟩ := reader_trace (Machine.runs_of_run hr)
  exact ⟨r, hall ha ho hd hc, hfault, hr⟩

end Reader

end NscaNg.Client
