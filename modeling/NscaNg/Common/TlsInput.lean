/-
# The input of a connection

The handlers of a connection ask for a line or for a number of bytes, and for the next only when
they have got the last. What they are to be given is the peer's stream cut up in this order
(`cutUp`), however `SSL_read()` divides it.

`read_line()` reads ahead: what it has received behind a line waits in `input_buffer` for the next
line. `read_bytes()` does not look there. So the data is given in order in the runs that ask for
bytes only when nothing waits (`delivered_in_order`), and not when a line and the bytes behind it
come in one piece (`not_delivered_in_order`).
-/
import NscaNg.Common.TlsFrame
import NscaNg.Common.TlsStart

namespace NscaNg
namespace Tls

open Posix Libev

/-! ### The stream, cut up -/

/-- What answers a request, as the handler gets it, and the stream behind it. -/
def answer : Request → Bytes → Option (Bytes × Bytes)
  | .line, stream => bufferReadLine stream
  | .bytes size, stream =>
    if size ≤ stream.length then some (stream.take size ++ [0], stream.drop size) else none

/-- The answers to the requests, as far as the stream goes, and what is left. -/
def cutUp : List Request → Bytes → List Bytes × Bytes
  | [], stream => ([], stream)
  | request :: requests, stream =>
    match answer request stream with
    | none => ([], stream)
    | some (data, rest) => (data :: (cutUp requests rest).1, (cutUp requests rest).2)

theorem answer_append {r : Request} {stream data rest : Bytes} (h : answer r stream = some (data, rest))
    (more : Bytes) : answer r (stream ++ more) = some (data, rest ++ more) := by
  cases r with
  | line => exact bufferReadLine_append h more
  | bytes size =>
    simp only [answer] at h ⊢
    by_cases hle : size ≤ stream.length
    · rw [if_pos hle, Option.some.injEq, Prod.mk.injEq] at h
      have hle' : size ≤ (stream ++ more).length := by rw [List.length_append]; omega
      rw [if_pos hle', List.take_append_of_le_length hle, List.drop_append_of_le_length hle, h.1, h.2]
    · rw [if_neg hle] at h
      cases h

/-- Requests that are answered stay answered when more of the stream comes. -/
theorem cutUp_append_stream {rs : List Request} {stream left : Bytes} {ds : List Bytes}
    (h : cutUp rs stream = (ds, left)) (hn : ds.length = rs.length) (more : Bytes) :
    cutUp rs (stream ++ more) = (ds, left ++ more) := by
  induction rs generalizing stream ds with
  | nil =>
    cases h
    rfl
  | cons r rs ih =>
    unfold cutUp at h
    split at h
    · cases h
      simp at hn
    · rename_i data rest ha
      cases h
      have hlen : (cutUp rs rest).1.length = rs.length := by simpa using hn
      have hrest := ih rfl hlen
      simp only [cutUp, answer_append ha, hrest]

/-- Further requests are answered from what is left. -/
theorem cutUp_append {rs : List Request} {stream left : Bytes} {ds : List Bytes}
    (h : cutUp rs stream = (ds, left)) (hn : ds.length = rs.length) (rs' : List Request) :
    cutUp (rs ++ rs') stream = (ds ++ (cutUp rs' left).1, (cutUp rs' left).2) := by
  induction rs generalizing stream ds with
  | nil =>
    cases h
    rfl
  | cons r rs ih =>
    unfold cutUp at h
    split at h
    · cases h
      simp at hn
    · rename_i data rest ha
      cases h
      have hlen : (cutUp rs rest).1.length = rs.length := by simpa using hn
      have hrest := ih rfl hlen
      simp only [List.cons_append, cutUp, ha, hrest]

theorem cutUp_snoc {rs : List Request} {stream left data rest : Bytes} {ds : List Bytes} {r : Request}
    (h : cutUp rs stream = (ds, left)) (hn : ds.length = rs.length) (ha : answer r left = some (data, rest)) :
    cutUp (rs ++ [r]) stream = (ds ++ [data], rest) := by
  rw [cutUp_append h hn]
  simp only [cutUp, ha]

theorem cutUp_snoc_none {rs : List Request} {stream left : Bytes} {ds : List Bytes} {r : Request}
    (h : cutUp rs stream = (ds, left)) (hn : ds.length = rs.length) (ha : answer r left = none) :
    cutUp (rs ++ [r]) stream = (ds, left) := by
  rw [cutUp_append h hn]
  simp only [cutUp, ha, List.append_nil]

/-! ### What is asked for -/

variable {η : Type}

/-- Nothing is asked for. -/
structure Idle (s : State η) : Prop where
  inactive : .read ∉ s.loop.active
  quiet : .read ∉ s.loop.pending
  input : s.input = none
  offset : s.inputOffset = 0

/-- A request is being worked on. -/
def Waiting (s : State η) : Request → Prop
  | .line => s.readMode = .readLine ∧ s.inputOffset = 0 ∧ s.readHandler.isSome
  | .bytes size =>
    s.readMode = .readBytes ∧ s.inputSize = size ∧ size < 2 ^ 31 ∧ s.inputBuffer = [] ∧
      (s.input.getD []).length = s.inputOffset ∧ s.inputOffset < size ∧ s.readHandler.isSome

/-- The handlers have got the answers to the requests from the stream, and the rest is unread. -/
structure Answered (answered : List Request) (s : State η) : Prop where
  cut : cutUp answered s.history.received = (s.delivered, s.unread)
  count : s.delivered.length = answered.length

/-- The handlers have got what they asked for, but for the last request perhaps. -/
inductive InOrder (s : State η) : Prop
  | idle : Answered s.history.requests s → Idle s → InOrder s
  | waiting (answered : List Request) (r : Request) :
      Answered answered s → s.history.requests = answered ++ [r] → Waiting s r → InOrder s

/-- What has been received does not answer the last request, unless `read_cb()` is about to be
called. -/
def CaughtUp (s : State η) : Prop :=
  .read ∈ s.loop.active → .read ∉ s.loop.pending →
    ∀ answered r, s.history.requests = answered ++ [r] → answer r s.unread = none

theorem Waiting.of_side {s t : State η} {r : Request} (h : t.inputSide = s.inputSide) (hw : Waiting s r) :
    Waiting t r := by
  simp only [State.inputSide, InputSide.mk.injEq] at h
  obtain ⟨hbuf, hin, hsize, hoff, hmode, hwaits, -, -, -⟩ := h
  cases r with
  | line => exact ⟨hmode.trans hw.1, hoff.trans hw.2.1, hwaits.trans hw.2.2⟩
  | bytes size =>
    obtain ⟨h1, h2, h3, h4, h5, h6, h7⟩ := hw
    refine ⟨hmode.trans h1, hsize.trans h2, h3, hbuf.trans h4, ?_, hoff ▸ h6, hwaits.trans h7⟩
    rw [hin, hoff, h5]

theorem unread_of_side {s t : State η} (h : t.inputSide = s.inputSide) : t.unread = s.unread := by
  simp only [State.inputSide, InputSide.mk.injEq] at h
  unfold State.unread
  rw [h.1, h.2.1, h.2.2.2.1]

/-- Reading does not change these. -/
structure Same (s t : State η) : Prop where
  requests : t.history.requests = s.history.requests
  delivered : t.delivered = s.delivered
  waits : t.readHandler.isSome = s.readHandler.isSome

theorem same_of_side {s t : State η} (h : t.inputSide = s.inputSide) : Same s t := by
  simp only [State.inputSide, InputSide.mk.injEq] at h
  exact ⟨h.2.2.2.2.2.2.1, h.2.2.2.2.2.2.2.2, h.2.2.2.2.2.1⟩

/-- What reading for a request comes to: more of the stream is received. Either the request is not
answered yet, or the data is its answer and the rest is kept. -/
structure Reads (r : Request) (s t : State η) (data : Option Bytes) : Prop where
  same : Same s t
  received : ∃ bytes, t.history.received = s.history.received ++ bytes ∧
    match data with
    | none =>
      t.unread = s.unread ++ bytes ∧ Waiting t r ∧ (.read ∈ t.loop.active → answer r t.unread = none)
    | some data =>
      answer r (s.unread ++ bytes) = some (data, t.unread) ∧ t.input = none ∧ t.inputOffset = 0

/-- The callback has to wait. -/
theorem reads_none {r : Request} {s t : State η} (hside : t.inputSide = s.inputSide) (hw : Waiting s r)
    (ha : answer r s.unread = none) : Reads r s t none where
  same := same_of_side hside
  received := by
    have hrec : t.history.received = s.history.received := congrArg InputSide.received hside
    have hun := unread_of_side hside
    exact ⟨[], by rw [hrec, List.append_nil], by rw [hun, List.append_nil], hw.of_side hside,
      fun _ => hun ▸ ha⟩

/-- Reading goes on after some bytes. -/
theorem Reads.after {r : Request} {s s' t : State η} {data : Option Bytes} {bytes : Bytes}
    (hsame : Same s s') (hrec : s'.history.received = s.history.received ++ bytes)
    (hun : s'.unread = s.unread ++ bytes) (h : Reads r s' t data) : Reads r s t data where
  same := ⟨h.same.requests.trans hsame.requests, h.same.delivered.trans hsame.delivered,
    h.same.waits.trans hsame.waits⟩
  received := by
    obtain ⟨more, hmore, hd⟩ := h.received
    refine ⟨bytes ++ more, by rw [hmore, hrec, List.append_assoc], ?_⟩
    rw [hun, List.append_assoc] at hd
    exact hd

theorem unread_of_line {s : State η} (hw : Waiting s .line) : s.unread = s.inputBuffer := by
  simp [State.unread, hw.2.1]

theorem reads_readLineLoop (replies : List SslRead) {s : State η} (hw : Waiting s .line) :
    Reads .line s (readLineLoop replies s).1 (readLineLoop replies s).2 := by
  -- by induction on the results of `SSL_read()`: each adds a piece to the buffer
  fun_induction readLineLoop replies s with
  | case1 replies s line rest hline =>
    refine ⟨⟨rfl, rfl, rfl⟩, [], by simp, ?_, rfl, hw.2.1⟩
    rw [List.append_nil, unread_of_line hw, answer, hline]
    simp [State.unread, hw.2.1]
  | case2 replies s hline hlong =>
    exact reads_none (frame_lineTooLong (v := .read) s).side hw (by rw [unread_of_line hw, answer, hline])
  | case3 s hline hlong =>
    exact reads_none (inputSide_checkTlsError .read _ s) hw (by rw [unread_of_line hw, answer, hline])
  | case4 s hline hlong reply replies e he =>
    exact reads_none (inputSide_checkTlsError .read e s) hw (by rw [unread_of_line hw, answer, hline])
  | case5 s hline hlong reply replies bytes hbytes ih =>
    have hw' : Waiting (s.receiveLine bytes) .line := hw
    have hun : (s.receiveLine bytes).unread = s.unread ++ bytes := by
      rw [unread_of_line hw, unread_of_line hw']
      rfl
    have hsame : Same s (s.receiveLine bytes) := ⟨rfl, rfl, rfl⟩
    exact (ih hw').after hsame rfl hun

/-- `SSL_read()` is asked for what is missing. -/
theorem toInt_todo {s : State η} {size : ℕ} (hw : Waiting s (.bytes size)) :
    toInt (s.inputSize - s.inputOffset) = ((size - s.inputOffset : ℕ) : ℤ) := by
  obtain ⟨-, hsize, hmax, -, -, hoff, -⟩ := hw
  unfold toInt
  rw [hsize, Int.bmod_def]
  split <;> omega

theorem sslRead_ok {num : ℤ} {reply : SslRead} {bytes : Bytes} (h : sslRead num reply = .ok bytes) :
    bytes ≠ [] ∧ bytes.length ≤ num.toNat := by
  cases reply with
  | error e => cases h
  | data first more =>
    simp only [sslRead] at h
    by_cases hnum : 0 < num
    · rw [if_pos hnum, Except.ok.injEq] at h
      have hpos : num.toNat ≠ 0 := by omega
      rw [← h]
      exact ⟨by simp [hpos], List.length_take_le _ _⟩
    · rw [if_neg hnum] at h
      cases h

theorem unread_of_bytes {s : State η} {size : ℕ} (hw : Waiting s (.bytes size)) :
    s.unread = s.input.getD [] ∧ s.unread.length = s.inputOffset := by
  obtain ⟨-, -, -, hbuf, hlen, -, -⟩ := hw
  have htake : (s.input.getD []).take s.inputOffset = s.input.getD [] := by rw [← hlen, List.take_length]
  have hun : s.unread = s.input.getD [] := by rw [State.unread, htake, hbuf, List.append_nil]
  exact ⟨hun, hun ▸ hlen⟩

theorem answer_of_bytes {s : State η} {size : ℕ} (hw : Waiting s (.bytes size)) :
    answer (.bytes size) s.unread = none := by
  have hlen := (unread_of_bytes hw).2
  have hlt := hw.2.2.2.2.2.1
  rw [answer, if_neg (by omega)]

theorem reads_readBytesLoop (replies : List SslRead) {s : State η} {size : ℕ} (hw : Waiting s (.bytes size)) :
    Reads (.bytes size) s (readBytesLoop replies s).1 (readBytesLoop replies s).2 := by
  fun_induction readBytesLoop replies s with
  | case1 s => exact reads_none (inputSide_checkTlsError .read _ s) hw (answer_of_bytes hw)
  | case2 s reply replies e he => exact reads_none (inputSide_checkTlsError .read e s) hw (answer_of_bytes hw)
  | case3 s reply replies bytes hbytes hlt ih =>
    obtain ⟨hun, hlen⟩ := unread_of_bytes hw
    obtain ⟨h1, h2, h3, h4, h5, h6, h7⟩ := hw
    rw [toInt_todo ⟨h1, h2, h3, h4, h5, h6, h7⟩] at hlt
    have hin : (s.receiveBytes bytes).input = some (s.unread ++ bytes) := by
      rw [hun]
      simp [State.receiveBytes, State.receive, ← h5]
    have hw' : Waiting (s.receiveBytes bytes) (.bytes size) := by
      refine ⟨h1, h2, h3, h4, ?_, ?_, h7⟩
      · rw [hin, Option.getD_some, List.length_append, hlen]
        rfl
      · change s.inputOffset + bytes.length < size
        omega
    have hun' : (s.receiveBytes bytes).unread = s.unread ++ bytes := by
      rw [(unread_of_bytes hw').1, hin, Option.getD_some]
    have hsame : Same s (s.receiveBytes bytes) := ⟨rfl, rfl, rfl⟩
    exact (ih hw').after hsame rfl hun'
  | case4 s reply replies bytes hbytes hge =>
    obtain ⟨hun, hlen⟩ := unread_of_bytes hw
    have htodo := toInt_todo hw
    obtain ⟨h1, h2, h3, h4, h5, h6, h7⟩ := hw
    rw [htodo] at hge hbytes
    have hle := (sslRead_ok hbytes).2
    have hblock : s.unread.length + bytes.length = size := by omega
    refine ⟨⟨rfl, rfl, rfl⟩, bytes, rfl, ?_, rfl, rfl⟩
    have htake : (s.unread ++ bytes).take size = s.unread ++ bytes :=
      List.take_of_length_le (by rw [List.length_append]; omega)
    have hdrop : (s.unread ++ bytes).drop size = [] :=
      List.drop_eq_nil_of_le (by rw [List.length_append]; omega)
    have hin : (s.receive s.inputOffset bytes).input = some (s.unread ++ bytes) := by
      rw [hun]
      simp [State.receive, ← h5]
    rw [answer, if_pos (by rw [List.length_append]; omega), htake, hdrop]
    dsimp only
    rw [hin]
    exact congrArg (fun rest => some (s.unread ++ bytes ++ [0], rest)) h4.symm

theorem reads_readData (replies : List SslRead) {s : State η} {r : Request} (hw : Waiting s r) :
    Reads r s (readData replies s).1 (readData replies s).2 := by
  have hrec : s.history.received = s.history.received ++ [] := by simp
  have hun : State.unread { s with input := some (s.input.getD []) } = s.unread ++ [] := by
    simp [State.unread]
  have hsame : Same s { s with input := some (s.input.getD []) } := ⟨rfl, rfl, rfl⟩
  cases r with
  | line =>
    have hw' : Waiting { s with input := some (s.input.getD []) } .line := hw
    rw [readData, hw.1]
    exact (reads_readLineLoop replies hw').after hsame hrec hun
  | bytes size =>
    have hw' : Waiting { s with input := some (s.input.getD []) } (.bytes size) := hw
    rw [readData, hw.1]
    exact (reads_readBytesLoop replies hw').after hsame hrec hun

/-! ### Steps -/

/-- The handlers ask for one thing after the other. -/
def Sequential (s : State η) : Event η → Prop
  | .tlsRead _ _ => s.history.requests.length = s.delivered.length
  | _ => True

/-- Bytes are asked for only when nothing that was read ahead waits in the buffer, and no more of
them than an `int` can count. -/
def Unbuffered (s : State η) : Event η → Prop
  | .tlsRead _ size => size ≠ 0 → s.inputBuffer = [] ∧ size < 2 ^ 31
  | _ => True

instance decidableSequential (s : State η) (e : Event η) : Decidable (Sequential s e) := by
  unfold Sequential
  split <;> infer_instance

instance decidableUnbuffered (s : State η) (e : Event η) : Decidable (Unbuffered s e) := by
  unfold Unbuffered
  split <;> infer_instance

theorem Answered.of_side {s t : State η} {answered : List Request} (h : t.inputSide = s.inputSide)
    (ha : Answered answered s) : Answered answered t := by
  have hrec : t.history.received = s.history.received := congrArg InputSide.received h
  have hdel : t.delivered = s.delivered := congrArg InputSide.delivered h
  exact ⟨by rw [hrec, hdel, unread_of_side h, ha.cut], by rw [hdel, ha.count]⟩

theorem Frame.inOrder {s t : State η} (h : Frame .read s t) (hs : InOrder s) : InOrder t := by
  have hreq : t.history.requests = s.history.requests := congrArg InputSide.requests h.side
  cases hs with
  | idle ha hi =>
    have hin := (congrArg InputSide.input h.side).trans hi.input
    have hoff := (congrArg InputSide.inputOffset h.side).trans hi.offset
    refine .idle (hreq ▸ ha.of_side h.side) ?_
    cases h.tended with
    | same hact hpen => exact ⟨mt hact.mp hi.inactive, mt hpen.mp hi.quiet, hin, hoff⟩
    | fed _ _ hw => exact absurd (hw.resolve_left (by decide)) hi.inactive
    | stopped hact hpen => exact ⟨hact, hpen, hin, hoff⟩
  | waiting answered r ha hr hw =>
    exact .waiting answered r (ha.of_side h.side) (hreq.trans hr) (hw.of_side h.side)

theorem Frame.caughtUp {s t : State η} (h : Frame .read s t) (hs : CaughtUp s) : CaughtUp t := by
  intro hact hpen answered r hr
  have hreq : t.history.requests = s.history.requests := congrArg InputSide.requests h.side
  rw [unread_of_side h.side]
  cases h.tended with
  | same hact' hpen' => exact hs (hact'.mp hact) (mt hpen'.mpr hpen) answered r (hreq ▸ hr)
  | fed _ hp _ => exact absurd hp hpen
  | stopped ha _ => exact absurd hact ha

theorem inOrder_tlsRead {s : State η} {handler : η} {size : ℕ} (hact : .read ∉ s.loop.active)
    (hseq : Sequential s (.tlsRead handler size)) (hbuf : Unbuffered s (.tlsRead handler size))
    (hs : InOrder s) : InOrder (tlsRead handler size s) ∧ CaughtUp (tlsRead handler size s) := by
  cases hs with
  | waiting answered r ha hr hw =>
    have hlen := congrArg List.length hr
    rw [show s.history.requests.length = s.delivered.length from hseq, ha.count] at hlen
    simp at hlen
  | idle ha hi =>
    have hread : tlsRead handler size s = (s.ask handler size).arm .read .read := if_neg hact
    rw [hread]
    constructor
    · refine .waiting s.history.requests (Request.ofSize size) ⟨ha.cut, ha.count⟩ rfl ?_
      unfold Request.ofSize
      split
      · rename_i hsize
        exact ⟨if_pos hsize, hi.offset, rfl⟩
      · rename_i hsize
        obtain ⟨hempty, hmax⟩ := hbuf hsize
        refine ⟨if_neg hsize, if_neg hsize, hmax, hempty, ?_, ?_, rfl⟩
        · change (s.input.getD []).length = s.inputOffset
          rw [hi.input, hi.offset]
          rfl
        · change s.inputOffset < size
          rw [hi.offset]
          omega
    · intro _ hpen
      exact absurd (Finset.mem_insert_self Watcher.read _) hpen

theorem inOrder_deliver {s t : State η} {data : Bytes} {answered : List Request} {r : Request}
    (ha : Answered answered s) (hr : s.history.requests = answered ++ [r]) (hw : Waiting s r)
    (h : Reads r s t (some data)) : InOrder (deliver data t) ∧ CaughtUp (deliver data t) := by
  obtain ⟨bytes, hrec, hans, hin, hoff⟩ := h.received
  have hwaits : t.readHandler.isSome := by
    rw [h.same.waits]
    cases r with
    | line => exact hw.2.2
    | bytes size => exact hw.2.2.2.2.2.2
  obtain ⟨handler, hhandler⟩ := Option.isSome_iff_exists.mp hwaits
  have hdel : deliver data t = ({ t with loop := t.loop.stop .read }).call (.read handler data) := by
    unfold deliver
    dsimp only
    rw [hhandler]
  have hdelivered : (deliver data t).delivered = s.delivered ++ [data] := by
    rw [hdel, ← h.same.delivered]
    simp [State.delivered, State.call, Upcall.data?]
  have hcut := cutUp_snoc (cutUp_append_stream ha.cut ha.count bytes) ha.count hans
  rw [hdel] at hdelivered ⊢
  constructor
  · refine .idle ⟨?_, ?_⟩ ⟨Finset.notMem_erase _ _, Finset.notMem_erase _ _, hin, hoff⟩
    · change cutUp t.history.requests t.history.received = (_, t.unread)
      rw [h.same.requests, hr, hrec, hdelivered, hcut]
    · change _ = t.history.requests.length
      rw [h.same.requests, hr, hdelivered, List.length_append, List.length_append, ha.count]
      rfl
  · intro hact
    exact absurd hact (Finset.notMem_erase _ _)

theorem inOrder_readCb {s : State η} (replies : List SslRead) (hpen : .read ∈ s.loop.pending)
    (hs : InOrder s) : InOrder (readCb replies { s with loop := s.loop.take .read }) ∧
      CaughtUp (readCb replies { s with loop := s.loop.take .read }) := by
  cases hs with
  | idle ha hi => exact absurd hpen hi.quiet
  | waiting answered r ha hr hw =>
    unfold readCb
    have hside : ((resetWatcherState .write { s with loop := s.loop.take .read }).touch).inputSide =
        s.inputSide := (frame_resetWatcherState (v := .read) .write _).side
    generalize (resetWatcherState .write { s with loop := s.loop.take .read }).touch = s' at hside
    have hw' := hw.of_side hside
    have ha' := ha.of_side hside
    have hr' : s'.history.requests = answered ++ [r] := (congrArg InputSide.requests hside).trans hr
    have hreads := reads_readData replies hw'
    split
    · rename_i t data heq
      rw [heq] at hreads
      exact inOrder_deliver ha' hr' hw' hreads
    · rename_i t heq
      rw [heq] at hreads
      obtain ⟨bytes, hrec, hun, hwait, hnone⟩ := hreads.received
      have hcut := cutUp_append_stream ha'.cut ha'.count bytes
      refine ⟨.waiting answered r ⟨?_, ?_⟩ (hreads.same.requests.trans hr') hwait, ?_⟩
      · rw [hrec, hcut, hreads.same.delivered, hun]
      · rw [hreads.same.delivered, ha'.count]
      · intro hact _ answered' r' hr''
        have happ : answered ++ [r] = answered' ++ [r'] := (hreads.same.requests.trans hr').symm.trans hr''
        have hlast : r = r' := by simpa using (List.append_inj' happ rfl).2
        exact hlast ▸ hnone hact

theorem inOrder_step {s t : State η} {e : Event η} (hs : InOrder s ∧ CaughtUp s)
    (h : Machine.Meeting (fun s e => Sequential s e ∧ Unbuffered s e) (Machine.Steps step) s e t) :
    InOrder t ∧ CaughtUp t := by
  obtain ⟨⟨hseq, hbuf⟩, hstep⟩ := h
  obtain ⟨-, -, halive⟩ := step_eq_some hstep
  rcases e.aside_or with haside | ⟨replies, rfl⟩ | ⟨replies, rfl⟩ | ⟨handler, size, rfl⟩
  · have hframe := frame_stepAlive (Or.inl rfl) haside halive
    exact ⟨hframe.inOrder hs.1, hframe.caughtUp hs.2⟩
  · obtain ⟨hpen, rfl⟩ := invoke_eq_some halive
    exact inOrder_readCb replies hpen hs.1
  · obtain ⟨-, rfl⟩ := invoke_eq_some halive
    have hframe := frame_writeCb replies s
    exact ⟨hframe.inOrder hs.1, hframe.caughtUp hs.2⟩
  · cases halive
    by_cases hact : .read ∈ s.loop.active
    · have hdied : tlsRead handler size s = { s with died := true } := if_pos hact
      have hframe : Frame .read s { s with died := true } := frame_same rfl Iff.rfl Iff.rfl
      rw [hdied]
      exact ⟨hframe.inOrder hs.1, hframe.caughtUp hs.2⟩
    · exact inOrder_tlsRead hact hseq hbuf hs.1

/-- Starting does nothing to the input. -/
theorem Started.frame {s : State η} (h : Started s) :
    ∃ connectHandler timeout now, Frame .read (tlsNew connectHandler timeout now) s := by
  cases h with
  | accept hasAddress hasSsl connectHandler timeout now =>
    refine ⟨connectHandler, timeout, now, ?_⟩
    have hset := frame_tlsOnTimeout (v := .read) (by decide) none (tlsNew connectHandler timeout now)
    unfold acceptTcp
    dsimp only
    split
    · split
      · exact hset.trans (frame_arm (Or.inl (by decide)) _ .read)
      · exact hset.trans (frame_tlsFree _)
    · exact frame_tlsFree _
  | connect hasSocket reply connectHandler timeoutHandler timeout now =>
    refine ⟨connectHandler, timeout, now, ?_⟩
    have hset := (frame_tlsOnTimeout (v := .read) (by decide) timeoutHandler (tlsNew connectHandler timeout now)).trans
      (frame_touch _)
    unfold tlsConnect
    generalize (tlsOnTimeout timeoutHandler (tlsNew connectHandler timeout now)).touch = u at hset
    dsimp only
    split
    · split
      · exact hset.trans ((frame_arm (Or.inl (by decide)) u .write).trans (frame_checkTlsError (by decide) _ _))
      · exact hset.trans (frame_call rfl u)
    · have hdied : Frame .read u { u with died := true } := frame_same rfl Iff.rfl Iff.rfl
      exact hset.trans hdied

theorem Started.inOrder {s : State η} (h : Started s) : InOrder s ∧ CaughtUp s := by
  obtain ⟨connectHandler, timeout, now, hframe⟩ := h.frame
  have hidle : Idle (tlsNew connectHandler timeout now) :=
    ⟨Finset.notMem_empty _, Finset.notMem_empty _, rfl, rfl⟩
  exact ⟨hframe.inOrder (.idle ⟨rfl, rfl⟩ hidle),
    hframe.caughtUp fun hact => absurd hact (Finset.notMem_empty _)⟩

/-- The runs of a connection in which the handlers ask for one thing after the other, for bytes only
when nothing that was read ahead waits. -/
abbrev UnbufferedRun (es : List (Event η)) (s : State η) : Prop :=
  Lives (fun s e => Sequential s e ∧ Unbuffered s e) es s

/-- **Input in order.** However a connection starts, on the server or on the client: what the handlers
have been given is a beginning of the stream cut up by their requests, whatever `SSL_read()` made of the
stream and whatever comes next in it. When the connection waits for more, they have been given all that
can be cut from what was received. -/
theorem delivered_in_order {es : List (Event η)} {s : State η} (h : UnbufferedRun es s) :
    (∀ more, s.delivered <+: (cutUp s.history.requests (s.history.received ++ more)).1) ∧
    (.read ∈ s.loop.active → .read ∉ s.loop.pending →
      s.delivered = (cutUp s.history.requests s.history.received).1) := by
  obtain ⟨horder, hcaught⟩ := h.invariant (fun _ hstart => hstart.inOrder)
    fun _ _ _ hs hok hstep => inOrder_step hs ⟨hok, hstep⟩
  cases horder with
  | idle ha hi =>
    refine ⟨fun more => ?_, fun _ _ => by rw [ha.cut]⟩
    rw [cutUp_append_stream ha.cut ha.count]
  | waiting answered r ha hr hw =>
    refine ⟨fun more => ?_, fun hact hpen => ?_⟩
    · rw [hr, cutUp_append (cutUp_append_stream ha.cut ha.count more) ha.count]
      exact List.prefix_append _ _
    · rw [hr, cutUp_snoc_none ha.cut ha.count (hcaught hact hpen answered r hr)]

/-- A line that comes in two pieces. -/
theorem delivered_in_order_moin : ∃ s : State Unit,
    Machine.run (Machine.guarded (fun s e => Sequential s e ∧ Unbuffered s e) step) (accepted () 0 0)
      [.acceptSslCb (.established true), .tlsRead () 0, .readCb [.data (ch 'M') (ascii "OIN")],
        .ready .read, .readCb [.data (ch ' ') (ascii "1 x\nPUSH")]] = some s ∧
    (∀ more, s.delivered <+: (cutUp s.history.requests (s.history.received ++ more)).1) ∧
    (.read ∈ s.loop.active → .read ∉ s.loop.pending →
      s.delivered = (cutUp s.history.requests s.history.received).1) := by
  obtain ⟨s, hs⟩ := Option.isSome_iff_exists.mp (by decide : Option.isSome
    (Machine.run (Machine.guarded (fun s e => Sequential s e ∧ Unbuffered s e) step) (accepted () 0 0)
      [.acceptSslCb (.established true), .tlsRead () 0, .readCb [.data (ch 'M') (ascii "OIN")],
        .ready .read, .readCb [.data (ch ' ') (ascii "1 x\nPUSH")]]) = true)
  exact ⟨s, hs, delivered_in_order (lives_of_run hs)⟩

/-- A line and the bytes asked for behind it come in one piece: the bytes are skipped. -/
theorem not_delivered_in_order : ¬ ∀ (timeout now : ℚ) (es : List (Event Unit)) (s : State Unit),
    Machine.Runs (Machine.Meeting Sequential (Machine.Steps step)) (accepted () timeout now) es s →
      s.delivered <+: (cutUp s.history.requests s.history.received).1 := by
  intro h
  obtain ⟨s, hs, hbad⟩ := (Option.any_eq_true _ _).mp (by decide : Option.any
    (fun s => decide (¬ s.delivered <+: (cutUp s.history.requests s.history.received).1))
    (Machine.run (Machine.guarded Sequential step) (accepted () 0 0) [.acceptSslCb (.established true),
      .tlsRead () 0, .readCb [.data (ch 'P') (ascii "USH 2\nab")], .tlsRead () 2,
      .readCb [.data (ch 'c') (ascii "d")]]) = true)
  exact of_decide_eq_true hbad (h 0 0 _ s (Machine.runs_of_guarded hs))

end Tls
end NscaNg
