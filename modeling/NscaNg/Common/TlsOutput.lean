/-
# The output of a connection

What is written is put into a buffer, or taken over as a block when there is no other output;
`write_cb()` sends the block, and makes a new one of the buffer when it is done. Together they are a
queue (`State.unsent`): the bytes that `SSL_write()` has taken and those of the queue are what has
been written, in this order (`output_in_order`). The write watcher is active as long as the queue is
not empty.

A timeout stops the watcher. It is started again when something is written, which is what the
server's handler does before it shuts the connection down (`WithinBounds`); until then the timeout is
being handled.
-/
import NscaNg.Common.TlsFrame
import NscaNg.Common.TlsRelease
import NscaNg.Common.TlsTrace

namespace NscaNg
namespace Tls

open Posix Libev

variable {η : Type}

/-! ### What leaves the output alone -/

/-- The part of the state that writing changes. -/
structure OutputSide where
  outputBuffer : Bytes
  output : Option Bytes
  outputSize : ℕ
  outputOffset : ℕ
  sent : Bytes

def State.outputSide (s : State η) : OutputSide where
  outputBuffer := s.outputBuffer
  output := s.output
  outputSize := s.outputSize
  outputOffset := s.outputOffset
  sent := s.history.sent

/-- The output side stays as it is, and so does the write watcher unless the connection is freed. The
shutdown watcher is not started. -/
structure Beside (s t : State η) : Prop where
  side : t.outputSide = s.outputSide
  freed : s.freed = true → t.freed = true
  write : t.freed = false → (.write ∈ t.loop.active ↔ .write ∈ s.loop.active)
  begun : .shutdown ∈ t.loop.active → .shutdown ∈ s.loop.active

theorem Beside.refl (s : State η) : Beside s s := ⟨rfl, id, fun _ => Iff.rfl, id⟩

theorem Beside.trans {s t u : State η} (h : Beside s t) (h' : Beside t u) : Beside s u := by
  refine ⟨h'.side.trans h.side, fun hs => h'.freed (h.freed hs), fun hu => ?_, fun hu => h.begun (h'.begun hu)⟩
  have ht : t.freed = false := by
    by_contra hc
    rw [Bool.not_eq_false] at hc
    rw [h'.freed hc] at hu
    cases hu
  exact (h'.write hu).trans (h.write ht)

theorem beside_same {s t : State η} (hside : t.outputSide = s.outputSide) (hfreed : t.freed = s.freed)
    (hact : .write ∈ t.loop.active ↔ .write ∈ s.loop.active)
    (hbegun : .shutdown ∈ t.loop.active → .shutdown ∈ s.loop.active) : Beside s t :=
  ⟨hside, fun hs => hfreed.trans hs, fun _ => hact, hbegun⟩

theorem outputSide_stopActive (s : State η) (w : Watcher) : (s.stopActive w).outputSide = s.outputSide := by
  unfold State.stopActive
  split <;> rfl

theorem outputSide_stopIo (s : State η) : s.stopIo.outputSide = s.outputSide := by
  simp only [State.stopIo, outputSide_stopActive]

theorem outputSide_tlsFree (s : State η) : (tlsFree s).outputSide = s.outputSide := by
  have hstop := (outputSide_stopActive s.stopIo .timeout).trans (outputSide_stopIo s)
  unfold tlsFree
  generalize s.stopIo.stopActive .timeout = u at hstop
  exact hstop

theorem beside_tlsFree (s : State η) : Beside s (tlsFree s) := by
  refine ⟨outputSide_tlsFree s, fun _ => rfl, fun h => absurd h (by simp [tlsFree]), fun h => ?_⟩
  rw [tlsFree_active] at h
  exact absurd h (Finset.notMem_empty _)

theorem beside_call (u : Upcall η) (s : State η) : Beside s (s.call u) := beside_same rfl rfl Iff.rfl id

theorem beside_touch (s : State η) : Beside s s.touch := beside_same rfl rfl Iff.rfl id

theorem beside_take (w : Watcher) (s : State η) : Beside s { s with loop := s.loop.take w } :=
  beside_same rfl rfl Iff.rfl id

theorem beside_stop {w : Watcher} (hw : w ≠ .write) (s : State η) :
    Beside s { s with loop := s.loop.stop w } := beside_same rfl rfl (by simp [hw.symm]) Finset.mem_of_mem_erase

theorem beside_arm {w : Watcher} (hw : w ≠ .write) (hs : w ≠ .shutdown) (events : Events) (s : State η) :
    Beside s (s.arm w events) :=
  beside_same rfl rfl (by simp [State.arm, hw.symm]) (by simp [State.arm, hs.symm])

theorem beside_resetWatcherState (w : Watcher) (s : State η) : Beside s (resetWatcherState w s) :=
  beside_same rfl rfl (by simp [resetWatcherState]) (by simp [resetWatcherState])

theorem beside_waitFor {w : Watcher} {s : State η} (hw : w ≠ .write) (hs : w = .shutdown → w ∈ s.loop.active)
    (events : Events) : Beside s (waitFor w events s) := by
  refine beside_same rfl rfl (Loop.mem_waitFor_active _ _ _ _ hw.symm) fun h => ?_
  by_cases hwatch : w = .shutdown
  · exact hwatch ▸ hs hwatch
  · exact (Loop.mem_waitFor_active _ _ _ _ (Ne.symm hwatch)).mp h

theorem beside_tlsError (s : State η) : Beside s (tlsError s) := by
  unfold tlsError
  split
  · exact (beside_call _ s).trans (beside_tlsFree _)
  · exact beside_tlsFree s

theorem beside_checkTlsError {w : Watcher} {s : State η} (hw : w ≠ .write)
    (hs : w = .shutdown → w ∈ s.loop.active) (e : SslError) : Beside s (checkTlsError w e s) := by
  cases e with
  | wantRead => exact beside_waitFor hw hs .read
  | wantWrite => exact beside_waitFor hw hs .write
  | interrupted => exact Beside.refl s
  | failed => exact beside_tlsError s

theorem beside_lineTooLong (s : State η) : Beside s (lineTooLong s) := by
  refine (beside_stop (w := .read) (by decide) s).trans ?_
  unfold lineTooLong
  dsimp only
  split
  · exact beside_call _ _
  · exact beside_tlsFree _

theorem beside_readLineLoop (replies : List SslRead) (s : State η) : Beside s (readLineLoop replies s).1 := by
  fun_induction readLineLoop replies s with
  | case1 replies s line rest hline => exact beside_same rfl rfl Iff.rfl id
  | case2 replies s hline hlong => exact beside_lineTooLong s
  | case3 s hline hlong => exact beside_checkTlsError (by decide) (by simp) .wantRead
  | case4 s hline hlong reply replies e he => exact beside_checkTlsError (by decide) (by simp) e
  | case5 s hline hlong reply replies bytes hbytes ih =>
    have hmore : Beside s (s.receiveLine bytes) := beside_same rfl rfl Iff.rfl id
    exact hmore.trans ih

theorem beside_readBytesLoop (replies : List SslRead) (s : State η) : Beside s (readBytesLoop replies s).1 := by
  fun_induction readBytesLoop replies s with
  | case1 s => exact beside_checkTlsError (by decide) (by simp) .wantRead
  | case2 s reply replies e he => exact beside_checkTlsError (by decide) (by simp) e
  | case3 s reply replies bytes hbytes hlt ih =>
    have hmore : Beside s (s.receiveBytes bytes) := beside_same rfl rfl Iff.rfl id
    exact hmore.trans ih
  | case4 s reply replies bytes hbytes hge => exact beside_same rfl rfl Iff.rfl id

theorem beside_readData (replies : List SslRead) (s : State η) : Beside s (readData replies s).1 := by
  have hblock : Beside s { s with input := some (s.input.getD []) } := beside_same rfl rfl Iff.rfl id
  unfold readData
  split
  · exact hblock.trans (beside_readLineLoop replies _)
  · exact hblock.trans (beside_readBytesLoop replies _)

theorem beside_deliver (data : Bytes) (s : State η) : Beside s (deliver data s) := by
  refine (beside_stop (w := .read) (by decide) s).trans ?_
  unfold deliver
  dsimp only
  split
  · exact beside_call _ _
  · exact Beside.refl _

theorem beside_readCb (replies : List SslRead) (s : State η) : Beside s (readCb replies s) := by
  refine (beside_resetWatcherState .write s).trans ((beside_touch _).trans ?_)
  have hdata := beside_readData replies (resetWatcherState .write s).touch
  unfold readCb
  split
  · rename_i t data heq
    rw [heq] at hdata
    exact hdata.trans (beside_deliver data t)
  · rename_i t heq
    rw [heq] at hdata
    exact hdata

theorem beside_shutdownCb (replies : List SslShutdown) {s : State η} (hact : .shutdown ∈ s.loop.active) :
    Beside s (shutdownCb replies s) := by
  refine (beside_touch s).trans ?_
  have htouch : .shutdown ∈ s.touch.loop.active := hact
  unfold shutdownCb
  generalize s.touch = s at htouch
  induction replies with
  | nil => exact beside_checkTlsError (by decide) (fun _ => htouch) .wantRead
  | cons reply replies ih =>
    cases reply with
    | done => exact beside_tlsFree _
    | sent => exact ih
    | error e => exact beside_checkTlsError (by decide) (fun _ => htouch) e

theorem beside_acceptSslCb (reply : SslAccept) (s : State η) : Beside s (acceptSslCb reply s) := by
  refine (beside_touch s).trans ?_
  match reply with
  | .error e => exact beside_checkTlsError (by decide) (by simp) e
  | .established false => exact beside_tlsFree _
  | .established true => exact (beside_stop (by decide) _).trans (beside_call _ _)

theorem beside_tlsOnTimeout (handler : Option η) (s : State η) : Beside s (tlsOnTimeout handler s) := by
  refine ⟨?_, fun hs => (freed_tlsOnTimeout handler s).trans hs, fun _ => ?_, fun hs => ?_⟩
  · have hstop := outputSide_stopActive s .timeout
    unfold tlsOnTimeout
    generalize s.stopActive .timeout = u at hstop
    dsimp only
    split <;> exact hstop
  · have hstop : .write ∈ (s.stopActive .timeout).loop.active ↔ .write ∈ s.loop.active := by
      simp [stopActive_active]
    unfold tlsOnTimeout
    generalize s.stopActive .timeout = u at hstop
    dsimp only
    split
    · simpa [State.touch, resumeTimeout] using hstop
    · exact hstop
  · have hstop : .shutdown ∈ (s.stopActive .timeout).loop.active → .shutdown ∈ s.loop.active := by
      simp [stopActive_active]
    unfold tlsOnTimeout at hs
    generalize s.stopActive .timeout = u at hstop hs
    dsimp only at hs
    split at hs
    · exact hstop (by simpa [State.touch, resumeTimeout] using hs)
    · exact hstop hs

/-- The events that neither write nor shut down, and are no timeout. -/
def Event.OutputAside : Event η → Prop
  | .writeCb _ | .tlsWrite _ _ | .tlsWriteLine _ | .tlsShutdown | .timeoutCb => False
  | _ => True

theorem beside_stepAlive {s t : State η} {e : Event η} (hs : IoFed s) (haside : e.OutputAside)
    (h : stepAlive s e = some t) : Beside s t := by
  cases e with
  | advance time =>
    cases h
    exact beside_same rfl rfl Iff.rfl id
  | ready w =>
    simp only [stepAlive] at h
    split at h <;> cases h
    exact beside_same rfl rfl Iff.rfl id
  | expire =>
    simp only [stepAlive] at h
    split at h <;> cases h
    exact beside_same rfl rfl (by simp) (by simp)
  | acceptSslCb reply =>
    obtain ⟨-, rfl⟩ := invoke_eq_some h
    exact (beside_take .init s).trans (beside_acceptSslCb reply _)
  | readCb replies =>
    obtain ⟨-, rfl⟩ := invoke_eq_some h
    exact (beside_take .read s).trans (beside_readCb replies _)
  | shutdownCb replies =>
    obtain ⟨hpen, rfl⟩ := invoke_eq_some h
    exact (beside_take .shutdown s).trans (beside_shutdownCb replies (hs.fed .shutdown (by decide) hpen))
  | tlsRead handler size =>
    cases h
    unfold tlsRead
    split
    · exact beside_same rfl rfl Iff.rfl id
    · have hask : Beside s (s.ask handler size) := beside_same rfl rfl Iff.rfl id
      exact hask.trans (beside_arm (by decide) (by decide) .read _)
  | tlsOnError handler =>
    cases h
    exact beside_same rfl rfl Iff.rfl id
  | tlsOnTimeout handler =>
    cases h
    exact beside_tlsOnTimeout handler s
  | tlsOnLineTooLong handler =>
    cases h
    exact beside_same rfl rfl Iff.rfl id
  | writeCb replies => exact haside.elim
  | timeoutCb => exact haside.elim
  | tlsWrite data freeData => exact haside.elim
  | tlsWriteLine string => exact haside.elim
  | tlsShutdown => exact haside.elim

/-! ### The queue -/

/-- The block is as long as it is said to be and not all sent yet, and what is queued can be counted. -/
structure Queue (s : State η) : Prop where
  block : ∀ b, s.output = some b → s.outputSize = b.length ∧ s.outputOffset < b.length
  offset : s.output = none → s.outputOffset = 0
  bounded : s.unsent.length < 2 ^ 31

theorem unsent_of_side {s t : State η} (h : t.outputSide = s.outputSide) : t.unsent = s.unsent := by
  simp only [State.outputSide, OutputSide.mk.injEq] at h
  unfold State.unsent
  rw [h.1, h.2.1, h.2.2.2.1]

theorem sent_of_side {s t : State η} (h : t.outputSide = s.outputSide) : t.history.sent = s.history.sent :=
  congrArg OutputSide.sent h

theorem Queue.of_side {s t : State η} (h : t.outputSide = s.outputSide) (hs : Queue s) : Queue t := by
  have hun := unsent_of_side h
  simp only [State.outputSide, OutputSide.mk.injEq] at h
  obtain ⟨-, hout, hsize, hoff, -⟩ := h
  exact ⟨by rw [hout, hsize, hoff]; exact hs.block, by rw [hout, hoff]; exact hs.offset, hun ▸ hs.bounded⟩

theorem unsent_block {s : State η} {b : Bytes} (h : s.output = some b) :
    s.unsent = b.drop s.outputOffset ++ s.outputBuffer := by
  rw [State.unsent, h, Option.getD_some]

theorem unsent_noBlock {s : State η} (h : s.output = none) : s.unsent = s.outputBuffer := by
  rw [State.unsent, h, Option.getD_none, List.drop_nil, List.nil_append]

theorem Queue.unsent_eq_nil_iff {s : State η} (hs : Queue s) :
    s.unsent = [] ↔ s.output = none ∧ s.outputBuffer = [] := by
  cases hout : s.output with
  | none => simp [unsent_noBlock hout]
  | some b =>
    have hlt := (hs.block b hout).2
    rw [unsent_block hout, List.append_eq_nil_iff, List.drop_eq_nil_iff]
    simp only [reduceCtorEq, false_and, iff_false, not_and]
    intro hle
    omega

theorem sslWrite_ok {num : ℤ} {reply : SslWrite} {n : ℕ} (h : sslWrite num reply = .ok n) :
    0 < n ∧ n ≤ num.toNat := by
  cases reply with
  | error e => cases h
  | sent more =>
    simp only [sslWrite] at h
    by_cases hnum : 0 < num
    · rw [if_pos hnum, Except.ok.injEq] at h
      omega
    · rw [if_neg hnum] at h
      cases h

/-- `SSL_write()` is given what is left of the block. -/
theorem toInt_left {s : State η} {b : Bytes} (hs : Queue s) (hout : s.output = some b) :
    toInt (s.outputSize - s.outputOffset) = ((b.drop s.outputOffset).length : ℤ) := by
  obtain ⟨hsize, hlt⟩ := hs.block b hout
  have hbound := hs.bounded
  rw [unsent_block hout, List.length_append, List.length_drop] at hbound
  unfold toInt
  rw [hsize, List.length_drop, Int.bmod_def]
  split <;> omega

/-- There is a block to write from when something is unsent. -/
theorem queue_nextOutput {s : State η} (hs : Queue s) (hne : s.unsent ≠ []) :
    Queue (nextOutput s) ∧ (nextOutput s).unsent = s.unsent ∧ ∃ b, (nextOutput s).output = some b := by
  unfold nextOutput
  split
  · rename_i b hout
    exact ⟨hs, rfl, b, hout⟩
  · rename_i hout
    have hbuf : s.outputBuffer ≠ [] := fun hnil => hne (hs.unsent_eq_nil_iff.mpr ⟨hout, hnil⟩)
    have hoff := hs.offset hout
    have hun : State.unsent { s with
        output := some s.outputBuffer, outputSize := s.outputBuffer.length, outputBuffer := [] } = s.unsent := by
      rw [unsent_noBlock hout]
      simp [State.unsent, hoff]
    refine ⟨⟨fun b hb => ?_, fun hc => (by cases hc), hun ▸ hs.bounded⟩, hun, s.outputBuffer, rfl⟩
    cases hb
    exact ⟨rfl, by rw [show s.outputOffset = 0 from hoff]; exact List.length_pos_iff.mpr hbuf⟩

/-- What has been written is sent in order, and the watcher stays active as long as there is more. -/
structure Sends (s t : State η) : Prop where
  stream : t.history.sent ++ t.unsent = s.history.sent ++ s.unsent
  queue : Queue t
  watch : t.freed = false → (.write ∈ t.loop.active ↔ t.unsent ≠ [])
  begun : .shutdown ∈ t.loop.active → .shutdown ∈ s.loop.active ∨ t.unsent = []

theorem sends_checkTlsError {s : State η} (hs : Queue s) (hne : s.unsent ≠ []) (hact : .write ∈ s.loop.active)
    (e : SslError) : Sends s (checkTlsError .write e s) := by
  have hwait : ∀ events, Sends s (waitFor .write events s) := fun events =>
    ⟨rfl, Queue.of_side (s := s) rfl hs, fun _ => ⟨fun _ => hne, fun _ => by
      rw [waitFor, Loop.waitFor_active _ _ _ hact]
      exact hact⟩, fun h => Or.inl (by rwa [waitFor, Loop.waitFor_active _ _ _ hact] at h)⟩
  cases e with
  | wantRead => exact hwait .read
  | wantWrite => exact hwait .write
  | interrupted => exact ⟨rfl, hs, fun _ => ⟨fun _ => hne, fun _ => hact⟩, Or.inl⟩
  | failed =>
    have hside := (beside_tlsError s).side
    have hfreed : (tlsError s).freed = true := by
      unfold tlsError
      split <;> rfl
    exact ⟨by rw [checkTlsError, sent_of_side hside, unsent_of_side hside], hs.of_side hside,
      fun h => absurd (hfreed.symm.trans h) (by decide), fun h => Or.inl ((beside_tlsError s).begun h)⟩

theorem sends_drained {s : State η} (hs : Queue s) (hnil : s.unsent = []) : Sends s (drained s) := by
  unfold drained
  dsimp only
  split
  · refine ⟨rfl, Queue.of_side (s := s) rfl hs, fun _ => ⟨fun hc => ?_, fun hc => absurd hnil hc⟩, fun _ => Or.inr hnil⟩
    exact absurd hc (by simp [startShutdown, State.arm])
  · refine ⟨rfl, Queue.of_side (s := s) rfl hs, fun _ => ⟨fun hc => ?_, fun hc => absurd hnil hc⟩, fun _ => Or.inr hnil⟩
    exact absurd hc (Finset.notMem_erase _ _)

theorem sends_writeLoop (replies : List SslWrite) {s : State η} (hs : Queue s) (hne : s.unsent ≠ [])
    (hact : .write ∈ s.loop.active) : Sends s (writeLoop replies s) := by
  -- by induction on the results of `SSL_write()`: each takes a piece from the front of the queue
  induction replies generalizing s with
  | nil =>
    obtain ⟨hq, hun, -⟩ := queue_nextOutput hs hne
    have hact' : .write ∈ (nextOutput s).loop.active := by
      unfold nextOutput
      split <;> exact hact
    have hsent : (nextOutput s).history.sent = s.history.sent := by
      unfold nextOutput
      split <;> rfl
    have hloop : (nextOutput s).loop = s.loop := by
      unfold nextOutput
      split <;> rfl
    have h := sends_checkTlsError hq (hun ▸ hne) hact' .wantWrite
    exact ⟨by rw [writeLoop, h.stream, hsent, hun], h.queue, h.watch, hloop ▸ h.begun⟩
  | cons reply replies ih =>
    obtain ⟨hq, hun, b, hout⟩ := queue_nextOutput hs hne
    have hact' : .write ∈ (nextOutput s).loop.active := by
      unfold nextOutput
      split <;> exact hact
    have hsent : (nextOutput s).history.sent = s.history.sent := by
      unfold nextOutput
      split <;> rfl
    have hloop : (nextOutput s).loop = s.loop := by
      unfold nextOutput
      split <;> rfl
    suffices h : Sends (nextOutput s) (writeLoop (reply :: replies) s) from
      ⟨by rw [h.stream, hsent, hun], h.queue, h.watch, hloop ▸ h.begun⟩
    have hne' : (nextOutput s).unsent ≠ [] := hun ▸ hne
    unfold writeLoop
    generalize nextOutput s = s at hq hout hact' hne'
    have htodo := toInt_left hq hout
    have hblock := hq.block b hout
    dsimp only
    split
    · rename_i e _
      exact sends_checkTlsError hq hne' hact' e
    · rename_i n hn
      obtain ⟨hpos, hle⟩ := sslWrite_ok hn
      rw [htodo, Int.toNat_natCast] at hle
      rw [htodo]
      split
      · rename_i hlt
        have hlt' : n < (b.drop s.outputOffset).length := by exact_mod_cast hlt
        rw [List.length_drop] at hlt'
        have hun' : State.unsent { s.send n with outputOffset := (s.send n).outputOffset + n } =
            (b.drop s.outputOffset).drop n ++ s.outputBuffer := by
          rw [List.drop_drop]
          exact unsent_block hout
        have hstream : s.history.sent ++ (b.drop s.outputOffset).take n ++
            ((b.drop s.outputOffset).drop n ++ s.outputBuffer) = s.history.sent ++ s.unsent := by
          rw [unsent_block hout, List.append_assoc, ← List.append_assoc (List.take n _), List.take_append_drop]
        have hsend : (s.send n).history.sent = s.history.sent ++ (b.drop s.outputOffset).take n := by
          simp [State.send, hout]
        have hq' : Queue { s.send n with outputOffset := (s.send n).outputOffset + n } := by
          refine ⟨fun b' hb' => ?_, fun hc => ?_, ?_⟩
          · obtain rfl : b = b' := Option.some.inj (hout.symm.trans hb')
            exact ⟨hblock.1, by change s.outputOffset + n < b.length; omega⟩
          · exact absurd (hout.symm.trans hc) (by simp)
          · have hbound := hq.bounded
            rw [hun', ← List.drop_append_of_le_length (by rw [List.length_drop]; omega), ← unsent_block hout,
              List.length_drop]
            omega
        have h := ih hq' (by
          rw [hun']
          intro hnil
          have := congrArg List.length hnil
          rw [List.length_append, List.length_drop, List.length_drop] at this
          simp only [List.length_nil] at this
          omega) hact'
        exact ⟨by rw [h.stream, hun', hsend, hstream], h.queue, h.watch, h.begun⟩
      · rename_i hge
        have hall : n = (b.drop s.outputOffset).length := by
          have hge' : ¬ n < (b.drop s.outputOffset).length := by exact_mod_cast hge
          omega
        have hun' : State.unsent { s.send n with output := none, outputSize := 0, outputOffset := 0 } =
            s.outputBuffer := unsent_noBlock rfl
        have hsend : (s.send n).history.sent = s.history.sent ++ b.drop s.outputOffset := by
          simp [State.send, hout, hall]
        have hstream : (s.send n).history.sent ++ s.outputBuffer = s.history.sent ++ s.unsent := by
          rw [hsend, unsent_block hout, List.append_assoc]
        have hq' : Queue { s.send n with output := none, outputSize := 0, outputOffset := 0 } := by
          refine ⟨fun b' hb' => (by cases hb'), fun _ => rfl, ?_⟩
          have hbound := hq.bounded
          rw [unsent_block hout, List.length_append] at hbound
          rw [hun']
          omega
        split
        · rename_i hempty
          have hnil : s.outputBuffer = [] := List.length_eq_zero_iff.mp hempty
          have h := sends_drained hq' (hun'.trans hnil)
          exact ⟨by rw [h.stream, hun', ← hstream], h.queue, h.watch, h.begun⟩
        · rename_i hmore
          have h := ih hq' (by
            rw [hun']
            intro hnil
            exact hmore (List.length_eq_zero_iff.mpr hnil)) hact'
          exact ⟨by rw [h.stream, hun', ← hstream], h.queue, h.watch, h.begun⟩

/-- Nothing is unsent when `write_cb()` calls the drain handler. -/
theorem drain_writeCalls (blocks : ℕ) (replies : List SslWrite) (s : State η) {unsent : Bytes}
    (h : .drain unsent ∈ (writeCalls blocks replies s).1) : unsent = [] := by
  induction replies generalizing blocks s with
  | nil => simp [writeCalls] at h
  | cons reply replies ih =>
    unfold writeCalls at h
    dsimp only at h
    split at h
    · simp at h
    · split at h
      · exact ih _ _ (by simpa using h)
      · split at h
        · rename_i hempty
          have hbuf : (nextOutput s).outputBuffer = [] := List.length_eq_zero_iff.mp hempty
          simp only [List.mem_cons, reduceCtorEq, false_or] at h
          split at h
          · simp only [List.mem_singleton, OutputCall.drain.injEq] at h
            rw [h, unsent_noBlock rfl]
            exact hbuf
          · cases h
        · exact ih _ _ (by simpa using h)

/-! ### Steps -/

/-- What is written is not empty, and fewer than 2^31 bytes are queued at a time. The handler of a
timeout writes before it shuts the connection down. -/
def WithinBounds (x : Traced η) : Event η → Prop
  | .tlsWrite data _ => data ≠ [] ∧ (x.conn.unsent ++ data).length < 2 ^ 31
  | .tlsWriteLine string => (x.conn.unsent ++ (string ++ lineTerminator)).length < 2 ^ 31
  | .tlsShutdown => x.timedOut = false
  | _ => True

instance decidableWithinBounds (x : Traced η) : (e : Event η) → Decidable (WithinBounds x e)
  | .tlsWrite data _ => inferInstanceAs (Decidable (data ≠ [] ∧ (x.conn.unsent ++ data).length < 2 ^ 31))
  | .tlsWriteLine string => inferInstanceAs (Decidable ((x.conn.unsent ++ (string ++ lineTerminator)).length < 2 ^ 31))
  | .tlsShutdown => inferInstanceAs (Decidable (x.timedOut = false))
  | .advance _ | .ready _ | .expire | .acceptSslCb _ | .readCb _ | .writeCb _ | .shutdownCb _ | .timeoutCb
  | .tlsRead _ _ | .tlsOnError _ | .tlsOnTimeout _ | .tlsOnLineTooLong _ => instDecidableTrue

/-- The queue, its watcher, and the calls of the drain handler so far. -/
structure InQueue (x : Traced η) : Prop where
  fed : IoFed x.conn
  queue : Queue x.conn
  watch : x.timedOut = false → x.conn.freed = false → (.write ∈ x.conn.loop.active ↔ x.conn.unsent ≠ [])
  stopped : x.timedOut = true → x.conn.freed = false → .write ∉ x.conn.loop.active
  drains : ∀ unsent, .drain unsent ∈ x.output → unsent = []

/-- Something is put at the end of the queue, and the watcher is active. -/
structure Enqueues (data : Bytes) (s t : State η) : Prop where
  sent : t.history.sent = s.history.sent
  unsent : t.unsent = s.unsent ++ data
  queue : Queue t
  watch : .write ∈ t.loop.active

theorem armWrite_side (s : State η) :
    (if .write ∈ s.loop.active then s else s.arm .write .write).outputSide = s.outputSide := by
  split <;> rfl

theorem mem_armWrite (s : State η) :
    .write ∈ (if .write ∈ s.loop.active then s else s.arm .write .write).loop.active := by
  split
  · assumption
  · exact Finset.mem_insert_self _ _

theorem enqueues_arm {s u : State η} {data : Bytes} (hsent : u.history.sent = s.history.sent)
    (hun : u.unsent = s.unsent ++ data) (hq : Queue u) :
    Enqueues data s (if .write ∈ u.loop.active then u else u.arm .write .write) := by
  have hside := armWrite_side u
  exact ⟨(sent_of_side hside).trans hsent, (unsent_of_side hside).trans hun, hq.of_side hside, mem_armWrite u⟩

theorem enqueues_writeBuffered {s : State η} (hs : Queue s) (data : Bytes)
    (hbound : (s.unsent ++ data).length < 2 ^ 31) : Enqueues data s (writeBuffered data s) := by
  have hun : State.unsent { s with outputBuffer := s.outputBuffer ++ data } = s.unsent ++ data := by
    simp [State.unsent]
  have hq : Queue { s with outputBuffer := s.outputBuffer ++ data } := ⟨hs.block, hs.offset, hun ▸ hbound⟩
  exact enqueues_arm (s := s) (u := { s with outputBuffer := s.outputBuffer ++ data }) rfl hun hq

theorem enqueues_tlsWrite {s : State η} (hs : Queue s) {data : Bytes} (hne : data ≠ []) (freeData : Bool)
    (hbound : (s.unsent ++ data).length < 2 ^ 31) : Enqueues data s (tlsWrite data freeData s) := by
  unfold tlsWrite
  split
  · rename_i hfree
    obtain ⟨hout, hlen, -⟩ := hfree
    have hbuf : s.outputBuffer = [] := List.length_eq_zero_iff.mp hlen
    have hoff := hs.offset hout
    have hun : State.unsent { s with output := some data, outputSize := data.length } = s.unsent ++ data := by
      rw [unsent_noBlock hout]
      simp [State.unsent, hoff, hbuf]
    have hq : Queue { s with output := some data, outputSize := data.length } := by
      refine ⟨fun b hb => ?_, fun hc => (by cases hc), hun ▸ hbound⟩
      cases hb
      exact ⟨rfl, by rw [show s.outputOffset = 0 from hoff]; exact List.length_pos_iff.mpr hne⟩
    exact enqueues_arm (s := s) (u := { s with output := some data, outputSize := data.length }) rfl hun hq
  · exact enqueues_writeBuffered hs data hbound

theorem enqueues_tlsWriteLine {s : State η} (hs : Queue s) {string : Bytes}
    (hbound : (s.unsent ++ (string ++ lineTerminator)).length < 2 ^ 31) :
    Enqueues (string ++ lineTerminator) s (tlsWriteLine string s) := by
  have hstring := enqueues_writeBuffered hs string (by
    simp only [List.length_append] at hbound ⊢
    omega)
  have hend := enqueues_writeBuffered hstring.queue lineTerminator (by
    rw [hstring.unsent, List.append_assoc]
    exact hbound)
  exact ⟨hend.sent.trans hstring.sent, by rw [tlsWriteLine, hend.unsent, hstring.unsent, List.append_assoc],
    hend.queue, hend.watch⟩

theorem outputSide_timeoutCb (s : State η) : (timeoutCb s).outputSide = s.outputSide := by
  have hstop := outputSide_stopIo s
  unfold timeoutCb
  generalize s.lastActivity + s.timeout - s.loop.now = diff
  dsimp only
  split
  · rfl
  · generalize s.stopIo = u at hstop
    have hresume : (resumeTimeout u.timeout u).outputSide = s.outputSide := hstop
    generalize resumeTimeout u.timeout u = v at hresume
    split
    · exact hresume
    · exact (outputSide_tlsFree v).trans hresume

/-- After a timeout the connection is freed, a handler is called, or all is as before. -/
theorem timeoutCb_upcalls (s : State η) : (timeoutCb s).freed = true ∨
    (s.history.upcalls.length < (timeoutCb s).history.upcalls.length ∧ .write ∉ (timeoutCb s).loop.active) ∨
    ((timeoutCb s).history = s.history ∧ (.write ∈ (timeoutCb s).loop.active ↔ .write ∈ s.loop.active)) := by
  have hstop : .write ∉ s.stopIo.loop.active := by simp [mem_stopIo_active]
  have hkeep := history_stopIo s
  unfold timeoutCb
  generalize s.lastActivity + s.timeout - s.loop.now = diff
  dsimp only
  split
  · exact Or.inr (Or.inr ⟨rfl, by simp [resumeTimeout]⟩)
  · generalize s.stopIo = u at hstop hkeep
    have hresume : (resumeTimeout u.timeout u).history = s.history := hkeep
    have hact : .write ∉ (resumeTimeout u.timeout u).loop.active := by simpa [resumeTimeout] using hstop
    generalize resumeTimeout u.timeout u = v at hresume hact
    split
    · exact Or.inr (Or.inl ⟨by simp [State.call, hresume], hact⟩)
    · exact Or.inl rfl

theorem InQueue.of_enqueues {x y : Traced η} {data : Bytes} (hx : InQueue x) (hfed : IoFed y.conn)
    (hne : data ≠ []) (h : Enqueues data x.conn y.conn) (houtput : y.output = x.output)
    (htimed : y.timedOut = false) : InQueue y ∧ y.conn.history.sent ++ y.conn.unsent = x.conn.history.sent ++ x.conn.unsent ++ data := by
  refine ⟨⟨hfed, h.queue, fun _ _ => ⟨fun _ hnil => ?_, fun _ => h.watch⟩, fun ht => ?_, houtput ▸ hx.drains⟩, ?_⟩
  · rw [h.unsent, List.append_eq_nil_iff] at hnil
    exact hne hnil.2
  · rw [htimed] at ht
    cases ht
  · rw [h.sent, h.unsent, List.append_assoc]

theorem sends_writeCb {s t : State η} {replies : List SslWrite} (hfed : IoFed s) (hs : Queue s)
    (hwatch : .write ∈ s.loop.active → s.unsent ≠ []) (h : stepAlive s (.writeCb replies) = some t) : Sends s t := by
  obtain ⟨hpen, rfl⟩ := invoke_eq_some h
  have hact := hfed.fed .write (by decide) hpen
  have hbefore : Beside s (resetWatcherState .read { s with loop := s.loop.take .write }).touch :=
    (beside_take .write s).trans ((beside_resetWatcherState .read _).trans (beside_touch _))
  have hact' : .write ∈ (resetWatcherState .read { s with loop := s.loop.take .write }).touch.loop.active := by
    simpa [resetWatcherState, State.touch] using hact
  unfold writeCb
  generalize (resetWatcherState .read { s with loop := s.loop.take .write }).touch = u at hbefore hact'
  have hun := unsent_of_side hbefore.side
  have h := sends_writeLoop replies (hs.of_side hbefore.side) (hun ▸ hwatch hact) hact'
  exact ⟨by rw [h.stream, sent_of_side hbefore.side, hun], h.queue, h.watch,
    fun ht => (h.begun ht).imp_left hbefore.begun⟩

theorem outputSide_tlsShutdown (s : State η) : (tlsShutdown s).outputSide = s.outputSide := by
  unfold tlsShutdown tlsOnDrain
  dsimp only
  split <;> rfl

theorem mem_tlsShutdown_active (s : State η) (w : Watcher) : w ∈ (tlsShutdown s).loop.active ↔
    w ∈ s.loop.active ∨ (w = .shutdown ∧ .write ∉ s.loop.active) := by
  unfold tlsShutdown tlsOnDrain
  dsimp only
  split
  · rename_i hact
    simp [hact]
  · rename_i hact
    simp [startShutdown, State.arm, hact, or_comm]

theorem inQueue_timeoutCb {x y : Traced η} (hx : InQueue x) (hfreed : x.conn.freed = false)
    (hfed : IoFed y.conn) (h : stepAlive x.conn .timeoutCb = some y.conn) (hy : y = x.next .timeoutCb y.conn) :
    InQueue y ∧ y.conn.outputSide = x.conn.outputSide := by
  obtain ⟨-, hconn⟩ := invoke_eq_some h
  have hside : y.conn.outputSide = x.conn.outputSide :=
    hconn ▸ outputSide_timeoutCb { x.conn with loop := x.conn.loop.take .timeout }
  have hcases := timeoutCb_upcalls { x.conn with loop := x.conn.loop.take .timeout }
  rw [← hconn] at hcases
  have htimed : y.timedOut =
      (x.timedOut || decide (x.conn.history.upcalls.length < y.conn.history.upcalls.length)) := by rw [hy]; rfl
  have hout : y.output = x.output := by rw [hy]; rfl
  refine ⟨⟨hfed, hx.queue.of_side hside, fun ht hf => ?_, fun ht hf => ?_, hout ▸ hx.drains⟩, hside⟩
  · simp only [htimed, Bool.or_eq_false_iff, decide_eq_false_iff_not] at ht
    rcases hcases with hc | ⟨hlt, -⟩ | ⟨-, hact⟩
    · rw [hf] at hc
      cases hc
    · exact absurd hlt ht.2
    · rw [unsent_of_side hside, hact]
      exact hx.watch ht.1 hfreed
  · rcases hcases with hc | ⟨-, hact⟩ | ⟨hhistory, hact⟩
    · rw [hf] at hc
      cases hc
    · exact hact
    · rw [hact]
      rw [htimed, hhistory] at ht
      exact hx.stopped (by simpa using ht) hfreed

/-- While a timeout is being handled, `write_cb()` is not called. -/
theorem InQueue.alive_of_writeCb {x : Traced η} {t : State η} {replies : List SslWrite} (hx : InQueue x)
    (hfreed : x.conn.freed = false) (h : stepAlive x.conn (.writeCb replies) = some t) : x.timedOut = false := by
  by_contra hc
  rw [Bool.not_eq_false] at hc
  exact hx.stopped hc hfreed (hx.fed.fed .write (by decide) (invoke_eq_some h).1)

/-- **One step of the queue.** -/
theorem inQueue_step {x y : Traced η} {e : Event η} (hx : InQueue x) (hok : WithinBounds x e)
    (h : tracedStep x e = some y) :
    InQueue y ∧ y.conn.history.sent ++ y.conn.unsent = x.conn.history.sent ++ x.conn.unsent ++ e.written := by
  obtain ⟨hstep, hy⟩ := tracedStep_eq_some h
  have hfed := ioFed_step hx.fed hstep
  obtain ⟨hfreed, -, halive⟩ := step_eq_some hstep
  by_cases haside : e.OutputAside
  · have hbeside := beside_stepAlive hx.fed haside halive
    obtain ⟨htimed, hout, hwritten⟩ : y.timedOut = x.timedOut ∧ y.output = x.output ∧ e.written = [] := by
      rw [hy]
      cases e <;> first | exact haside.elim | exact ⟨rfl, rfl, rfl⟩
    refine ⟨⟨hfed, hx.queue.of_side hbeside.side, fun ht hf => ?_, fun ht hf => ?_, hout ▸ hx.drains⟩, ?_⟩
    · rw [hbeside.write hf, unsent_of_side hbeside.side]
      exact hx.watch (htimed ▸ ht) hfreed
    · rw [hbeside.write hf]
      exact hx.stopped (htimed ▸ ht) hfreed
    · rw [sent_of_side hbeside.side, unsent_of_side hbeside.side, hwritten, List.append_nil]
  · cases e with
    | writeCb replies =>
      have htimed := hx.alive_of_writeCb hfreed halive
      have hsends := sends_writeCb hx.fed hx.queue (hx.watch htimed hfreed).mp halive
      have hout : y.output = x.output ++ (writeCalls x.outputBlocks replies x.conn).1 := by rw [hy]; rfl
      have htimed' : y.timedOut = false := by rw [hy]; exact htimed
      have hnil : (Event.writeCb replies : Event η).written = [] := rfl
      refine ⟨⟨hfed, hsends.queue, fun _ hf => hsends.watch hf, fun ht => ?_, fun unsent hd => ?_⟩, ?_⟩
      · rw [htimed'] at ht
        cases ht
      · rw [hout, List.mem_append] at hd
        exact hd.elim (hx.drains unsent) (drain_writeCalls _ _ _)
      · rw [hsends.stream, hnil, List.append_nil]
    | tlsWrite data freeData =>
      have hconn : y.conn = tlsWrite data freeData x.conn := (Option.some.inj halive).symm
      have henq := enqueues_tlsWrite hx.queue hok.1 freeData hok.2
      exact hx.of_enqueues hfed hok.1 (hconn ▸ henq) (by rw [hy]; rfl) (by rw [hy]; rfl)
    | tlsWriteLine string =>
      have hconn : y.conn = tlsWriteLine string x.conn := (Option.some.inj halive).symm
      have henq := enqueues_tlsWriteLine hx.queue hok
      have hne : string ++ lineTerminator ≠ [] := by simp [lineTerminator, ascii]
      exact hx.of_enqueues hfed hne (hconn ▸ henq) (by rw [hy]; rfl) (by rw [hy]; rfl)
    | tlsShutdown =>
      have hconn : y.conn = tlsShutdown x.conn := (Option.some.inj halive).symm
      have hside : y.conn.outputSide = x.conn.outputSide := hconn ▸ outputSide_tlsShutdown x.conn
      have hout : y.output = x.output ++ (if .write ∈ x.conn.loop.active then [] else [.drain x.conn.unsent]) := by
        rw [hy]
        rfl
      have hwatch := hx.watch hok hfreed
      have htimed' : y.timedOut = false := by rw [hy]; exact hok
      have hnil : (Event.tlsShutdown : Event η).written = [] := rfl
      refine ⟨⟨hfed, hx.queue.of_side hside, fun _ _ => ?_, fun ht => ?_, fun unsent hd => ?_⟩, ?_⟩
      · rw [unsent_of_side hside, ← hwatch, hconn, mem_tlsShutdown_active]
        simp
      · rw [htimed'] at ht
        cases ht
      · rw [hout, List.mem_append] at hd
        rcases hd with hd | hd
        · exact hx.drains unsent hd
        · by_cases hact : .write ∈ x.conn.loop.active
          · rw [if_pos hact] at hd
            cases hd
          · rw [if_neg hact, List.mem_singleton, OutputCall.drain.injEq] at hd
            rw [hd]
            exact not_not.mp (mt hwatch.mpr hact)
      · rw [sent_of_side hside, unsent_of_side hside, hnil, List.append_nil]
    | timeoutCb =>
      obtain ⟨hin, hside⟩ := inQueue_timeoutCb hx hfreed hfed halive hy
      have hnil : (Event.timeoutCb : Event η).written = [] := rfl
      exact ⟨hin, by rw [sent_of_side hside, unsent_of_side hside, hnil, List.append_nil]⟩
    | _ => exact absurd trivial haside

theorem Tended.shutdown {l l' : Loop Watcher} (h : Tended .shutdown l l') (hl : .shutdown ∈ l'.active) :
    .shutdown ∈ l.active := by
  cases h with
  | same hact _ => exact hact.mp hl
  | fed _ _ hw => exact hw.resolve_left (by decide)
  | stopped hact _ => exact absurd hl hact

/-- The shutdown begins when nothing is unsent. -/
theorem begun_step {x y : Traced η} {e : Event η} (hx : InQueue x) (hok : WithinBounds x e)
    (h : tracedStep x e = some y) (hact : .shutdown ∈ y.conn.loop.active) :
    .shutdown ∈ x.conn.loop.active ∨ y.conn.unsent = [] := by
  obtain ⟨hstep, -⟩ := tracedStep_eq_some h
  obtain ⟨hfreed, -, halive⟩ := step_eq_some hstep
  by_cases haside : e.OutputAside
  · exact Or.inl ((beside_stepAlive hx.fed haside halive).begun hact)
  · cases e with
    | writeCb replies =>
      have htimed := hx.alive_of_writeCb hfreed halive
      exact (sends_writeCb hx.fed hx.queue (hx.watch htimed hfreed).mp halive).begun hact
    | tlsWrite data freeData =>
      rw [← Option.some.inj halive] at hact
      exact Or.inl ((frame_tlsWrite data freeData _).tended.shutdown hact)
    | tlsWriteLine string =>
      rw [← Option.some.inj halive] at hact
      have hframe := (frame_writeBuffered (v := .shutdown) string x.conn).trans (frame_writeBuffered lineTerminator _)
      exact Or.inl (hframe.tended.shutdown hact)
    | tlsShutdown =>
      have hconn : y.conn = tlsShutdown x.conn := (Option.some.inj halive).symm
      have hside : y.conn.outputSide = x.conn.outputSide := hconn ▸ outputSide_tlsShutdown x.conn
      rw [hconn, mem_tlsShutdown_active] at hact
      rw [unsent_of_side hside]
      refine hact.imp_right fun ⟨_, hwrite⟩ => ?_
      by_contra hne
      exact hwrite ((hx.watch hok hfreed).mpr hne)
    | timeoutCb =>
      obtain ⟨-, hconn⟩ := invoke_eq_some halive
      rw [hconn] at hact
      exact Or.inl (((frame_take (w := .timeout) (by decide) _).trans (frame_timeoutCb (by decide) _)).tended.shutdown hact)
    | _ => exact absurd trivial haside

/-- Nothing has been written or sent. -/
structure Unwritten (s : State η) : Prop where
  fed : IoFed s
  side : s.outputSide = ⟨[], none, 0, 0, []⟩
  stopped : .write ∉ s.loop.active

theorem Unwritten.of_beside {s t : State η} (h : Beside s t) (hs : Unwritten s) (hfed : IoFed t)
    (hact : .write ∈ t.loop.active → t.freed = false) : Unwritten t :=
  ⟨hfed, h.side.trans hs.side, fun hw => hs.stopped ((h.write (hact hw)).mp hw)⟩

theorem Unwritten.tlsFree {s : State η} (hs : Unwritten s) : Unwritten (tlsFree s) := by
  have hact : .write ∉ (Tls.tlsFree s).loop.active := by
    rw [tlsFree_active]
    exact Finset.notMem_empty _
  exact ⟨ioFed_tlsFree hs.fed, (outputSide_tlsFree s).trans hs.side, hact⟩

theorem Unwritten.checkTlsError {s : State η} (hs : Unwritten s) (hfreed : s.freed = false)
    (hact : .init ∈ s.loop.active) (e : SslError) : Unwritten (checkTlsError .init e s) := by
  have hfed := (ends_checkTlsError (w := .init) (by decide) hact e).ioFed hs.fed
  cases e with
  | wantRead => exact hs.of_beside (beside_waitFor (by decide) (by simp) .read) hfed fun _ => hfreed
  | wantWrite => exact hs.of_beside (beside_waitFor (by decide) (by simp) .write) hfed fun _ => hfreed
  | interrupted => exact hs
  | failed =>
    change Unwritten (tlsError s)
    unfold tlsError
    split
    · rename_i handler _
      have hcall : IoFed (s.call (.error handler)) := ioFed_loop hs.fed rfl
      exact (hs.of_beside (beside_call _ s) hcall fun _ => hfreed).tlsFree
    · exact hs.tlsFree

theorem Started.unwritten {s : State η} (h : Started s) : Unwritten s := by
  have hnew : ∀ (connectHandler : η) (timeout now : ℚ), Unwritten (tlsNew connectHandler timeout now) :=
    fun connectHandler timeout now => ⟨ioFed_tlsNew connectHandler timeout now, rfl, Finset.notMem_empty _⟩
  have hset : ∀ (handler : Option η) (s : State η), s.freed = false → Unwritten s → Unwritten (tlsOnTimeout handler s) :=
    fun handler s hf hs => hs.of_beside (beside_tlsOnTimeout handler s) (ioFed_tlsOnTimeout hs.fed handler)
      fun _ => (freed_tlsOnTimeout handler s).trans hf
  cases h with
  | accept hasAddress hasSsl connectHandler timeout now =>
    have hnew := hnew connectHandler timeout now
    have hset := hset none _ rfl hnew
    unfold acceptTcp
    dsimp only
    split
    · split
      · exact hset.of_beside (beside_arm (by decide) (by decide) .read _) (ioFed_arm hset.fed (by decide) .read)
          fun _ => freed_tlsOnTimeout none _
      · exact hset.tlsFree
    · exact hnew.tlsFree
  | connect hasSocket reply connectHandler timeoutHandler timeout now =>
    have hset := hset timeoutHandler _ rfl (hnew connectHandler timeout now)
    have hfreed : (tlsOnTimeout timeoutHandler (tlsNew connectHandler timeout now)).freed = false :=
      freed_tlsOnTimeout timeoutHandler _
    unfold tlsConnect
    generalize tlsOnTimeout timeoutHandler (tlsNew connectHandler timeout now) = s at hset hfreed
    have htouch := hset.of_beside (beside_touch s) (ioFed_loop hset.fed rfl) fun _ => hfreed
    have harm := htouch.of_beside (beside_arm (w := .init) (by decide) (by decide) .write _)
      (ioFed_arm htouch.fed (by decide) .write) fun _ => hfreed
    dsimp only
    split
    · split
      · rename_i e
        exact harm.checkTlsError hfreed (Finset.mem_insert_self _ _) e
      · exact htouch.of_beside (beside_call _ _) (ioFed_loop htouch.fed rfl) fun _ => hfreed
    · exact ⟨ioFed_loop htouch.fed rfl, htouch.side, htouch.stopped⟩

theorem inQueue_start {s : State η} (h : Started s) : InQueue (.start s) ∧ s.history.sent = [] ∧ s.unsent = [] := by
  have hs := h.unwritten
  have hside := hs.side
  simp only [State.outputSide, OutputSide.mk.injEq] at hside
  obtain ⟨hbuffer, hout, -, hoff, hsent⟩ := hside
  have hun : s.unsent = [] := (unsent_noBlock hout).trans hbuffer
  refine ⟨⟨hs.fed, ⟨fun b hb => ?_, fun _ => hoff, by simp [Traced.start, hun]⟩, fun _ _ => ?_, fun ht => ?_,
    fun unsent hd => ?_⟩, hsent, hun⟩
  · rw [show (Traced.start s).conn.output = none from hout] at hb
    cases hb
  · exact ⟨fun hw => absurd hw hs.stopped, fun hne => absurd hun hne⟩
  · cases ht
  · cases hd

/-- **The output of a connection is sent in order.** Whatever has been written, what `SSL_write()` has
taken is the beginning of it, and the queue is the rest; the write watcher is active exactly if there is
a rest, as long as no timeout is being handled; the drain handler has only been called when there was
none; and the shutdown only begins then. -/
theorem output_in_order {es : List (Event η)} {x : Traced η} (h : Traces WithinBounds es x) :
    x.conn.history.sent ++ x.conn.unsent = es.flatMap Event.written ∧
    x.conn.history.sent <+: es.flatMap Event.written ∧
    (x.timedOut = false → x.conn.freed = false → (.write ∈ x.conn.loop.active ↔ x.conn.unsent ≠ [])) ∧
    (∀ unsent, .drain unsent ∈ x.output → unsent = []) ∧
    ∀ e y, WithinBounds x e → tracedStep x e = some y → .shutdown ∈ y.conn.loop.active →
      .shutdown ∈ x.conn.loop.active ∨ y.conn.unsent = [] := by
  obtain ⟨hstart, hruns⟩ := h
  obtain ⟨hin, hsent, hun⟩ := inQueue_start hstart
  obtain ⟨hx, hstream⟩ := hruns.accumulates (f := fun x : Traced η => x.conn.history.sent ++ x.conn.unsent)
    (g := Event.written) (I := InQueue) (fun x e y hx h => inQueue_step hx h.1 h.2) hin
  have hnone : ∀ s : State η, (Traced.start s).conn = s := fun _ => rfl
  have hall : x.conn.history.sent ++ x.conn.unsent = es.flatMap Event.written := by
    rw [hstream, hnone, hsent, hun, List.nil_append, List.nil_append]
  exact ⟨hall, ⟨x.conn.unsent, hall⟩, hx.watch, hx.drains, fun e y hok hstep => begun_step hx hok hstep⟩

/-- A block is taken over, the rest is buffered; the first call of `SSL_write()` takes one byte. -/
theorem output_in_order_okay : ∃ x : Traced Unit,
    x.conn.history.sent ++ x.conn.unsent = ascii "BAIL\r\n" ∧ x.conn.history.sent = ascii "BAIL\r\n" ∧
      .drain [] ∈ x.output := by
  obtain ⟨x, hx, hp⟩ := (Option.any_eq_true _ _).mp (by decide +kernel : Option.any
    (fun x => decide (x.conn.history.sent = ascii "BAIL\r\n" ∧ .drain [] ∈ x.output))
    (Machine.run (Machine.guarded WithinBounds tracedStep) (.start (accepted () 5 0))
      [.ready .init, .acceptSslCb (.established true), .tlsWrite (ascii "BA") true, .tlsWriteLine (ascii "IL"),
        .writeCb [.sent 0], .tlsShutdown, .ready .write, .writeCb [.sent 0, .sent 9]]) = true)
  obtain ⟨hsent, hdrain⟩ := of_decide_eq_true hp
  obtain ⟨hall, -⟩ := output_in_order (traces_of_run hx)
  exact ⟨x, hall, hsent, hdrain⟩

end Tls
end NscaNg
