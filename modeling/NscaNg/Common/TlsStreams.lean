/-
# The two streams of a connection

What a connection is given to write goes to its peer, and what its peer sends goes to the handlers. A step
of the event loop sends some of what is queued and receives something; what has been received stays unread,
or answers the request that is being worked on. The calls of a handler put something at the end of the
queue, and leave alone what has been received. `Flow` is what both come to.
-/
import NscaNg.Common.TlsOutput
import NscaNg.Common.TlsUpcalls

namespace NscaNg
namespace Tls

open Posix Libev

variable {η : Type}

/-! ### Streams -/

/-- The queue is in order, and `write_cb()` is called only when something is queued. -/
structure Flushes (s : State η) : Prop where
  queue : Queue s
  watch : .write ∈ s.loop.active → s.unsent ≠ []

/-- This has been written in the meantime, and some of what is queued has been sent; and some bytes have been
received, with which a request has been answered, if one is given. -/
structure Flow (taken : Option (Request × Bytes)) (written : Bytes) (s t : State η) : Prop where
  sent : s.history.sent <+: t.history.sent
  stream : t.history.sent ++ t.unsent = s.history.sent ++ s.unsent ++ written
  received : ∃ bytes, t.history.received = s.history.received ++ bytes ∧
    match taken with
    | none => t.unread = s.unread ++ bytes
    | some (r, data) => answer r (s.unread ++ bytes) = some (data, t.unread)

/-- What a call of a handler does to the streams. -/
structure Writes (data : Bytes) (s t : State η) : Prop where
  sent : t.history.sent = s.history.sent
  unsent : t.unsent = s.unsent ++ data
  received : t.history.received = s.history.received
  unread : t.unread = s.unread
  buffer : t.inputBuffer = s.inputBuffer

theorem Writes.trans {data more : Bytes} {s t u : State η} (h : Writes data s t) (h' : Writes more t u) :
    Writes (data ++ more) s u where
  sent := h'.sent.trans h.sent
  unsent := by rw [h'.unsent, h.unsent, List.append_assoc]
  received := h'.received.trans h.received
  unread := h'.unread.trans h.unread
  buffer := h'.buffer.trans h.buffer

/-- Nothing is written. -/
theorem writes_nil {s t : State η} (hout : t.outputSide = s.outputSide)
    (hreceived : t.history.received = s.history.received) (hunread : t.unread = s.unread)
    (hbuffer : t.inputBuffer = s.inputBuffer) : Writes [] s t :=
  ⟨sent_of_side hout, by rw [unsent_of_side hout, List.append_nil], hreceived, hunread, hbuffer⟩

theorem Writes.refl (s : State η) : Writes [] s s := writes_nil rfl rfl rfl rfl

/-- A handler goes on from where the event loop has come to. -/
theorem Flow.writes {taken : Option (Request × Bytes)} {data more : Bytes} {s t u : State η}
    (h : Flow taken data s t) (h' : Writes more t u) : Flow taken (data ++ more) s u where
  sent := h'.sent ▸ h.sent
  stream := by rw [h'.sent, h'.unsent, ← List.append_assoc, h.stream, List.append_assoc]
  received := by
    rw [h'.received, h'.unread]
    exact h.received

theorem flow_of_writes {data : Bytes} {s t : State η} (h : Writes data s t) : Flow none data s t where
  sent := h.sent ▸ List.prefix_rfl
  stream := by rw [h.sent, h.unsent, List.append_assoc]
  received := ⟨[], by rw [h.received, List.append_nil], by rw [h.unread, List.append_nil]⟩

theorem Flow.length_unsent_le {taken : Option (Request × Bytes)} {s t : State η} (h : Flow taken [] s t) :
    t.unsent.length ≤ s.unsent.length := by
  have hsent := h.sent.length_le
  have hstream := congrArg List.length h.stream
  simp only [List.length_append, List.length_nil] at hstream
  omega

/-! ### Steps of the event loop -/

theorem Outcome.inactive {s t : State η} (h : Outcome s t) (halive : s.freed = false) :
    t.freed = false ∨ t.loop.active = ∅ := by
  have hcalls : ∀ {called : List (Upcall η)}, Calls called s t → t.freed = false :=
    fun h => (congrArg UserSide.freed h.user).trans halive
  cases h with
  | quiet h _ _ _ => exact Or.inl (hcalls h)
  | freed h _ => exact Or.inr h.inactive
  | error _ h => exact Or.inr h.inactive
  | read _ _ _ h _ _ => exact Or.inl (hcalls h)
  | lineTooLong _ _ h _ => exact Or.inl (hcalls h)
  | connect _ h _ _ => exact Or.inl (hcalls h)
  | timeout _ h _ => exact Or.inl (hcalls h)

/-- The output stays as it is. -/
theorem flushes_of_side {s t : State η} (hs : Flushes s) (hside : t.outputSide = s.outputSide)
    (hact : .write ∈ t.loop.active → .write ∈ s.loop.active) : Flushes t :=
  ⟨hs.queue.of_side hside, fun h => (unsent_of_side hside).symm ▸ hs.watch (hact h)⟩

theorem sent_checkTlsError (w : Watcher) (e : SslError) (s : State η) :
    (checkTlsError w e s).history.sent = s.history.sent := by
  cases e with
  | failed => exact sent_of_side (beside_tlsError s).side
  | _ => rfl

theorem sent_nextOutput (s : State η) : (nextOutput s).history.sent = s.history.sent := by
  unfold nextOutput
  split <;> rfl

/-- `write_cb()` adds to what has been sent. -/
theorem sent_writeLoop (replies : List SslWrite) (s : State η) :
    s.history.sent <+: (writeLoop replies s).history.sent := by
  induction replies generalizing s with
  | nil =>
    rw [writeLoop, sent_checkTlsError, sent_nextOutput]
  | cons reply replies ih =>
    rw [← sent_nextOutput s]
    unfold writeLoop
    generalize nextOutput s = s
    dsimp only
    split
    · rw [sent_checkTlsError]
    · rename_i n _
      have hsend : s.history.sent <+: (s.send n).history.sent := List.prefix_append _ _
      split
      · exact hsend.trans (ih { s.send n with outputOffset := (s.send n).outputOffset + n })
      · split
        · unfold drained
          dsimp only
          split <;> exact hsend
        · exact hsend.trans (ih { s.send n with output := none, outputSize := 0, outputOffset := 0 })

/-- A step of the event loop sends some of what is queued. -/
theorem flushes_stepAlive {s t : State η} {e : Event η} (hfed : IoFed s) (halive : s.freed = false)
    (hs : Flushes s) (he : e.FromLoop) (h : stepAlive s e = some t) :
    Flushes t ∧ s.history.sent <+: t.history.sent ∧ t.history.sent ++ t.unsent = s.history.sent ++ s.unsent := by
  have hinactive := (outcome_stepAlive hfed he h).inactive halive
  have hside : t.outputSide = s.outputSide → (t.freed = false → .write ∈ t.loop.active → .write ∈ s.loop.active) →
      Flushes t ∧ s.history.sent <+: t.history.sent ∧ t.history.sent ++ t.unsent = s.history.sent ++ s.unsent := by
    intro hside hact
    refine ⟨flushes_of_side hs hside fun hw => ?_, by rw [sent_of_side hside], by
      rw [sent_of_side hside, unsent_of_side hside]⟩
    rcases hinactive with hf | hnone
    · exact hact hf hw
    · exact absurd hw (hnone ▸ Finset.notMem_empty _)
  by_cases haside : e.OutputAside
  · have hb := beside_stepAlive hfed haside h
    exact hside hb.side fun hf => (hb.write hf).mp
  · cases e with
    | writeCb replies =>
      have hsends := sends_writeCb hfed hs.queue hs.watch h
      obtain ⟨-, rfl⟩ := invoke_eq_some h
      have hbefore : (resetWatcherState .read { s with loop := s.loop.take .write }).touch.outputSide = s.outputSide :=
        ((beside_take .write s).trans ((beside_resetWatcherState .read _).trans (beside_touch _))).side
      refine ⟨⟨hsends.queue, fun hw => ?_⟩, ?_, hsends.stream⟩
      · rcases hinactive with hf | hnone
        · exact (hsends.watch hf).mp hw
        · exact absurd hw (hnone ▸ Finset.notMem_empty _)
      · rw [← sent_of_side hbefore]
        exact sent_writeLoop replies _
    | timeoutCb =>
      obtain ⟨-, rfl⟩ := invoke_eq_some h
      refine hside (outputSide_timeoutCb _) fun hf hw => ?_
      rcases timeoutCb_upcalls { s with loop := s.loop.take .timeout } with hfreed | ⟨-, hoff⟩ | ⟨-, hact⟩
      · exact absurd (hf.symm.trans hfreed) (by decide)
      · exact absurd hw hoff
      · exact hact.mp hw
    | tlsWrite data freeData => exact he.elim
    | tlsWriteLine string => exact he.elim
    | tlsShutdown => exact he.elim
    | _ => exact absurd trivial haside

/-- What a handler expects is waited for, if nothing was read ahead that it does not look at. -/
theorem Expects.waiting {s : State η} {r : Request} (h : Expects s r) (hbuf : r ≠ .line → s.inputBuffer = []) :
    Waiting s r := by
  cases r with
  | line => exact h
  | bytes size =>
    obtain ⟨hmode, hsize, hlt, hlen, hoff, hwaits⟩ := h
    exact ⟨hmode, hsize, hlt, hbuf (by simp), hlen, hoff, hwaits⟩

/-- **A step of the event loop.** Something is received, and it answers the request or stays unread; some of
what is queued is sent. -/
theorem flow_stepAlive {s t : State η} {e : Event η} {r : Request} (hfed : IoFed s) (halive : s.freed = false)
    (hs : Flushes s) (he : e.FromLoop) (hwaits : .read ∈ s.loop.active → Waiting s r) (h : stepAlive s e = some t) :
    Flushes t ∧
      ((t.delivered = s.delivered ∧ Flow none [] s t ∧ (.read ∈ s.loop.active → Waiting t r)) ∨
        ∃ data, t.delivered = s.delivered ++ [data] ∧ Flow (some (r, data)) [] s t) := by
  obtain ⟨hflushes, hsent, hstream⟩ := flushes_stepAlive hfed halive hs he h
  rw [← List.append_nil (s.history.sent ++ s.unsent)] at hstream
  refine ⟨hflushes, ?_⟩
  have hside : t.inputSide = s.inputSide → t.delivered = s.delivered ∧ Flow none [] s t ∧
      (.read ∈ s.loop.active → Waiting t r) := fun hin =>
    ⟨congrArg InputSide.delivered hin, ⟨hsent, hstream, [], by
      rw [List.append_nil]
      exact congrArg InputSide.received hin, by rw [unread_of_side hin, List.append_nil]⟩,
      fun hact => (hwaits hact).of_side hin⟩
  rcases e.aside_or with haside | ⟨replies, rfl⟩ | ⟨replies, rfl⟩ | ⟨handler, size, rfl⟩
  · exact Or.inl (hside (frame_stepAlive (Or.inl rfl) haside h).side)
  · obtain ⟨hpen, rfl⟩ := invoke_eq_some h
    have hw := hwaits (hfed.fed .read (by decide) hpen)
    have hbefore : ((resetWatcherState .write { s with loop := s.loop.take .read }).touch).inputSide = s.inputSide :=
      (frame_resetWatcherState (v := .read) .write _).side
    unfold readCb at hsent hstream ⊢
    generalize (resetWatcherState .write { s with loop := s.loop.take .read }).touch = s' at hbefore hsent hstream ⊢
    have hreads := reads_readData replies (hw.of_side hbefore)
    have hrec : s'.history.received = s.history.received := congrArg InputSide.received hbefore
    have hdel : s'.delivered = s.delivered := congrArg InputSide.delivered hbefore
    have hun := unread_of_side hbefore
    rcases hdata : readData replies s' with ⟨u, _ | data⟩
    · rw [hdata] at hreads
      simp only [hdata] at hsent hstream ⊢
      obtain ⟨bytes, hbytes, hunread, hwaiting, -⟩ := hreads.received
      refine Or.inl ⟨hreads.same.delivered.trans hdel, ⟨hsent, hstream, bytes, ?_, ?_⟩, fun _ => hwaiting⟩
      · rw [← hrec]
        exact hbytes
      · rw [← hun]
        exact hunread
    · rw [hdata] at hreads
      obtain ⟨bytes, hbytes, hanswer, -, -⟩ := hreads.received
      have hgiven : ∃ handler, u.readHandler = some handler := by
        rw [← Option.isSome_iff_exists, hreads.same.waits]
        cases r with
        | line => exact (hw.of_side hbefore).2.2
        | bytes size => exact (hw.of_side hbefore).2.2.2.2.2.2
      obtain ⟨handler, hhandler⟩ := hgiven
      simp only [hdata] at hsent hstream ⊢
      rw [deliver_some hhandler] at hsent hstream ⊢
      refine Or.inr ⟨data, ?_, hsent, hstream, bytes, ?_, ?_⟩
      · rw [← hdel, ← hreads.same.delivered]
        simp [State.delivered, State.call, State.stopRead, Upcall.data?]
      · rw [← hrec]
        exact hbytes
      · rw [← hun]
        exact hanswer
  · obtain ⟨-, rfl⟩ := invoke_eq_some h
    exact Or.inl (hside (frame_writeCb replies s).side)
  · exact he.elim

/-! ### Calls of a handler -/

theorem writes_armWrite {data : Bytes} {s u : State η} (h : Writes data s u) :
    Writes data s (if .write ∈ u.loop.active then u else u.arm .write .write) := by
  split
  · exact h
  · exact ⟨h.sent, h.unsent, h.received, h.unread, h.buffer⟩

theorem writes_writeBuffered (data : Bytes) (s : State η) : Writes data s (writeBuffered data s) :=
  writes_armWrite (u := { s with outputBuffer := s.outputBuffer ++ data })
    ⟨rfl, by simp [State.unsent], rfl, rfl, rfl⟩

theorem writes_tlsWrite {s : State η} (hs : Queue s) (data : Bytes) (freeData : Bool) :
    Writes data s (tlsWrite data freeData s) := by
  unfold tlsWrite
  split
  · rename_i hfree
    obtain ⟨hout, hlen, -⟩ := hfree
    have hbuf : s.outputBuffer = [] := List.length_eq_zero_iff.mp hlen
    have hun : State.unsent { s with output := some data, outputSize := data.length } = s.unsent ++ data := by
      rw [unsent_noBlock hout]
      simp [State.unsent, hs.offset hout, hbuf]
    exact writes_armWrite (u := { s with output := some data, outputSize := data.length }) ⟨rfl, hun, rfl, rfl, rfl⟩
  · exact writes_writeBuffered data s

theorem writes_tlsWriteLine (string : Bytes) (s : State η) :
    Writes (string ++ lineTerminator) s (tlsWriteLine string s) :=
  (writes_writeBuffered string s).trans (writes_writeBuffered lineTerminator _)

theorem writes_tlsRead (handler : η) (size : ℕ) (s : State η) : Writes [] s (tlsRead handler size s) := by
  unfold tlsRead
  split
  · exact writes_nil rfl rfl rfl rfl
  · exact writes_nil rfl rfl rfl rfl

theorem writes_tlsShutdown (s : State η) : Writes [] s (tlsShutdown s) := by
  have hside := (frame_tlsShutdown (v := .read) (by decide) s).side
  exact writes_nil (outputSide_tlsShutdown s) (congrArg InputSide.received hside) (unread_of_side hside)
    (congrArg InputSide.inputBuffer hside)

theorem writes_tlsOnTimeout (handler : Option η) (s : State η) : Writes [] s (tlsOnTimeout handler s) := by
  have hside := (frame_tlsOnTimeout (v := .read) (by decide) handler s).side
  exact writes_nil (beside_tlsOnTimeout handler s).side (congrArg InputSide.received hside) (unread_of_side hside)
    (congrArg InputSide.inputBuffer hside)

theorem Enqueues.flushes {data : Bytes} {s t : State η} (h : Enqueues data s t) (hne : data ≠ []) : Flushes t :=
  ⟨h.queue, fun _ hnil => hne (List.append_eq_nil_iff.mp (h.unsent.symm.trans hnil)).2⟩

theorem flushes_tlsWriteLine {s : State η} (hs : Flushes s) {string : Bytes}
    (hroom : (s.unsent ++ (string ++ lineTerminator)).length < 2 ^ 31) : Flushes (tlsWriteLine string s) :=
  (enqueues_tlsWriteLine hs.queue hroom).flushes fun hnil => absurd (List.append_eq_nil_iff.mp hnil).2 (by decide)

theorem flushes_tlsWrite {s : State η} (hs : Flushes s) {data : Bytes} (hne : data ≠ []) (freeData : Bool)
    (hroom : (s.unsent ++ data).length < 2 ^ 31) : Flushes (tlsWrite data freeData s) :=
  (enqueues_tlsWrite hs.queue hne freeData hroom).flushes hne

theorem flushes_tlsRead {s : State η} (hs : Flushes s) (handler : η) (size : ℕ) : Flushes (tlsRead handler size s) := by
  unfold tlsRead
  split
  · exact flushes_of_side hs rfl id
  · exact flushes_of_side hs rfl fun h => by simpa [State.arm, State.ask] using h

theorem flushes_tlsShutdown {s : State η} (hs : Flushes s) : Flushes (tlsShutdown s) :=
  flushes_of_side hs (outputSide_tlsShutdown s) fun h => by
    simpa using (mem_tlsShutdown_active s .write).mp h

/-! ### The start -/

/-- Nothing has been written or received yet. -/
structure Unused (s : State η) : Prop where
  flushes : Flushes s
  sent : s.history.sent = []
  unsent : s.unsent = []
  received : s.history.received = []
  unread : s.unread = []

theorem Started.unused {s : State η} (h : Started s) : Unused s := by
  obtain ⟨hqueue, hsent, hunsent⟩ := inQueue_start h
  have hinput : ∃ (connectHandler : η) (timeout now : ℚ), Frame .read (tlsNew connectHandler timeout now) s := by
    cases h with
    | accept hasAddress hasSsl connectHandler timeout now =>
      refine ⟨connectHandler, timeout, now, ?_⟩
      have htimeout : Frame .read _ _ := frame_tlsOnTimeout (by decide) none (tlsNew connectHandler timeout now)
      unfold acceptTcp
      dsimp only
      split
      · split
        · exact htimeout.trans (frame_arm (by decide) _ .read)
        · exact htimeout.trans (frame_tlsFree _)
      · exact frame_tlsFree _
    | connect hasSocket reply connectHandler timeoutHandler timeout now =>
      refine ⟨connectHandler, timeout, now, ?_⟩
      have htimeout : Frame .read _ _ :=
        frame_tlsOnTimeout (by decide) timeoutHandler (tlsNew connectHandler timeout now)
      unfold tlsConnect
      dsimp only
      refine htimeout.trans ((frame_touch _).trans ?_)
      split
      · split
        · exact (frame_arm (by decide) _ .write).trans (frame_checkTlsError (by decide) _ _)
        · exact frame_call rfl _
      · exact frame_same rfl Iff.rfl Iff.rfl
  obtain ⟨connectHandler, timeout, now, hframe⟩ := hinput
  exact ⟨⟨hqueue.queue, fun hw => absurd hw h.unwritten.stopped⟩, hsent, hunsent,
    congrArg InputSide.received hframe.side, unread_of_side hframe.side⟩

end Tls
end NscaNg
