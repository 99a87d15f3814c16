/-
# What a step of a connection comes to

For the user of a connection, a step of the event loop comes to one of a few things (`Outcome`): a
handler is called, the connection is freed, or nothing is to be seen of it. What has been asked for
goes on being expected (`Expects`) until there is something for the read handler.
-/
import NscaNg.Common.TlsInput
import NscaNg.Common.TlsRelease

namespace NscaNg
namespace Tls

open Posix Libev

variable {η : Type}

/-! ### What is expected -/

/-- A request is being worked on, whatever the buffer holds. -/
def Expects (s : State η) : Request → Prop
  | .line => s.readMode = .readLine ∧ s.inputOffset = 0 ∧ s.readHandler.isSome
  | .bytes size =>
    s.readMode = .readBytes ∧ s.inputSize = size ∧ size < 2 ^ 31 ∧ (s.input.getD []).length = s.inputOffset ∧
      s.inputOffset < size ∧ s.readHandler.isSome

/-- Nothing has been read for a request. -/
structure Blank (s : State η) : Prop where
  input : s.input = none
  offset : s.inputOffset = 0

/-- What the handler is given for a request: for one of bytes, a block of this size with a NUL behind it. -/
def Fits (data : Bytes) : Request → Prop
  | .line => True
  | .bytes size => ∃ block, data = block ++ [0] ∧ block.length = size

theorem Expects.waits {s : State η} {r : Request} (h : Expects s r) : s.readHandler.isSome := by
  cases r with
  | line => exact h.2.2
  | bytes size => exact h.2.2.2.2.2

theorem Expects.of_side {s t : State η} {r : Request} (h : t.inputSide = s.inputSide) (hs : Expects s r) :
    Expects t r := by
  simp only [State.inputSide, InputSide.mk.injEq] at h
  obtain ⟨-, hin, hsize, hoff, hmode, hwaits, -⟩ := h
  cases r with
  | line => exact ⟨hmode.trans hs.1, hoff.trans hs.2.1, hwaits.trans hs.2.2⟩
  | bytes size =>
    obtain ⟨h1, h2, h3, h4, h5, h6⟩ := hs
    refine ⟨hmode.trans h1, hsize.trans h2, h3, ?_, hoff ▸ h5, hwaits.trans h6⟩
    rw [hin, hoff, h4]

theorem Blank.of_side {s t : State η} (h : t.inputSide = s.inputSide) (hs : Blank s) : Blank t := by
  simp only [State.inputSide, InputSide.mk.injEq] at h
  exact ⟨h.2.1.trans hs.input, h.2.2.2.1.trans hs.offset⟩

theorem expects_ask {s : State η} (hs : Blank s) (handler : η) {size : ℕ} (hsize : size < 2 ^ 31) :
    Expects (s.ask handler size) (Request.ofSize size) := by
  unfold Request.ofSize
  by_cases hzero : size = 0
  · rw [if_pos hzero]
    exact ⟨if_pos hzero, hs.offset, rfl⟩
  · rw [if_neg hzero]
    refine ⟨if_neg hzero, if_neg hzero, hsize, ?_, ?_, rfl⟩
    · change (s.input.getD []).length = s.inputOffset
      rw [hs.input, hs.offset]
      rfl
    · change s.inputOffset < size
      rw [hs.offset]
      omega

/-- How reading for a request goes on: there is something for the handler, or it is still expected. -/
def Progresses (s : State η) (r : Request) : State η × Option Bytes → Prop
  | (t, some data) => t.delivered = s.delivered ∧ t.readHandler.isSome ∧ Blank t ∧ Fits data r
  | (t, none) => t.delivered = s.delivered ∧ Expects t r

theorem progresses_none {s t : State η} {r : Request} (h : t.inputSide = s.inputSide) (hs : Expects s r) :
    Progresses s r (t, none) :=
  ⟨congrArg InputSide.delivered h, hs.of_side h⟩

theorem Progresses.after {s u : State η} {r : Request} {result : State η × Option Bytes}
    (h : u.delivered = s.delivered) (h' : Progresses u r result) : Progresses s r result := by
  match result with
  | (t, some data) => exact ⟨h'.1.trans h, h'.2⟩
  | (t, none) => exact ⟨h'.1.trans h, h'.2⟩

theorem progresses_readLineLoop (replies : List SslRead) {s : State η} (hs : Expects s .line) :
    Progresses s .line (readLineLoop replies s) := by
  fun_induction readLineLoop replies s with
  | case1 replies s line rest hline => exact ⟨rfl, hs.2.2, ⟨rfl, hs.2.1⟩, trivial⟩
  | case2 replies s hline hlong => exact progresses_none (frame_lineTooLong (v := .read) s).side hs
  | case3 s hline hlong => exact progresses_none (inputSide_checkTlsError .read _ s) hs
  | case4 s hline hlong reply replies e he => exact progresses_none (inputSide_checkTlsError .read e s) hs
  | case5 s hline hlong reply replies bytes hbytes ih =>
    have hsame : (s.receiveLine bytes).delivered = s.delivered := rfl
    exact (ih hs).after hsame

theorem toInt_missing {s : State η} {size : ℕ} (hs : Expects s (.bytes size)) :
    toInt (s.inputSize - s.inputOffset) = ((size - s.inputOffset : ℕ) : ℤ) := by
  obtain ⟨-, hsize, hmax, -, hoff, -⟩ := hs
  unfold toInt
  rw [hsize, Int.bmod_def]
  split <;> omega

theorem progresses_readBytesLoop (replies : List SslRead) {s : State η} {size : ℕ} (hs : Expects s (.bytes size)) :
    Progresses s (.bytes size) (readBytesLoop replies s) := by
  -- the block grows by what `SSL_read()` gives, and is complete when that is all that was missing
  fun_induction readBytesLoop replies s with
  | case1 s => exact progresses_none (inputSide_checkTlsError .read _ s) hs
  | case2 s reply replies e he => exact progresses_none (inputSide_checkTlsError .read e s) hs
  | case3 s reply replies bytes hbytes hlt ih =>
    rw [toInt_missing hs] at hlt
    obtain ⟨h1, h2, h3, h4, h5, h6⟩ := hs
    have hlen : (((s.input.getD []).take s.inputOffset ++ bytes)).length = s.inputOffset + bytes.length := by
      rw [List.length_append, List.length_take, h4, Nat.min_self]
    have hsame : (s.receiveBytes bytes).delivered = s.delivered := rfl
    exact (ih ⟨h1, h2, h3, hlen, by change s.inputOffset + bytes.length < size; omega, h6⟩).after hsame
  | case4 s reply replies bytes hbytes hge =>
    rw [toInt_missing hs] at hge hbytes
    obtain ⟨h1, h2, h3, h4, h5, h6⟩ := hs
    have hle := (sslRead_ok hbytes).2
    refine ⟨rfl, h6, ⟨rfl, rfl⟩, (s.input.getD []).take s.inputOffset ++ bytes, rfl, ?_⟩
    rw [List.length_append, List.length_take, h4, Nat.min_self]
    omega

theorem progresses_readData (replies : List SslRead) {s : State η} {r : Request} (hs : Expects s r) :
    Progresses s r (readData replies s) := by
  have hsame : State.delivered { s with input := some (s.input.getD []) } = s.delivered := rfl
  cases r with
  | line =>
    rw [readData_of_line hs.1]
    have hs' : Expects { s with input := some (s.input.getD []) } .line := hs
    exact (progresses_readLineLoop replies hs').after hsame
  | bytes size =>
    rw [readData_of_bytes hs.1]
    have hs' : Expects { s with input := some (s.input.getD []) } (.bytes size) := hs
    exact (progresses_readBytesLoop replies hs').after hsame

theorem deliver_some {s : State η} {handler : η} (h : s.readHandler = some handler) (data : Bytes) :
    deliver data s = s.stopRead.call (.read handler data) := by
  simp only [deliver, State.stopRead, h]

/-- `read_cb()` gives its data to the handler, or it is still expected. -/
theorem progresses_readCb (replies : List SslRead) {s : State η} {r : Request} (hs : Expects s r) :
    (∃ data, Fits data r ∧ Blank (readCb replies s) ∧ (readCb replies s).delivered = s.delivered ++ [data]) ∨
      (Expects (readCb replies s) r ∧ (readCb replies s).delivered = s.delivered) := by
  have hframe : Frame .read s (resetWatcherState .write s).touch :=
    (frame_resetWatcherState .write s).trans (frame_touch _)
  have hdel : (resetWatcherState .write s).touch.delivered = s.delivered :=
    congrArg InputSide.delivered hframe.side
  have hprog := (progresses_readData replies (hs.of_side hframe.side)).after hdel
  unfold readCb
  generalize readData replies (resetWatcherState .write s).touch = result at hprog
  match result with
  | (t, none) => exact Or.inr ⟨hprog.2, hprog.1⟩
  | (t, some data) =>
    obtain ⟨hsame, hwaits, hblank, hfits⟩ := hprog
    obtain ⟨handler, hhandler⟩ := Option.isSome_iff_exists.mp hwaits
    have hdeliver := deliver_some hhandler data
    refine Or.inl ⟨data, hfits, ?_, ?_⟩
    · dsimp only
      rw [hdeliver]
      exact ⟨hblank.input, hblank.offset⟩
    · dsimp only
      rw [hdeliver, ← hsame]
      simp [State.delivered, State.call, State.stopRead, Upcall.data?]

/-! ### What a step comes to -/

/-- These handlers are called, and the user of the connection sees nothing else. No watcher is started
but the shutdown watcher. -/
structure Calls (called : List (Upcall η)) (s t : State η) : Prop where
  user : t.userSide = { s.userSide with upcalls := s.history.upcalls ++ called }
  off : ∀ w, w ≠ .timeout → w ∈ t.loop.active → w ∈ s.loop.active ∨ Starts s w

/-- The connection is freed, perhaps after a call. -/
structure Freed (called : List (Upcall η)) (s t : State η) : Prop where
  user : t.userSide = { s.userSide with
    freed := true
    died := s.died || s.freed
    upcalls := s.history.upcalls ++ called }
  inactive : t.loop.active = ∅

/-- What a step comes to. -/
inductive Outcome (s t : State η) : Prop
  | quiet : Calls [] s t → (s.readHandler.isSome → .read ∈ s.loop.active → .read ∈ t.loop.active) →
      (∀ r, Expects s r → Expects t r) → (.read ∉ s.loop.active → t.inputSide = s.inputSide) → Outcome s t
  | freed : Freed [] s t → (Unattended s ∨ s.lineTooLongHandler = none ∨ s.timeoutHandler = none) → Outcome s t
  | error {handler : η} : s.errorHandler = some handler → Freed [.error handler] s t → Outcome s t
  | read {handler : η} (data : Bytes) : s.readHandler = some handler → .read ∈ s.loop.active →
      Calls [.read handler data] s t → .read ∉ t.loop.active → (∀ r, Expects s r → Fits data r ∧ Blank t) →
      Outcome s t
  | lineTooLong {handler : η} : s.lineTooLongHandler = some handler → .read ∈ s.loop.active →
      Calls [.lineTooLong handler] s t → .read ∉ t.loop.active → Outcome s t
  | connect : .init ∈ s.loop.active → Calls [.connect s.connectHandler] s t → .init ∉ t.loop.active →
      (.read ∉ s.loop.active → t.inputSide = s.inputSide) → Outcome s t
  | timeout {handler : η} : s.timeoutHandler = some handler → Calls [.timeout handler] s t →
      (∀ w, w ≠ .timeout → w ∉ t.loop.active) → Outcome s t

theorem Keeps.calls {s u : State η} (h : Keeps s u) : Calls [] s u where
  user := by rw [h.user, List.append_nil]; rfl
  off w _ hact := by
    by_cases hstarts : Starts s w
    · exact Or.inr hstarts
    · exact Or.inl (h.active hstarts hact)

theorem Calls.upcalls {called : List (Upcall η)} {s u : State η} (h : Calls called s u) :
    u.history.upcalls = s.history.upcalls ++ called := congrArg UserSide.upcalls h.user

theorem Calls.delivered {called : List (Upcall η)} {s u : State η} (h : Calls called s u) :
    u.delivered = s.delivered ++ called.filterMap Upcall.data? := by
  unfold State.delivered
  rw [h.upcalls, List.filterMap_append]

theorem Calls.stopRead {called : List (Upcall η)} {s u : State η} (h : Calls called s u) :
    Calls called s u.stopRead :=
  ⟨h.user, fun w hw hact => h.off w hw (Finset.mem_of_mem_erase hact)⟩

theorem Calls.call {s u : State η} (h : Calls [] s u) (x : Upcall η) : Calls [x] s (u.call x) where
  user := by
    have hcall : (u.call x).userSide = { u.userSide with upcalls := u.history.upcalls ++ [x] } := rfl
    rw [hcall, h.user, h.upcalls, List.append_nil]
  off := h.off

theorem userSide_stopActive (s : State η) (w : Watcher) : (s.stopActive w).userSide = s.userSide := by
  unfold State.stopActive
  split <;> rfl

theorem userSide_stopIo (s : State η) : s.stopIo.userSide = s.userSide := by
  simp only [State.stopIo, userSide_stopActive]

theorem userSide_tlsFree (s : State η) :
    (tlsFree s).userSide = { s.userSide with freed := true, died := s.died || s.freed } := by
  have hstop := (userSide_stopActive s.stopIo .timeout).trans (userSide_stopIo s)
  unfold tlsFree
  generalize s.stopIo.stopActive .timeout = u at hstop
  have hdied : u.died = s.died := congrArg UserSide.died hstop
  have hfreed : u.freed = s.freed := congrArg UserSide.freed hstop
  rw [← hstop, ← hdied, ← hfreed]
  rfl

theorem Calls.free {called : List (Upcall η)} {s u : State η} (h : Calls called s u) : Freed called s (tlsFree u) where
  user := by
    have hdied : u.died = s.died := congrArg UserSide.died h.user
    have hfreed : u.freed = s.freed := congrArg UserSide.freed h.user
    rw [userSide_tlsFree, h.user, hdied, hfreed]
  inactive := tlsFree_active u

/-- A connection that was not freed before is freed once. -/
theorem Freed.runs {called : List (Upcall η)} {s t : State η} (h : Freed called s t) (hs : s.freed = false) :
    t.died = s.died := by
  have hdied : t.died = (s.died || s.freed) := congrArg UserSide.died h.user
  rw [hdied, hs, Bool.or_false]

/-- What becomes of the input in a callback. -/
structure Goes (s t : State η) : Prop where
  expected : ∀ r, Expects s r →
    (∃ data, Fits data r ∧ Blank t ∧ t.delivered = s.delivered ++ [data]) ∨
      (Expects t r ∧ t.delivered = s.delivered)
  rest : .read ∉ s.loop.active → t.inputSide = s.inputSide

theorem goes_same {s t : State η} (h : t.inputSide = s.inputSide) : Goes s t where
  expected _ hr := Or.inr ⟨hr.of_side h, congrArg InputSide.delivered h⟩
  rest _ := h

theorem Ends.outcome {s t : State η} (h : Ends s t) (hgoes : Goes s t) : Outcome s t := by
  cases h with
  | quiet hk =>
    refine .quiet hk.calls (fun _ => hk.io.reading) (fun r hr => ?_) hgoes.rest
    rcases hgoes.expected r hr with ⟨data, -, -, hdel⟩ | ⟨hexp, -⟩
    · rw [hk.calls.delivered] at hdel
      simp at hdel
    · exact hexp
  | unheard hk hh =>
    refine .quiet hk.calls.stopRead (fun hc => ?_) (fun r hr => ?_) hgoes.rest
    · rw [hh] at hc
      cases hc
    · have hwaits := hr.waits
      rw [hh] at hwaits
      cases hwaits
  | freed hk hwhy => exact .freed hk.calls.free (Or.inl hwhy)
  | error hk hh => exact .error hh (hk.calls.call _).free
  | @read u handler data hact hk hh =>
    have hcalls := hk.calls.stopRead.call (.read handler data)
    refine .read data hh hact hcalls (Finset.notMem_erase _ _) fun r hr => ?_
    rcases hgoes.expected r hr with ⟨data', hfits, hblank, hdel⟩ | ⟨-, hdel⟩
    · have hsame : data = data' := by
        rw [hcalls.delivered] at hdel
        simpa [Upcall.data?] using hdel
      exact ⟨hsame ▸ hfits, hblank⟩
    · rw [hcalls.delivered] at hdel
      simp [Upcall.data?] at hdel
  | lineTooLong hact hk hh =>
    exact .lineTooLong hh hact (hk.calls.stopRead.call _) (Finset.notMem_erase _ _)
  | refused hact hk hh => exact .freed hk.calls.stopRead.free (Or.inr (Or.inl hh))
  | connect hact hk hoff => exact .connect hact (hk.calls.call _) hoff hgoes.rest

theorem outcome_same {s t : State η} (huser : t.userSide = s.userSide) (hin : t.inputSide = s.inputSide)
    (hact : ∀ w, w ≠ .timeout → (w ∈ t.loop.active ↔ w ∈ s.loop.active)) : Outcome s t :=
  .quiet ⟨by rw [huser, List.append_nil]; rfl, fun w hw ht => Or.inl ((hact w hw).mp ht)⟩
    (fun _ => (hact .read (by decide)).mpr) (fun _ hr => hr.of_side hin) fun _ => hin

theorem outcome_timeoutCb {s u : State η} (huser : u.userSide = s.userSide) (hin : u.inputSide = s.inputSide)
    (hact : u.loop.active = s.loop.active) : Outcome s (timeoutCb u) := by
  have hstop := (userSide_stopIo u).trans huser
  have hoff := mem_stopIo_active u
  unfold timeoutCb
  generalize u.lastActivity + u.timeout - u.loop.now = diff
  dsimp only
  split
  · refine outcome_same huser hin fun w hw => ?_
    simp [resumeTimeout, hw, hact]
  · generalize u.stopIo = v at hstop hoff
    have hresume : (resumeTimeout v.timeout v).userSide = s.userSide := hstop
    have hinactive : ∀ w, w ≠ .timeout → w ∉ (resumeTimeout v.timeout v).loop.active := by
      intro w hw
      simp [resumeTimeout, hw, hoff]
    generalize resumeTimeout v.timeout v = x at hresume hinactive
    have hcalls : Calls [] s x :=
      ⟨by rw [hresume, List.append_nil]; rfl, fun w hw hx => absurd hx (hinactive w hw)⟩
    have hhandler : x.timeoutHandler = s.timeoutHandler := congrArg UserSide.timeoutHandler hresume
    split
    · rename_i handler hh
      exact .timeout (hhandler ▸ hh) (hcalls.call _) hinactive
    · rename_i hh
      exact .freed hcalls.free (Or.inr (Or.inr (hhandler ▸ hh)))

theorem upcalls_timeoutCb (s : State η) : (timeoutCb s).history.upcalls = s.history.upcalls ∨
    ∃ handler, (timeoutCb s).history.upcalls = s.history.upcalls ++ [.timeout handler] := by
  have hstop := history_stopIo s
  unfold timeoutCb
  generalize s.lastActivity + s.timeout - s.loop.now = diff
  dsimp only
  split
  · exact Or.inl rfl
  · generalize s.stopIo = u at hstop
    have hresume : (resumeTimeout u.timeout u).history = s.history := hstop
    generalize resumeTimeout u.timeout u = v at hresume
    split
    · rename_i handler _
      exact Or.inr ⟨handler, by simp [State.call, hresume]⟩
    · exact Or.inl (by rw [history_tlsFree, hresume])

/-- What comes from the event loop, and not from a handler. -/
def Event.FromLoop : Event η → Prop
  | .advance _ | .ready _ | .expire | .acceptSslCb _ | .readCb _ | .writeCb _ | .shutdownCb _ | .timeoutCb => True
  | _ => False

/-- **Steps of the event loop.** -/
theorem outcome_stepAlive {s t : State η} {e : Event η} (hs : IoFed s) (he : e.FromLoop)
    (h : stepAlive s e = some t) : Outcome s t := by
  cases e with
  | advance time =>
    cases h
    exact outcome_same rfl rfl fun w _ => Iff.rfl
  | ready w =>
    simp only [stepAlive] at h
    split at h <;> cases h
    exact outcome_same rfl rfl fun w _ => Iff.rfl
  | expire =>
    simp only [stepAlive] at h
    split at h <;> cases h
    exact outcome_same rfl rfl fun w hw => by simp [hw]
  | acceptSslCb reply =>
    have haside : (Event.acceptSslCb reply : Event η).Aside := trivial
    have hends := (ends_callback hs rfl h).2.2
    exact hends.outcome (goes_same (frame_stepAlive (v := .read) (Or.inl rfl) haside h).side)
  | readCb replies =>
    obtain ⟨-, hact, hends⟩ := ends_callback hs rfl h
    refine hends.outcome ⟨fun r hr => ?_, fun hc => absurd hact hc⟩
    obtain ⟨-, rfl⟩ := invoke_eq_some h
    have hr' : Expects { s with loop := s.loop.take .read } r := hr.of_side rfl
    exact progresses_readCb replies hr'
  | writeCb replies =>
    have hends := (ends_callback hs rfl h).2.2
    obtain ⟨-, rfl⟩ := invoke_eq_some h
    exact hends.outcome (goes_same (frame_writeCb replies s).side)
  | shutdownCb replies =>
    have haside : (Event.shutdownCb replies : Event η).Aside := trivial
    have hends := (ends_callback hs rfl h).2.2
    exact hends.outcome (goes_same (frame_stepAlive (v := .read) (Or.inl rfl) haside h).side)
  | timeoutCb =>
    obtain ⟨-, rfl⟩ := invoke_eq_some h
    exact outcome_timeoutCb rfl rfl rfl
  | _ => exact he.elim

/-! ### What the calls of a handler do -/

/-- Nothing but the output and the write watcher has changed. -/
structure Alike (s t : State η) : Prop where
  user : t.userSide = s.userSide
  input : t.inputSide = s.inputSide
  active : ∀ w, w ≠ .write → (w ∈ t.loop.active ↔ w ∈ s.loop.active)

theorem Alike.refl (s : State η) : Alike s s := ⟨rfl, rfl, fun _ _ => Iff.rfl⟩

theorem Alike.trans {s t u : State η} (h : Alike s t) (h' : Alike t u) : Alike s u :=
  ⟨h'.user.trans h.user, h'.input.trans h.input, fun w hw => (h'.active w hw).trans (h.active w hw)⟩

theorem alike_writeBuffered (data : Bytes) (s : State η) : Alike s (writeBuffered data s) := by
  refine ⟨?_, (frame_writeBuffered (v := .read) data s).side, fun w hw => ?_⟩
  · unfold writeBuffered
    dsimp only
    split <;> rfl
  · unfold writeBuffered
    dsimp only
    split
    · rfl
    · simp [State.arm, hw]

theorem alike_tlsWriteLine (string : Bytes) (s : State η) : Alike s (tlsWriteLine string s) :=
  (alike_writeBuffered string s).trans (alike_writeBuffered lineTerminator _)

theorem alike_tlsWrite (data : Bytes) (freeData : Bool) (s : State η) : Alike s (tlsWrite data freeData s) := by
  unfold tlsWrite
  split
  · refine ⟨?_, ?_, fun w hw => ?_⟩
    · dsimp only
      split <;> rfl
    · dsimp only
      split <;> rfl
    · dsimp only
      split
      · rfl
      · simp [State.arm, hw]
  · exact alike_writeBuffered data s

theorem tlsWrite_buffered (data : Bytes) (s : State η) : tlsWrite data false s = writeBuffered data s := by
  unfold tlsWrite
  rw [if_neg (by simp)]

theorem userSide_tlsShutdown (s : State η) : (tlsShutdown s).userSide =
    { s.userSide with errorHandler := none, timeoutHandler := none, shutdownOnDrain := true } := by
  unfold tlsShutdown tlsOnDrain
  dsimp only
  split <;> rfl

theorem userSide_tlsOnTimeout (handler : Option η) (s : State η) :
    (tlsOnTimeout handler s).userSide = { s.userSide with timeoutHandler := handler } := by
  have hstop := userSide_stopActive s .timeout
  unfold tlsOnTimeout
  generalize s.stopActive .timeout = u at hstop
  rw [← hstop]
  dsimp only
  split <;> rfl

theorem mem_tlsOnTimeout_active (handler : Option η) (s : State η) {w : Watcher} (hw : w ≠ .timeout) :
    w ∈ (tlsOnTimeout handler s).loop.active ↔ w ∈ s.loop.active := by
  have hstop : w ∈ (s.stopActive .timeout).loop.active ↔ w ∈ s.loop.active := by
    simp [stopActive_active, hw]
  unfold tlsOnTimeout
  generalize s.stopActive .timeout = u at hstop
  dsimp only
  split
  · simpa [State.touch, resumeTimeout, hw] using hstop
  · exact hstop

end Tls
end NscaNg
