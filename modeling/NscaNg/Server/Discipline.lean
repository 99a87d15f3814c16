/-
# The discipline of a session

A request line, or the data of a PUSH request, is answered with one line, unless it is a BAIL request. Then
the server reads the next request, or it shuts the connection down; only after a NOOP request it does
neither, and waits for the timeout (`disciplined_iff`).
-/
import NscaNg.Common.TlsStreams
import NscaNg.Server.SessionLog

namespace NscaNg
namespace Server

open Posix Libev

variable {ρ : Type} {cfg : Config ρ}

/-! ### What is queued for the client -/

/-- What is queued for the client. -/
def output : Action → Bytes
  | .sendResponse string | .tlsWriteLine string => string ++ Tls.lineTerminator
  | .tlsWrite data => data
  | _ => []

def queued (actions : List Action) : Bytes := actions.flatMap output

namespace Entry

/-- A request line or a data block of the client. -/
def IsRequest (p : Entry) : Prop :=
  match p.upcall with
  | .read (.read _) _ => True
  | _ => False

/-- A BAIL request. -/
def Bails (p : Entry) : Prop :=
  match p.upcall with
  | .read (.read .handshake) line | .read (.read .connection) line => HasKeyword "BAIL" (cstr line)
  | _ => False

/-- A NOOP request that `handle_connection()` is given. -/
def Noop (p : Entry) : Prop :=
  match p.upcall with
  | .read (.read .connection) line => HasKeyword "NOOP" (cstr line)
  | _ => False

end Entry

/-- A request has been answered in this step, and there is something to follow. -/
structure Disciplined (s t : Session) (p : Entry) : Prop where
  silent : p.Bails → queued p.actions = []
  response : ¬ p.Bails → ∃ response, ch '\n' ∉ response ∧ queued p.actions = response ++ Tls.lineTerminator
  unsent : t.tls.unsent = s.tls.unsent ++ queued p.actions
  next : (∃ k n, requests p.actions = [(k, n)] ∧ Awaits t k n) ∨
    (.tlsShutdown ∈ p.actions ∧ t.tls.shutdownOnDrain = true)

/-- What a handler does with a request. -/
structure Replies (bails noop : Prop) (actions : List Action) : Prop where
  silent : bails → queued actions = []
  response : ¬ bails → ∃ response, ch '\n' ∉ response ∧ queued actions = response ++ Tls.lineTerminator
  stalls : requests actions = [] ∧ .tlsShutdown ∉ actions ↔ noop

theorem replies_goesOn (response : Bytes) (hresponse : ch '\n' ∉ response) {bails noop : Prop} (hbails : ¬ bails)
    (hnoop : ¬ noop) {actions : List Action} (hqueued : queued actions = response ++ Tls.lineTerminator)
    (hreq : requests actions ≠ []) : Replies bails noop actions :=
  ⟨fun h => absurd h hbails, fun _ => ⟨response, hresponse, hqueued⟩, fun h => absurd h.1 hreq,
    fun h => absurd h hnoop⟩

theorem replies_clientExited {line : Bytes} {actions : List Action} (h : clientExited line = some actions) :
    Replies (HasKeyword "BAIL" line) False actions := by
  unfold clientExited at h
  by_cases hquit : HasKeyword "QUIT" line
  · have hbail : ¬ HasKeyword "BAIL" line := hquit.excludes (by decide) (by decide) (by decide)
    rw [if_pos hquit] at h
    cases h
    exact ⟨fun h => absurd h hbail, fun _ => ⟨ascii "OKAY", by decide, rfl⟩, fun h => h.2 (by simp), False.elim⟩
  · rw [if_neg hquit] at h
    by_cases hbail : HasKeyword "BAIL" line
    · rw [if_pos hbail] at h
      cases h
      exact ⟨fun _ => rfl, fun h => absurd hbail h, fun h => h.2 (by simp), False.elim⟩
    · rw [if_neg hbail] at h
      cases h

theorem not_bail_of_none {line : Bytes} (h : clientExited line = none) : ¬ HasKeyword "BAIL" line := by
  intro hbail
  unfold clientExited at h
  rw [if_pos hbail] at h
  split at h <;> cases h

theorem replies_handshake (line : Bytes) : Replies (HasKeyword "BAIL" line) False (handleHandshake line) := by
  unfold handleHandshake
  by_cases hmoin : HasKeyword "MOIN" line
  · have hbail : ¬ HasKeyword "BAIL" line := hmoin.excludes (by decide) (by decide) (by decide)
    rw [if_pos hmoin]
    cases hparse : parseLine line 3 with
    | none =>
      exact replies_goesOn (ascii "FAIL Cannot parse MOIN request") (by decide) hbail id rfl (List.cons_ne_nil _ _)
    | some args =>
      dsimp only
      by_cases hversion : atoi (args.getD 1 []) ≤ 0
      · rw [if_pos hversion]
        exact replies_goesOn (ascii "FAIL Expected protocol version") (by decide) hbail id rfl (List.cons_ne_nil _ _)
      · rw [if_neg hversion]
        exact replies_goesOn (ascii "MOIN 1") (by decide) hbail id rfl (List.cons_ne_nil _ _)
  · rw [if_neg hmoin]
    by_cases hping : HasKeyword "PING" line
    · have hbail : ¬ HasKeyword "BAIL" line := hping.excludes (by decide) (by decide) (by decide)
      rw [if_pos hping]
      exact ⟨fun h => absurd h hbail, fun _ => ⟨ascii "PONG 1", by decide, rfl⟩, fun h => h.2 (by simp), False.elim⟩
    · rw [if_neg hping]
      cases hexit : clientExited line with
      | none =>
        exact replies_goesOn (ascii "FAIL Expected MOIN or PING or BAIL") (by decide)
          (not_bail_of_none hexit) id rfl (List.cons_ne_nil _ _)
      | some actions => exact replies_clientExited hexit

theorem replies_connection (maxCommandSize : ℕ) (line : Bytes) :
    Replies (HasKeyword "BAIL" line) (HasKeyword "NOOP" line) (handleConnection maxCommandSize line) := by
  unfold handleConnection
  by_cases hnoop : HasKeyword "NOOP" line
  · have hbail : ¬ HasKeyword "BAIL" line := hnoop.excludes (by decide) (by decide) (by decide)
    rw [if_pos hnoop]
    exact ⟨fun h => absurd h hbail, fun _ => ⟨ascii "OKAY", by decide, rfl⟩, fun _ => hnoop,
      fun _ => ⟨rfl, by simp⟩⟩
  · rw [if_neg hnoop]
    by_cases hpush : HasKeyword "PUSH" line
    · have hbail : ¬ HasKeyword "BAIL" line := hpush.excludes (by decide) (by decide) (by decide)
      rw [if_pos hpush]
      cases hparse : parseLine line 2 with
      | none =>
        exact replies_goesOn (ascii "FAIL Cannot parse PUSH request") (by decide) hbail hnoop rfl
          (List.cons_ne_nil _ _)
      | some args =>
        dsimp only
        by_cases hpos : atoi (args.getD 1 []) ≤ 0
        · rw [if_pos hpos]
          exact replies_goesOn (ascii "FAIL Expected number of bytes") (by decide) hbail hnoop rfl
            (List.cons_ne_nil _ _)
        · rw [if_neg hpos]
          by_cases hlimit : 0 < maxCommandSize ∧ maxCommandSize < (atoi (args.getD 1 [])).toNat
          · rw [if_pos hlimit]
            exact replies_goesOn (ascii "FAIL PUSH data size too large") (by decide) hbail hnoop rfl
              (List.cons_ne_nil _ _)
          · rw [if_neg hlimit]
            exact replies_goesOn (ascii "OKAY") (by decide) hbail hnoop rfl (List.cons_ne_nil _ _)
    · rw [if_neg hpush]
      cases hexit : clientExited line with
      | none =>
        exact replies_goesOn (ascii "FAIL Expected PUSH or NOOP or QUIT") (by decide)
          (not_bail_of_none hexit) hnoop rfl (List.cons_ne_nil _ _)
      | some actions =>
        have hreplies := replies_clientExited hexit
        exact ⟨hreplies.silent, hreplies.response, fun h => (hreplies.stalls.mp h).elim, fun h => absurd h hnoop⟩

theorem replies_pushData (regexec : ρ → Bytes → RegexecResult) (table : AuthTable ρ) (identity : Bytes)
    (inputLength : ℕ) (block : Bytes) :
    Replies False False (handlePushData regexec table identity inputLength block) := by
  unfold handlePushData handlePush
  split
  · exact replies_goesOn (ascii "OKAY") (by decide) id id rfl (List.cons_ne_nil _ _)
  · exact replies_goesOn (ascii "FAIL You're not authorized") (by decide) id id rfl (List.cons_ne_nil _ _)

/-- What a read handler does with what it is given. -/
theorem replies_handle (cfg : Config ρ) (id : Option Bytes) (n : ℕ) (h : ReadHandler) (data : Bytes)
    (actions : List Action) : Replies (Entry.Bails ⟨.read (.read h) data, actions⟩)
      (Entry.Noop ⟨.read (.read h) data, actions⟩) (handle cfg id n (.read h) data) := by
  cases h with
  | handshake => exact replies_handshake _
  | connection => exact replies_connection _ _
  | push => exact replies_pushData _ _ _ _ _

/-! ### What is queued in a step -/

theorem Working.writes_plain {s : Session} (hs : Working s) {a : Action} (ha : a.Plain) :
    Tls.Writes (output a) s.tls (perform s a).tls := by
  have hcall : ∀ {e t}, Tls.stepAlive s.tls e = some t → (s.call e).tls = t := by
    intro e t he
    rw [call_eq hs.alive hs.runs he]
  rw [perform_eq hs.runs]
  cases a with
  | access =>
    rw [act, use_eq hs.connection]
    exact .refl s.tls
  | setInputLength size =>
    rw [act, use_eq hs.connection]
    exact .refl s.tls
  | sendResponse response =>
    rw [act, hcall rfl]
    exact Tls.writes_tlsWriteLine response s.tls
  | tlsWriteLine string =>
    rw [act, hcall rfl]
    exact Tls.writes_tlsWriteLine string s.tls
  | tlsWrite data =>
    rw [act, hcall rfl, Tls.tlsWrite_buffered]
    exact Tls.writes_writeBuffered data s.tls
  | setConnectionId id => exact .refl s.tls
  | fifoWrite data => exact .refl s.tls
  | free data => exact .refl s.tls
  | _ => exact ha.elim

theorem Working.writes_plains {s : Session} (hs : Working s) {ws : List Action} (hws : ∀ a ∈ ws, a.Plain) :
    Tls.Writes (queued ws) s.tls (ws.foldl perform s).tls := by
  induction ws generalizing s with
  | nil => exact .refl s.tls
  | cons a ws ih =>
    have ha := hws a List.mem_cons_self
    exact (hs.writes_plain ha).trans (ih (hs.plain ha).working fun b hb => hws b (List.mem_cons_of_mem a hb))

theorem tls_call (s : Session) (e : Tls.Event Handler) :
    (s.call e).tls = s.tls ∨ Tls.stepAlive s.tls e = some (s.call e).tls := by
  unfold Session.call
  cases h : Tls.step s.tls e with
  | none => exact Or.inl rfl
  | some t => exact Or.inr (Tls.step_eq_some h).2.2

theorem writes_tlsRead (s : Session) (h : ReadHandler) (n : ℕ) :
    Tls.Writes [] s.tls (perform s (.tlsRead h n)).tls := by
  unfold perform act
  split
  · exact .refl s.tls
  · rcases tls_call s (.tlsRead (.read h) n) with hsame | hstep
    · rw [hsame]
      exact .refl s.tls
    · rw [← Option.some.inj hstep]
      exact Tls.writes_tlsRead (.read h) n s.tls

/-- What is queued by a list of calls that ends with calls that queue nothing. -/
theorem queued_append_nil {ws more : List Action} (h : queued more = []) : queued (ws ++ more) = queued ws := by
  unfold queued at h ⊢
  rw [List.flatMap_append, h, List.append_nil]

/-- A handler queues what its calls say. -/
theorem Working.writes_course {s : Session} (hs : Working s) {actions : List Action} (h : Course actions) :
    Tls.Writes (queued actions) s.tls (actions.foldl perform s).tls := by
  have hask : ∀ {ws : List Action} h n, (∀ a ∈ ws, a.Plain) →
      Tls.Writes (queued ws) s.tls ((ws ++ [Action.tlsRead h n]).foldl perform s).tls := by
    intro ws h n hws
    rw [List.foldl_append, List.foldl_cons, List.foldl_nil, ← List.append_nil (queued ws)]
    exact (hs.writes_plains hws).trans (writes_tlsRead _ h n)
  cases h with
  | goesOn ws h hws hpush =>
    rw [queued_append_nil (show queued [.tlsReadLine h] = [] from rfl)]
    exact hask h 0 hws
  | takes ws n hws hpos hlt =>
    have hset : ∀ a ∈ ws ++ [.setInputLength n], a.Plain := by
      intro a ha
      rcases List.mem_append.mp ha with ha | ha
      · exact hws a ha
      · rw [List.mem_singleton.mp ha]
        trivial
    have hsplit : ws ++ [.setInputLength n, .tlsRead .push n] = (ws ++ [.setInputLength n]) ++ [.tlsRead .push n] := by
      simp
    rw [hsplit, queued_append_nil (show queued [.tlsRead .push n] = [] from rfl)]
    exact hask .push n hset
  | ends ws hws =>
    have hpro := hs.plains hws
    rw [List.foldl_append, hpro.working.shutdown, queued_append_nil (show queued [.tlsShutdown, .connectionStop] = [] from rfl),
      ← List.append_nil (queued ws)]
    exact (hs.writes_plains hws).trans (Tls.writes_tlsShutdown _)
  | stalls _ hws => exact hs.writes_plains hws

/-- Nothing is written in a step that calls a read handler. -/
theorem unsent_of_read {s t : Tls.State Handler} {e : Event} {handler : Handler} {data : Bytes} (hs : Tls.IoFed s)
    (h : Tls.stepAlive s e.tls = some t) (hcalls : Tls.Calls [.read handler data] s t) : t.unsent = s.unsent := by
  have hdel : t.delivered = s.delivered ++ [data] := hcalls.delivered
  have haside : e.tls.OutputAside → t.unsent = s.unsent := fun he =>
    Tls.unsent_of_side (Tls.beside_stepAlive hs he h).side
  cases e with
  | writeCb replies =>
    obtain ⟨-, rfl⟩ := Tls.invoke_eq_some h
    have hsame : (Tls.writeCb replies { s with loop := s.loop.take .write }).delivered = s.delivered :=
      congrArg Tls.InputSide.delivered (Tls.frame_writeCb replies s).side
    rw [hsame] at hdel
    simp at hdel
  | timeoutCb =>
    obtain ⟨-, rfl⟩ := Tls.invoke_eq_some h
    exact Tls.unsent_of_side (Tls.outputSide_timeoutCb _)
  | acceptSslCb reply => cases reply <;> exact haside trivial
  | _ => exact haside trivial

/-! ### Steps -/

theorem log_of_call {s : Session} {t : Tls.State Handler} {upcall : Tls.Upcall Handler}
    (h : t.history.upcalls = s.tls.history.upcalls ++ [upcall]) :
    (react cfg s t).log = s.log ++ [⟨upcall, answer cfg s.id s.inputLength upcall⟩] := by
  rw [react_call h, (foldl_keeps _ _).2]

/-- A request is given to the handler that waits for it. -/
structure Asked (cfg : Config ρ) (s : Session) (e : Event) (h : ReadHandler) (n : ℕ) (data : Bytes) (p : Entry)
    (u : Tls.State Handler) : Prop where
  fed : Tls.IoFed u
  steps : Tls.stepAlive s.tls e.tls = some u
  calls : Tls.Calls [.read (.read h) data] s.tls u
  off : .read ∉ u.loop.active
  blank : Tls.Blank u
  opened : Opened s p
  awaits : Awaits s h n

theorem asked_of_read {s : Session} {e : Event} {handler : Handler} {data : Bytes} {u : Tls.State Handler}
    (hs : Serves cfg s) (halive : s.tls.freed = false) (hfed : Tls.IoFed u) (hsteps : Tls.stepAlive s.tls e.tls = some u)
    (hreader : s.tls.readHandler = some handler) (hact : .read ∈ s.tls.loop.active)
    (hcalls : Tls.Calls [.read handler data] s.tls u) (hoff : .read ∉ u.loop.active)
    (hexp : ∀ r, Tls.Expects s.tls r → Tls.Fits data r ∧ Tls.Blank u) :
    ∃ h n p, handler = .read h ∧ Asked cfg s e h n data p u := by
  cases hs.phase with
  | waiting p h n ho hreq hawaits =>
    obtain rfl : handler = .read h := Option.some.inj (hreader.symm.trans hawaits.reader)
    obtain ⟨-, hblank⟩ := hexp _ hawaits.expects
    exact ⟨h, n, p, rfl, hfed, hsteps, hcalls, hoff, hblank, ho, hawaits⟩
  | accepting _ hacc hlog hconn => exact absurd hact hacc.read
  | stalled p ho hreq hoff => exact absurd hact hoff
  | closing p _ hclosing hconn hlast hends => exact absurd hact hclosing.read
  | gone hgone => exact absurd (halive.symm.trans hgone) (by decide)

/-- A step with a request. -/
theorem asked_of_request {s t : Session} {e : Event} {p : Entry} (hs : Serves cfg s) (h : step cfg s e = some t)
    (hlog : t.log = s.log ++ [p]) (hp : p.IsRequest) :
    ∃ h n data q u, Asked cfg s e h n data q u ∧ t = react cfg s u ∧
      p = ⟨.read (.read h) data, handle cfg s.id s.inputLength (.read h) data⟩ := by
  cases halive : s.tls.freed with
  | true => exact absurd h (by simp [step_freed hs.toSound halive])
  | false =>
    obtain ⟨u, hu, houtcome, hfed, rfl⟩ := step_alive hs.toSound halive h
    have hsame := same_of_upcalls (s := s) hu
    have hcall : ∀ {upcall : Tls.Upcall Handler}, u.history.upcalls = s.tls.history.upcalls ++ [upcall] →
        p.upcall = upcall := by
      intro upcall hupcalls
      have hnew : (react cfg { s with id := e.identity.or s.id } u).log =
          s.log ++ [⟨upcall, answer cfg (e.identity.or s.id) s.inputLength upcall⟩] := log_of_call hupcalls
      rw [hlog, List.append_cancel_left_eq, List.singleton_inj] at hnew
      rw [hnew]
    cases houtcome with
    | quiet hcalls _ _ _ =>
      rw [hsame (by simp [hcalls.upcalls]), react_quiet hcalls.upcalls] at hlog
      simp at hlog
    | freed hfreed _ =>
      have hupcalls : u.history.upcalls = s.tls.history.upcalls ++ [] := congrArg Tls.UserSide.upcalls hfreed.user
      rw [hsame (by simp [hupcalls]), react_quiet hupcalls] at hlog
      simp at hlog
    | @error handler hhandler hfreed =>
      have hcalled := hcall (congrArg Tls.UserSide.upcalls hfreed.user)
      simp [Entry.IsRequest, hcalled] at hp
    | read data hreader hact hcalls hoff hexp =>
      rw [hsame (by simp [hcalls.upcalls])] at hlog ⊢
      obtain ⟨k, n, q, rfl, hasked⟩ := asked_of_read hs halive hfed hu hreader hact hcalls hoff hexp
      rw [log_of_call hcalls.upcalls, List.append_cancel_left_eq, List.singleton_inj] at hlog
      exact ⟨k, n, data, q, u, hasked, rfl, hlog.symm⟩
    | lineTooLong hhandler hact hcalls hoff =>
      have hcalled := hcall hcalls.upcalls
      simp [Entry.IsRequest, hcalled] at hp
    | connect hact hcalls hoff hin =>
      have hcalled := hcall hcalls.upcalls
      simp [Entry.IsRequest, hcalled] at hp
    | timeout hhandler hcalls hoff =>
      have hcalled := hcall hcalls.upcalls
      simp [Entry.IsRequest, hcalled] at hp

/-- The handler that was asked has done its work. -/
theorem Asked.finishes {s : Session} {e : Event} {h : ReadHandler} {n : ℕ} {data : Bytes} {p : Entry}
    {u : Tls.State Handler} {actions : List Action} (ha : Asked cfg s e h n data p u) (hs : Serves cfg s)
    (hactions : handle cfg s.id s.inputLength (.read h) data = actions) :
    (react cfg s u).tls.freed = false ∧ (react cfg s u).tls.unsent = s.tls.unsent ++ queued actions := by
  have hcourse := course_handle cfg s.id s.inputLength h data
  rw [hactions] at hcourse
  have hfin := finishes_answered ha.opened ha.fed ha.calls ha.off hactions hcourse fun _ => ha.blank
  refine ⟨hfin.alive, ?_⟩
  have hworking : Working { s with
      tls := u, log := s.log ++ [⟨.read (.read h) data, actions⟩],
      fault := s.fault || (u.freed && !beforeFree (.read (.read h) data)) } := ha.opened.called ha.fed ha.calls
  have hanswer : answer cfg s.id s.inputLength (.read (.read h) data) = actions := hactions
  rw [react_call ha.calls.upcalls, hanswer, (hworking.writes_course hcourse).unsent]
  exact congrArg (· ++ queued actions) (unsent_of_read hs.fed ha.steps ha.calls)

/-- The last entry of a session says whether there is something to follow. -/
theorem next_of_last {s : Session} {p : Entry} (hs : Sound s) (halive : s.tls.freed = false)
    (hlast : s.log.getLast? = some p) :
    (∃ k n, requests p.actions = [(k, n)] ∧ Awaits s k n) ∨
      (.tlsShutdown ∈ p.actions ∧ s.tls.shutdownOnDrain = true) ∨
      (requests p.actions = [] ∧ .tlsShutdown ∉ p.actions ∧ .read ∉ s.tls.loop.active ∧
        s.tls.shutdownOnDrain = false ∧ s.connection = .live) := by
  have hsame : ∀ {q}, s.log.getLast? = some q → q = p := fun hq => Option.some.inj (hq.symm.trans hlast)
  cases hs.phase with
  | accepting _ hacc hlog hconn =>
    rw [hlog] at hlast
    cases hlast
  | waiting q h n ho hreq hawaits =>
    obtain rfl := hsame ho.last
    exact Or.inl ⟨h, n, hreq, hawaits⟩
  | stalled q ho hreq hoff =>
    obtain rfl := hsame ho.last
    exact Or.inr (Or.inr ⟨hreq, ho.goesOn, hoff, ho.attended.drain, ho.working.connection⟩)
  | closing q _ hclosing hconn hq hends =>
    obtain rfl := hsame hq
    exact Or.inr (Or.inl ⟨hends, hclosing.drain⟩)
  | gone hgone => exact absurd (halive.symm.trans hgone) (by decide)

/-- A request has been answered, and something follows unless it was NOOP. -/
theorem disciplined_step {s t : Session} {e : Event} {p : Entry} (hs : Serves cfg s) (h : step cfg s e = some t)
    (hlog : t.log = s.log ++ [p]) (hp : p.IsRequest) : Disciplined s t p ↔ ¬ p.Noop := by
  have ht := serves_step hs h
  have hlast : t.log.getLast? = some p := by rw [hlog, List.getLast?_concat]
  obtain ⟨k, n, data, q, u, hasked, rfl, rfl⟩ := asked_of_request hs h hlog hp
  obtain ⟨halive, hunsent⟩ := hasked.finishes hs rfl
  have hnext := next_of_last ht.toSound halive hlast
  have hreplies := replies_handle cfg s.id s.inputLength k data (handle cfg s.id s.inputLength (.read k) data)
  constructor
  · intro hdisciplined hnoop
    obtain ⟨hnil, hgoes⟩ := hreplies.stalls.mpr hnoop
    rcases hdisciplined.next with ⟨k', n', hreq, -⟩ | ⟨hends, -⟩
    · rw [hnil] at hreq
      cases hreq
    · exact hgoes hends
  · intro hnoop
    refine ⟨hreplies.silent, hreplies.response, hunsent, ?_⟩
    rcases hnext with hawaits | hends | ⟨hnil, hgoes, -, -⟩
    · exact Or.inl hawaits
    · exact Or.inr hends
    · exact absurd (hreplies.stalls.mp ⟨hnil, hgoes⟩) hnoop

/-! ### Runs -/

/-- In the log of a session that goes on, only the last entry may ask for nothing. -/
theorem Recorded.requests_ne_nil {id : Option Bytes} {log : List Entry} {p : Entry}
    (h : Recorded cfg id (log ++ [p])) (hreq : requests p.actions ≠ []) :
    ∀ q ∈ log ++ [p], requests q.actions ≠ [] := by
  induction log using List.reverseRecOn generalizing p with
  | nil =>
    intro q hq
    rw [List.mem_singleton.mp hq]
    exact hreq
  | append_singleton log x ih =>
    intro q hq
    rcases List.mem_append.mp hq with hq | hq
    · obtain ⟨k, n, data, hpre, -, -⟩ := h.follows.answers.isRead hreq
      exact ih h.left (hpre ▸ List.cons_ne_nil _ _) q hq
    · rw [List.mem_singleton.mp hq]
      exact hreq

/-- A NOOP request asks for nothing. -/
theorem Recorded.noop {id : Option Bytes} {log : List Entry} {p : Entry} (h : Recorded cfg id log) (hp : p ∈ log)
    (hnoop : p.Noop) : requests p.actions = [] := by
  obtain ⟨n, hactions⟩ := h.actions hp
  obtain ⟨upcall, actions⟩ := p
  unfold Entry.Noop at hnoop
  dsimp only at hactions hnoop ⊢
  split at hnoop
  · rename_i line
    rw [hactions]
    exact ((replies_handle cfg id n .connection line actions).stalls.mpr hnoop).1
  · exact hnoop.elim

/-- An entry that asks for nothing is a NOOP request, or the session has ended with it. -/
theorem Recorded.ends_or_noop {id : Option Bytes} {log : List Entry} {p : Entry} (h : Recorded cfg id log)
    (hp : p ∈ log) (hreq : requests p.actions = []) :
    p.Noop ∨ .tlsShutdown ∈ p.actions ∨ .connectionStop ∈ p.actions := by
  obtain ⟨before, after, hlog⟩ := List.append_of_mem hp
  rcases h.before hlog with ⟨-, rfl⟩ | ⟨earlier, q, -, hfollows⟩
  · exact absurd hreq (List.cons_ne_nil _ _)
  · cases hfollows.answers with
    | @read k n data hpre hfits =>
      by_cases hends : .tlsShutdown ∈ handle cfg id n (.read k) data
      · exact Or.inr (Or.inl hends)
      · exact Or.inl ((replies_handle cfg id n k data _).stalls.mp ⟨hreq, hends⟩)
    | error => exact Or.inr (Or.inr (List.mem_singleton_self _))
    | timeout => exact Or.inr (Or.inl (by simp [handleTimeout, bail]))
    | lineTooLong => exact Or.inr (Or.inl (by simp [handleLineTooLong, bail]))

/-- A session that has not been ended waits for a request, unless there was a NOOP request. -/
theorem awaits_iff {s : Session} (hs : Serves cfg s) (halive : s.tls.freed = false) (hne : s.log ≠ [])
    (hgoes : ∀ p ∈ s.log, .tlsShutdown ∉ p.actions) : (∃ k n, Awaits s k n) ↔ ∀ p ∈ s.log, ¬ p.Noop := by
  obtain ⟨log, p, hlog⟩ := (List.eq_nil_or_concat' s.log).resolve_left hne
  have hlast : s.log.getLast? = some p := by rw [hlog, List.getLast?_concat]
  have hp : p ∈ s.log := by simp [hlog]
  have hrecorded := hs.recorded
  constructor
  · rintro ⟨k, n, hawaits⟩ q hq hnoop
    have hreq : requests p.actions ≠ [] := by
      rcases next_of_last hs.toSound halive hlast with ⟨k', n', hreq, -⟩ | ⟨hends, -⟩ | ⟨-, -, hoff, -⟩
      · exact hreq ▸ List.cons_ne_nil _ _
      · exact absurd hends (hgoes p hp)
      · exact absurd hawaits.active hoff
    rw [hlog] at hrecorded hq
    exact hrecorded.requests_ne_nil hreq q hq (hrecorded.noop hq hnoop)
  · intro hnoop
    rcases next_of_last hs.toSound halive hlast with ⟨k, n, -, hawaits⟩ | ⟨hends, -⟩ | ⟨hnil, -, -, -, hconn⟩
    · exact ⟨k, n, hawaits⟩
    · exact absurd hends (hgoes p hp)
    · rcases hrecorded.ends_or_noop hp hnil with hc | hc | hc
      · exact absurd hc (hnoop p hp)
      · exact absurd hc (hgoes p hp)
      · have hstopped := hs.balanced.stopped
        rw [hconn, if_neg (by decide)] at hstopped
        have hnone := List.count_eq_zero.mp hstopped
        exact absurd (List.mem_flatMap.mpr ⟨p, hp, hc⟩) hnone

/-- What `read_cb()` has for the read handler. -/
def readyData (replies : List Tls.SslRead) (t : Tls.State Handler) : Option Bytes :=
  (Tls.readData replies (Tls.resetWatcherState .write { t with loop := t.loop.take .read }).touch).2

theorem delivered_of_ready {t : Tls.State Handler} {r : Tls.Request} {replies : List Tls.SslRead} {data : Bytes}
    (ht : Tls.Expects t r) (hdata : readyData replies t = some data) :
    (Tls.readCb replies { t with loop := t.loop.take .read }).delivered = t.delivered ++ [data] := by
  have hframe : Tls.Frame .read { t with loop := t.loop.take .read }
      (Tls.resetWatcherState .write { t with loop := t.loop.take .read }).touch :=
    (Tls.frame_resetWatcherState .write _).trans (Tls.frame_touch _)
  have ht' : Tls.Expects { t with loop := t.loop.take .read } r := ht.of_side rfl
  have hdel := congrArg Tls.InputSide.delivered hframe.side
  have hprog := Tls.progresses_readData replies (ht'.of_side hframe.side)
  unfold readyData at hdata
  unfold Tls.readCb
  generalize (Tls.resetWatcherState .write { t with loop := t.loop.take .read }).touch = u at hprog hdata hdel
  generalize Tls.readData replies u = result at hprog hdata
  match result with
  | (v, none) => cases hdata
  | (v, some d) =>
    obtain rfl := Option.some.inj hdata
    obtain ⟨hsame, hwaits, -, -⟩ := hprog
    obtain ⟨handler, hhandler⟩ := Option.isSome_iff_exists.mp hwaits
    have hv : v.delivered = t.delivered := hsame.trans hdel
    dsimp only
    rw [Tls.deliver_some hhandler d, ← hv]
    simp [Tls.State.delivered, Tls.State.call, Tls.State.stopRead, Tls.Upcall.data?]

/-- The request a session waits for goes to its handler. -/
theorem answers_awaited {s t : Session} {k : ReadHandler} {n : ℕ} {replies : List Tls.SslRead} {data : Bytes}
    (hs : Serves cfg s) (hawaits : Awaits s k n) (h : step cfg s (.readCb replies) = some t)
    (hdata : readyData replies s.tls = some data) :
    t.log = s.log ++ [⟨.read (.read k) data, handle cfg s.id s.inputLength (.read k) data⟩] := by
  cases halive : s.tls.freed with
  | true => exact absurd h (by simp [step_freed hs.toSound halive])
  | false =>
    obtain ⟨u, hu, houtcome, hfed, rfl⟩ := step_alive hs.toSound halive h
    have hdel : u.delivered = s.tls.delivered ++ [data] := by
      obtain ⟨-, rfl⟩ := Tls.invoke_eq_some hu
      exact delivered_of_ready hawaits.expects hdata
    have hcalled : ∀ {called}, u.history.upcalls = s.tls.history.upcalls ++ called →
        called.filterMap Tls.Upcall.data? = [data] := by
      intro called hupcalls
      unfold Tls.State.delivered at hdel
      rw [hupcalls, List.filterMap_append, List.append_cancel_left_eq] at hdel
      exact hdel
    cases houtcome with
    | quiet hcalls _ _ _ => cases hcalled hcalls.upcalls
    | freed hfreed _ => cases hcalled (congrArg Tls.UserSide.upcalls hfreed.user)
    | error _ hfreed => cases hcalled (congrArg Tls.UserSide.upcalls hfreed.user)
    | lineTooLong _ _ hcalls _ => cases hcalled hcalls.upcalls
    | connect _ hcalls _ _ => cases hcalled hcalls.upcalls
    | timeout _ hcalls _ => cases hcalled hcalls.upcalls
    | @read handler data' hreader hact hcalls hoff hexp =>
      obtain rfl : data' = data := List.singleton_inj.mp (hcalled hcalls.upcalls)
      obtain rfl : handler = .read k := Option.some.inj (hreader.symm.trans hawaits.reader)
      exact log_of_call hcalls.upcalls

/-- **The discipline of a session.** A request or a data block is answered with one line, or with none if it is
BAIL, and then the next request is read or the connection is shut down, exactly if it is not a NOOP request
that `handle_connection()` is given. While there has been none of these, a session that has not been ended waits
for the next request, and the handler is called once the request is there. -/
theorem disciplined_iff {es : List Event} {s : Session} (h : Serving cfg es s) :
    (∀ e t p, step cfg s e = some t → t.log = s.log ++ [p] → p.IsRequest → (Disciplined s t p ↔ ¬ p.Noop)) ∧
    (s.tls.freed = false → s.log ≠ [] → (∀ p ∈ s.log, .tlsShutdown ∉ p.actions) →
      ((∃ k n, Awaits s k n) ↔ ∀ p ∈ s.log, ¬ p.Noop)) ∧
    ∀ k n, Awaits s k n → ∀ replies t data, step cfg s (.readCb replies) = some t →
      readyData replies s.tls = some data →
      t.log = s.log ++ [⟨.read (.read k) data, handle cfg s.id s.inputLength (.read k) data⟩] :=
  ⟨fun _ _ _ hstep hlog hp => disciplined_step h.serves hstep hlog hp,
    fun halive hne hgoes => awaits_iff h.serves halive hne hgoes,
    fun _ _ hawaits _ _ _ hstep hdata => answers_awaited h.serves hawaits hstep hdata⟩

/-- After a handshake the client sends NOOP: it gets its response, and no more requests are read. -/
theorem not_disciplined_noop : ∃ (cfg : Config Regex) (es : List Event) (s t : Session) (e : Event) (p : Entry),
    Serving cfg es s ∧ step cfg s e = some t ∧ t.log = s.log ++ [p] ∧ p.IsRequest ∧
    queued p.actions = ascii "OKAY\r\n" ∧ t.tls.freed = false ∧ t.tls.shutdownOnDrain = false ∧
    .read ∉ t.tls.loop.active ∧ ¬ Disciplined s t p := by
  obtain ⟨s, hs, hp⟩ := (Option.any_eq_true _ _).mp (by decide +kernel : Option.any
    (fun s : Session => Option.any (fun t : Session => decide (
      t.log = s.log ++ [⟨.read (.read .connection) (ascii "NOOP\x00\n"), [.sendResponse (ascii "OKAY")]⟩] ∧
        t.tls.freed = false ∧ t.tls.shutdownOnDrain = false ∧ .read ∉ t.tls.loop.active))
      (step (⟨0, 5, [], posixRegexec⟩ : Config Regex) s (.readCb [.data (ch 'N') (ascii "OOP\r\n")])))
    (Machine.run (step (⟨0, 5, [], posixRegexec⟩ : Config Regex)) (start ⟨0, 5, [], posixRegexec⟩ true true 0)
      [.acceptSslCb (.ok (some (ascii "web"))), .readCb [.data (ch 'M') (ascii "OIN 1 x\r\n")]]) = true)
  obtain ⟨t, ht, hp⟩ := (Option.any_eq_true _ _).mp hp
  obtain ⟨hlog, halive, hdrain, hoff⟩ := of_decide_eq_true hp
  refine ⟨_, _, s, t, _, _, serving_of_run hs, ht, hlog, trivial, by decide, halive, hdrain, hoff, fun hd => ?_⟩
  rcases hd.next with ⟨k, n, -, hawaits⟩ | ⟨-, hc⟩
  · exact hoff hawaits.active
  · exact absurd (hdrain.symm.trans hc) (by decide)

/-- After the handshake and a request that is refused, a session waits for the next one. -/
theorem disciplined_iff_push : ∃ (cfg : Config Regex) (s : Session), s.log.length = 3 ∧
    (∀ e t p, step cfg s e = some t → t.log = s.log ++ [p] → p.IsRequest → (Disciplined s t p ↔ ¬ p.Noop)) ∧
    (s.tls.freed = false → s.log ≠ [] → (∀ p ∈ s.log, .tlsShutdown ∉ p.actions) →
      ((∃ k n, Awaits s k n) ↔ ∀ p ∈ s.log, ¬ p.Noop)) ∧
    ∀ k n, Awaits s k n → ∀ replies t data, step cfg s (.readCb replies) = some t →
      readyData replies s.tls = some data →
      t.log = s.log ++ [⟨.read (.read k) data, handle cfg s.id s.inputLength (.read k) data⟩] := by
  obtain ⟨s, hs, hp⟩ := (Option.any_eq_true _ _).mp (by decide +kernel : Option.any
    (fun s : Session => decide (s.log.length = 3))
    (Machine.run (step (⟨0, 5, [], posixRegexec⟩ : Config Regex)) (start ⟨0, 5, [], posixRegexec⟩ true true 0)
      [.acceptSslCb (.ok (some (ascii "web"))), .readCb [.data (ch 'M') (ascii "OIN 1 x\r\nPUSH 0\r\n")],
        .readCb []]) = true)
  exact ⟨_, s, of_decide_eq_true hp, disciplined_iff (serving_of_run hs)⟩

end Server
end NscaNg
