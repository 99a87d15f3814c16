/-
# How the server uses its connections

A step of a session is a turn of the user of its connection: what a handler does comes to calls of the functions of
`src/common/tls.c` in a row (`calls`), and these are orderly. So the rules of a connection hold in every session of the
server, those about its output as long as its queue is not too long.
-/
import NscaNg.Common.TlsUsers
import NscaNg.Server.SessionStreams

namespace NscaNg
namespace Server

open Posix Libev

variable {ρ : Type} {cfg : Config ρ}

/-! ### What a handler calls -/

/-- The function of the connection that is called. -/
def Action.call? : Action → Option (Tls.Event Handler)
  | .sendResponse response => some (.tlsWriteLine response)
  | .tlsRead handler size => some (.tlsRead (.read handler) size)
  | .tlsWrite data => some (.tlsWrite data false)
  | .tlsWriteLine string => some (.tlsWriteLine string)
  | .tlsShutdown => some .tlsShutdown
  | .tlsOnTimeout => some (.tlsOnTimeout (some .timeout))
  | .tlsOnError => some (.tlsOnError .error)
  | .tlsOnLineTooLong => some (.tlsOnLineTooLong .lineTooLong)
  | .allocate | .access | .connectionStop | .setInputLength _ | .setConnectionId _ | .fifoWrite _ | .free _ => none

def calls (actions : List Action) : List (Tls.Event Handler) := actions.filterMap Action.call?

theorem calls_append (as bs : List Action) : calls (as ++ bs) = calls as ++ calls bs := List.filterMap_append

/-- What is written with the calls is what is queued. -/
theorem written_calls (actions : List Action) : (calls actions).flatMap Tls.Event.written = queued actions := by
  induction actions with
  | nil => rfl
  | cons a actions ih =>
    have hqueued : queued (a :: actions) = output a ++ queued actions := rfl
    rw [hqueued, ← ih]
    cases a <;> rfl

theorem act_call (s : Session) (a : Action) :
    match a.call? with
    | some e => act s a = s.call e
    | none => (act s a).tls = s.tls := by
  have huse : ∀ f : Session → Session, (∀ s, (f s).tls = s.tls) → (s.use f).tls = s.tls := by
    intro f hf
    unfold Session.use
    split
    · exact hf s
    · rfl
  cases a with
  | access => exact huse _ fun _ => rfl
  | connectionStop => exact huse _ fun _ => rfl
  | setInputLength size => exact huse _ fun _ => rfl
  | _ => rfl

/-- A fault stays, and so does the end of the program. -/
theorem perform_kept (s : Session) (a : Action) :
    ((perform s a).fault = false → s.fault = false) ∧ ((perform s a).tls.died = false → s.tls.died = false) := by
  have huse : ∀ f : Session → Session, (∀ s, (f s).fault = s.fault) → (s.use f).fault = false → s.fault = false := by
    intro f hf h
    unfold Session.use at h
    split at h
    · exact (hf s).symm.trans h
    · cases h
  have hcall : ∀ e, (s.call e).fault = false → s.fault = false := by
    intro e h
    unfold Session.call at h
    split at h
    · exact h
    · cases h
  unfold perform
  split
  · exact ⟨id, id⟩
  · rename_i hruns
    refine ⟨fun h => ?_, fun _ => by simpa using hruns⟩
    cases a with
    | access => exact huse id (fun _ => rfl) h
    | connectionStop => exact huse (fun s => { s with connection := .freed }) (fun _ => rfl) h
    | setInputLength size => exact huse (fun s => { s with inputLength := size }) (fun _ => rfl) h
    | allocate => exact h
    | setConnectionId id => exact h
    | fifoWrite data => exact h
    | free data => exact h
    | _ => exact hcall _ h

theorem foldl_kept (s : Session) (actions : List Action) :
    ((actions.foldl perform s).fault = false → s.fault = false) ∧
      ((actions.foldl perform s).tls.died = false → s.tls.died = false) := by
  induction actions generalizing s with
  | nil => exact ⟨id, id⟩
  | cons a actions ih =>
    obtain ⟨hfault, hdied⟩ := ih (perform s a)
    obtain ⟨hfault', hdied'⟩ := perform_kept s a
    exact ⟨fun h => hfault' (hfault h), fun h => hdied' (hdied h)⟩

/-- A handler that is not at fault has made its calls. -/
theorem runs_calls {s : Session} {actions : List Action} (hsound : (actions.foldl perform s).fault = false)
    (hruns : (actions.foldl perform s).tls.died = false) :
    Machine.Runs (Machine.Steps Tls.step) s.tls (calls actions) (actions.foldl perform s).tls := by
  induction actions generalizing s with
  | nil => exact .nil s.tls
  | cons a actions ih =>
    have hrest := ih hsound hruns
    obtain ⟨hfault, hdied⟩ := foldl_kept (perform s a) actions
    have hperform := perform_eq ((perform_kept s a).2 (hdied hruns)) a
    have hact := act_call s a
    rw [← hperform] at hact
    rw [List.foldl_cons]
    unfold calls at hrest ⊢
    cases hcall : a.call? with
    | none =>
      rw [hcall] at hact
      rw [List.filterMap_cons_none hcall]
      exact (show (perform s a).tls = s.tls from hact) ▸ hrest
    | some e =>
      rw [hcall] at hact
      rw [List.filterMap_cons_some hcall]
      refine .cons ?_ hrest
      have hsound' := hfault hsound
      rw [hact] at hsound' ⊢
      unfold Session.call at hsound' ⊢
      cases hstep : Tls.step s.tls e with
      | some t => exact hstep
      | none =>
        rw [hstep] at hsound'
        cases hsound'

/-! ### Calls are orderly -/

theorem prepares_plain {ws : List Action} (hws : ∀ a ∈ ws, a.Plain) (hfull : .tlsWrite [] ∉ ws) :
    ∀ e ∈ calls ws, e.Prepares := by
  intro e he
  obtain ⟨a, ha, hcall⟩ := List.mem_filterMap.mp he
  have hplain := hws a ha
  cases a with
  | sendResponse response =>
    cases hcall
    trivial
  | tlsWriteLine string =>
    cases hcall
    trivial
  | tlsWrite data =>
    cases hcall
    exact fun hnil => hfull (hnil ▸ ha)
  | _ => first | exact hplain.elim | cases hcall

theorem orderly_course {u : Tls.State Handler} {actions : List Action} (h : Course actions)
    (hfull : .tlsWrite [] ∉ actions) (hblank : requests actions ≠ [] → Tls.Blank u) :
    Tls.Orderly u (calls actions) := by
  cases h with
  | goesOn ws h hws hpush =>
    rw [calls_append]
    refine .asks _ (.read h) 0 (prepares_plain hws fun hmem => hfull (List.mem_append_left _ hmem)) (hblank ?_)
    rw [requests_append]
    exact List.append_ne_nil_of_right_ne_nil _ (List.cons_ne_nil _ _)
  | takes ws n hws hpos hlt =>
    rw [calls_append]
    refine .asks _ (.read .push) n (prepares_plain hws fun hmem => hfull (List.mem_append_left _ hmem)) (hblank ?_)
    rw [requests_append]
    exact List.append_ne_nil_of_right_ne_nil _ (List.cons_ne_nil _ _)
  | ends ws hws =>
    rw [calls_append]
    exact .ends _ (prepares_plain hws fun hmem => hfull (List.mem_append_left _ hmem))
  | stalls _ hws => exact .rests _ (prepares_plain hws hfull)

theorem orderly_handleConnect {u : Tls.State Handler} (h : Tls.Blank u) : Tls.Orderly u (calls handleConnect) := by
  refine .asks [.tlsOnTimeout (some .timeout), .tlsOnError .error, .tlsOnLineTooLong .lineTooLong] (.read .handshake) 0
    (fun e he => ?_) h
  simp only [List.mem_cons, List.not_mem_nil, or_false] at he
  rcases he with rfl | rfl | rfl <;> trivial

/-- The calls of a handler are orderly, if nothing is being read when it asks for something. -/
theorem orderly_handle (cfg : Config ρ) (id : Option Bytes) (n : ℕ) (handler : Handler) (data : Bytes)
    {u : Tls.State Handler} (hblank : requests (handle cfg id n handler data) ≠ [] → Tls.Blank u) :
    Tls.Orderly u (calls (handle cfg id n handler data)) := by
  cases handler with
  | connect => exact orderly_handleConnect (hblank (List.cons_ne_nil _ _))
  | read h => exact orderly_course (course_handle cfg id n h data) (brief_handle cfg id n h data).full hblank
  | error => exact .rests [] fun e he => absurd he List.not_mem_nil
  | timeout => exact orderly_course (course_bail _) Ends.timeout.brief.full hblank
  | lineTooLong => exact orderly_course (course_bail _) Ends.lineTooLong.brief.full hblank

theorem length_handle (cfg : Config ρ) (id : Option Bytes) (n : ℕ) (handler : Handler) (data : Bytes) :
    (queued (handle cfg id n handler data)).length ≤ 64 := by
  cases handler with
  | connect => exact Nat.zero_le _
  | read h => exact (brief_handle cfg id n h data).length
  | error => exact Nat.zero_le _
  | timeout => exact Ends.timeout.brief.length
  | lineTooLong => exact Ends.lineTooLong.brief.length

/-! ### Steps -/

/-- A handler that is called asks for something only when nothing is being read, and answers a timeout. -/
structure Fitting (s : Session) (u : Tls.State Handler) (actions : List Action) : Prop where
  blank : requests actions ≠ [] → Tls.Blank u
  timeout : ∀ handler, u.history.upcalls = s.tls.history.upcalls ++ [.timeout handler] → queued actions ≠ []

/-- The handler that a step of the connection calls. -/
theorem fitting_outcome {s : Session} {u : Tls.State Handler} {upcall : Tls.Upcall Handler} (hs : Sound s)
    (halive : s.tls.freed = false) (houtcome : Tls.Outcome s.tls u)
    (hcalled : u.history.upcalls = s.tls.history.upcalls ++ [upcall]) (id : Option Bytes) :
    Fitting s u (answer cfg id s.inputLength upcall) := by
  have hothers : ∀ {actions : List Action}, requests actions = [] → (requests actions ≠ [] → Tls.Blank u) :=
    fun hnil hne => absurd hnil hne
  have hsame : ∀ {upcall' : Tls.Upcall Handler}, u.history.upcalls = s.tls.history.upcalls ++ [upcall'] →
      upcall' = upcall := fun h =>
    (List.cons.inj (List.append_cancel_left (h.symm.trans hcalled))).1
  have hnot : ∀ {handler}, upcall ≠ .timeout handler →
      u.history.upcalls = s.tls.history.upcalls ++ [.timeout handler] → False := fun hne h => hne (hsame h).symm
  cases houtcome with
  | quiet hcalls _ _ _ => exact absurd (hcalls.upcalls.symm.trans hcalled) (by simp)
  | freed hfreed _ => exact absurd ((congrArg Tls.UserSide.upcalls hfreed.user).symm.trans hcalled) (by simp)
  | @error handler hhandler hfreed =>
    obtain rfl := hsame (congrArg Tls.UserSide.upcalls hfreed.user)
    obtain ⟨p, ho⟩ := hs.opened halive (Or.inl (hhandler ▸ rfl))
    obtain rfl : handler = .error := Option.some.inj (hhandler.symm.trans ho.attended.error)
    exact ⟨hothers rfl, fun _ h => (hnot (by simp) h).elim⟩
  | @read handler data hreader hact hcalls hoff hexp =>
    obtain rfl := hsame hcalls.upcalls
    obtain ⟨p, h, n, -, -, hawaits⟩ := hs.reading halive hact
    exact ⟨fun _ => (hexp _ hawaits.expects).2, fun _ h => (hnot (by simp) h).elim⟩
  | @lineTooLong handler hhandler hact hcalls hoff =>
    obtain rfl := hsame hcalls.upcalls
    obtain ⟨p, h, n, ho, -, -⟩ := hs.reading halive hact
    obtain rfl : handler = .lineTooLong := Option.some.inj (hhandler.symm.trans ho.attended.lineTooLong)
    exact ⟨hothers rfl, fun _ h => (hnot (by simp) h).elim⟩
  | connect hact hcalls hoff hin =>
    obtain rfl := hsame hcalls.upcalls
    refine ⟨fun _ => ?_, fun _ h => (hnot (by simp) h).elim⟩
    cases hs.phase with
    | accepting _ hacc _ _ => exact hacc.blank.of_side (hin hacc.read)
    | waiting p h n ho _ _ => exact absurd hact ho.attended.init
    | stalled p ho _ _ => exact absurd hact ho.attended.init
    | closing p _ hclosing _ _ _ => exact absurd hact hclosing.init
    | gone hgone => exact absurd (halive.symm.trans hgone) (by decide)
  | @timeout handler hhandler hcalls hoff =>
    obtain rfl := hsame hcalls.upcalls
    obtain ⟨p, ho⟩ := hs.opened halive (Or.inr (hhandler ▸ rfl))
    obtain rfl : handler = .timeout := Option.some.inj (hhandler.symm.trans ho.attended.timeout)
    exact ⟨hothers rfl, fun _ _ => (by decide : queued handleTimeout ≠ [])⟩

/-- A connection calls one handler in a step, or none. -/
theorem upcalls_outcome {t u : Tls.State Handler} (h : Tls.Outcome t u) :
    u.history.upcalls = t.history.upcalls ∨ ∃ upcall, u.history.upcalls = t.history.upcalls ++ [upcall] := by
  cases h with
  | quiet h _ _ _ => exact Or.inl (h.upcalls.trans (List.append_nil _))
  | freed h _ => exact Or.inl ((congrArg Tls.UserSide.upcalls h.user).trans (List.append_nil _))
  | error _ h => exact Or.inr ⟨_, congrArg Tls.UserSide.upcalls h.user⟩
  | read _ _ _ h _ _ => exact Or.inr ⟨_, h.upcalls⟩
  | lineTooLong _ _ h _ => exact Or.inr ⟨_, h.upcalls⟩
  | connect _ h _ _ => exact Or.inr ⟨_, h.upcalls⟩
  | timeout _ h _ => exact Or.inr ⟨_, h.upcalls⟩

/-- **A step of a session is a turn of the user of its connection**, who behaves. -/
theorem behaves_step {room : Prop} {s t : Session} {e : Event} (hs : Serves cfg s)
    (hroom : room → s.tls.unsent.length + 64 < 2 ^ 31) (h : step cfg s e = some t) :
    ∃ turn : Tls.Turn Handler, turn.event = some e.tls ∧ Tls.Behaves room s.tls turn t.tls := by
  have ht := serves_step hs h
  cases halive : s.tls.freed with
  | true => exact absurd h (by simp [step_freed hs.toSound halive])
  | false =>
    obtain ⟨u, hu, houtcome, -, rfl⟩ := step_alive hs.toSound halive h
    have hstep : Tls.step s.tls e.tls = some u := (step_of_alive halive hs.runs).trans hu
    -- the handler does this, and there is room for it
    have hturn : ∀ {t : Tls.State Handler} (actions : List Action), Tls.Orderly u (calls actions) →
        Machine.Runs (Machine.Steps Tls.step) u (calls actions) t → (queued actions).length ≤ 64 →
        (∀ handler, u.history.upcalls = s.tls.history.upcalls ++ [.timeout handler] → queued actions ≠ []) →
        ∃ turn : Tls.Turn Handler, turn.event = some e.tls ∧ Tls.Behaves room s.tls turn t := by
      intro t actions horderly hruns hlen htimed
      have hwritten := written_calls actions
      refine ⟨⟨some e.tls, calls actions, horderly.user⟩, rfl,
        ⟨u, ⟨horderly, hruns⟩, event_fromLoop e, hstep, fun handler hup => ?_⟩, fun hr => ?_⟩
      · exact (congrArg (· ≠ []) hwritten).mpr (htimed handler hup)
      · have hlt := hroom hr
        show s.tls.unsent.length + ((calls actions).flatMap Tls.Event.written).length < _
        rw [hwritten]
        omega
    rcases upcalls_outcome houtcome with hquiet | ⟨upcall, hcalled⟩
    · have hreact : ∀ s' : Session, s'.tls = s.tls → (react cfg s' u).tls = u := fun s' hs' => by
        rw [react_quiet (hs' ▸ hquiet.trans (List.append_nil _).symm)]
      rw [hreact { s with id := e.identity.or s.id } rfl]
      refine hturn [] (.rests [] fun e he => absurd he List.not_mem_nil) (.nil u) (Nat.zero_le _) fun handler hup => ?_
      exact absurd (hquiet.symm.trans hup) (by simp)
    · have hfits : Fitting s u (answer cfg (e.identity.or s.id) s.inputLength upcall) :=
        fitting_outcome hs.toSound halive houtcome hcalled _
      have hsound := ht.sound
      have hruns := ht.runs
      rw [react_call (s := { s with id := e.identity.or s.id }) hcalled] at hsound hruns ⊢
      refine hturn _ ?_ (runs_calls hsound hruns) ?_ hfits.timeout
      · cases upcall <;> exact orderly_handle cfg _ _ _ _ hfits.blank
      · cases upcall <;> exact length_handle cfg _ _ _ _

/-! ### Runs -/

/-- The session has come to this state, and has never had too much to send. -/
def Flowing (cfg : Config ρ) (room : Prop) (es : List Event) (s : Session) : Prop :=
  ∃ hasAddress hasSsl now, Machine.Runs
    (Machine.Meeting (fun s _ => room → s.tls.unsent.length + 64 < 2 ^ 31) (Machine.Steps (step cfg)))
    (start cfg hasAddress hasSsl now) es s

theorem started_start (cfg : Config ρ) (hasAddress hasSsl : Bool) (now : ℚ) :
    Tls.Started (start cfg hasAddress hasSsl now).tls := by
  have hstarted : Tls.Started (Tls.acceptTcp hasAddress hasSsl Handler.connect cfg.timeout now) :=
    .accept hasAddress hasSsl Handler.connect cfg.timeout now
  unfold start
  exact hstarted

/-- The connection of a session with its calls: the events of the loop are those of the session, and the rules are kept. -/
theorem Flowing.proper {room : Prop} {es : List Event} {s : Session} (h : Flowing cfg room es s) :
    ∃ (turns : List (Tls.Turn Handler)) (x : Tls.Traced Handler),
      List.Forall₂ (fun e turn => turn.event = some e.tls) es turns ∧
      Tls.Traces (Tls.Proper room) (turns.flatMap Tls.Turn.events) x ∧ x.conn = s.tls := by
  obtain ⟨hasAddress, hasSsl, now, hruns⟩ := h
  have hstep : ∀ (s : Session) (e : Event) (t : Session), Serves cfg s →
      Machine.Meeting (fun s _ => room → s.tls.unsent.length + 64 < 2 ^ 31) (Machine.Steps (step cfg)) s e t →
      Serves cfg t ∧ ∃ turn : Tls.Turn Handler, turn.event = some e.tls ∧ Tls.Behaves room s.tls turn t.tls :=
    fun s e t hs h => ⟨serves_step hs h.2, behaves_step hs h.1 h.2⟩
  have hstart := started_start cfg hasAddress hasSsl now
  have hserves := serves_start cfg hasAddress hasSsl now
  generalize start cfg hasAddress hasSsl now = s₀ at hruns hstart hserves
  obtain ⟨turns, hevents, hturns⟩ := hruns.images hstep hserves
  obtain ⟨x, htraces, hconn⟩ := Tls.traces_of_behaves hstart hturns
  exact ⟨turns, x, hevents, htraces, hconn⟩

/-- **The server completes its read operations**, in every session. -/
theorem serving_completes {es : List Event} {s : Session} (h : Serving cfg es s) :
    ∃ (turns : List (Tls.Turn Handler)) (x : Tls.Traced Handler),
      List.Forall₂ (fun e turn => turn.event = some e.tls) es turns ∧
      Tls.Traces Tls.Completes (turns.flatMap Tls.Turn.events) x ∧ x.conn = s.tls := by
  obtain ⟨hasAddress, hasSsl, now, hruns⟩ := h
  have hflowing : Flowing cfg False es s :=
    ⟨hasAddress, hasSsl, now, hruns.mono fun s e t hstep => ⟨False.elim, hstep⟩⟩
  obtain ⟨turns, x, hevents, htraces, hconn⟩ := hflowing.proper
  exact ⟨turns, x, hevents, htraces.mono fun _ _ h => h.1, hconn⟩

/-- **The server keeps its output within the bounds**, as long as no more than 2^31 bytes are queued. -/
theorem serving_withinBounds {es : List Event} {s : Session} (h : Flowing cfg True es s) :
    ∃ (turns : List (Tls.Turn Handler)) (x : Tls.Traced Handler),
      List.Forall₂ (fun e turn => turn.event = some e.tls) es turns ∧
      Tls.Traces Tls.WithinBounds (turns.flatMap Tls.Turn.events) x ∧ x.conn = s.tls := by
  obtain ⟨turns, x, hevents, htraces, hconn⟩ := h.proper
  exact ⟨turns, x, hevents, htraces.mono fun _ _ h => h.2 trivial, hconn⟩

end Server
end NscaNg
