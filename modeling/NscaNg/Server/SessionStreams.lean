/-
# The streams of a session

What a step of a session is for its client (`Moves`): some of what the client has sent is received, and perhaps
answers what the session has asked for; some of what is queued is sent, and perhaps something is put behind it.
-/
import NscaNg.Server.Discipline

namespace NscaNg
namespace Server

open Posix Libev

variable {ρ : Type} {cfg : Config ρ}

/-! ### What is queued at a time -/

/-- Something short is queued, and nothing empty is written. -/
structure Brief (actions : List Action) : Prop where
  length : (queued actions).length ≤ 64
  full : .tlsWrite [] ∉ actions

theorem brief_clientExited {line : Bytes} {actions : List Action} (h : clientExited line = some actions) :
    Brief actions := by
  unfold clientExited at h
  split at h
  · cases h
    exact ⟨by decide, by decide⟩
  · split at h <;> cases h
    exact ⟨by decide, by decide⟩

theorem brief_handshake (line : Bytes) : Brief (handleHandshake line) := by
  unfold handleHandshake
  split
  · split
    · exact ⟨by decide, by decide⟩
    · split
      · exact ⟨by decide, by decide⟩
      · exact ⟨Nat.le_of_ble_eq_true rfl, by simp⟩
  · split
    · exact ⟨by decide, by decide⟩
    · split
      · rename_i actions h
        exact brief_clientExited h
      · exact ⟨by decide, by decide⟩

theorem brief_connection (maxCommandSize : ℕ) (line : Bytes) : Brief (handleConnection maxCommandSize line) := by
  unfold handleConnection
  split
  · exact ⟨by decide, by decide⟩
  · split
    · split
      · exact ⟨by decide, by decide⟩
      · dsimp only
        split
        · exact ⟨by decide, by decide⟩
        · split
          · exact ⟨by decide, by decide⟩
          · exact ⟨Nat.le_of_ble_eq_true rfl, by simp⟩
    · split
      · rename_i actions h
        exact brief_clientExited h
      · exact ⟨by decide, by decide⟩

theorem brief_pushData (regexec : ρ → Bytes → RegexecResult) (table : AuthTable ρ) (identity : Bytes)
    (inputLength : ℕ) (block : Bytes) : Brief (handlePushData regexec table identity inputLength block) := by
  unfold handlePushData handlePush
  split
  · exact ⟨Nat.le_of_ble_eq_true rfl, by simp [Action.ofCall]⟩
  · exact ⟨Nat.le_of_ble_eq_true rfl, by simp [Action.ofCall]⟩

theorem brief_handle (cfg : Config ρ) (id : Option Bytes) (n : ℕ) (h : ReadHandler) (data : Bytes) :
    Brief (handle cfg id n (.read h) data) := by
  cases h with
  | handshake => exact brief_handshake (cstr data)
  | connection => exact brief_connection cfg.maxCommandSize (cstr data)
  | push => exact brief_pushData cfg.regexec cfg.table (id.getD []) n data

/-- How a session may end by itself. -/
inductive Ends : Entry → Prop
  | error : Ends ⟨.error .error, handleError⟩
  | timeout : Ends ⟨.timeout .timeout, handleTimeout⟩
  | lineTooLong : Ends ⟨.lineTooLong .lineTooLong, handleLineTooLong⟩

theorem Ends.brief {q : Entry} (h : Ends q) : Brief q.actions := by
  cases h
  · exact ⟨by decide, by decide⟩
  · exact ⟨by decide, by decide⟩
  · exact ⟨by decide, by decide⟩

/-! ### The queue of a session -/

theorem flushes_tlsRead {s : Session} (hs : Tls.Flushes s.tls) (h : ReadHandler) (n : ℕ) :
    Tls.Flushes (perform s (.tlsRead h n)).tls := by
  unfold perform act
  split
  · exact hs
  · rcases tls_call s (.tlsRead (.read h) n) with hsame | hstep
    · exact hsame ▸ hs
    · rw [← Option.some.inj hstep]
      exact Tls.flushes_tlsRead hs (.read h) n

theorem Working.flushes_plain {s : Session} (hs : Working s) (hf : Tls.Flushes s.tls) {a : Action} (ha : a.Plain)
    (hfull : a ≠ .tlsWrite []) (hroom : (s.tls.unsent ++ output a).length < 2 ^ 31) :
    Tls.Flushes (perform s a).tls := by
  have hcall : ∀ {e t}, Tls.stepAlive s.tls e = some t → (s.call e).tls = t := by
    intro e t he
    rw [call_eq hs.alive hs.runs he]
  rw [perform_eq hs.runs]
  cases a with
  | access =>
    rw [act, use_eq hs.connection]
    exact hf
  | setInputLength size =>
    rw [act, use_eq hs.connection]
    exact hf
  | sendResponse response =>
    rw [act, hcall rfl]
    exact Tls.flushes_tlsWriteLine hf hroom
  | tlsWriteLine string =>
    rw [act, hcall rfl]
    exact Tls.flushes_tlsWriteLine hf hroom
  | tlsWrite data =>
    rw [act, hcall rfl]
    exact Tls.flushes_tlsWrite hf (fun hnil => hfull (hnil ▸ rfl)) false hroom
  | setConnectionId id => exact hf
  | fifoWrite data => exact hf
  | free data => exact hf
  | _ => exact ha.elim

theorem Working.flushes_plains {s : Session} (hs : Working s) (hf : Tls.Flushes s.tls) {ws : List Action}
    (hws : ∀ a ∈ ws, a.Plain) (hfull : .tlsWrite [] ∉ ws) (hroom : (s.tls.unsent ++ queued ws).length < 2 ^ 31) :
    Tls.Flushes (ws.foldl perform s).tls := by
  induction ws generalizing s with
  | nil => exact hf
  | cons a ws ih =>
    have ha := hws a List.mem_cons_self
    have hsplit : queued (a :: ws) = output a ++ queued ws := rfl
    rw [hsplit, ← List.append_assoc, ← (hs.writes_plain ha).unsent] at hroom
    have hroom' : (s.tls.unsent ++ output a).length < 2 ^ 31 := by
      rw [(hs.writes_plain ha).unsent, List.length_append] at hroom
      omega
    have hne : a ≠ .tlsWrite [] := fun heq => hfull (heq ▸ List.mem_cons_self)
    exact ih (hs.plain ha).working (hs.flushes_plain hf ha hne hroom') (fun b hb => hws b (List.mem_cons_of_mem a hb))
      (fun hmem => hfull (List.mem_cons_of_mem a hmem)) hroom

theorem Working.flushes_course {s : Session} (hs : Working s) (hf : Tls.Flushes s.tls) {actions : List Action}
    (h : Course actions) (hbrief : Brief actions) (hroom : s.tls.unsent.length + 64 < 2 ^ 31) :
    Tls.Flushes (actions.foldl perform s).tls := by
  have hroom' : (s.tls.unsent ++ queued actions).length < 2 ^ 31 := by
    have hlength := hbrief.length
    rw [List.length_append]
    omega
  have hfull := hbrief.full
  have hask : ∀ {ws : List Action} h n, (∀ a ∈ ws, a.Plain) → .tlsWrite [] ∉ ws →
      (s.tls.unsent ++ queued ws).length < 2 ^ 31 →
      Tls.Flushes ((ws ++ [Action.tlsRead h n]).foldl perform s).tls := by
    intro ws h n hws hfull hroom
    rw [List.foldl_append, List.foldl_cons, List.foldl_nil]
    exact flushes_tlsRead (hs.flushes_plains hf hws hfull hroom) h n
  cases h with
  | goesOn ws h hws hpush =>
    rw [queued_append_nil (show queued [.tlsReadLine h] = [] from rfl)] at hroom'
    exact hask h 0 hws (fun hmem => hfull (List.mem_append_left _ hmem)) hroom'
  | takes ws n hws hpos hlt =>
    have hsplit : ws ++ [.setInputLength n, .tlsRead .push n] = (ws ++ [.setInputLength n]) ++ [.tlsRead .push n] := by
      simp
    rw [hsplit] at hfull ⊢
    rw [hsplit, queued_append_nil (show queued [.tlsRead .push n] = [] from rfl)] at hroom'
    refine hask .push n (fun a ha => ?_) (fun hmem => hfull (List.mem_append_left _ hmem)) hroom'
    rcases List.mem_append.mp ha with ha | ha
    · exact hws a ha
    · rw [List.mem_singleton.mp ha]
      trivial
  | ends ws hws =>
    rw [queued_append_nil (show queued [.tlsShutdown, .connectionStop] = [] from rfl)] at hroom'
    rw [List.foldl_append, (hs.plains hws).working.shutdown]
    exact Tls.flushes_tlsShutdown (hs.flushes_plains hf hws (fun hmem => hfull (List.mem_append_left _ hmem)) hroom')
  | stalls _ hws => exact hs.flushes_plains hf hws hfull hroom'

/-! ### Steps -/

/-- Nothing was read ahead when data is asked for. -/
def Unmixed (s : Session) : Prop :=
  s.connection = .live → ∀ p h n, s.log.getLast? = some p → requests p.actions = [(h, n)] → n ≠ 0 →
    s.tls.inputBuffer = []

/-- What a step of a session is for its client. -/
inductive Moves (cfg : Config ρ) (s t : Session) : Prop
  | quiet : Tls.Flow none [] s.tls t.tls → t.log = s.log → t.connection = s.connection → Unmixed t → Moves cfg s t
  | connects : s.log = [] → Tls.Flow none [] s.tls t.tls → t.log = [⟨.connect .connect, handleConnect⟩] →
      t.connection = .live → Moves cfg s t
  | reads (p : Entry) (h : ReadHandler) (n : ℕ) (data : Bytes) : s.connection = .live → s.log.getLast? = some p →
      requests p.actions = [(h, n)] →
      Tls.Flow (some (.ofSize n, data)) (queued (handle cfg s.id n (.read h) data)) s.tls t.tls →
      t.log = s.log ++ [⟨.read (.read h) data, handle cfg s.id n (.read h) data⟩] →
      t.connection = (if .tlsShutdown ∈ handle cfg s.id n (.read h) data then .freed else .live) → Moves cfg s t
  | ends (q : Entry) : s.connection = .live → Ends q →
      Tls.Flow none (queued q.actions) s.tls t.tls → t.log = s.log ++ [q] → t.connection = .freed → Moves cfg s t

/-- What the connection of a session is waiting for. -/
theorem Sound.waiting {s : Session} (hs : Sound s) (halive : s.tls.freed = false) (hmix : Unmixed s) :
    ∃ r, (.read ∈ s.tls.loop.active → Tls.Waiting s.tls r) ∧
      ∀ p h n, s.connection = .live → s.log.getLast? = some p → requests p.actions = [(h, n)] →
        r = .ofSize n ∧ Awaits s h n := by
  cases hs.phase with
  | accepting _ hacc hlog hconn =>
    refine ⟨.line, fun hact => absurd hact hacc.read, fun p h n hlive => ?_⟩
    rw [hconn] at hlive
    cases hlive
  | waiting p h n ho hreq hawaits =>
    refine ⟨.ofSize n, fun _ => hawaits.expects.waiting fun hne => ?_, fun q h' n' _ hlast hreq' => ?_⟩
    · refine hmix ho.working.connection p h n ho.last hreq fun hn => hne ?_
      rw [hn]
      rfl
    · obtain rfl : q = p := Option.some.inj (hlast.symm.trans ho.last)
      obtain ⟨rfl, rfl⟩ : h' = h ∧ n' = n := by simpa using hreq'.symm.trans hreq
      exact ⟨rfl, hawaits⟩
  | stalled p ho hreq hoff =>
    refine ⟨.line, fun hact => absurd hact hoff, fun q h n _ hlast hreq' => ?_⟩
    obtain rfl : q = p := Option.some.inj (hlast.symm.trans ho.last)
    rw [hreq] at hreq'
    cases hreq'
  | closing p _ hclosing hconn hlast hends =>
    refine ⟨.line, fun hact => absurd hact hclosing.read, fun p h n hlive => ?_⟩
    rw [hconn] at hlive
    cases hlive
  | gone hgone => exact absurd (halive.symm.trans hgone) (by decide)

/-- A session that reads is waiting for what its last entry asks for. -/
theorem Sound.reading {s : Session} (hs : Sound s) (halive : s.tls.freed = false)
    (hact : .read ∈ s.tls.loop.active) : ∃ p h n, Opened s p ∧ requests p.actions = [(h, n)] ∧ Awaits s h n := by
  cases hs.phase with
  | accepting _ hacc hlog hconn => exact absurd hact hacc.read
  | waiting p h n ho hreq hawaits => exact ⟨p, h, n, ho, hreq, hawaits⟩
  | stalled p ho hreq hoff => exact absurd hact hoff
  | closing p _ hclosing hconn hlast hends => exact absurd hact hclosing.read
  | gone hgone => exact absurd (halive.symm.trans hgone) (by decide)

/-- The connection has made a step without a call of a handler. -/
theorem moves_quiet {s : Session} {u : Tls.State Handler} {r : Tls.Request}
    (hreq : ∀ p h n, s.connection = .live → s.log.getLast? = some p → requests p.actions = [(h, n)] →
      r = .ofSize n ∧ Awaits s h n)
    (hflow : Tls.Flow none [] s.tls u) (hwaits : .read ∈ s.tls.loop.active → Tls.Waiting u r) :
    Moves cfg s { s with tls := u } := by
  refine .quiet hflow rfl rfl fun hlive p h n hlast hreq' hn => ?_
  obtain ⟨rfl, hawaits⟩ := hreq p h n hlive hlast hreq'
  have hw := hwaits hawaits.active
  rw [show Tls.Request.ofSize n = .bytes n from if_neg hn] at hw
  exact hw.2.2.2.1

/-- `handle_connect()` writes nothing. -/
theorem writes_handleConnect {s : Session} (halive : s.tls.freed = false) (hruns : s.tls.died = false)
    (hf : Tls.Flushes s.tls) : Tls.Writes [] s.tls (handleConnect.foldl perform s).tls ∧
      Tls.Flushes (handleConnect.foldl perform s).tls := by
  have hside := Tls.beside_tlsOnTimeout (some Handler.timeout) s.tls
  have hfreed : (Tls.tlsOnTimeout (some Handler.timeout) s.tls).freed = false :=
    (Tls.freed_tlsOnTimeout (some Handler.timeout) s.tls).trans halive
  rw [perform_handleConnect halive hruns]
  have htimeout := Tls.writes_tlsOnTimeout (some Handler.timeout) s.tls
  have hset : ∀ t : Tls.State Handler,
      Tls.Writes [] t (Tls.tlsOnLineTooLong .lineTooLong (Tls.tlsOnError .error t)) := fun t =>
    Tls.writes_nil rfl rfl rfl rfl
  have hflushes : Tls.Flushes (Tls.tlsOnTimeout (some Handler.timeout) s.tls) :=
    Tls.flushes_of_side hf hside.side (hside.write hfreed).mp
  generalize Tls.tlsOnTimeout (some Handler.timeout) s.tls = t at htimeout hflushes
  let opened : Session := { s with
    tls := Tls.tlsOnLineTooLong .lineTooLong (Tls.tlsOnError .error t), connection := .live }
  exact ⟨(htimeout.trans (hset t)).trans (writes_tlsRead opened .handshake 0),
    flushes_tlsRead (s := opened) (Tls.flushes_of_side hflushes rfl id) .handshake 0⟩

/-- The handler of a session that goes on does its work. -/
theorem streams_answered {s : Session} {u : Tls.State Handler} {p : Entry} {upcall : Tls.Upcall Handler}
    {actions : List Action} {taken : Option (Tls.Request × Bytes)} (ho : Opened s p) (hfed : Tls.IoFed u)
    (hcalls : Tls.Calls [upcall] s.tls u) (hoff : .read ∉ u.loop.active)
    (hactions : answer cfg s.id s.inputLength upcall = actions) (hcourse : Course actions) (hbrief : Brief actions)
    (hblank : requests actions ≠ [] → Tls.Blank u) (hf : Tls.Flushes u) (hflow : Tls.Flow taken [] s.tls u)
    (hroom : s.tls.unsent.length + 64 < 2 ^ 31) :
    Tls.Flushes (react cfg s u).tls ∧ Tls.Flow taken (queued actions) s.tls (react cfg s u).tls ∧
      (react cfg s u).log = s.log ++ [⟨upcall, actions⟩] ∧
      (react cfg s u).connection = if .tlsShutdown ∈ actions then .freed else .live := by
  have hfin := finishes_answered ho hfed hcalls hoff hactions hcourse hblank
  have hworking : Working { s with
      tls := u, log := s.log ++ [⟨upcall, actions⟩], fault := s.fault || (u.freed && !beforeFree upcall) } :=
    ho.called hfed hcalls
  have hwrites := hworking.writes_course hcourse
  have hflushes := hworking.flushes_course hf hcourse hbrief (by
    have hle : u.unsent.length ≤ s.tls.unsent.length := hflow.length_unsent_le
    show u.unsent.length + 64 < 2 ^ 31
    omega)
  have hreact : react cfg s u = _ := react_call hcalls.upcalls
  rw [hactions] at hreact
  rw [← hreact] at hwrites hflushes
  exact ⟨hflushes, hflow.writes hwrites, hfin.log, hfin.connection⟩

/-- **A step of a session**, as its client sees it. -/
theorem moves_step {s t : Session} {e : Event} (hs : Serves cfg s) (hf : Tls.Flushes s.tls) (hmix : Unmixed s)
    (hroom : s.tls.unsent.length + 64 < 2 ^ 31) (h : step cfg s e = some t) : Tls.Flushes t.tls ∧ Moves cfg s t := by
  cases halive : s.tls.freed with
  | true => exact absurd h (by simp [step_freed hs.toSound halive])
  | false =>
    obtain ⟨u, hu, houtcome, hfed, rfl⟩ := step_alive hs.toSound halive h
    have hsame := same_of_upcalls (s := s) hu
    obtain ⟨r, hwaits, hreq⟩ := hs.toSound.waiting halive hmix
    obtain ⟨hfu, hflow⟩ := Tls.flow_stepAlive hs.fed halive hf (event_fromLoop e) hwaits hu
    -- a handler other than the read handlers is called, or none
    have hkept : ∀ {called : List (Tls.Upcall Handler)}, u.history.upcalls = s.tls.history.upcalls ++ called →
        called.filterMap Tls.Upcall.data? = [] →
        Tls.Flow none [] s.tls u ∧ (.read ∈ s.tls.loop.active → Tls.Waiting u r) := by
      intro called hupcalls hnone
      rcases hflow with ⟨-, hflow, hwaiting⟩ | ⟨data, hdata, -⟩
      · exact ⟨hflow, hwaiting⟩
      · simp [Tls.State.delivered, hupcalls, hnone] at hdata
    -- the session ends
    have hends : ∀ {p : Entry} {upcall : Tls.Upcall Handler} (actions : List Action), Opened s p →
        Tls.Calls [upcall] s.tls u → .read ∉ u.loop.active → upcall.data? = none →
        answer cfg s.id s.inputLength upcall = actions → Course actions → requests actions = [] →
        .tlsShutdown ∈ actions → Ends ⟨upcall, actions⟩ →
        Tls.Flushes (react cfg s u).tls ∧ Moves cfg s (react cfg s u) := by
      intro p upcall actions ho hcalls hoff hdata hactions hcourse hnil hshut hmem
      obtain ⟨hflow, -⟩ := hkept hcalls.upcalls (by simp [hdata])
      obtain ⟨hft, hflow', hlog, hconn⟩ := streams_answered ho hfed hcalls hoff hactions hcourse hmem.brief
        (fun hne => absurd hnil hne) hfu hflow hroom
      rw [if_pos hshut] at hconn
      exact ⟨hft, .ends _ ho.working.connection hmem hflow' hlog hconn⟩
    cases houtcome with
    | quiet hcalls _ _ _ =>
      obtain ⟨hflow, hwaiting⟩ := hkept hcalls.upcalls rfl
      rw [hsame (by simp [hcalls.upcalls]), react_quiet hcalls.upcalls]
      exact ⟨hfu, moves_quiet hreq hflow hwaiting⟩
    | freed hfreed hwhy =>
      have hupcalls : u.history.upcalls = s.tls.history.upcalls ++ [] := congrArg Tls.UserSide.upcalls hfreed.user
      obtain ⟨hflow, hwaiting⟩ := hkept hupcalls rfl
      rw [hsame (by simp [hupcalls]), react_quiet hupcalls]
      exact ⟨hfu, moves_quiet hreq hflow hwaiting⟩
    | @error handler hhandler hfreed =>
      have hupcalls : u.history.upcalls = s.tls.history.upcalls ++ [.error handler] :=
        congrArg Tls.UserSide.upcalls hfreed.user
      obtain ⟨hflow, -⟩ := hkept hupcalls rfl
      rw [hsame (by simp [hupcalls])]
      obtain ⟨p, ho⟩ := hs.toSound.opened halive (Or.inl (hhandler ▸ rfl))
      obtain rfl : handler = .error := Option.some.inj (hhandler.symm.trans ho.attended.error)
      rw [react_error ho halive hfreed]
      exact ⟨hfu, .ends ⟨.error .error, handleError⟩ ho.working.connection .error hflow rfl rfl⟩
    | read data hreader hact hcalls hoff hexp =>
      rw [hsame (by simp [hcalls.upcalls])]
      obtain ⟨p, h, n, ho, hreqs, hawaits⟩ := hs.toSound.reading halive hact
      obtain rfl := Option.some.inj (hreader.symm.trans hawaits.reader)
      obtain ⟨rfl, -⟩ := hreq p h n ho.working.connection ho.last hreqs
      have htaken : Tls.Flow (some (.ofSize n, data)) [] s.tls u := by
        rcases hflow with ⟨hdel, -, -⟩ | ⟨data', hdel, hflow⟩
        · simp [hcalls.delivered, Tls.Upcall.data?] at hdel
        · obtain rfl : data' = data := by simpa [hcalls.delivered, Tls.Upcall.data?] using hdel.symm
          exact hflow
      have hactions : answer cfg s.id s.inputLength (.read (.read h) data) = handle cfg s.id n (.read h) data :=
        handle_length hawaits.length data
      obtain ⟨hft, hflow', hlog, hconn⟩ := streams_answered ho hfed hcalls hoff hactions
        (course_handle cfg s.id n h data) (brief_handle cfg s.id n h data) (fun _ => (hexp _ hawaits.expects).2) hfu
        htaken hroom
      exact ⟨hft, .reads p h n data ho.working.connection ho.last hreqs hflow' hlog hconn⟩
    | @lineTooLong handler hhandler hact hcalls hoff =>
      rw [hsame (by simp [hcalls.upcalls])]
      obtain ⟨p, h, n, ho, -, -⟩ := hs.toSound.reading halive hact
      obtain rfl : handler = .lineTooLong := Option.some.inj (hhandler.symm.trans ho.attended.lineTooLong)
      exact hends handleLineTooLong ho hcalls hoff rfl rfl (course_bail _) rfl (by decide) .lineTooLong
    | connect hact hcalls hoff hin =>
      obtain ⟨hflow, -⟩ := hkept hcalls.upcalls rfl
      cases hs.phase with
      | accepting _ hacc hlog hconn =>
        rw [hacc.connect] at hcalls
        have hlive : u.freed = false := (congrArg Tls.UserSide.freed hcalls.user).trans halive
        have hruns : u.died = false := (congrArg Tls.UserSide.died hcalls.user).trans hs.runs
        let called : Session := { s with
          id := e.identity.or s.id
          tls := u
          log := s.log ++ [⟨.connect .connect, handleConnect⟩]
          fault := s.fault || (u.freed && !beforeFree (.connect .connect)) }
        have hreact : react cfg { s with id := e.identity.or s.id } u = handleConnect.foldl perform called :=
          react_call hcalls.upcalls
        obtain ⟨hwrites, hft⟩ := writes_handleConnect (s := called) hlive hruns hfu
        have hfin := finishes_connect (s := called) hfed hlive hruns (by simp [called, hs.sound, hlive])
          (hacc.calls hcalls hin) hoff (List.getLast?_concat)
        rw [hreact]
        refine ⟨hft, .connects hlog (hflow.writes hwrites) (hfin.log.trans ?_) hfin.connection⟩
        simp [called, hlog]
      | waiting p h n ho hreq hawaits => exact absurd hact ho.attended.init
      | stalled p ho hreq hoff => exact absurd hact ho.attended.init
      | closing p _ hclosing hconn hlast hends => exact absurd hact hclosing.init
      | gone hgone => exact absurd (halive.symm.trans hgone) (by decide)
    | @timeout handler hhandler hcalls hoff =>
      rw [hsame (by simp [hcalls.upcalls])]
      obtain ⟨p, ho⟩ := hs.toSound.opened halive (Or.inr (hhandler ▸ rfl))
      obtain rfl : handler = .timeout := Option.some.inj (hhandler.symm.trans ho.attended.timeout)
      exact hends handleTimeout ho hcalls (hoff .read (by decide)) rfl rfl (course_bail _) rfl (by decide)
        .timeout

end Server
end NscaNg
