/-
# The phases of a session

A session waits for the TLS handshake; it waits for a request or for data of the client; it waits for
nothing, after a NOOP request; it is being shut down; or its connection has been freed (`Phase`). In each
of them it is known which handlers are set and which watchers are active. Every step keeps what is said of
the phases and of the log (`serves_step`).
-/
import Mathlib.Data.List.Chain
import NscaNg.Server.SessionCalls

namespace NscaNg
namespace Server

open Posix Libev

variable {ρ : Type} {cfg : Config ρ}

/-! ### The log -/

/-- An entry behind another: it answers its request, or the session comes to an end. -/
inductive Answers (cfg : Config ρ) (id : Option Bytes) (p : Entry) : Entry → Prop
  | read {h : ReadHandler} {n : ℕ} {data : Bytes} : requests p.actions = [(h, n)] →
      Tls.Fits data (.ofSize n) → Answers cfg id p ⟨.read (.read h) data, handle cfg id n (.read h) data⟩
  | error : Answers cfg id p ⟨.error .error, handleError⟩
  | timeout : Answers cfg id p ⟨.timeout .timeout, handleTimeout⟩
  | lineTooLong : Answers cfg id p ⟨.lineTooLong .lineTooLong, handleLineTooLong⟩

structure Follows (cfg : Config ρ) (id : Option Bytes) (p q : Entry) : Prop where
  goesOn : .tlsShutdown ∉ p.actions
  answers : Answers cfg id p q

/-- The log begins with `handle_connect()`, and each further entry follows the one before. -/
structure Recorded (cfg : Config ρ) (id : Option Bytes) (log : List Entry) : Prop where
  chain : log.IsChain (Follows cfg id)
  head : ∀ q ∈ log.head?, q = ⟨.connect .connect, handleConnect⟩

theorem Recorded.snoc {id : Option Bytes} {log : List Entry} {p q : Entry} (h : Recorded cfg id log)
    (hlast : log.getLast? = some p) (hq : Follows cfg id p q) : Recorded cfg id (log ++ [q]) := by
  refine ⟨h.chain.append (.singleton q) fun x hx y hy => ?_, fun x hx => ?_⟩
  · rw [hlast, Option.mem_some_iff] at hx
    rw [List.head?_cons, Option.mem_some_iff] at hy
    rw [← hx, ← hy]
    exact hq
  · cases log with
    | nil => cases hlast
    | cons y ys => exact h.head x hx

/-- How often something was done. -/
def count (a : Action) (log : List Entry) : ℕ := (log.flatMap Entry.actions).count a

theorem count_append (a : Action) (log : List Entry) (p : Entry) :
    count a (log ++ [p]) = count a log + p.actions.count a := by
  simp [count, List.count_append]

/-- The log says what has become of the `connection_state`. -/
structure Balanced (s : Session) : Prop where
  allocated : count .allocate s.log = if s.connection = .absent then 0 else 1
  stopped : count .connectionStop s.log = if s.connection = .freed then 1 else 0

/-! ### Phases -/

/-- The TLS handshake is not over. -/
structure Accepting (t : Tls.State Handler) : Prop where
  connect : t.connectHandler = .connect
  reader : t.readHandler = none
  error : t.errorHandler = none
  timeout : t.timeoutHandler = none
  lineTooLong : t.lineTooLongHandler = none
  drain : t.shutdownOnDrain = false
  read : .read ∉ t.loop.active
  write : .write ∉ t.loop.active
  shutdown : .shutdown ∉ t.loop.active
  blank : Tls.Blank t

/-- The handlers of the server are set. -/
structure Attended (t : Tls.State Handler) : Prop where
  error : t.errorHandler = some .error
  timeout : t.timeoutHandler = some .timeout
  lineTooLong : t.lineTooLongHandler = some .lineTooLong
  drain : t.shutdownOnDrain = false
  init : .init ∉ t.loop.active
  shutdown : .shutdown ∉ t.loop.active

/-- `tls_shutdown()` has been called. -/
structure Closing (t : Tls.State Handler) : Prop where
  error : t.errorHandler = none
  timeout : t.timeoutHandler = none
  drain : t.shutdownOnDrain = true
  init : .init ∉ t.loop.active
  read : .read ∉ t.loop.active

/-- The handler waits for a line, or for so many bytes. -/
structure Awaits (s : Session) (h : ReadHandler) (n : ℕ) : Prop where
  active : .read ∈ s.tls.loop.active
  reader : s.tls.readHandler = some (.read h)
  expects : Tls.Expects s.tls (.ofSize n)
  length : h = .push → s.inputLength = n

/-- The session goes on. `p` is the last entry of the log. -/
structure Opened (s : Session) (p : Entry) : Prop where
  working : Working s
  attended : Attended s.tls
  last : s.log.getLast? = some p
  goesOn : .tlsShutdown ∉ p.actions

/-- The phases of a session. -/
inductive Phase (s : Session) : Prop
  | accepting : s.tls.freed = false → Accepting s.tls → s.log = [] → s.connection = .absent → Phase s
  | waiting (p : Entry) (h : ReadHandler) (n : ℕ) : Opened s p → requests p.actions = [(h, n)] → Awaits s h n →
      Phase s
  | stalled (p : Entry) : Opened s p → requests p.actions = [] → .read ∉ s.tls.loop.active → Phase s
  | closing (p : Entry) : s.tls.freed = false → Closing s.tls → s.connection = .freed →
      s.log.getLast? = some p → .tlsShutdown ∈ p.actions → Phase s
  | gone : s.tls.freed = true → s.tls.loop.active = ∅ → s.connection ≠ .live → Phase s

/-- What holds of a session between the steps. -/
structure Sound (s : Session) : Prop where
  fed : Tls.IoFed s.tls
  runs : s.tls.died = false
  sound : s.fault = false
  balanced : Balanced s
  phase : Phase s

/-- What holds of a session and its log between the steps. -/
structure Serves (cfg : Config ρ) (s : Session) : Prop extends Sound s where
  recorded : Recorded cfg s.id s.log

theorem Attended.calls {called : List (Tls.Upcall Handler)} {t u : Tls.State Handler} (ht : Attended t)
    (h : Tls.Calls called t u) : Attended u where
  error := (congrArg Tls.UserSide.errorHandler h.user).trans ht.error
  timeout := (congrArg Tls.UserSide.timeoutHandler h.user).trans ht.timeout
  lineTooLong := (congrArg Tls.UserSide.lineTooLongHandler h.user).trans ht.lineTooLong
  drain := (congrArg Tls.UserSide.shutdownOnDrain h.user).trans ht.drain
  init hact := (h.off .init (by decide) hact).elim ht.init fun hs => absurd hs.1 (by decide)
  shutdown hact := (h.off .shutdown (by decide) hact).elim ht.shutdown fun hs =>
    absurd (ht.drain.symm.trans hs.2) (by decide)

theorem Attended.alike {t u : Tls.State Handler} (ht : Attended t) (h : Tls.Alike t u) : Attended u where
  error := (congrArg Tls.UserSide.errorHandler h.user).trans ht.error
  timeout := (congrArg Tls.UserSide.timeoutHandler h.user).trans ht.timeout
  lineTooLong := (congrArg Tls.UserSide.lineTooLongHandler h.user).trans ht.lineTooLong
  drain := (congrArg Tls.UserSide.shutdownOnDrain h.user).trans ht.drain
  init hact := ht.init ((h.active .init (by decide)).mp hact)
  shutdown hact := ht.shutdown ((h.active .shutdown (by decide)).mp hact)

theorem Attended.not_unattended {t : Tls.State Handler} (ht : Attended t) : ¬ Tls.Unattended t := by
  intro h
  rcases h with h | h | h | h
  · rw [ht.error] at h
    cases h
  · exact ht.init h
  · exact ht.shutdown h
  · rw [ht.drain] at h
    cases h

theorem Closing.calls {called : List (Tls.Upcall Handler)} {t u : Tls.State Handler} (ht : Closing t)
    (h : Tls.Calls called t u) : Closing u where
  error := (congrArg Tls.UserSide.errorHandler h.user).trans ht.error
  timeout := (congrArg Tls.UserSide.timeoutHandler h.user).trans ht.timeout
  drain := (congrArg Tls.UserSide.shutdownOnDrain h.user).trans ht.drain
  init hact := (h.off .init (by decide) hact).elim ht.init fun hs => absurd hs.1 (by decide)
  read hact := (h.off .read (by decide) hact).elim ht.read fun hs => absurd hs.1 (by decide)

theorem Accepting.calls {called : List (Tls.Upcall Handler)} {t u : Tls.State Handler} (ht : Accepting t)
    (h : Tls.Calls called t u) (hin : .read ∉ t.loop.active → u.inputSide = t.inputSide) : Accepting u where
  connect := (congrArg Tls.UserSide.connectHandler h.user).trans ht.connect
  reader := (congrArg Tls.UserSide.readHandler h.user).trans ht.reader
  error := (congrArg Tls.UserSide.errorHandler h.user).trans ht.error
  timeout := (congrArg Tls.UserSide.timeoutHandler h.user).trans ht.timeout
  lineTooLong := (congrArg Tls.UserSide.lineTooLongHandler h.user).trans ht.lineTooLong
  drain := (congrArg Tls.UserSide.shutdownOnDrain h.user).trans ht.drain
  read hact := (h.off .read (by decide) hact).elim ht.read fun hs => absurd hs.1 (by decide)
  write hact := (h.off .write (by decide) hact).elim ht.write fun hs => absurd hs.1 (by decide)
  shutdown hact := (h.off .shutdown (by decide) hact).elim ht.shutdown fun hs =>
    absurd (ht.drain.symm.trans hs.2) (by decide)
  blank := ht.blank.of_side (hin ht.read)

/-! ### What plain things leave out -/

theorem requests_append (as bs : List Action) : requests (as ++ bs) = requests as ++ requests bs :=
  List.filterMap_append

theorem requests_plain {ws : List Action} (h : ∀ a ∈ ws, a.Plain) : requests ws = [] := by
  refine List.filterMap_eq_nil_iff.mpr fun a ha => ?_
  have hplain := h a ha
  cases a with
  | tlsRead handler size => exact hplain.elim
  | _ => rfl

theorem notMem_plain {ws : List Action} (h : ∀ a ∈ ws, a.Plain) {a : Action} (ha : ¬ a.Plain) : a ∉ ws :=
  fun hmem => ha (h a hmem)

/-- What is allocated and freed on a course. -/
theorem Course.balance {actions : List Action} (h : Course actions) :
    actions.count .allocate = 0 ∧
      actions.count .connectionStop = if .tlsShutdown ∈ actions then 1 else 0 := by
  have hplain : ∀ ws : List Action, (∀ a ∈ ws, a.Plain) →
      ws.count .allocate = 0 ∧ ws.count .connectionStop = 0 ∧ .tlsShutdown ∉ ws := by
    intro ws hws
    refine ⟨List.count_eq_zero.mpr ?_, List.count_eq_zero.mpr ?_, ?_⟩
    · exact notMem_plain hws (by simp [Action.Plain])
    · exact notMem_plain hws (by simp [Action.Plain])
    · exact notMem_plain hws (by simp [Action.Plain])
  cases h with
  | goesOn ws h hws hpush =>
    obtain ⟨hallocate, hstop, hoff⟩ := hplain ws hws
    simp [List.count_append, hallocate, hstop, hoff]
  | takes ws n hws hpos hlt =>
    obtain ⟨hallocate, hstop, hoff⟩ := hplain ws hws
    simp [List.count_append, hallocate, hstop, hoff]
  | ends ws hws =>
    obtain ⟨hallocate, hstop, -⟩ := hplain ws hws
    simp [List.count_append, hallocate, hstop]
  | stalls _ hws =>
    obtain ⟨hallocate, hstop, hoff⟩ := hplain _ hws
    simp [hallocate, hstop, hoff]

/-! ### The end of a handler -/

/-- A handler has done its work. -/
structure Finishes (s t : Session) (connection : Connection) : Prop where
  fed : Tls.IoFed t.tls
  alive : t.tls.freed = false
  runs : t.tls.died = false
  sound : t.fault = false
  connection : t.connection = connection
  log : t.log = s.log
  id : t.id = s.id
  phase : Phase t

theorem Proceeds.finishes {s u t : Session} {connection : Connection} (h : Proceeds s u)
    (h' : Finishes u t connection) : Finishes s t connection :=
  ⟨h'.fed, h'.alive, h'.runs, h'.sound, h'.connection, h'.log.trans h.log, h'.id.trans h.id, h'.phase⟩

/-- The handler waits for what it has asked for. -/
theorem finishes_tlsRead {s : Session} {p : Entry} (hs : Working s) (hatt : Attended s.tls)
    (hoff : .read ∉ s.tls.loop.active) (hblank : Tls.Blank s.tls) {h : ReadHandler} {n : ℕ} (hn : n < 2 ^ 31)
    (hlength : h = .push → s.inputLength = n) (hlast : s.log.getLast? = some p)
    (hreq : requests p.actions = [(h, n)]) (hgoes : .tlsShutdown ∉ p.actions) :
    Finishes s (perform s (.tlsRead h n)) .live := by
  rw [hs.tlsRead hoff h n]
  have hfed : Tls.IoFed (s.tls.ask (.read h) n) := Tls.ioFed_loop hs.fed rfl
  have harm := Tls.ioFed_arm hfed (w := .read) (by decide) .read
  have hworking : Working { s with tls := (s.tls.ask (.read h) n).arm .read .read } :=
    ⟨harm, hs.alive, hs.runs, hs.connection, hs.sound⟩
  refine ⟨harm, hs.alive, hs.runs, hs.sound, hs.connection, rfl, rfl, .waiting p h n ⟨hworking, ?_, hlast, hgoes⟩ hreq ?_⟩
  · refine ⟨hatt.error, hatt.timeout, hatt.lineTooLong, hatt.drain, fun hact => ?_, fun hact => ?_⟩
    · exact hatt.init (by simpa [Tls.State.arm, Tls.State.ask] using hact)
    · exact hatt.shutdown (by simpa [Tls.State.arm, Tls.State.ask] using hact)
  · have hexp := Tls.expects_ask hblank (.read h) hn
    exact ⟨by simp [Tls.State.arm], rfl, hexp.of_side rfl, hlength⟩

/-- The connection is being shut down. -/
theorem finishes_tlsShutdown {s : Session} {p : Entry} (hs : Working s) (hatt : Attended s.tls)
    (hoff : .read ∉ s.tls.loop.active) (hlast : s.log.getLast? = some p) (hends : .tlsShutdown ∈ p.actions) :
    Finishes s ([.tlsShutdown, .connectionStop].foldl perform s) .freed := by
  rw [hs.shutdown]
  have huser := Tls.userSide_tlsShutdown s.tls
  have hdied : (Tls.tlsShutdown s.tls).died = s.tls.died := congrArg Tls.UserSide.died huser
  have hfreed : (Tls.tlsShutdown s.tls).freed = s.tls.freed := congrArg Tls.UserSide.freed huser
  have hclosing : Closing (Tls.tlsShutdown s.tls) := by
    refine ⟨congrArg Tls.UserSide.errorHandler huser, congrArg Tls.UserSide.timeoutHandler huser,
      congrArg Tls.UserSide.shutdownOnDrain huser, fun hact => ?_, fun hact => ?_⟩
    · exact hatt.init (((Tls.mem_tlsShutdown_active s.tls .init).mp hact).resolve_right (by simp))
    · exact hoff (((Tls.mem_tlsShutdown_active s.tls .read).mp hact).resolve_right (by simp))
  exact ⟨Tls.ioFed_tlsShutdown hs.fed, hfreed.trans hs.alive, hdied.trans hs.runs, hs.sound, rfl, rfl, rfl,
    .closing p (hfreed.trans hs.alive) hclosing rfl hlast hends⟩

/-- A handler at work takes its course. -/
theorem finishes_course {s : Session} {p : Entry} (hs : Working s) (hatt : Attended s.tls)
    (hoff : .read ∉ s.tls.loop.active) (hblank : requests p.actions ≠ [] → Tls.Blank s.tls)
    (hlast : s.log.getLast? = some p) (hp : Course p.actions) :
    Finishes s (p.actions.foldl perform s) (if .tlsShutdown ∈ p.actions then .freed else .live) := by
  obtain ⟨upcall, actions⟩ := p
  dsimp only at hp hblank ⊢
  have hplain : ∀ ws : List Action, (∀ a ∈ ws, a.Plain) → .tlsShutdown ∉ ws :=
    fun ws hws => notMem_plain hws (by simp [Action.Plain])
  -- plain things come first, and then the handler's last call or two
  cases hp with
  | goesOn ws h hws hpush =>
    have hpro := hs.plains hws
    have hreq : requests (ws ++ [.tlsReadLine h]) = [(h, 0)] := by
      rw [requests_append, requests_plain hws]
      rfl
    have hgoes : .tlsShutdown ∉ ws ++ [.tlsReadLine h] := by simp [hplain ws hws]
    have hblank' := (hblank (hreq ▸ List.cons_ne_nil _ _)).of_side hpro.tls.input
    have hoff' := mt (hpro.tls.active .read (by decide)).mp hoff
    have hlast' := (congrArg List.getLast? hpro.log).trans hlast
    rw [if_neg hgoes, List.foldl_append]
    exact hpro.finishes (finishes_tlsRead hpro.working (hatt.alike hpro.tls) hoff' hblank' (by norm_num)
      (fun hc => absurd hc hpush) hlast' hreq hgoes)
  | takes ws n hws hpos hlt =>
    have hset : ∀ a ∈ ws ++ [.setInputLength n], a.Plain := by
      intro a ha
      rcases List.mem_append.mp ha with ha | ha
      · exact hws a ha
      · rw [List.mem_singleton.mp ha]
        trivial
    have hpro := hs.plains hset
    have hlength : ((ws ++ [Action.setInputLength n]).foldl perform s).inputLength = n := by
      have hbefore := hs.plains hws
      rw [List.foldl_append, List.foldl_cons, List.foldl_nil, perform_eq hbefore.working.runs, act,
        use_eq hbefore.working.connection]
    have hsplit : ws ++ [.setInputLength n, .tlsRead .push n] = (ws ++ [.setInputLength n]) ++ [.tlsRead .push n] := by
      simp
    rw [hsplit] at hblank hlast ⊢
    have hreq : requests ((ws ++ [.setInputLength n]) ++ [.tlsRead .push n]) = [(.push, n)] := by
      rw [requests_append, requests_plain hset]
      rfl
    have hgoes : .tlsShutdown ∉ (ws ++ [.setInputLength n]) ++ [.tlsRead .push n] := by
      simp [hplain ws hws]
    have hblank' := (hblank (hreq ▸ List.cons_ne_nil _ _)).of_side hpro.tls.input
    have hoff' := mt (hpro.tls.active .read (by decide)).mp hoff
    have hlast' := (congrArg List.getLast? hpro.log).trans hlast
    rw [if_neg hgoes, List.foldl_append]
    exact hpro.finishes (finishes_tlsRead hpro.working (hatt.alike hpro.tls) hoff' hblank' hlt
      (fun _ => hlength) hlast' hreq hgoes)
  | ends ws hws =>
    have hpro := hs.plains hws
    have hends : .tlsShutdown ∈ ws ++ [.tlsShutdown, .connectionStop] := by simp
    have hoff' := mt (hpro.tls.active .read (by decide)).mp hoff
    have hlast' := (congrArg List.getLast? hpro.log).trans hlast
    rw [if_pos hends, List.foldl_append]
    exact hpro.finishes (finishes_tlsShutdown hpro.working (hatt.alike hpro.tls) hoff' hlast' hends)
  | stalls _ hws =>
    have hpro := hs.plains hws
    have hoff' := mt (hpro.tls.active .read (by decide)).mp hoff
    have hlast' := (congrArg List.getLast? hpro.log).trans hlast
    have hw := hpro.working
    rw [if_neg (hplain _ hws)]
    exact ⟨hw.fed, hw.alive, hw.runs, hw.sound, hw.connection, hpro.log, hpro.id,
      .stalled _ ⟨hw, hatt.alike hpro.tls, hlast', hplain _ hws⟩ (requests_plain hws) hoff'⟩

theorem perform_call {s : Session} {a : Action} {e : Tls.Event Handler} {t : Tls.State Handler}
    (halive : s.tls.freed = false) (hruns : s.tls.died = false) (ha : act s a = s.call e)
    (h : Tls.stepAlive s.tls e = some t) : perform s a = { s with tls := t } := by
  rw [perform_eq hruns, ha, call_eq halive hruns h]

/-- `handle_connect()` sets the other handlers and asks for the first line. -/
theorem perform_handleConnect {s : Session} (halive : s.tls.freed = false) (hruns : s.tls.died = false) :
    handleConnect.foldl perform s = perform { s with
      tls := Tls.tlsOnLineTooLong .lineTooLong (Tls.tlsOnError .error (Tls.tlsOnTimeout (some .timeout) s.tls))
      connection := .live } (.tlsReadLine .handshake) := by
  have huser := Tls.userSide_tlsOnTimeout (some .timeout) s.tls
  have halive' := (congrArg Tls.UserSide.freed huser).trans halive
  have hruns' := (congrArg Tls.UserSide.died huser).trans hruns
  have hallocate : perform s .allocate = { s with connection := .live } := perform_eq hruns .allocate
  have htimeout : perform { s with connection := .live } .tlsOnTimeout =
      { s with tls := Tls.tlsOnTimeout (some .timeout) s.tls, connection := .live } :=
    perform_call halive hruns rfl rfl
  unfold handleConnect
  rw [List.foldl_cons, hallocate, List.foldl_cons, htimeout]
  generalize Tls.tlsOnTimeout (some .timeout) s.tls = t at halive' hruns'
  have herror : perform { s with tls := t, connection := .live } .tlsOnError =
      { s with tls := Tls.tlsOnError .error t, connection := .live } := perform_call halive' hruns' rfl rfl
  have hlong : perform { s with tls := Tls.tlsOnError .error t, connection := .live } .tlsOnLineTooLong =
      { s with tls := Tls.tlsOnLineTooLong .lineTooLong (Tls.tlsOnError .error t), connection := .live } :=
    perform_call halive' hruns' rfl rfl
  rw [List.foldl_cons, herror, List.foldl_cons, hlong]
  rfl

theorem finishes_connect {s : Session} (hfed : Tls.IoFed s.tls) (halive : s.tls.freed = false)
    (hruns : s.tls.died = false) (hsound : s.fault = false) (hacc : Accepting s.tls)
    (hinit : .init ∉ s.tls.loop.active) {upcall : Tls.Upcall Handler}
    (hlast : s.log.getLast? = some ⟨upcall, handleConnect⟩) :
    Finishes s (handleConnect.foldl perform s) .live := by
  have huser := Tls.userSide_tlsOnTimeout (some .timeout) s.tls
  have hactive := fun w hw => Tls.mem_tlsOnTimeout_active (w := w) (some Handler.timeout) s.tls hw
  have hfed' := Tls.ioFed_tlsOnTimeout hfed (some Handler.timeout)
  have hblank := hacc.blank.of_side (Tls.frame_tlsOnTimeout (v := .read) (by decide) (some .timeout) s.tls).side
  rw [perform_handleConnect halive hruns]
  generalize Tls.tlsOnTimeout (some .timeout) s.tls = t at huser hactive hfed' hblank
  have hworking : Working { s with
      tls := Tls.tlsOnLineTooLong .lineTooLong (Tls.tlsOnError .error t), connection := .live } :=
    ⟨Tls.ioFed_loop hfed' rfl, (congrArg Tls.UserSide.freed huser).trans halive,
      (congrArg Tls.UserSide.died huser).trans hruns, rfl, hsound⟩
  have hattended : Attended (Tls.tlsOnLineTooLong .lineTooLong (Tls.tlsOnError .error t)) :=
    ⟨rfl, congrArg Tls.UserSide.timeoutHandler huser, rfl,
      (congrArg Tls.UserSide.shutdownOnDrain huser).trans hacc.drain, mt (hactive .init (by decide)).mp hinit,
      mt (hactive .shutdown (by decide)).mp hacc.shutdown⟩
  have hread := finishes_tlsRead hworking hattended (mt (hactive .read (by decide)).mp hacc.read)
    ⟨hblank.input, hblank.offset⟩ (h := .handshake) (n := 0) (by norm_num) (fun hc => absurd hc (by decide)) hlast
    rfl (by simp [handleConnect])
  exact ⟨hread.fed, hread.alive, hread.runs, hread.sound, hread.connection, hread.log, hread.id, hread.phase⟩

/-! ### Steps -/

theorem react_quiet {s : Session} {t : Tls.State Handler} (h : t.history.upcalls = s.tls.history.upcalls ++ []) :
    react cfg s t = { s with tls := t } := by
  unfold react
  rw [h, List.drop_left]

theorem react_call {s : Session} {t : Tls.State Handler} {upcall : Tls.Upcall Handler}
    (h : t.history.upcalls = s.tls.history.upcalls ++ [upcall]) :
    react cfg s t = (answer cfg s.id s.inputLength upcall).foldl perform
      { s with
        tls := t
        log := s.log ++ [⟨upcall, answer cfg s.id s.inputLength upcall⟩]
        fault := s.fault || (t.freed && !beforeFree upcall) } := by
  unfold react
  rw [h, List.drop_left]

/-- What a handler does depends on the length only where it is given data of this length. -/
theorem handle_length {id : Option Bytes} {h : ReadHandler} {n m : ℕ} (hn : h = .push → n = m) (data : Bytes) :
    handle cfg id n (.read h) data = handle cfg id m (.read h) data := by
  cases h with
  | handshake => rfl
  | connection => rfl
  | push => rw [hn rfl]

theorem Opened.balanced {s : Session} {p : Entry} (h : Opened s p) (hs : Balanced s) :
    count .allocate s.log = 1 ∧ count .connectionStop s.log = 0 := by
  have hallocated := hs.allocated
  have hstopped := hs.stopped
  rw [h.working.connection] at hallocated hstopped
  exact ⟨hallocated, hstopped⟩

/-- The handler of a session that goes on is at work. -/
theorem Opened.called {s : Session} {t : Tls.State Handler} {p q : Entry} {upcall : Tls.Upcall Handler}
    (ho : Opened s p) (hfed : Tls.IoFed t) (hcalls : Tls.Calls [upcall] s.tls t) : Working { s with
      tls := t, log := s.log ++ [q], fault := s.fault || (t.freed && !beforeFree upcall) } := by
  have hfreed : t.freed = false := (congrArg Tls.UserSide.freed hcalls.user).trans ho.working.alive
  have hruns : t.died = false := (congrArg Tls.UserSide.died hcalls.user).trans ho.working.runs
  exact ⟨hfed, hfreed, hruns, ho.working.connection, by simp [ho.working.sound, hfreed]⟩

/-- The handler of a session that goes on has done its work. -/
theorem finishes_answered {s : Session} {t : Tls.State Handler} {p : Entry} {upcall : Tls.Upcall Handler}
    {actions : List Action} (ho : Opened s p) (hfed : Tls.IoFed t) (hcalls : Tls.Calls [upcall] s.tls t)
    (hoff : .read ∉ t.loop.active) (hactions : answer cfg s.id s.inputLength upcall = actions)
    (hcourse : Course actions) (hblank : requests actions ≠ [] → Tls.Blank t) :
    Finishes { s with
      tls := t, log := s.log ++ [⟨upcall, actions⟩], fault := s.fault || (t.freed && !beforeFree upcall) }
      (react cfg s t) (if .tlsShutdown ∈ actions then .freed else .live) := by
  rw [react_call hcalls.upcalls, hactions]
  have hlast : (s.log ++ [(⟨upcall, actions⟩ : Entry)]).getLast? = some ⟨upcall, actions⟩ := List.getLast?_concat
  exact finishes_course (ho.called hfed hcalls) (ho.attended.calls hcalls) hoff hblank hlast hcourse

/-- The handler of a session that goes on is called. -/
theorem serves_answered {s : Session} {t : Tls.State Handler} {p : Entry} {upcall : Tls.Upcall Handler}
    (hs : Serves cfg s) (ho : Opened s p) (hfed : Tls.IoFed t) (hcalls : Tls.Calls [upcall] s.tls t)
    (hoff : .read ∉ t.loop.active) (hanswers : Answers cfg s.id p ⟨upcall, answer cfg s.id s.inputLength upcall⟩)
    (hcourse : Course (answer cfg s.id s.inputLength upcall))
    (hblank : requests (answer cfg s.id s.inputLength upcall) ≠ [] → Tls.Blank t) :
    Serves cfg (react cfg s t) := by
  have hfin := finishes_answered ho hfed hcalls hoff rfl hcourse hblank
  have hlog := hs.recorded.snoc ho.last ⟨ho.goesOn, hanswers⟩
  obtain ⟨hallocated, hstopped⟩ := ho.balanced hs.balanced
  obtain ⟨hnone, hone⟩ := hcourse.balance
  generalize answer cfg s.id s.inputLength upcall = actions at hfin hlog hnone hone
  generalize react cfg s t = u at hfin
  have hconn := hfin.connection
  refine ⟨⟨hfin.fed, hfin.runs, hfin.sound, ⟨?_, ?_⟩, hfin.phase⟩, ?_⟩
  · rw [hfin.log, count_append, hallocated, hnone, hconn]
    by_cases hends : .tlsShutdown ∈ actions
    · simp [hends]
    · simp [hends]
  · rw [hfin.log, count_append, hstopped, hone, hconn]
    by_cases hends : .tlsShutdown ∈ actions
    · simp [hends]
    · simp [hends]
  · rw [hfin.log, hfin.id]
    exact hlog

/-- Nothing is called. -/
theorem serves_quiet {s : Session} {t : Tls.State Handler} (hs : Serves cfg s) (halive : s.tls.freed = false)
    (hfed : Tls.IoFed t) (hcalls : Tls.Calls [] s.tls t)
    (hread : s.tls.readHandler.isSome → .read ∈ s.tls.loop.active → .read ∈ t.loop.active)
    (hexp : ∀ r, Tls.Expects s.tls r → Tls.Expects t r)
    (hin : .read ∉ s.tls.loop.active → t.inputSide = s.tls.inputSide) : Serves cfg { s with tls := t } := by
  have hfreed : t.freed = false := (congrArg Tls.UserSide.freed hcalls.user).trans halive
  have hruns : t.died = false := (congrArg Tls.UserSide.died hcalls.user).trans hs.runs
  have hreader : t.readHandler = s.tls.readHandler := congrArg Tls.UserSide.readHandler hcalls.user
  have hopened : ∀ p, Opened s p → Opened { s with tls := t } p := fun p ho =>
    ⟨⟨hfed, hfreed, hruns, ho.working.connection, hs.sound⟩, ho.attended.calls hcalls, ho.last, ho.goesOn⟩
  refine ⟨⟨hfed, hruns, hs.sound, ⟨hs.balanced.allocated, hs.balanced.stopped⟩, ?_⟩, hs.recorded⟩
  cases hs.phase with
  | accepting _ hacc hlog hconn => exact .accepting hfreed (hacc.calls hcalls hin) hlog hconn
  | waiting p h n ho hreq hawaits =>
    have hactive := hread (hawaits.reader ▸ rfl) hawaits.active
    exact .waiting p h n (hopened p ho) hreq
      ⟨hactive, hreader.trans hawaits.reader, hexp _ hawaits.expects, hawaits.length⟩
  | stalled p ho hreq hoff =>
    refine .stalled p (hopened p ho) hreq fun hact => ?_
    exact (hcalls.off .read (by decide) hact).elim hoff fun hst => absurd hst.1 (by decide)
  | closing p _ hclosing hconn hlast hends => exact .closing p hfreed (hclosing.calls hcalls) hconn hlast hends
  | gone hgone => exact absurd (halive.symm.trans hgone) (by decide)

/-- The connection is freed, and no handler is called: none is set any more, or not yet. -/
theorem serves_freed {s : Session} {t : Tls.State Handler} (hs : Serves cfg s) (halive : s.tls.freed = false)
    (hfed : Tls.IoFed t) (hfreed : Tls.Freed [] s.tls t)
    (hwhy : Tls.Unattended s.tls ∨ s.tls.lineTooLongHandler = none ∨ s.tls.timeoutHandler = none) :
    Serves cfg { s with tls := t } := by
  have hgone : t.freed = true := congrArg Tls.UserSide.freed hfreed.user
  have hruns : t.died = false := (hfreed.runs halive).trans hs.runs
  have hopened : ∀ p, ¬ Opened s p := by
    intro p ho
    rcases hwhy with hwhy | hwhy | hwhy
    · exact ho.attended.not_unattended hwhy
    · exact absurd (hwhy.symm.trans ho.attended.lineTooLong) (by decide)
    · exact absurd (hwhy.symm.trans ho.attended.timeout) (by decide)
  have hconn : s.connection ≠ .live := by
    cases hs.phase with
    | accepting _ hacc hlog hconn => simp [hconn]
    | waiting p h n ho hreq hawaits => exact absurd ho (hopened p)
    | stalled p ho hreq hoff => exact absurd ho (hopened p)
    | closing p _ hclosing hconn hlast hends => simp [hconn]
    | gone _ _ hconn => exact hconn
  exact ⟨⟨hfed, hruns, hs.sound, ⟨hs.balanced.allocated, hs.balanced.stopped⟩, .gone hgone hfreed.inactive hconn⟩,
    hs.recorded⟩

/-- A session whose handlers are set goes on. -/
theorem Sound.opened {s : Session} (hs : Sound s) (halive : s.tls.freed = false)
    (hset : s.tls.errorHandler.isSome ∨ s.tls.timeoutHandler.isSome) : ∃ p, Opened s p := by
  have hnone : s.tls.errorHandler = none → s.tls.timeoutHandler ≠ none := by
    intro herror htimeout
    rw [herror, htimeout] at hset
    simp at hset
  cases hs.phase with
  | accepting _ hacc hlog hconn => exact absurd hacc.timeout (hnone hacc.error)
  | waiting p h n ho hreq hawaits => exact ⟨p, ho⟩
  | stalled p ho hreq hoff => exact ⟨p, ho⟩
  | closing p _ hclosing hconn hlast hends => exact absurd hclosing.timeout (hnone hclosing.error)
  | gone hgone => exact absurd (halive.symm.trans hgone) (by decide)

theorem react_error {s : Session} {t : Tls.State Handler} {p : Entry} (ho : Opened s p) (halive : s.tls.freed = false)
    (hfreed : Tls.Freed [.error .error] s.tls t) : react cfg s t = { s with
      tls := t, connection := .freed, log := s.log ++ [⟨.error .error, handleError⟩], fault := false } := by
  have hruns : t.died = false := (hfreed.runs halive).trans ho.working.runs
  have hupcalls : t.history.upcalls = s.tls.history.upcalls ++ [.error .error] :=
    congrArg Tls.UserSide.upcalls hfreed.user
  have hquiet : (s.fault || (t.freed && !beforeFree (.error .error))) = false := by
    simp [ho.working.sound, beforeFree]
  rw [react_call hupcalls, hquiet]
  exact (perform_eq hruns .connectionStop).trans (act_connectionStop ho.working.connection)

/-- The error handler is called, and the connection is freed. -/
theorem serves_error {s : Session} {t : Tls.State Handler} {handler : Handler} (hs : Serves cfg s)
    (halive : s.tls.freed = false) (hfed : Tls.IoFed t) (hhandler : s.tls.errorHandler = some handler)
    (hfreed : Tls.Freed [.error handler] s.tls t) : Serves cfg (react cfg s t) := by
  obtain ⟨p, ho⟩ := hs.toSound.opened halive (Or.inl (hhandler ▸ rfl))
  obtain rfl : handler = .error := Option.some.inj (hhandler.symm.trans ho.attended.error)
  have hgone : t.freed = true := congrArg Tls.UserSide.freed hfreed.user
  have hruns : t.died = false := (hfreed.runs halive).trans hs.runs
  obtain ⟨hallocated, hstopped⟩ := ho.balanced hs.balanced
  rw [react_error ho halive hfreed]
  refine ⟨⟨hfed, hruns, rfl, ⟨?_, ?_⟩, .gone hgone hfreed.inactive (by simp)⟩,
    hs.recorded.snoc ho.last ⟨ho.goesOn, .error⟩⟩
  · rw [count_append, hallocated]
    rfl
  · rw [count_append, hstopped]
    rfl

/-- The TLS handshake is over. -/
theorem serves_connect {s : Session} {t : Tls.State Handler} (hs : Serves cfg s) (halive : s.tls.freed = false)
    (hfed : Tls.IoFed t) (hact : .init ∈ s.tls.loop.active) (hcalls : Tls.Calls [.connect s.tls.connectHandler] s.tls t)
    (hoff : .init ∉ t.loop.active) (hin : .read ∉ s.tls.loop.active → t.inputSide = s.tls.inputSide)
    (id : Option Bytes) : Serves cfg (react cfg { s with id := id } t) := by
  have hfreed : t.freed = false := (congrArg Tls.UserSide.freed hcalls.user).trans halive
  have hruns : t.died = false := (congrArg Tls.UserSide.died hcalls.user).trans hs.runs
  cases hs.phase with
  | accepting _ hacc hlog hconn =>
    rw [hacc.connect] at hcalls
    have hreact : react cfg { s with id := id } t = handleConnect.foldl perform { s with
        id := id, tls := t, log := s.log ++ [⟨.connect .connect, handleConnect⟩],
        fault := s.fault || (t.freed && !beforeFree (.connect .connect)) } := react_call hcalls.upcalls
    have hlast : (s.log ++ [(⟨.connect .connect, handleConnect⟩ : Entry)]).getLast? =
        some ⟨.connect .connect, handleConnect⟩ := List.getLast?_concat
    have hfin := finishes_connect (s := { s with
        id := id, tls := t, log := s.log ++ [⟨.connect .connect, handleConnect⟩],
        fault := s.fault || (t.freed && !beforeFree (.connect .connect)) })
      hfed hfreed hruns (by simp [hs.sound, hfreed]) (hacc.calls hcalls hin) hoff hlast
    rw [hreact]
    generalize handleConnect.foldl perform _ = u at hfin
    refine ⟨⟨hfin.fed, hfin.runs, hfin.sound, ⟨?_, ?_⟩, hfin.phase⟩, ?_⟩
    · rw [hfin.log, hfin.connection, hlog]
      rfl
    · rw [hfin.log, hfin.connection, hlog]
      rfl
    · rw [hfin.log, hlog]
      exact ⟨.singleton _, fun q hq => (Option.some.inj hq).symm⟩
  | waiting p h n ho hreq hawaits => exact absurd hact ho.attended.init
  | stalled p ho hreq hoff => exact absurd hact ho.attended.init
  | closing p _ hclosing hconn hlast hends => exact absurd hact hclosing.init
  | gone hgone => exact absurd (halive.symm.trans hgone) (by decide)

/-- A handler has got what it waited for. -/
theorem serves_read {s : Session} {t : Tls.State Handler} {handler : Handler} {data : Bytes} (hs : Serves cfg s)
    (halive : s.tls.freed = false) (hfed : Tls.IoFed t) (hreader : s.tls.readHandler = some handler)
    (hact : .read ∈ s.tls.loop.active) (hcalls : Tls.Calls [.read handler data] s.tls t)
    (hoff : .read ∉ t.loop.active) (hexp : ∀ r, Tls.Expects s.tls r → Tls.Fits data r ∧ Tls.Blank t) :
    Serves cfg (react cfg s t) := by
  cases hs.phase with
  | accepting _ hacc hlog hconn => exact absurd hact hacc.read
  | waiting p h n ho hreq hawaits =>
    obtain rfl : handler = .read h := Option.some.inj (hreader.symm.trans hawaits.reader)
    obtain ⟨hfits, hblank⟩ := hexp _ hawaits.expects
    have hanswer : answer cfg s.id s.inputLength (.read (.read h) data) = handle cfg s.id n (.read h) data :=
      handle_length hawaits.length data
    refine serves_answered hs ho hfed hcalls hoff ?_ ?_ fun _ => hblank
    · rw [hanswer]
      exact .read hreq hfits
    · exact course_handle cfg s.id s.inputLength h data
  | stalled p ho hreq hoff => exact absurd hact hoff
  | closing p _ hclosing hconn hlast hends => exact absurd hact hclosing.read
  | gone hgone => exact absurd (halive.symm.trans hgone) (by decide)

theorem serves_lineTooLong {s : Session} {t : Tls.State Handler} {handler : Handler} (hs : Serves cfg s)
    (halive : s.tls.freed = false) (hfed : Tls.IoFed t) (hhandler : s.tls.lineTooLongHandler = some handler)
    (hact : .read ∈ s.tls.loop.active) (hcalls : Tls.Calls [.lineTooLong handler] s.tls t)
    (hoff : .read ∉ t.loop.active) : Serves cfg (react cfg s t) := by
  cases hs.phase with
  | accepting _ hacc hlog hconn => exact absurd hact hacc.read
  | waiting p h n ho hreq hawaits =>
    obtain rfl : handler = .lineTooLong := Option.some.inj (hhandler.symm.trans ho.attended.lineTooLong)
    exact serves_answered hs ho hfed hcalls hoff .lineTooLong (course_bail _) fun hne => absurd rfl hne
  | stalled p ho hreq hoff => exact absurd hact hoff
  | closing p _ hclosing hconn hlast hends => exact absurd hact hclosing.read
  | gone hgone => exact absurd (halive.symm.trans hgone) (by decide)

theorem serves_timeout {s : Session} {t : Tls.State Handler} {handler : Handler} (hs : Serves cfg s)
    (halive : s.tls.freed = false) (hfed : Tls.IoFed t) (hhandler : s.tls.timeoutHandler = some handler)
    (hcalls : Tls.Calls [.timeout handler] s.tls t) (hoff : .read ∉ t.loop.active) : Serves cfg (react cfg s t) := by
  obtain ⟨p, ho⟩ := hs.toSound.opened halive (Or.inr (hhandler ▸ rfl))
  obtain rfl : handler = .timeout := Option.some.inj (hhandler.symm.trans ho.attended.timeout)
  exact serves_answered hs ho hfed hcalls hoff .timeout (course_bail _) fun hne => absurd rfl hne

/-- An identity is bound only when `handle_connect()` is called. -/
theorem upcalls_of_identity {s t : Tls.State Handler} {e : Event} {id : Bytes} (he : e.identity = some id)
    (h : Tls.stepAlive s e.tls = some t) : t.history.upcalls = s.history.upcalls ++ [.connect s.connectHandler] := by
  cases e with
  | acceptSslCb reply =>
    cases reply with
    | error e => cases he
    | ok identity =>
      obtain rfl : identity = some id := he
      obtain ⟨-, rfl⟩ := Tls.invoke_eq_some h
      rfl
  | _ => cases he

theorem same_of_upcalls {s : Session} {t : Tls.State Handler} {e : Event} (h : Tls.stepAlive s.tls e.tls = some t)
    (hne : ∀ handler, t.history.upcalls ≠ s.tls.history.upcalls ++ [.connect handler]) :
    ({ s with id := e.identity.or s.id } : Session) = s := by
  cases hid : e.identity with
  | none => rfl
  | some id => exact absurd (upcalls_of_identity hid h) (hne _)

theorem event_fromLoop (e : Event) : e.tls.FromLoop := by
  cases e with
  | acceptSslCb reply => cases reply <;> trivial
  | _ => trivial

/-- A step of a connection that exists. -/
theorem step_alive {s t : Session} {e : Event} (hs : Sound s) (halive : s.tls.freed = false)
    (h : step cfg s e = some t) : ∃ u, Tls.stepAlive s.tls e.tls = some u ∧ Tls.Outcome s.tls u ∧ Tls.IoFed u ∧
      t = react cfg { s with id := e.identity.or s.id } u := by
  simp only [step, hs.runs, halive, Bool.false_eq_true, if_false, Option.map_eq_some_iff] at h
  obtain ⟨u, hu, rfl⟩ := h
  have hu' := (step_of_alive halive hs.runs).symm.trans hu
  exact ⟨u, hu', Tls.outcome_stepAlive hs.fed (event_fromLoop e) hu', Tls.ioFed_step hs.fed hu, rfl⟩

theorem Sound.gone {s : Session} (hs : Sound s) (hfreed : s.tls.freed = true) :
    s.tls.loop.active = ∅ ∧ s.connection ≠ .live := by
  cases hs.phase with
  | accepting hc _ _ _ => exact absurd (hfreed.symm.trans hc) (by decide)
  | waiting p h n ho hreq hawaits => exact absurd (hfreed.symm.trans ho.working.alive) (by decide)
  | stalled p ho hreq hoff => exact absurd (hfreed.symm.trans ho.working.alive) (by decide)
  | closing p hc _ _ _ _ => exact absurd (hfreed.symm.trans hc) (by decide)
  | gone _ hinactive hconn => exact ⟨hinactive, hconn⟩

/-- The event loop has no business with a connection that has been freed. -/
theorem step_freed {s : Session} (hs : Sound s) (hfreed : s.tls.freed = true) (e : Event) : step cfg s e = none := by
  obtain ⟨hinactive, -⟩ := hs.gone hfreed
  have hoff : ∀ w, w ∉ s.tls.loop.active := fun w => hinactive ▸ Finset.notMem_empty w
  have hquiet : ∀ (w : Tls.Watcher) callback, w ≠ .timeout → Tls.invoke w callback s.tls = none := by
    intro w callback hw
    unfold Tls.invoke
    rw [if_neg fun hnext => hoff w (hs.fed.fed w hw hnext.1)]
  unfold step
  rw [if_neg (by simp [hs.runs]), if_pos hfreed]
  cases e with
  | advance time => rfl
  | ready w => simp [Event.tls, Tls.stepAlive, hoff]
  | expire => simp [Event.tls, Tls.stepAlive, hoff]
  | acceptSslCb reply => cases reply <;> simp [Event.tls, Tls.stepAlive, hquiet]
  | readCb replies => simp [Event.tls, Tls.stepAlive, hquiet]
  | writeCb replies => simp [Event.tls, Tls.stepAlive, hquiet]
  | shutdownCb replies => simp [Event.tls, Tls.stepAlive, hquiet]
  | timeoutCb => rfl

/-- **One step of a session.** -/
theorem serves_step {s t : Session} {e : Event} (hs : Serves cfg s) (h : step cfg s e = some t) : Serves cfg t := by
  cases halive : s.tls.freed with
  | true => exact absurd h (by simp [step_freed hs.toSound halive])
  | false =>
    obtain ⟨u, hu, houtcome, hfed, rfl⟩ := step_alive hs.toSound halive h
    have hsame := same_of_upcalls (s := s) hu
    cases houtcome with
    | quiet hcalls hread hexp hin =>
      rw [hsame (by simp [hcalls.upcalls]), react_quiet hcalls.upcalls]
      exact serves_quiet hs halive hfed hcalls hread hexp hin
    | freed hfreed hwhy =>
      have hupcalls : u.history.upcalls = s.tls.history.upcalls ++ [] := congrArg Tls.UserSide.upcalls hfreed.user
      rw [hsame (by simp [hupcalls]), react_quiet hupcalls]
      exact serves_freed hs halive hfed hfreed hwhy
    | @error handler hhandler hfreed =>
      have hupcalls : u.history.upcalls = s.tls.history.upcalls ++ [.error handler] :=
        congrArg Tls.UserSide.upcalls hfreed.user
      rw [hsame (by simp [hupcalls])]
      exact serves_error hs halive hfed hhandler hfreed
    | read data hreader hact hcalls hoff hexp =>
      rw [hsame (by simp [hcalls.upcalls])]
      exact serves_read hs halive hfed hreader hact hcalls hoff hexp
    | lineTooLong hhandler hact hcalls hoff =>
      rw [hsame (by simp [hcalls.upcalls])]
      exact serves_lineTooLong hs halive hfed hhandler hact hcalls hoff
    | connect hact hcalls hoff hin => exact serves_connect hs halive hfed hact hcalls hoff hin _
    | timeout hhandler hcalls hoff =>
      rw [hsame (by simp [hcalls.upcalls])]
      exact serves_timeout hs halive hfed hhandler hcalls (hoff .read (by decide))

theorem recorded_nil (id : Option Bytes) : Recorded cfg id [] := ⟨.nil, fun q hq => by cases hq⟩

theorem serves_gone {t : Tls.State Handler} (hfed : Tls.IoFed t) (hfreed : t.freed = true) (hdied : t.died = false)
    (hinactive : t.loop.active = ∅) : Serves cfg ⟨t, none, .absent, 0, [], false⟩ :=
  ⟨⟨hfed, hdied, rfl, ⟨rfl, rfl⟩, .gone hfreed hinactive (by simp)⟩, recorded_nil none⟩

theorem serves_tlsFree {t : Tls.State Handler} (hlive : t.freed = false) (hdied : t.died = false) (hfed : Tls.IoFed (Tls.tlsFree t)) :
    Serves cfg ⟨Tls.tlsFree t, none, .absent, 0, [], false⟩ := by
  have huser := Tls.userSide_tlsFree t
  have hinactive := Tls.tlsFree_active t
  generalize Tls.tlsFree t = u at huser hinactive hfed ⊢
  have hruns : u.died = (t.died || t.freed) := congrArg Tls.UserSide.died huser
  exact serves_gone hfed (congrArg Tls.UserSide.freed huser) (by rw [hruns, hdied, hlive]; rfl) hinactive

theorem serves_accepting {t : Tls.State Handler} (hfed : Tls.IoFed t) (halive : t.freed = false)
    (hdied : t.died = false) (hacc : Accepting t) : Serves cfg ⟨t, none, .absent, 0, [], false⟩ :=
  ⟨⟨hfed, hdied, rfl, ⟨rfl, rfl⟩, .accepting halive hacc rfl rfl⟩, recorded_nil none⟩

theorem accepting_tlsNew (timeout now : ℚ) : Accepting (Tls.tlsNew .connect timeout now) where
  connect := rfl
  reader := rfl
  error := rfl
  timeout := rfl
  lineTooLong := rfl
  drain := rfl
  read := Finset.notMem_empty _
  write := Finset.notMem_empty _
  shutdown := Finset.notMem_empty _
  blank := ⟨rfl, rfl⟩

theorem Accepting.tlsOnTimeout {t : Tls.State Handler} (ht : Accepting t) : Accepting (Tls.tlsOnTimeout none t) := by
  have huser := Tls.userSide_tlsOnTimeout none t
  have hactive := fun w hw => Tls.mem_tlsOnTimeout_active (w := w) none t hw
  have hblank := ht.blank.of_side (Tls.frame_tlsOnTimeout (v := .read) (by decide) none t).side
  generalize Tls.tlsOnTimeout none t = u at huser hactive hblank
  exact ⟨(congrArg Tls.UserSide.connectHandler huser).trans ht.connect,
    (congrArg Tls.UserSide.readHandler huser).trans ht.reader,
    (congrArg Tls.UserSide.errorHandler huser).trans ht.error, congrArg Tls.UserSide.timeoutHandler huser,
    (congrArg Tls.UserSide.lineTooLongHandler huser).trans ht.lineTooLong,
    (congrArg Tls.UserSide.shutdownOnDrain huser).trans ht.drain, mt (hactive .read (by decide)).mp ht.read,
    mt (hactive .write (by decide)).mp ht.write, mt (hactive .shutdown (by decide)).mp ht.shutdown, hblank⟩

theorem Accepting.armInit {t : Tls.State Handler} (ht : Accepting t) : Accepting (t.arm .init .read) :=
  ⟨ht.connect, ht.reader, ht.error, ht.timeout, ht.lineTooLong, ht.drain,
    fun hact => ht.read (by simpa [Tls.State.arm] using hact),
    fun hact => ht.write (by simpa [Tls.State.arm] using hact),
    fun hact => ht.shutdown (by simpa [Tls.State.arm] using hact), ⟨ht.blank.input, ht.blank.offset⟩⟩

theorem serves_start (cfg : Config ρ) (hasAddress hasSsl : Bool) (now : ℚ) :
    Serves cfg (start cfg hasAddress hasSsl now) := by
  have hstarted : Tls.Started (Tls.acceptTcp hasAddress hasSsl Handler.connect cfg.timeout now) :=
    .accept hasAddress hasSsl Handler.connect cfg.timeout now
  have hfed := hstarted.ioFed
  have hacc := accepting_tlsNew cfg.timeout now
  have hlive : (Tls.tlsNew Handler.connect cfg.timeout now).freed = false := rfl
  have hruns : (Tls.tlsNew Handler.connect cfg.timeout now).died = false := rfl
  clear hstarted
  unfold start
  unfold Tls.acceptTcp at hfed ⊢
  generalize Tls.tlsNew Handler.connect cfg.timeout now = t at hfed hacc hlive hruns ⊢
  have huser := Tls.userSide_tlsOnTimeout none t
  have hacc' := hacc.tlsOnTimeout
  have hlive' := (congrArg Tls.UserSide.freed huser).trans hlive
  have hruns' := (congrArg Tls.UserSide.died huser).trans hruns
  dsimp only at hfed ⊢
  by_cases haddress : hasAddress = true
  · simp only [if_pos haddress] at hfed ⊢
    generalize Tls.tlsOnTimeout none t = u at hfed hacc' hlive' hruns' ⊢
    by_cases hssl : hasSsl = true
    · simp only [if_pos hssl] at hfed ⊢
      exact serves_accepting hfed hlive' hruns' hacc'.armInit
    · simp only [if_neg hssl] at hfed ⊢
      exact serves_tlsFree hlive' hruns' hfed
  · simp only [if_neg haddress] at hfed ⊢
    exact serves_tlsFree hlive hruns hfed

/-- What holds of a session in every run. -/
theorem Serving.serves {es : List Event} {s : Session} (h : Serving cfg es s) : Serves cfg s := by
  obtain ⟨hasAddress, hasSsl, now, hruns⟩ := h
  exact hruns.invariant (fun _ _ _ hs hstep => serves_step hs hstep) (serves_start cfg hasAddress hasSsl now)

end Server
end NscaNg
