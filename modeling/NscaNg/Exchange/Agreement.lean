/-
# What client and server agree on

Of the two parties at most one has something to say. Either the request of the client is on its way to the server,
which waits for it, or the response of the server is on its way to the client, or the client has something else to
do (`Phase`); and what the server has forwarded and what the client has still to see accepted is what the client has
built. Behind a response there may be a line with which the server has left; then it will not read any more.
-/
import NscaNg.Exchange.Responses
import NscaNg.Exchange.System

namespace NscaNg
namespace Exchange

open Posix

variable {ρ : Type} {ccfg : Client.Config} {scfg : Server.Config ρ} {stage stage' : Client.Stage}

/-! ### The session of the server -/

section

variable {s t : Server.Session}

/-- The session has been ended. -/
def Closed (s : Server.Session) : Prop := s.log ≠ [] ∧ s.connection = .freed

/-- The server waits for the request of the stage, or it will read no more. -/
inductive Ready (s : Server.Session) (stage : Client.Stage) : Prop
  | fresh : s.log = [] → asked stage = some (.handshake, 0) → Ready s stage
  | reads (p : Server.Entry) (h : ReadHandler) (n : ℕ) : s.connection = .live → s.log.getLast? = some p →
      Server.requests p.actions = [(h, n)] → asked stage = some (h, n) → Ready s stage
  | closed : Closed s → Ready s stage

/-- The response is a refusal. -/
def Refuses (p : Server.Entry) : Prop :=
  ∃ line, Server.queued p.actions = line ++ Tls.lineTerminator ∧ Client.Grumpy line

/-- The session has been ended by the server. -/
def Left (log : List Server.Entry) : Prop := ∃ q ∈ log, Server.Ends q

/-- What the server has written last: nothing, or the line with which it has left. -/
inductive Leaves (s : Server.Session) : Bytes → Prop
  | stays : Leaves s []
  | left (line : Bytes) : Closed s → Left s.log → Client.Plain line → Client.Grumpy line →
      (line ++ Tls.lineTerminator).length ≤ 64 → Leaves s (line ++ Tls.lineTerminator)


theorem Closed.same (h : Closed s) (hlog : t.log = s.log) (hconn : t.connection = s.connection) : Closed t :=
  ⟨hlog ▸ h.1, hconn.trans h.2⟩

theorem Ready.same (h : Ready s stage) (hlog : t.log = s.log) (hconn : t.connection = s.connection) : Ready t stage := by
  cases h with
  | fresh hnil hasked => exact .fresh (hlog.trans hnil) hasked
  | reads p h n hlive hlast hreq hasked => exact .reads p h n (hconn.trans hlive) (hlog ▸ hlast) hreq hasked
  | closed h => exact .closed (h.same hlog hconn)

theorem Leaves.same {tail : Bytes} (h : Leaves s tail) (hlog : t.log = s.log) (hconn : t.connection = s.connection) :
    Leaves t tail := by
  cases h with
  | stays => exact .stays
  | left line hclosed hleft hplain hgrumpy hshort =>
    exact .left line (hclosed.same hlog hconn) (hlog ▸ hleft) hplain hgrumpy hshort

theorem Leaves.length {tail : Bytes} (h : Leaves s tail) : tail.length ≤ 64 := by
  cases h with
  | stays => exact Nat.zero_le _
  | left line _ _ _ _ hshort => exact hshort

/-- A session that goes on has not left. -/
theorem Leaves.of_live {tail : Bytes} (h : Leaves s tail) (hlive : s.connection = .live) : tail = [] := by
  cases h with
  | stays => rfl
  | left line hclosed _ _ _ _ => exact absurd (hlive.symm.trans hclosed.2) (by decide)

theorem Ready.asks {p : Server.Entry} {h : ReadHandler} {n : ℕ} (hr : Ready s stage) (hlive : s.connection = .live)
    (hlast : s.log.getLast? = some p) (hreq : Server.requests p.actions = [(h, n)]) : asked stage = some (h, n) := by
  cases hr with
  | fresh hlog hasked =>
    rw [hlog] at hlast
    cases hlast
  | closed hclosed => exact absurd (hlive.symm.trans hclosed.2) (by decide)
  | reads p' h' n' _ hlast' hreq' hasked =>
    obtain rfl : p' = p := Option.some.inj (hlast'.symm.trans hlast)
    obtain ⟨rfl, rfl⟩ : h' = h ∧ n' = n := by simpa using hreq'.symm.trans hreq
    exact hasked

/-- `handle_connect()` has been called. -/
theorem Ready.connects (h : Ready s stage) (hnil : s.log = []) (hlog : t.log = [⟨.connect .connect, Server.handleConnect⟩])
    (hlive : t.connection = .live) : Ready t stage := by
  cases h with
  | fresh _ hasked => exact .reads ⟨.connect .connect, Server.handleConnect⟩ .handshake 0 hlive (hlog ▸ rfl) rfl hasked
  | reads p h n _ hlast _ _ =>
    rw [hnil] at hlast
    cases hlast
  | closed hclosed => exact absurd hnil hclosed.1

/-- A handler has done its work, and goes on to the request of the next stage. -/
theorem ready_of_leadsTo {p : Server.Entry} (hlog : t.log = s.log ++ [p])
    (hconn : t.connection = if .tlsShutdown ∈ p.actions then .freed else .live) (h : LeadsTo p.actions (asked stage)) :
    Ready t stage := by
  cases hasked : asked stage with
  | none =>
    rw [hasked] at h
    have hends : .tlsShutdown ∈ p.actions := h
    rw [if_pos hends] at hconn
    exact .closed ⟨hlog ▸ List.append_ne_nil_of_right_ne_nil _ (List.cons_ne_nil _ _), hconn⟩
  | some request =>
    obtain ⟨k, n⟩ := request
    rw [hasked] at h
    obtain ⟨hreq, hgoes⟩ := h
    rw [if_neg hgoes] at hconn
    exact .reads p k n hconn (by rw [hlog, List.getLast?_concat]) hreq hasked

theorem written_snoc {p : Server.Entry} (hlog : t.log = s.log ++ [p]) :
    Server.written t.log = Server.written s.log ++ Server.fifoWrites p.actions := by
  rw [hlog]
  simp [Server.written]

/-- What a session writes when it ends. -/
theorem leaves_ends (ccfg : Client.Config) {q : Server.Entry} (hq : Server.Ends q) (hlog : t.log = s.log ++ [q])
    (hconn : t.connection = .freed) :
    Closed t ∧ Leaves t (Server.queued q.actions) ∧ Server.written t.log = Server.written s.log ∧
      ∀ built, Requests ccfg built q.upcall := by
  have hclosed : Closed t := ⟨hlog ▸ List.append_ne_nil_of_right_ne_nil _ (List.cons_ne_nil _ _), hconn⟩
  have hleft : Left t.log := ⟨q, hlog ▸ List.mem_append_right _ (List.mem_singleton_self q), hq⟩
  rw [written_snoc hlog]
  cases hq with
  | error => exact ⟨hclosed, .stays, List.append_nil _, fun _ => .error⟩
  | timeout =>
    exact ⟨hclosed, .left (ascii "BAIL Connection timed out") hclosed hleft
      (by decide : newline ∉ ascii "BAIL Connection timed out" ∧ 0 ∉ ascii "BAIL Connection timed out")
      (Or.inr (by decide)) (by decide), List.append_nil _, fun _ => .timeout⟩
  | lineTooLong =>
    exact ⟨hclosed, .left (ascii "BAIL Request line too long") hclosed hleft
      (by decide : newline ∉ ascii "BAIL Request line too long" ∧ 0 ∉ ascii "BAIL Request line too long")
      (Or.inr (by decide)) (by decide), List.append_nil _, fun _ => .lineTooLong⟩

end

/-! ### Phases -/

/-- The session has been ended by the server, or the command that was built last has been refused, and all before it
have been forwarded. -/
def Blamed (s : System) : Prop :=
  Left s.server.log ∨ ∃ p ∈ s.server.log, ∃ command, Refuses p ∧ About command p.upcall ∧
    s.client.built = Server.written s.server.log ++ [command]

/-- Who has to say something: what the server has still to say before it leaves is given. -/
inductive Phase (ccfg : Client.Config) (s : System) (stage : Client.Stage) : Bytes → Prop
  | waits : s.up = stage.request ccfg → Ready s.server stage →
      Server.written s.server.log ++ owes stage = s.client.built → Phase ccfg s stage []
  | accepted : stage.Pending → s.up = [] → (∀ stage', Client.Follows ccfg stage stage' → Ready s.server stage' ∧
      Server.written s.server.log ++ owes stage' = s.client.built ++ stage'.builds) →
      Phase ccfg s stage (stage.response ++ Tls.lineTerminator)
  | refused (line : Bytes) : stage.Pending → s.up = [] → Client.Plain line → Client.Grumpy line → Blamed s →
      Phase ccfg s stage (line ++ Tls.lineTerminator)
  | stopped (status : ℕ) : stage = .stopped status → Closed s.server ∨ s.up = [] →
      (status = 0 → Server.written s.server.log = s.client.built) → Phase ccfg s stage []

/-- What holds of client and server between the steps, when the client has come to the stage. -/
structure Agreed (ccfg : Client.Config) (scfg : Server.Config ρ) (s : System) (stage : Client.Stage) : Prop where
  upward : Tls.Wired s.client.tls s.server.tls
  downward : Tls.Wired s.server.tls s.client.tls
  serves : Server.Serves scfg s.server
  flushes : Tls.Flushes s.server.tls
  unmixed : Server.Unmixed s.server
  client : s.client.Ended ∨ Client.At ccfg s.client stage ∧ Tls.Flushes s.client.tls
  faithful : Client.Faithful ccfg s.client
  sensible : Sensible ccfg stage
  forwarded : Server.written s.server.log <+: s.client.built
  behind : s.client.built.length ≤ (Server.written s.server.log).length + 1
  requests : ∀ p ∈ s.server.log, Requests ccfg s.client.built p.upcall
  blamed : ∀ status ≠ 0, stage = .stopped status → Blamed s
  phase : ∃ front tail, s.down = front ++ tail ∧ front.length ≤ 64 ∧ Leaves s.server tail ∧ Phase ccfg s stage front

/-! ### Steps of the client -/

variable {s t : System}

theorem Blamed.mono (h : Blamed s) (hlog : s.server.log <+: t.server.log)
    (hwritten : Server.written t.server.log = Server.written s.server.log) (hbuilt : t.client.built = s.client.built) :
    Blamed t := by
  rcases h with ⟨q, hq, hends⟩ | ⟨p, hp, command, hrefuses, habout, hall⟩
  · exact Or.inl ⟨q, hlog.subset hq, hends⟩
  · exact Or.inr ⟨p, hlog.subset hp, command, hrefuses, habout, by rw [hbuilt, hall, hwritten]⟩

theorem Requests.mono {built more : List Bytes} {upcall : Tls.Upcall Server.Handler} (h : Requests ccfg built upcall) :
    Requests ccfg (built ++ more) upcall := by
  cases h with
  | connect => exact .connect
  | moin data hdata => exact .moin data hdata
  | push data command hmem hdata => exact .push data command (List.mem_append_left _ hmem) hdata
  | block command hmem => exact .block command (List.mem_append_left _ hmem)
  | quit data hdata => exact .quit data hdata
  | error => exact .error
  | timeout => exact .timeout
  | lineTooLong => exact .lineTooLong

/-- The request of a stage is short. -/
theorem Sensible.length_request (h : Sensible ccfg stage) : (stage.request ccfg).length < 2 ^ 31 := by
  have hnil : ([] : Bytes).length < 2 ^ 31 := by decide
  cases stage with
  | connecting => exact hnil
  | idle => exact hnil
  | stopped status => exact hnil
  | quitting => exact (by decide : (ascii "QUIT" ++ Tls.lineTerminator).length < 2 ^ 31)
  | greeting =>
    simp [Client.Stage.request, ccfg.sessionId_length, Tls.lineTerminator, ascii]
  | sending submission => exact h.short _ (List.mem_singleton_self _)
  | asking submission =>
    have hshort := h.short _ (List.mem_singleton_self _)
    have hdecimal : (decimal submission.sent.length).length ≤ 9 + 1 :=
      length_decimal_le (lt_trans hshort (by decide))
    simp only [Client.Stage.request, h.request, List.length_append]
    have hpush : (ascii "PUSH ").length = 5 := rfl
    have hend : Tls.lineTerminator.length = 2 := rfl
    omega

theorem sensible_of_builds {built : List Bytes} (hmade : ∀ submission, stage = .asking submission ∨
    stage = .sending submission → Client.Made ccfg submission) (howes : ∀ command ∈ owes stage, command ∈ built)
    (hshort : ∀ command ∈ built, command.length < 2 ^ 31) : Sensible ccfg stage :=
  ⟨hmade, fun command hmem => hshort command (howes command hmem)⟩

theorem made_of_fetched (h : Client.Fetched ccfg stage) : ∀ submission, stage = .asking submission ∨
    stage = .sending submission → Client.Made ccfg submission := by
  intro submission hstage
  cases h with
  | idle => simp at hstage
  | quitting => simp at hstage
  | asking submission' hmade =>
    rcases hstage with hstage | hstage
    · cases hstage
      exact hmade
    · cases hstage

theorem made_of_follows (h : Client.Follows ccfg stage stage') : ∀ submission, stage' = .asking submission ∨
    stage' = .sending submission → Client.Made ccfg submission := by
  cases h with
  | greeted h => exact made_of_fetched h
  | sent _ h => exact made_of_fetched h
  | quit => simp
  | asked submission hmade =>
    intro submission' hstage
    rcases hstage with hstage | hstage
    · cases hstage
    · cases hstage
      exact hmade

/-- The client stops with a failure only because of the server. -/
theorem status_of_follows {status : ℕ} (h : Client.Follows ccfg stage (.stopped status)) : status = 0 := by
  cases h with
  | greeted h => cases h
  | sent _ h => cases h
  | quit => rfl

/-- No more than one command is waiting to be forwarded. -/
theorem behind_of_owes {written built : List Bytes} (h : written ++ owes stage = built) :
    built.length ≤ written.length + 1 := by
  have howes : (owes stage).length ≤ 1 := by
    cases stage <;> simp [owes]
  rw [← h, List.length_append]
  omega

theorem written_grown {log log' : List Server.Entry} (h : log <+: log') :
    (Server.written log).length ≤ (Server.written log').length := by
  obtain ⟨more, rfl⟩ := h
  simp [Server.written]

/-- The client has come to another stage. -/
theorem Agreed.comes {c : Client.Session} {taken : Option (Tls.Request × Bytes)} (hs : Agreed ccfg scfg s stage)
    (hw : Tls.Wired s.server.tls c.tls) (hc : Client.Comes ccfg taken s.client c stage')
    (hroom : (s.client.tls.unsent ++ stage'.request ccfg).length < 2 ^ 31) (hsensible : Sensible ccfg stage')
    (hbehind : c.built.length ≤ (Server.written s.server.log).length + 1)
    (hblamed : ∀ status ≠ 0, stage' = .stopped status → Blamed { s with client := c })
    (hphase : ∃ front tail, System.down { s with client := c } = front ++ tail ∧ front.length ≤ 64 ∧
      Leaves s.server tail ∧ Phase ccfg { s with client := c } stage' front) :
    Agreed ccfg scfg { s with client := c } stage' where
  upward := hc.flow.wired hs.upward
  downward := hw
  serves := hs.serves
  flushes := hs.flushes
  unmixed := hs.unmixed
  client := hc.enters.imp (fun h => Or.inl h.1) fun h => ⟨h, hc.flushes hroom⟩
  faithful := hc.faithful hs.faithful
  sensible := hsensible
  forwarded := hc.built ▸ hs.forwarded.trans (List.prefix_append _ _)
  behind := hbehind
  requests p hp := hc.built ▸ (hs.requests p hp).mono
  blamed := hblamed
  phase := hphase

theorem unsent_of_up (h : s.up = []) : s.client.tls.unsent = [] := (Tls.way_nil h).2

/-- The client goes on by itself. -/
theorem Agreed.advances {c : Client.Session} (hs : Agreed ccfg scfg s stage)
    (hshort : ∀ command ∈ c.built, command.length < 2 ^ 31) (hw : Tls.Wired s.server.tls c.tls)
    (hadvances : Client.Advances ccfg stage stage') (hc : Client.Comes ccfg none s.client c stage') :
    Agreed ccfg scfg { s with client := c } stage' := by
  have hup : System.up { s with client := c } = s.up ++ stage'.request ccfg := hc.flow.way_sent hs.upward
  have hdown : System.down { s with client := c } = s.down := hc.flow.way_taken hw
  have hnot : ¬ stage.Pending := by
    rintro ⟨handler, hposture⟩
    cases hadvances <;> cases hposture
  obtain ⟨front, tail, hfront, hlength, hleaves, hphase⟩ := hs.phase
  cases hphase with
  | accepted hpending => exact absurd hpending hnot
  | refused line hpending => exact absurd hpending hnot
  | stopped status hstage => subst hstage; cases hadvances
  | waits hrequest hready haccount =>
    have hnil : stage.request ccfg = [] := by cases hadvances <;> rfl
    have hup0 : s.up = [] := hrequest.trans hnil
    have hready' : Ready s.server stage' ∧ Server.written s.server.log ++ owes stage' = c.built := by
      rw [hc.built, ← haccount]
      cases hadvances with
      | connected =>
        refine ⟨?_, by simp [owes, Client.Stage.builds]⟩
        cases hready with
        | fresh hlog hasked => exact .fresh hlog hasked
        | reads p h n hlive hlast hreq hasked => exact .reads p h n hlive hlast hreq hasked
        | closed hclosed => exact .closed hclosed
      | fetched hfetched =>
        obtain ⟨hasked, howes⟩ := owes_fetched hfetched
        refine ⟨?_, by rw [howes]; simp [owes]⟩
        cases hready with
        | fresh hlog hasked' => cases hasked'
        | reads p h n hlive hlast hreq hasked' => exact .reads p h n hlive hlast hreq (hasked.trans hasked')
        | closed hclosed => exact .closed hclosed
    have hsensible : Sensible ccfg stage' := by
      refine sensible_of_builds ?_ (fun command hmem => hready'.2 ▸ List.mem_append_right _ hmem) hshort
      cases hadvances with
      | connected => simp
      | fetched hfetched => exact made_of_fetched hfetched
    refine hs.comes hw hc ?_ hsensible (behind_of_owes hready'.2) (fun status _ hstage => ?_)
      ⟨[], tail, hdown.trans hfront, Nat.zero_le _, hleaves, .waits ?_ hready'.1 hready'.2⟩
    · rw [unsent_of_up hup0]
      exact hsensible.length_request
    · subst hstage
      cases hadvances with
      | fetched hfetched => cases hfetched
    · rw [hup, hup0]
      rfl

/-- The client has got a response. -/
theorem Agreed.reads {c : Client.Session} {data written : Bytes}
    (hs : Agreed ccfg scfg s stage) (hshort : ∀ command ∈ c.built, command.length < 2 ^ 31)
    (hw : Tls.Wired s.server.tls c.tls) (hflow : Tls.Flow (some (.line, data)) written s.client.tls c.tls)
    (hpending : stage.Pending)
    (haccept : cstr data = stage.response →
      ∃ stage', Client.Follows ccfg stage stage' ∧ Client.Comes ccfg (some (.line, data)) s.client c stage')
    (hrefuse : Client.Grumpy (cstr data) → Client.Comes ccfg (some (.line, data)) s.client c (.stopped 1)) :
    ∃ stage', Agreed ccfg scfg { s with client := c } stage' := by
  have hdown : Tls.answer .line s.down = some (data, System.down { s with client := c }) := hflow.way_taken hw
  obtain ⟨front, tail, hfront, hlength, hleaves, hphase⟩ := hs.phase
  -- the line that the client is given is the first of what is on its way
  have hline : ∀ line rest, Client.Plain line → s.down = line ++ Tls.lineTerminator ++ rest →
      cstr data = line ∧ System.down { s with client := c } = rest := by
    intro line rest hplain hsplit
    obtain ⟨data', hdata, hcstr⟩ := Tls.answer_line hplain.1 hplain.2 rest
    rw [hsplit, hdata, Option.some.injEq, Prod.mk.injEq] at hdown
    exact ⟨hdown.1 ▸ hcstr, hdown.2.symm⟩
  have hstop : ∀ tail', Client.Grumpy (cstr data) → System.down { s with client := c } = tail' →
      Leaves s.server tail' → s.up.length < 2 ^ 31 → Closed s.server ∨ s.up = [] → Blamed s →
      Agreed ccfg scfg { s with client := c } (.stopped 1) := by
    intro tail' hgrumpy hrest hleaves' hlen hover hblamed
    have hc := hrefuse hgrumpy
    have hup : System.up { s with client := c } = s.up ++ [] := hc.flow.way_sent hs.upward
    rw [List.append_nil] at hup
    have hbuilt : c.built = s.client.built := hc.built.trans (List.append_nil _)
    refine hs.comes hw hc ?_ ⟨by simp, by simp [owes]⟩ (hbuilt ▸ hs.behind)
      (fun _ _ _ => hblamed.mono (t := { s with client := c }) List.prefix_rfl rfl hbuilt)
      ⟨[], tail', hrest, Nat.zero_le _, hleaves', .stopped 1 rfl (hup ▸ hover) (by simp)⟩
    have hle := Tls.length_unsent_le_way s.client.tls s.server.tls
    rw [show (Client.Stage.stopped 1).request ccfg = [] from rfl, List.append_nil]
    exact lt_of_le_of_lt hle hlen
  cases hphase with
  | waits hrequest hready haccount =>
    cases hleaves with
    | stays =>
      rw [hfront] at hdown
      have hnone := Tls.answer_nil 0
      rw [show Tls.Request.ofSize 0 = .line from rfl] at hnone
      exact absurd (hnone.symm.trans hdown) (by simp)
    | left line hclosed hleft hplain hgrumpy hshort' =>
      obtain ⟨hcstr, hrest⟩ := hline line [] hplain (by rw [hfront, List.nil_append, List.append_nil])
      exact ⟨_, hstop [] (hcstr ▸ hgrumpy) hrest .stays (hrequest ▸ hs.sensible.length_request)
        (Or.inl hclosed) (Or.inl hleft)⟩
  | refused line _ hnil hplain hgrumpy hblamed =>
    obtain ⟨hcstr, hrest⟩ := hline line tail hplain hfront
    exact ⟨_, hstop tail (hcstr ▸ hgrumpy) hrest hleaves (by rw [hnil]; decide) (Or.inr hnil) hblamed⟩
  | stopped status hstage =>
    subst hstage
    obtain ⟨handler, hposture⟩ := hpending
    cases hposture
  | accepted _ hnil hnext =>
    obtain ⟨hcstr, hrest⟩ := hline stage.response tail hpending.plain_response hfront
    obtain ⟨stage', hfollows, hc⟩ := haccept hcstr
    obtain ⟨hready, haccount⟩ := hnext stage' hfollows
    rw [← hc.built] at haccount
    have hup : System.up { s with client := c } = s.up ++ stage'.request ccfg := hc.flow.way_sent hs.upward
    rw [hnil, List.nil_append] at hup
    have hsensible := sensible_of_builds (made_of_follows hfollows)
      (fun command hmem => haccount ▸ List.mem_append_right _ hmem) hshort
    refine ⟨stage', hs.comes hw hc ?_ hsensible (behind_of_owes haccount) (fun status hne hstage => ?_)
      ⟨[], tail, hrest, Nat.zero_le _, hleaves, .waits hup hready haccount⟩⟩
    · rw [unsent_of_up hnil]
      exact hsensible.length_request
    · subst hstage
      exact absurd (status_of_follows hfollows) hne

/-- A step of the client. -/
theorem Agreed.client_step {e : Client.Event} (hs : Agreed ccfg scfg s stage)
    (hshort : ∀ command ∈ t.client.built, command.length < 2 ^ 31) (h : step ccfg scfg s (.client e) = some t) :
    ∃ stage', Agreed ccfg scfg t stage' := by
  obtain ⟨c, hstep, hw, rfl⟩ := step_client h
  have hruns : ¬ s.client.Ended := fun hended => by
    rw [Client.step, if_pos (show s.client.died = true ∨ s.client.tls.died = true from hended)] at hstep
    cases hstep
  obtain ⟨hat, hflushes⟩ := hs.client.resolve_left hruns
  have hresponse : ∀ {turn data}, stage.turn = some turn → ¬ turn.Accepts (cstr data) → cstr data ≠ stage.response :=
    fun hturn hline heq => hline (heq ▸ (Client.Stage.pending_of_turn hturn).2)
  cases Client.moves_step hat hflushes hstep with
  | advances stage' hadvances hc => exact ⟨stage', hs.advances hshort hw hadvances hc⟩
  | accepts data turn stage' hturn hline hfollows hc =>
    exact hs.reads hshort hw hc.flow (Client.Stage.pending_of_turn hturn).1 (fun _ => ⟨stage', hfollows, hc⟩)
      fun h => absurd h hline.not_grumpy
  | refused data turn hturn hline _ hc =>
    exact hs.reads hshort hw hc.flow (Client.Stage.pending_of_turn hturn).1
      (fun h => absurd h (hresponse hturn hline)) fun _ => hc
  | bails data turn hturn hline hgrumpy hc =>
    exact hs.reads hshort hw hc.flow (Client.Stage.pending_of_turn hturn).1
      (fun h => absurd h (hresponse hturn hline)) fun h => absurd h hgrumpy
  | quiet hflow hfc hbuilt henters =>
    have hup : System.up { s with client := c } = s.up ++ [] := hflow.way_sent hs.upward
    have hdown : System.down { s with client := c } = s.down := hflow.way_taken hw
    rw [List.append_nil] at hup
    obtain ⟨front, tail, hfront, hlength, hleaves, hphase⟩ := hs.phase
    have hcarry : Blamed s → Blamed { s with client := c } := fun h => h.mono List.prefix_rfl rfl hbuilt
    refine ⟨stage, hflow.wired hs.upward, hw, hs.serves, hs.flushes, hs.unmixed, henters.imp Or.inl fun h => ⟨h, hfc⟩, ?_,
      hs.sensible, hbuilt ▸ hs.forwarded, hbuilt ▸ hs.behind, fun p hp => hbuilt ▸ hs.requests p hp,
      fun status hne hstage => hcarry (hs.blamed status hne hstage), front, tail, hdown.trans hfront, hlength, hleaves, ?_⟩
    · obtain ⟨done, hprefix, hbuilds⟩ := hs.faithful
      exact ⟨done, hprefix, hbuilt.symm ▸ hbuilds⟩
    · cases hphase with
      | waits hrequest hready haccount => exact .waits (hup.trans hrequest) hready (haccount.trans hbuilt.symm)
      | accepted hpending hnil hnext => exact .accepted hpending (hup.trans hnil) (hbuilt ▸ hnext)
      | refused line hpending hnil hplain hgrumpy hblamed =>
        exact .refused line hpending (hup.trans hnil) hplain hgrumpy (hcarry hblamed)
      | stopped status hstage hover hall =>
        exact .stopped status hstage (hup ▸ hover) fun hzero => (hall hzero).trans hbuilt.symm

/-! ### Steps of the server -/

/-- The server has made a step. -/
theorem Agreed.serves_on {v : Server.Session} {taken : Option (Tls.Request × Bytes)} {written : Bytes}
    (hs : Agreed ccfg scfg s stage) (hw : Tls.Wired s.client.tls v.tls) (hserves : Server.Serves scfg v)
    (hfv : Tls.Flushes v.tls) (hflow : Tls.Flow taken written s.server.tls v.tls) (hmix : Server.Unmixed v)
    (hgrown : s.server.log <+: v.log) (hforwarded : Server.written v.log <+: s.client.built)
    (hrequests : ∀ p ∈ v.log, Requests ccfg s.client.built p.upcall)
    (hblamed : ∀ status ≠ 0, stage = .stopped status → Blamed { s with server := v })
    (hphase : ∃ front tail, System.down { s with server := v } = front ++ tail ∧ front.length ≤ 64 ∧ Leaves v tail ∧
      Phase ccfg { s with server := v } stage front) : Agreed ccfg scfg { s with server := v } stage where
  upward := hw
  downward := hflow.wired hs.downward
  serves := hserves
  flushes := hfv
  unmixed := hmix
  client := hs.client
  faithful := hs.faithful
  sensible := hs.sensible
  forwarded := hforwarded
  behind := hs.behind.trans (Nat.succ_le_succ (written_grown hgrown))
  requests := hrequests
  blamed := hblamed
  phase := hphase

/-- The server has got a request. -/
theorem Agreed.answers {v : Server.Session} {p : Server.Entry} {h : ReadHandler} {n : ℕ} {data : Bytes}
    (hs : Agreed ccfg scfg s stage) (hw : Tls.Wired s.client.tls v.tls) (hserves : Server.Serves scfg v)
    (hfv : Tls.Flushes v.tls) (hlive : s.server.connection = .live) (hlast : s.server.log.getLast? = some p)
    (hreq : Server.requests p.actions = [(h, n)])
    (hflow : Tls.Flow (some (.ofSize n, data)) (Server.queued (Server.handle scfg s.server.id n (.read h) data))
      s.server.tls v.tls)
    (hlog : v.log = s.server.log ++ [⟨.read (.read h) data, Server.handle scfg s.server.id n (.read h) data⟩])
    (hconn : v.connection = if .tlsShutdown ∈ Server.handle scfg s.server.id n (.read h) data then .freed else .live) :
    Agreed ccfg scfg { s with server := v } stage := by
  have hbrief := (Server.brief_handle scfg s.server.id n h data).length
  have hup : Tls.answer (.ofSize n) s.up = some (data, System.up { s with server := v }) := hflow.way_taken hw
  have hdown : System.down { s with server := v } = s.down ++ _ := hflow.way_sent hs.downward
  have hnone : s.up ≠ [] := by
    intro hnil
    rw [hnil, Tls.answer_nil] at hup
    cases hup
  obtain ⟨front, tail, hfront, hlength, hleaves, hphase⟩ := hs.phase
  obtain rfl := hleaves.of_live hlive
  cases hphase with
  | accepted _ hnil => exact absurd hnil hnone
  | refused _ _ hnil => exact absurd hnil hnone
  | stopped status hstage hover =>
    rcases hover with hclosed | hnil
    · exact absurd (hlive.symm.trans hclosed.2) (by decide)
    · exact absurd hnil hnone
  | waits hrequest hready haccount =>
    have hasked := hready.asks hlive hlast hreq
    rw [hrequest] at hup
    obtain ⟨hpending, hrest, hresponds, hrequests⟩ := responds scfg s.server.id hs.sensible
      (fun command hmem => haccount ▸ List.mem_append_right _ hmem) hasked hup
    have hwritten := written_snoc hlog
    have hgrown : s.server.log <+: v.log := ⟨_, hlog.symm⟩
    have hgoes : ∀ status ≠ 0, stage = .stopped status → Blamed { s with server := v } := by
      rintro status - rfl
      cases hasked
    rw [hfront, List.nil_append, List.nil_append] at hdown
    -- nothing of what the client has sent is left
    have hmix : Server.Unmixed v := fun _ _ _ _ _ _ _ => (Tls.way_nil hrest).1
    have hentries : ∀ q ∈ v.log, Requests ccfg s.client.built q.upcall := by
      intro q hq
      rw [hlog] at hq
      rcases List.mem_append.mp hq with hq | hq
      · exact hs.requests q hq
      · rw [List.mem_singleton.mp hq]
        exact hrequests
    cases hresponds with
    | accepts hqueued hprefix hnext =>
      rw [hqueued] at hdown hbrief
      refine hs.serves_on hw hserves hfv hflow hmix hgrown ?_ hentries hgoes
        ⟨_, [], by rw [hdown, List.append_nil], hbrief, .stays, .accepted hpending hrest fun stage' hfollows => ?_⟩
      · rw [hwritten, ← haccount]
        exact (List.prefix_append_right_inj _).mpr hprefix
      · obtain ⟨hleads, howes⟩ := hnext stage' hfollows
        refine ⟨ready_of_leadsTo hlog hconn hleads, ?_⟩
        show Server.written v.log ++ owes stage' = s.client.built ++ stage'.builds
        rw [hwritten, ← haccount, List.append_assoc, howes, List.append_assoc]
    | refuses command line howes habout hqueued hplain hgrumpy hnothing =>
      rw [hnothing, List.append_nil] at hwritten
      have hblamed : Blamed { s with server := v } :=
        Or.inr ⟨_, hlog ▸ List.mem_append_right _ (List.mem_singleton_self _), command, ⟨line, hqueued, hgrumpy⟩, habout,
          by rw [← haccount, howes, hwritten]⟩
      rw [hqueued] at hdown hbrief
      refine hs.serves_on hw hserves hfv hflow hmix hgrown ?_ hentries hgoes
        ⟨_, [], by rw [hdown, List.append_nil], hbrief, .stays, .refused line hpending hrest hplain hgrumpy hblamed⟩
      rw [hwritten]
      exact hs.forwarded

/-- A step of the server. -/
theorem Agreed.server_step {e : Server.Event} (hs : Agreed ccfg scfg s stage)
    (h : step ccfg scfg s (.server e) = some t) : Agreed ccfg scfg t stage := by
  obtain ⟨v, hstep, hw, rfl⟩ := step_server h
  have hserves := Server.serves_step hs.serves hstep
  obtain ⟨front, tail, hfront, hlength, hleaves, hphase⟩ := hs.phase
  have hroom : s.server.tls.unsent.length + 64 < 2 ^ 31 := by
    have hle : s.server.tls.unsent.length ≤ s.down.length := Tls.length_unsent_le_way _ _
    rw [hfront, List.length_append] at hle
    have := hleaves.length
    omega
  obtain ⟨hfv, hmoves⟩ := Server.moves_step hs.serves hs.flushes hs.unmixed hroom hstep
  cases hmoves with
  | reads p k n data hlive hlast hreq hflow hlog hconn =>
    exact hs.answers hw hserves hfv hlive hlast hreq hflow hlog hconn
  | quiet hflow hlog hconn hmix =>
    have hup : System.up { s with server := v } = s.up := hflow.way_taken hw
    have hdown : System.down { s with server := v } = s.down ++ [] := hflow.way_sent hs.downward
    rw [List.append_nil] at hdown
    have hcarry : Blamed s → Blamed { s with server := v } := fun h => h.mono (hlog ▸ List.prefix_rfl) (by rw [hlog]) rfl
    refine hs.serves_on hw hserves hfv hflow hmix (hlog ▸ List.prefix_rfl) (hlog ▸ hs.forwarded) (hlog ▸ hs.requests)
      (fun status hne hstage => hcarry (hs.blamed status hne hstage))
      ⟨front, tail, hdown.trans hfront, hlength, hleaves.same hlog hconn, ?_⟩
    cases hphase with
    | waits hrequest hready haccount =>
      exact .waits (hup.trans hrequest) (hready.same hlog hconn) (hlog ▸ haccount)
    | accepted hpending hnil hnext =>
      refine .accepted hpending (hup.trans hnil) fun stage' hfollows => ?_
      obtain ⟨hready, haccount⟩ := hnext stage' hfollows
      exact ⟨hready.same hlog hconn, hlog ▸ haccount⟩
    | refused line hpending hnil hplain hgrumpy hblamed =>
      exact .refused line hpending (hup.trans hnil) hplain hgrumpy (hcarry hblamed)
    | stopped status hstage hover hall =>
      exact .stopped status hstage (hover.imp (fun h => h.same hlog hconn) hup.trans) (hlog ▸ hall)
  | connects hnil hflow hlog hlive =>
    have hup : System.up { s with server := v } = s.up := hflow.way_taken hw
    have hdown : System.down { s with server := v } = s.down ++ [] := hflow.way_sent hs.downward
    rw [List.append_nil] at hdown
    have hwritten : Server.written v.log = Server.written s.server.log := by
      rw [hlog, hnil]
      rfl
    have hmix : Server.Unmixed v := by
      intro _ q k n hlast hreq hn
      rw [hlog] at hlast
      obtain rfl : ⟨.connect .connect, Server.handleConnect⟩ = q := Option.some.inj hlast
      obtain ⟨-, rfl⟩ : ReadHandler.handshake = k ∧ 0 = n := by simpa [Server.requests, Server.handleConnect] using hreq
      exact absurd rfl hn
    have htail : Leaves v tail := by
      cases hleaves with
      | stays => exact .stays
      | left line hclosed _ _ _ _ => exact absurd hnil hclosed.1
    have hcarry : Blamed s → Blamed { s with server := v } := fun h => h.mono (hnil ▸ List.nil_prefix) hwritten rfl
    refine hs.serves_on hw hserves hfv hflow hmix (hnil ▸ List.nil_prefix) (hwritten ▸ hs.forwarded) (fun q hq => ?_)
      (fun status hne hstage => hcarry (hs.blamed status hne hstage)) ⟨front, tail, hdown.trans hfront, hlength, htail, ?_⟩
    · rw [hlog, List.mem_singleton] at hq
      rw [hq]
      exact .connect
    · cases hphase with
      | waits hrequest hready haccount =>
        exact .waits (hup.trans hrequest) (hready.connects hnil hlog hlive) (hwritten ▸ haccount)
      | accepted hpending hnone hnext =>
        refine .accepted hpending (hup.trans hnone) fun stage' hfollows => ?_
        obtain ⟨hready, haccount⟩ := hnext stage' hfollows
        exact ⟨hready.connects hnil hlog hlive, hwritten ▸ haccount⟩
      | refused line hpending hnone hplain hgrumpy hblamed =>
        exact .refused line hpending (hup.trans hnone) hplain hgrumpy (hcarry hblamed)
      | stopped status hstage hover hall =>
        exact .stopped status hstage (Or.inr (hup.trans (hover.resolve_left fun hclosed => hclosed.1 hnil)))
          (hwritten ▸ hall)
  | ends q hlive hq hflow hlog hconn =>
    obtain rfl := hleaves.of_live hlive
    obtain ⟨hclosed, hleft, hwritten, hrequests⟩ := leaves_ends ccfg hq hlog hconn
    have hup : System.up { s with server := v } = s.up := hflow.way_taken hw
    have hdown : System.down { s with server := v } = s.down ++ _ := hflow.way_sent hs.downward
    rw [hfront, List.append_nil] at hdown
    have hmix : Server.Unmixed v := fun hlive' => absurd (hlive'.symm.trans hconn) (by decide)
    have hcarry : Blamed s → Blamed { s with server := v } := fun h => h.mono ⟨_, hlog.symm⟩ hwritten rfl
    refine hs.serves_on hw hserves hfv hflow hmix ⟨_, hlog.symm⟩ (hwritten ▸ hs.forwarded) (fun p hp => ?_)
      (fun status hne hstage => hcarry (hs.blamed status hne hstage))
      ⟨front, _, hdown, hlength, hleft, ?_⟩
    · rw [hlog] at hp
      rcases List.mem_append.mp hp with hp | hp
      · exact hs.requests p hp
      · rw [List.mem_singleton.mp hp]
        exact hrequests _
    · cases hphase with
      | waits hrequest hready haccount => exact .waits (hup.trans hrequest) (.closed hclosed) (hwritten ▸ haccount)
      | accepted hpending hnone hnext =>
        refine .accepted hpending (hup.trans hnone) fun stage' hfollows => ?_
        exact ⟨.closed hclosed, hwritten ▸ (hnext stage' hfollows).2⟩
      | refused line hpending hnone hplain hgrumpy hblamed =>
        exact .refused line hpending (hup.trans hnone) hplain hgrumpy (hcarry hblamed)
      | stopped status hstage hover hall => exact .stopped status hstage (Or.inl hclosed) (hwritten ▸ hall)

end Exchange
end NscaNg
