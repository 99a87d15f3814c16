/-
# Clients and their server

The server with all its connections. At the other end of some of them is `send_nsca`, each with an input and a mode
of its own, and at the other end of the others is something else, which sends what it likes. A client that ends with
status 0 has had all its commands submitted to the writer of the command file, in order, and there they are kept
(`network_delivers`).
-/
import NscaNg.Exchange.Outcomes
import NscaNg.Server.CommandFile

namespace NscaNg
namespace Exchange

open Posix Provenance

variable {ρ : Type}

/-- `send_nsca` at the other end of a connection. -/
structure Peer where
  config : Client.Config
  session : Client.Session

structure Network where
  server : Server.ServerState
  /-- What is at the other end of each connection, if it is `send_nsca`. -/
  peers : List (Option Peer)

inductive NetworkEvent
  /-- The connection of a client is accepted. -/
  | call (ccfg : Client.Config) (hasSocket : Bool) (reply : Tls.SslAccept) (started : ℚ) (hasAddress hasSsl : Bool) (now : ℚ)
  /-- Another connection is accepted. -/
  | accept (hasAddress hasSsl : Bool) (now : ℚ)
  | client (n : ℕ) (e : Client.Event)
  | connection (n : ℕ) (e : Server.Event) (r : Fifo.Replies)
  | fifo (e : Fifo.Event UInt8)

def networkStep (scfg : Server.Config ρ) (fcfg : Fifo.Config) (w : Network) : NetworkEvent → Option Network
  | .call ccfg hasSocket reply started hasAddress hasSsl now =>
    some {
      server := w.server.accepted (Server.start scfg hasAddress hasSsl now)
      peers := w.peers ++ [some ⟨ccfg, Client.start ccfg hasSocket reply started⟩] }
  | .accept hasAddress hasSsl now =>
    some { server := w.server.accepted (Server.start scfg hasAddress hasSsl now), peers := w.peers ++ [none] }
  | .client n e =>
    match w.peers[n]?, w.server.connections[n]? with
    | some (some p), some s =>
      (step p.config scfg ⟨p.session, s⟩ (.client e)).map fun t =>
        { w with peers := w.peers.set n (some { p with session := t.client }) }
    | _, _ => none
  | .connection n e r =>
    match w.peers[n]?, w.server.connections[n]? with
    | some (some p), some s =>
      (step p.config scfg ⟨p.session, s⟩ (.server e)).map fun t =>
        { w with server := w.server.moved fcfg n s t.server r }
    | some none, some s =>
      (Server.step scfg s e).map fun t => { w with server := w.server.moved fcfg n s t r }
    | _, _ => none
  | .fifo e => (Server.serverStep scfg fcfg w.server (.fifo e)).map fun d => { w with server := d }

/-- Clients and server have come to this state. -/
def Networking (scfg : Server.Config ρ) (fcfg : Fifo.Config) (es : List NetworkEvent) (w : Network) : Prop :=
  ∃ reply r now, Machine.Runs (Machine.Steps (networkStep scfg fcfg)) ⟨Server.serverStart fcfg reply r now, []⟩ es w

/-! ### The parts of the network -/

variable {scfg : Server.Config ρ} {fcfg : Fifo.Config} {w w' : Network}

/-- What holds of the network and its parts. -/
structure Joined (scfg : Server.Config ρ) (fcfg : Fifo.Config) (w : Network) : Prop where
  server : Server.Composed scfg fcfg w.server
  length : w.peers.length = w.server.connections.length
  exchanging : ∀ (n : ℕ) (p : Peer) (s : Server.Session), w.peers[n]? = some (some p) → w.server.connections[n]? = some s →
    ∃ es, Exchanging p.config scfg es ⟨p.session, s⟩

/-- A connection is accepted. -/
theorem Joined.accept (h : Joined scfg fcfg w) (peer : Option Peer) (hasAddress hasSsl : Bool) (now : ℚ)
    (hpeer : ∀ p ∈ peer, ∃ hasSocket reply started, p.session = Client.start p.config hasSocket reply started) :
    Joined scfg fcfg ⟨w.server.accepted (Server.start scfg hasAddress hasSsl now), w.peers ++ [peer]⟩ where
  server := h.server.accept hasAddress hasSsl now
  length := by
    unfold Server.ServerState.accepted
    simp [h.length]
  exchanging n p s hp hs := by
    unfold Server.ServerState.accepted at hs
    dsimp only at hp hs
    rcases lt_or_ge n w.peers.length with hn | hn
    · rw [List.getElem?_append_left hn] at hp
      rw [List.getElem?_append_left (h.length ▸ hn)] at hs
      exact h.exchanging n p s hp hs
    · rw [List.getElem?_append_right hn] at hp
      rw [List.getElem?_append_right (h.length ▸ hn), ← h.length] at hs
      obtain ⟨hzero, rfl⟩ : n - w.peers.length = 0 ∧ peer = some p := by
        rw [List.getElem?_singleton] at hp
        split at hp
        · rename_i hzero
          exact ⟨hzero, Option.some.inj hp⟩
        · cases hp
      rw [hzero] at hs
      obtain rfl := Option.some.inj hs
      exact ⟨[], _, ⟨hpeer p rfl, ⟨hasAddress, hasSsl, now, rfl⟩⟩, .nil _⟩

/-- The two ends of a connection have made a step. -/
theorem Joined.exchange {n : ℕ} {p : Peer} {s : Server.Session} {e : Event} {t : System} (h : Joined scfg fcfg w)
    (hp : w.peers[n]? = some (some p)) (hs : w.server.connections[n]? = some s)
    (hstep : step p.config scfg ⟨p.session, s⟩ e = some t) : ∃ es, Exchanging p.config scfg es t := by
  obtain ⟨es, start, hstart, hruns⟩ := h.exchanging n p s hp hs
  exact ⟨es ++ [e], start, hstart, hruns.snoc hstep⟩

theorem Joined.client {n : ℕ} {p : Peer} {s : Server.Session} {e : Client.Event} {t : System} (h : Joined scfg fcfg w)
    (hp : w.peers[n]? = some (some p)) (hs : w.server.connections[n]? = some s)
    (hstep : step p.config scfg ⟨p.session, s⟩ (.client e) = some t) :
    Joined scfg fcfg { w with peers := w.peers.set n (some { p with session := t.client }) } where
  server := h.server
  length := by rw [List.length_set, h.length]
  exchanging k q u hq hu := by
    by_cases hk : n = k
    · subst hk
      have hlt : n < w.peers.length := (List.getElem?_eq_some_iff.mp hp).1
      rw [List.getElem?_set_self hlt, Option.some.injEq, Option.some.injEq] at hq
      obtain rfl : s = u := Option.some.inj (hs.symm.trans hu)
      subst hq
      obtain ⟨es, hes⟩ := h.exchange hp hs hstep
      obtain ⟨c, -, -, rfl⟩ := step_client hstep
      exact ⟨es, hes⟩
    · rw [List.getElem?_set_ne hk] at hq
      exact h.exchanging k q u hq hu

/-- A connection of the server has made a step. -/
theorem Joined.moved {n : ℕ} {s t : Server.Session} {e : Server.Event} (h : Joined scfg fcfg w)
    (hs : w.server.connections[n]? = some s) (hstep : Server.step scfg s e = some t) (r : Fifo.Replies)
    (hexchange : ∀ p, w.peers[n]? = some (some p) → ∃ es, Exchanging p.config scfg es ⟨p.session, t⟩) :
    Joined scfg fcfg { w with server := w.server.moved fcfg n s t r } where
  server := h.server.moved hs hstep r
  length := by
    unfold Server.ServerState.moved
    dsimp only
    rw [List.length_set, h.length]
  exchanging k q u hq hu := by
    unfold Server.ServerState.moved at hu
    dsimp only at hq hu
    by_cases hk : n = k
    · subst hk
      have hlt : n < w.server.connections.length := (List.getElem?_eq_some_iff.mp hs).1
      rw [List.getElem?_set_self hlt] at hu
      obtain rfl := Option.some.inj hu
      exact hexchange q hq
    · rw [List.getElem?_set_ne hk] at hu
      exact h.exchanging k q u hq hu

theorem Joined.step {e : NetworkEvent} (h : Joined scfg fcfg w) (hstep : networkStep scfg fcfg w e = some w') :
    Joined scfg fcfg w' := by
  cases e with
  | call ccfg hasSocket reply started hasAddress hasSsl now =>
    cases hstep
    refine h.accept _ hasAddress hasSsl now fun p hp => ?_
    cases hp
    exact ⟨hasSocket, reply, started, rfl⟩
  | accept hasAddress hasSsl now =>
    cases hstep
    exact h.accept none hasAddress hasSsl now fun p hp => by cases hp
  | client n e =>
    unfold networkStep at hstep
    dsimp only at hstep
    split at hstep
    · rename_i p s hp hs
      obtain ⟨t, ht, rfl⟩ := Option.map_eq_some_iff.mp hstep
      exact h.client hp hs ht
    · cases hstep
  | connection n e r =>
    unfold networkStep at hstep
    dsimp only at hstep
    split at hstep
    · rename_i p s hp hs
      obtain ⟨t, ht, rfl⟩ := Option.map_eq_some_iff.mp hstep
      obtain ⟨es, hes⟩ := h.exchange hp hs ht
      obtain ⟨v, hv, -, rfl⟩ := step_server ht
      refine h.moved hs hv r fun q hq => ?_
      obtain rfl : p = q := by simpa using hp.symm.trans hq
      exact ⟨es, hes⟩
    · rename_i s hp hs
      obtain ⟨t, ht, rfl⟩ := Option.map_eq_some_iff.mp hstep
      refine h.moved hs ht r fun q hq => ?_
      cases hp.symm.trans hq
    · cases hstep
  | fifo e =>
    obtain ⟨d, hd, rfl⟩ := Option.map_eq_some_iff.mp hstep
    have hd' := hd
    unfold Server.serverStep at hd'
    dsimp only at hd'
    split at hd'
    · obtain ⟨fifo, -, rfl⟩ := Option.map_eq_some_iff.mp hd'
      exact ⟨h.server.step hd, h.length, h.exchanging⟩
    · cases hd'

theorem Networking.joined {es : List NetworkEvent} (h : Networking scfg fcfg es w) : Joined scfg fcfg w := by
  obtain ⟨reply, r, now, hruns⟩ := h
  refine hruns.invariant (fun _ _ _ hw hstep => hw.step hstep) ⟨Server.composed_start scfg fcfg reply r now, rfl, ?_⟩
  intro n p s hp
  cases hp

/-! ### From the input of a client to the command file -/

/-- **Delivery.** Any number of clients, with whatever input, and anything else that connects to the server: what has
been submitted for a client whose commands are each shorter than 2^31 bytes is at any time the beginning of what it has
built of its input, in order and each command once. If the client ends with status 0, that is all of its input; and each
command stands whole in one place: in the FIFO, in a complete dump file, in the dump in flight, in hand, or in a message
that says that it is lost. -/
theorem network_delivers {es : List NetworkEvent} (h : Networking scfg fcfg es w) : ∃ m, Server.Kept fcfg w.server m ∧
    ∀ n p, w.peers[n]? = some (some p) → (∀ command ∈ p.session.built, command.length < 2 ^ 31) →
      (w.server.submitted.filter (·.1 = n)).map Prod.snd <+: p.session.built ∧
      (p.session.exitStatus = some 0 →
        (w.server.submitted.filter (·.1 = n)).map Prod.snd = p.session.built ∧
        Client.Builds p.config p.config.chunks p.session.built) ∧
      ∀ k command, w.server.submitted[k]? = some (n, command) → InOnePlace m.ledger.places ⟨.record k, command⟩ := by
  have hjoined := h.joined
  obtain ⟨m, hm⟩ := hjoined.server.kept
  refine ⟨m, hm, fun n p hp hshort => ?_⟩
  have hlt : n < w.server.connections.length := hjoined.length ▸ (List.getElem?_eq_some_iff.mp hp).1
  have hget : w.server.connections[n]? = some w.server.connections[n] := List.getElem?_eq_getElem hlt
  obtain ⟨es', hes⟩ := hjoined.exchanging n p _ hp hget
  obtain ⟨stage, hs⟩ := hes.agreed hshort
  rw [hjoined.server.submitted n _ hget]
  exact ⟨hs.forwarded, hs.exits, fun k command hk => hm.place k n command hk⟩

/-- `send_nsca` submits a command, and so does another client. -/
def networkEvents : List NetworkEvent :=
  [.call commentClient true (.error .wantRead) 0 true true 0, .accept true true 0] ++
    [.acceptSslCb (.ok (some (ascii "db"))), .readCb [.data (ch 'M') (ascii "OIN 1 b\r\nPUSH 23\r\n")], .ready .read,
      .readCb [], .ready .read, .readCb [.data (ch '[') (ascii "2] ADD_HOST_COMMENT;b\n")]].map
        (fun e => .connection 1 e ⟨[.written 0], none, true, true⟩) ++
    commentEvents.map fun e =>
      match e with
      | .client e => .client 0 e
      | .server e => .connection 0 e ⟨[.written 0], none, true, true⟩

theorem network_delivers_comment : ∃ w m, Networking commentServer (.standard true) networkEvents w ∧
    Server.Kept (.standard true) w.server m ∧
    w.server.submitted = [(1, ascii "[2] ADD_HOST_COMMENT;b\n"), (0, ascii "[1] ADD_HOST_COMMENT;\n")] ∧
    InOnePlace m.ledger.places ⟨.record 1, ascii "[1] ADD_HOST_COMMENT;\n"⟩ := by
  obtain ⟨w, hw, hp⟩ := (Option.any_eq_true _ _).mp (by decide +kernel : Option.any
    (fun w : Network => decide (w.server.submitted =
        [(1, ascii "[2] ADD_HOST_COMMENT;b\n"), (0, ascii "[1] ADD_HOST_COMMENT;\n")] ∧
      w.peers[0]?.join.map (fun p => (p.session.exitStatus, p.session.built)) =
        some (some 0, [ascii "[1] ADD_HOST_COMMENT;\n"])))
    (Machine.run (networkStep commentServer (.standard true))
      ⟨Server.serverStart (.standard true) .opened ⟨[], none, true, true⟩ 0, []⟩ networkEvents) = true)
  obtain ⟨hsubmitted, hpeer⟩ := of_decide_eq_true hp
  obtain ⟨p, hget, hends⟩ := Option.map_eq_some_iff.mp hpeer
  obtain ⟨-, hbuilt⟩ := Prod.mk.inj hends
  have hnetworking : Networking commentServer (.standard true) networkEvents w := ⟨_, _, _, Machine.runs_of_run hw⟩
  obtain ⟨m, hm, hall⟩ := network_delivers hnetworking
  obtain ⟨-, -, hplace⟩ := hall 0 p (Option.join_eq_some_iff.mp hget) (by rw [hbuilt]; decide)
  exact ⟨w, m, hnetworking, hm, hsubmitted, hplace 1 _ (by rw [hsubmitted]; rfl)⟩

end Exchange
end NscaNg
