/-
# Nobody waits in vain

As long as the client has not ended, one of the parties has something to do (`Busy`). In particular client and server
never wait for each other: what the one that reads has asked for is under way, all of it, and what the other one still
holds of it is going to be sent.
-/
import NscaNg.Server.SessionProgress
import NscaNg.Exchange.Forwarding

namespace NscaNg
namespace Exchange

open Posix

variable {ρ : Type} {ccfg : Client.Config} {scfg : Server.Config ρ} {s t : System} {stage : Client.Stage}

/-- The server is going to read so much: a line after the TLS handshake, or what its handler waits for. -/
inductive Listens (s : Server.Session) : ℕ → Prop
  | handshake : s.tls.freed = false → .init ∈ s.tls.loop.active → Listens s 0
  | reads (h : ReadHandler) (n : ℕ) : Server.Awaits s h n → Listens s n

/-- The bytes hold what is asked for. -/
def Holds (r : Tls.Request) (bytes : Bytes) : Prop := ∃ data rest, Tls.answer r bytes = some (data, rest)

/-- Somebody has something to do: the client makes its connection, reads its standard input or shuts the connection down;
or it waits for a line, and this is under way, or so is what the server waits for, or the server goes away. -/
inductive Busy (s : System) : Prop
  | connecting : Client.Connecting s.client.tls → Busy s
  | listening (r : Client.Reader) : s.client.reader = some r → r.active = true → Busy s
  | closing : Tls.Leaving s.client.tls → Busy s
  | response (h : Client.Handler) : Client.Awaiting h s.client.tls → s.server.tls.freed = false → Tls.Armed s.server.tls →
      Holds .line s.down → Busy s
  | request (h : Client.Handler) (n : ℕ) : Client.Awaiting h s.client.tls → Listens s.server n → Tls.Armed s.client.tls →
      Holds (.ofSize n) s.up → Busy s
  | left (h : Client.Handler) : Client.Awaiting h s.client.tls → Tls.Leaving s.server.tls → Busy s

/-! ### What is under way -/

/-- A response is a line. -/
theorem holds_line {line : Bytes} (h : Client.Plain line) (rest : Bytes) :
    Holds .line (line ++ Tls.lineTerminator ++ rest) := by
  obtain ⟨data, hdata, -⟩ := Tls.answer_line h.1 h.2 rest
  exact ⟨data, rest, hdata⟩

/-- The client sends what the server waits for. -/
theorem holds_request {h : ReadHandler} {n : ℕ} (hs : Sensible ccfg stage) (hpending : stage.Pending)
    (hasked : asked stage = some (h, n)) : Holds (.ofSize n) (stage.request ccfg) := by
  have hline : ∀ line, Client.Plain line → Holds (.ofSize 0) (line ++ Tls.lineTerminator) := fun line hplain => by
    have hholds := holds_line hplain []
    rwa [List.append_nil] at hholds
  obtain ⟨handler, hposture⟩ := hpending
  cases stage with
  | connecting => cases hposture
  | idle => cases hposture
  | stopped status => cases hposture
  | greeting =>
    cases hasked
    have hmoin : Client.Plain (ascii "MOIN 1 ") := (by decide : newline ∉ ascii "MOIN 1 " ∧ 0 ∉ ascii "MOIN 1 ")
    exact hline _ (hmoin.append ccfg.sessionId_plain)
  | asking submission =>
    cases hasked
    have hpush : Client.Plain (ascii "PUSH ") := (by decide : newline ∉ ascii "PUSH " ∧ 0 ∉ ascii "PUSH ")
    exact hline _ (hs.request ▸ hpush.append (Client.plain_decimal _))
  | sending submission =>
    cases hasked
    have hblock := Tls.answer_block (hs.made submission (Or.inr rfl)).sent_ne_nil []
    rw [List.append_nil] at hblock
    exact ⟨_, _, hblock⟩
  | quitting =>
    cases hasked
    exact hline (ascii "QUIT") (by decide : newline ∉ ascii "QUIT" ∧ 0 ∉ ascii "QUIT")

/-! ### Who listens -/

/-- The server that is to read the request of the stage does so, or it goes away. -/
theorem Ready.listens (h : Ready s.server stage) (hserves : Server.Serves scfg s.server) (hb : Server.Brisk s.server) :
    Tls.Leaving s.server.tls ∨ ∃ k n, asked stage = some (k, n) ∧ Listens s.server n := by
  have hgone : s.server.tls.freed = true → Tls.Leaving s.server.tls := Or.inl
  cases h with
  | closed hclosed => exact Or.inl (hb.leaving hclosed.2)
  | fresh hnil hasked =>
    cases halive : s.server.tls.freed with
    | true => exact Or.inl (hgone halive)
    | false => exact Or.inr ⟨_, _, hasked, .handshake halive (hb.accepting hnil halive)⟩
  | reads p k n hlive hlast hreq hasked =>
    cases hserves.phase with
    | accepting _ _ hnil hconn => exact absurd (hconn.symm.trans hlive) (by decide)
    | waiting q k' n' ho hreq' hawaits =>
      obtain rfl : q = p := Option.some.inj (ho.last.symm.trans hlast)
      obtain ⟨rfl, rfl⟩ : k' = k ∧ n' = n := by simpa using hreq'.symm.trans hreq
      exact Or.inr ⟨k', n', hasked, .reads k' n' hawaits⟩
    | stalled q ho hnone hoff =>
      obtain rfl : q = p := Option.some.inj (ho.last.symm.trans hlast)
      exact absurd (hnone.symm.trans hreq) (by simp)
    | closing q _ hclosing hconn hlast' hends => exact absurd (hconn.symm.trans hlive) (by decide)
    | gone _ _ hconn => exact absurd hlive hconn

/-- At each stage at which the client does not wait for a response, it has something to do. -/
theorem busy_of_idle (hat : Client.At ccfg s.client stage) (h : ¬ stage.Pending) : Busy s := by
  obtain ⟨hconnection, hkeeps⟩ := hat
  cases hkeeps with
  | connecting _ => exact .connecting hconnection
  | idle r hlistening hactive _ => exact .listening r hlistening.reader hactive
  | stopped _ _ _ _ _ => exact .closing (Client.Closing.leaves hconnection)
  | greeting _ => exact absurd ⟨_, rfl⟩ h
  | asking r submission _ _ _ _ => exact absurd ⟨_, rfl⟩ h
  | sending r submission _ _ _ => exact absurd ⟨_, rfl⟩ h
  | quitting r _ _ => exact absurd ⟨_, rfl⟩ h

theorem Agreed.busy (hs : Agreed ccfg scfg s stage) (hb : Server.Brisk s.server) (hruns : ¬ s.client.Ended) : Busy s := by
  obtain ⟨hat, -⟩ := hs.client.resolve_left hruns
  by_cases hpending : stage.Pending
  · obtain ⟨handler, hposture⟩ := id hpending
    have hawaits : Client.Awaiting handler s.client.tls := by
      have hconnection := hat.connection
      rw [hposture] at hconnection
      exact hconnection
    obtain ⟨front, tail, hdown, -, -, hphase⟩ := hs.phase
    -- a line of the server is under way, unless the server has gone
    have hresponse : ∀ line, Client.Plain line → front = line ++ Tls.lineTerminator → Busy s := by
      intro line hplain hfront
      cases halive : s.server.tls.freed with
      | true => exact .left handler hawaits (Or.inl halive)
      | false =>
        refine .response handler hawaits halive hb.armed ?_
        rw [hdown, hfront]
        exact holds_line hplain tail
    cases hphase with
    | waits hrequest hready _ =>
      rcases hready.listens hs.serves hb with hleaving | ⟨k, n, hasked, hlistens⟩
      · exact .left handler hawaits hleaving
      · refine .request handler n hawaits hlistens hawaits.armed ?_
        rw [hrequest]
        exact holds_request hs.sensible hpending hasked
    | accepted _ _ _ => exact hresponse _ hpending.plain_response rfl
    | refused line _ _ hplain _ _ => exact hresponse line hplain rfl
    | stopped status hstage _ _ =>
      subst hstage
      cases hposture
  · exact busy_of_idle hat hpending

/-- The server leaves nothing lying in any run. -/
theorem Exchanging.brisk {es : List Event} (h : Exchanging ccfg scfg es s)
    (hshort : ∀ command ∈ s.client.built, command.length < 2 ^ 31) : Server.Brisk s.server := by
  obtain ⟨start, hstart, hruns⟩ := h
  have hinvariant := hruns.invariant
    (I := fun s => (∀ command ∈ s.client.built, command.length < 2 ^ 31) →
      (∃ stage, Agreed ccfg scfg s stage) ∧ Server.Brisk s.server)
    (fun s e t hs hstep hshort => by
      obtain ⟨⟨stage, hs⟩, hb⟩ := hs fun command hmem => hshort command ((built_step hstep).subset hmem)
      refine ⟨agreed_step hs hshort hstep, ?_⟩
      cases e with
      | client e =>
        obtain ⟨c, -, -, rfl⟩ := step_client hstep
        exact hb
      | server e =>
        obtain ⟨v, hv, -, rfl⟩ := step_server hstep
        exact Server.brisk_step hs.serves hs.flushes hb hv)
    (fun _ => ⟨agreed_start hstart, by
      obtain ⟨hasAddress, hasSsl, now, hserver⟩ := hstart.server
      rw [hserver]
      exact Server.brisk_start scfg hasAddress hasSsl now⟩)
  exact (hinvariant hshort).2

/-- **Nobody waits in vain.** However the bytes have been cut up and the callbacks have followed each other: until the
client has ended, it makes its connection, reads its standard input or leaves; or it waits for a line, and all of this
line is under way to it, or the server waits for something, and all of this is under way to the server, or the server is
shutting the connection down or has freed it. Each command is shorter than 2^31 bytes. -/
theorem never_waits_in_vain {es : List Event} (h : Exchanging ccfg scfg es s)
    (hshort : ∀ command ∈ s.client.built, command.length < 2 ^ 31) (hruns : ¬ s.client.Ended) : Busy s := by
  obtain ⟨stage, hs⟩ := h.agreed hshort
  exact hs.busy (h.brisk hshort) hruns

/-- The command is on its way to the server. -/
theorem never_waits_in_vain_comment : ∃ s, Exchanging commentClient commentServer (commentEvents.take 12) s ∧
    s.up = ascii "[1] ADD_HOST_COMMENT;\n" ∧ s.down = [] ∧ Busy s := by
  obtain ⟨s, hs, hp⟩ := (Option.any_eq_true _ _).mp (by decide +kernel : Option.any
    (fun s : System => decide ((s.up = ascii "[1] ADD_HOST_COMMENT;\n" ∧ s.down = []) ∧
      (s.client.died = false ∧ s.client.tls.died = false) ∧ ∀ command ∈ s.client.built, command.length < 2 ^ 31))
    (Machine.run (step commentClient commentServer)
      ⟨Client.start commentClient true (.error .wantRead) 0, Server.start commentServer true true 0⟩
      (commentEvents.take 12)) = true)
  obtain ⟨⟨hup, hdown⟩, ⟨hdied, htls⟩, hshort⟩ := of_decide_eq_true hp
  have hexchanging : Exchanging commentClient commentServer (commentEvents.take 12) s :=
    ⟨_, ⟨⟨true, .error .wantRead, 0, rfl⟩, ⟨true, true, 0, rfl⟩⟩, Machine.runs_of_run hs⟩
  refine ⟨s, hexchanging, hup, hdown, never_waits_in_vain hexchanging hshort fun hended => ?_⟩
  rcases hended with hended | hended
  · exact absurd (hdied.symm.trans hended) (by decide)
  · exact absurd (htls.symm.trans hended) (by decide)

end Exchange
end NscaNg
