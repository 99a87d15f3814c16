/-
# Client and server together

A client and the session that the server has for it, with a channel in each direction that neither loses nor
reorders anything. A step is one of the client or one of the server; what is received by then must have been sent,
and may still be on its way. Nothing is said about when which of them makes a step, how much of what was sent is
received at a time, or how OpenSSL comes out, so a connection may also be lost at any time.
-/
import NscaNg.Common.TlsChannel
import NscaNg.Server.Session
import NscaNg.Client.Session

namespace NscaNg
namespace Exchange

open Posix

variable {ρ : Type}

structure System where
  client : Client.Session
  server : Server.Session

inductive Event
  | client (e : Client.Event)
  | server (e : Server.Event)

namespace System

/-- What the client has written and the server has not taken. -/
def up (s : System) : Bytes := Tls.way s.client.tls s.server.tls

/-- What the server has written and the client has not taken. -/
def down (s : System) : Bytes := Tls.way s.server.tls s.client.tls

end System

instance decidableWired {η θ : Type} (s : Tls.State η) (t : Tls.State θ) : Decidable (Tls.Wired s t) :=
  inferInstanceAs (Decidable (_ <+: _))

def step (ccfg : Client.Config) (scfg : Server.Config ρ) (s : System) : Event → Option System
  | .client e =>
    match Client.step ccfg s.client e with
    | some client => if Tls.Wired s.server.tls client.tls then some { s with client := client } else none
    | none => none
  | .server e =>
    match Server.step scfg s.server e with
    | some server => if Tls.Wired s.client.tls server.tls then some { s with server := server } else none
    | none => none

/-- A client has been started, and a connection has been accepted. -/
structure Started (ccfg : Client.Config) (scfg : Server.Config ρ) (s : System) : Prop where
  client : ∃ hasSocket reply now, s.client = Client.start ccfg hasSocket reply now
  server : ∃ hasAddress hasSsl now, s.server = Server.start scfg hasAddress hasSsl now

/-- Client and server have come to this state. -/
def Exchanging (ccfg : Client.Config) (scfg : Server.Config ρ) (es : List Event) (s : System) : Prop :=
  ∃ start, Started ccfg scfg start ∧ Machine.Runs (Machine.Steps (step ccfg scfg)) start es s

variable {ccfg : Client.Config} {scfg : Server.Config ρ} {s t : System}

theorem step_client {e : Client.Event} (h : step ccfg scfg s (.client e) = some t) :
    ∃ client, Client.step ccfg s.client e = some client ∧ Tls.Wired s.server.tls client.tls ∧
      t = { s with client := client } := by
  unfold step at h
  dsimp only at h
  split at h
  · rename_i client hclient
    by_cases hw : Tls.Wired s.server.tls client.tls
    · rw [if_pos hw, Option.some.injEq] at h
      exact ⟨client, hclient, hw, h.symm⟩
    · rw [if_neg hw] at h
      cases h
  · cases h

theorem step_server {e : Server.Event} (h : step ccfg scfg s (.server e) = some t) :
    ∃ server, Server.step scfg s.server e = some server ∧ Tls.Wired s.client.tls server.tls ∧
      t = { s with server := server } := by
  unfold step at h
  dsimp only at h
  split at h
  · rename_i server hserver
    by_cases hw : Tls.Wired s.client.tls server.tls
    · rw [if_pos hw, Option.some.injEq] at h
      exact ⟨server, hserver, hw, h.symm⟩
    · rw [if_neg hw] at h
      cases h
  · cases h

end Exchange
end NscaNg
