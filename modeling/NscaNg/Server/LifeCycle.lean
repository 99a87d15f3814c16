/-
# The life of a connection on the server

`handle_connect()` allocates a `connection_state`; it is freed when the server shuts the connection down,
or by the error handler. From then on the connection is on its own: none of the handlers that are still
set look at the `connection_state`, and the connection is freed once the shutdown is over or has failed.
-/
import NscaNg.Server.SessionPhases

namespace NscaNg
namespace Server

open Posix Libev

variable {ρ : Type} {cfg : Config ρ}

theorem Recorded.ends {id : Option Bytes} {log before after : List Entry} {p : Entry} (h : Recorded cfg id log)
    (hlog : log = before ++ p :: after) (hp : .tlsShutdown ∈ p.actions) : after = [] := by
  cases after with
  | nil => rfl
  | cons q after =>
    rw [hlog] at h
    have hfollows := (List.isChain_append_cons_cons.mp h.chain).2.1
    exact absurd hp hfollows.goesOn

/-- What is said of the life of a connection. -/
structure LifeCycle (cfg : Config ρ) (s : Session) : Prop where
  /-- Nothing that has been freed is used or freed again. -/
  faultless : s.fault = false
  /-- There are no concurrent read requests, and the connection is not freed twice. -/
  runs : s.tls.died = false
  allocated : count .allocate s.log ≤ 1
  stopped : count .connectionStop s.log ≤ count .allocate s.log
  released : s.tls.freed = true → count .connectionStop s.log = count .allocate s.log
  silent : s.tls.freed = true → ∀ e, step cfg s e = none
  last : ∀ before p after, s.log = before ++ p :: after → .tlsShutdown ∈ p.actions → after = []

/-- **The life of a connection.** Whatever happens on it, the `connection_state` has been freed once if the
connection is, which is freed once itself; nothing is used that has been freed, no handler is called after
`tls_shutdown()`, and there is only one read request at a time. -/
theorem life_cycle {es : List Event} {s : Session} (h : Serving cfg es s) : LifeCycle cfg s := by
  have hs := h.serves
  obtain ⟨hallocated, hstopped⟩ := hs.balanced
  refine ⟨hs.sound, hs.runs, ?_, ?_, fun hfreed => ?_, fun hfreed e => step_freed hs.toSound hfreed e,
    fun before p after hlog hp => hs.recorded.ends hlog hp⟩
  · rw [hallocated]
    split <;> omega
  · rw [hallocated, hstopped]
    cases s.connection <;> simp
  · obtain ⟨-, hgone⟩ := hs.toSound.gone hfreed
    rw [hallocated, hstopped]
    cases hconn : s.connection with
    | absent => rfl
    | live => exact absurd hconn hgone
    | freed => rfl

theorem serving_of_run {now : ℚ} {es : List Event} {s : Session}
    (h : Machine.run (step cfg) (start cfg true true now) es = some s) : Serving cfg es s :=
  ⟨true, true, now, Machine.runs_of_run h⟩

/-- The client quits after the handshake. -/
theorem life_cycle_quit : ∃ s : Session, s.tls.freed = true ∧ s.log.length = 3 ∧
    LifeCycle (⟨0, 5, [], posixRegexec⟩ : Config Regex) s := by
  obtain ⟨s, hs, hp⟩ := (Option.any_eq_true _ _).mp (by decide +kernel : Option.any
    (fun s => decide (s.tls.freed = true ∧ s.log.length = 3))
    (Machine.run (step (⟨0, 5, [], posixRegexec⟩ : Config Regex)) (start ⟨0, 5, [], posixRegexec⟩ true true 0)
      [.acceptSslCb (.ok (some (ascii "web"))), .readCb [.data (ch 'M') (ascii "OIN 1 x\r\nQUIT\r\n")], .readCb [],
        .writeCb [.sent 100], .shutdownCb [.sent, .done]]) = true)
  obtain ⟨hfreed, hlength⟩ := of_decide_eq_true hp
  exact ⟨s, hfreed, hlength, life_cycle (serving_of_run hs)⟩

end Server
end NscaNg
