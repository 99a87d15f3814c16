/-
# The start of a connection

A connection starts in `accept_tcp_cb()` on the server, which may have to give it up at once, and in
`tls_connect()` on the client. From then on both are worked on by the same functions: `connect_cb()`
does what `accept_ssl_cb()` does for a client that is identified.
-/
import NscaNg.Common.TlsCallbacks

namespace NscaNg
namespace Tls

open Posix Libev

variable {η : Type}

/-- `accept_tcp_cb()`, for one connection: whether the peer's address is known, and whether there is
an SSL object. -/
def acceptTcp (hasAddress hasSsl : Bool) (connectHandler : η) (timeout now : ℚ) : State η :=
  let s := tlsNew connectHandler timeout now
  if hasAddress then
    let s := tlsOnTimeout none s
    if hasSsl then s.arm .init .read else tlsFree s
  else tlsFree s

/-- `tls_connect()`, with `connect_cb()` as it is called there: whether a socket was created, and how
`SSL_connect()` ended. -/
def tlsConnect (hasSocket : Bool) (reply : SslAccept) (connectHandler : η) (timeoutHandler : Option η)
    (timeout now : ℚ) : State η :=
  let s := (tlsOnTimeout timeoutHandler (tlsNew connectHandler timeout now)).touch
  if hasSocket then
    match reply with
    | .error e => checkTlsError .init e (s.arm .init .write)
    | .established _ => s.call (.connect s.connectHandler)
  else { s with died := true }

/-- A connection as it starts. -/
inductive Started : State η → Prop
  | accept (hasAddress hasSsl : Bool) (connectHandler : η) (timeout now : ℚ) :
      Started (acceptTcp hasAddress hasSsl connectHandler timeout now)
  | connect (hasSocket : Bool) (reply : SslAccept) (connectHandler : η) (timeoutHandler : Option η)
      (timeout now : ℚ) : Started (tlsConnect hasSocket reply connectHandler timeoutHandler timeout now)

/-- The runs of a connection from its start. -/
inductive Lives (ok : State η → Event η → Prop) (es : List (Event η)) (s : State η) : Prop
  | mk {start : State η} : Started start → Machine.Runs (Machine.Meeting ok (Machine.Steps step)) start es s →
      Lives ok es s

/-- An invariant of a connection holds when it starts, and every step keeps it. -/
theorem Lives.invariant {ok : State η → Event η → Prop} {I : State η → Prop} {es : List (Event η)} {s : State η}
    (h : Lives ok es s) (hstart : ∀ start, Started start → I start)
    (hstep : ∀ s e t, I s → ok s e → step s e = some t → I t) : I s := by
  obtain ⟨hst, hruns⟩ := h
  exact hruns.invariant (fun u e t hu h => hstep u e t hu h.1 h.2) (hstart _ hst)

theorem lives_of_steps {connectHandler : η} {timeout now : ℚ} {es : List (Event η)} {s : State η}
    (h : Machine.run step (accepted connectHandler timeout now) es = some s) : Lives (fun _ _ => True) es s :=
  .mk (.accept true true connectHandler timeout now)
    ((Machine.runs_of_run h).mono fun _ _ _ hstep => ⟨trivial, hstep⟩)

theorem lives_of_run {ok : State η → Event η → Prop} [∀ s e, Decidable (ok s e)] {connectHandler : η}
    {timeout now : ℚ} {es : List (Event η)} {s : State η}
    (h : Machine.run (Machine.guarded ok step) (accepted connectHandler timeout now) es = some s) : Lives ok es s :=
  ⟨.accept true true connectHandler timeout now, Machine.runs_of_guarded h⟩

end Tls
end NscaNg
