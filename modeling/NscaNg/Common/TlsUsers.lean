/-
# The users of a connection

What the theorems on OpenSSL's calls and on the output ask of whoever uses a connection (`Completes`,
`WithinBounds`) is asked of every call. Both users, the server and the client, keep it in the same way: when a
handler is called, they first write something or set handlers, and then they ask for something or end the
connection, or they leave it at that (`Orderly`). They ask when nothing is being read, and write something when a
timeout was handed to them. A run of such turns is one of a connection with its calls, and the rules are kept
(`traces_of_behaves`).
-/
import NscaNg.Common.TlsRetry
import NscaNg.Common.TlsStreams

namespace NscaNg
namespace Tls

open Posix Libev

variable {η : Type}

/-! ### Turns -/

/-- Something is written, or a handler is set. -/
def Event.Prepares : Event η → Prop
  | .tlsWrite data _ => data ≠ []
  | .tlsWriteLine _ | .tlsOnError _ | .tlsOnTimeout _ | .tlsOnLineTooLong _ => True
  | _ => False

/-- What a user calls in a row, from the state `u` on. -/
inductive Orderly (u : State η) : List (Event η) → Prop
  | asks (es : List (Event η)) (handler : η) (size : ℕ) : (∀ e ∈ es, e.Prepares) → Blank u →
      Orderly u (es ++ [.tlsRead handler size])
  | ends (es : List (Event η)) : (∀ e ∈ es, e.Prepares) → Orderly u (es ++ [.tlsShutdown])
  | rests (es : List (Event η)) : (∀ e ∈ es, e.Prepares) → Orderly u es

/-- An event of the event loop, if there is one, and what the user of the connection calls then. -/
structure Turn (η : Type) where
  event : Option (Event η)
  calls : List (Event η)
  user : ∀ e ∈ calls, ¬ e.FromLoop

namespace Turn

def events (turn : Turn η) : List (Event η) := turn.event.toList ++ turn.calls

/-- What the user writes. -/
def written (turn : Turn η) : Bytes := turn.calls.flatMap Event.written

end Turn

/-- The user calls these functions in the state `u`. -/
structure Uses (u : State η) (calls : List (Event η)) (t : State η) : Prop where
  orderly : Orderly u calls
  runs : Machine.Runs (Machine.Steps step) u calls t

/-- The user behaves in this turn. Where there is room, what is queued stays within the bounds. -/
structure Behaves (room : Prop) (s : State η) (turn : Turn η) (t : State η) : Prop where
  uses : ∃ u, Uses u turn.calls t ∧
    match turn.event with
    | none => u = s
    | some e => e.FromLoop ∧ step s e = some u ∧
        ∀ handler, u.history.upcalls = s.history.upcalls ++ [.timeout handler] → turn.written ≠ []
  room : room → s.unsent.length + turn.written.length < 2 ^ 31

/-- The rules of a connection, those about the output only where there is room. -/
def Proper (room : Prop) (x : Traced η) (e : Event η) : Prop := Completes x e ∧ (room → WithinBounds x e)

theorem Event.Prepares.user {e : Event η} (h : e.Prepares) : ¬ e.FromLoop := by
  cases e <;> first | exact id | exact h.elim

theorem Orderly.user {u : State η} {es : List (Event η)} (h : Orderly u es) : ∀ e ∈ es, ¬ e.FromLoop := by
  cases h with
  | asks es handler size hes _ =>
    intro e he
    rcases List.mem_append.mp he with he | he
    · exact (hes e he).user
    · exact List.mem_singleton.mp he ▸ id
  | ends es hes =>
    intro e he
    rcases List.mem_append.mp he with he | he
    · exact (hes e he).user
    · exact List.mem_singleton.mp he ▸ id
  | rests _ hes => exact fun e he => (hes e he).user

/-! ### What a user calls -/

/-- What holds of a connection with its calls while its user is at work. -/
structure Used (room : Prop) (x : Traced η) : Prop where
  fed : IoFed x.conn
  reads : ReadsRepeatable x
  flushes : room → Flushes x.conn

/-- What is written goes behind the queue, and there is nothing to be completed. -/
theorem prepares_step {room : Prop} {x : Traced η} {e : Event η} {t : State η} (he : e.Prepares)
    (h : step x.conn e = some t)
    (hroom : room → Flushes x.conn ∧ (x.conn.unsent ++ e.written).length < 2 ^ 31) :
    Proper room x e ∧ (x.next e t).reads = x.reads ∧
      ((x.next e t).timedOut = true → x.timedOut = true ∧ e.written = []) ∧
      (room → Flushes t ∧ t.unsent = x.conn.unsent ++ e.written) := by
  obtain ⟨-, -, halive⟩ := step_eq_some h
  cases e with
  | tlsWrite data freeData =>
    obtain rfl := Option.some.inj halive
    refine ⟨⟨trivial, fun hr => ⟨he, (hroom hr).2⟩⟩, rfl, fun hc => absurd hc Bool.false_ne_true, fun hr => ?_⟩
    obtain ⟨hf, hlen⟩ := hroom hr
    exact ⟨flushes_tlsWrite hf he freeData hlen, (writes_tlsWrite hf.queue data freeData).unsent⟩
  | tlsWriteLine string =>
    obtain rfl := Option.some.inj halive
    refine ⟨⟨trivial, fun hr => (hroom hr).2⟩, rfl, fun hc => absurd hc Bool.false_ne_true, fun hr => ?_⟩
    obtain ⟨hf, hlen⟩ := hroom hr
    exact ⟨flushes_tlsWriteLine hf hlen, (writes_tlsWriteLine string x.conn).unsent⟩
  | tlsOnError handler =>
    obtain rfl := Option.some.inj halive
    exact ⟨⟨trivial, fun _ => trivial⟩, rfl, fun hc => ⟨hc, rfl⟩, fun hr =>
      ⟨flushes_of_side (hroom hr).1 rfl id, (List.append_nil _).symm⟩⟩
  | tlsOnTimeout handler =>
    obtain rfl := Option.some.inj halive
    refine ⟨⟨trivial, fun _ => trivial⟩, rfl, fun hc => ⟨hc, rfl⟩, fun hr => ?_⟩
    have hside := beside_tlsOnTimeout handler x.conn
    refine ⟨flushes_of_side (hroom hr).1 hside.side (mem_tlsOnTimeout_active handler x.conn (by decide)).mp, ?_⟩
    exact (writes_tlsOnTimeout handler x.conn).unsent
  | tlsOnLineTooLong handler =>
    obtain rfl := Option.some.inj halive
    exact ⟨⟨trivial, fun _ => trivial⟩, rfl, fun hc => ⟨hc, rfl⟩, fun hr =>
      ⟨flushes_of_side (hroom hr).1 rfl id, (List.append_nil _).symm⟩⟩
  | _ => exact he.elim

theorem used_step {room : Prop} {x : Traced η} {e : Event η} {t : State η} (hx : Used room x)
    (hok : Completes x e) (hf : room → Flushes t) (h : step x.conn e = some t) : tracedStep x e = some (x.next e t) ∧
      Used room (x.next e t) := by
  have htraced : tracedStep x e = some (x.next e t) := by
    unfold tracedStep
    rw [h]
    rfl
  refine ⟨htraced, ?_, reads_step hx.reads hok htraced, ?_⟩
  · exact (conn_next x e t).symm ▸ ioFed_step hx.fed h
  · exact (conn_next x e t).symm ▸ hf

/-- What a user writes first. -/
theorem prepares_runs {room : Prop} {x : Traced η} {es : List (Event η)} {t : State η} (hx : Used room x)
    (hes : ∀ e ∈ es, e.Prepares) (h : Machine.Runs (Machine.Steps step) x.conn es t)
    (hroom : room → (x.conn.unsent ++ es.flatMap Event.written).length < 2 ^ 31) :
    ∃ y, Machine.Runs (Machine.Meeting (Proper room) (Machine.Steps tracedStep)) x es y ∧ y.conn = t ∧
      Used room y ∧ y.reads = x.reads ∧ (y.timedOut = true → x.timedOut = true ∧ es.flatMap Event.written = []) := by
  induction es generalizing x with
  | nil =>
    cases h
    exact ⟨x, .nil x, rfl, hx, rfl, fun hc => ⟨hc, rfl⟩⟩
  | cons e es ih =>
    cases h with
    | @cons _ u _ _ _ h1 hrest =>
      rw [List.flatMap_cons, ← List.append_assoc] at hroom
      have hfirst : room → Flushes x.conn ∧ (x.conn.unsent ++ e.written).length < 2 ^ 31 := fun hr => by
        have hlen := hroom hr
        rw [List.length_append] at hlen
        exact ⟨hx.flushes hr, by omega⟩
      obtain ⟨hproper, hreads, htimed, hnext⟩ := prepares_step (hes e List.mem_cons_self) h1 hfirst
      obtain ⟨htraced, hu⟩ := used_step hx hproper.1 (fun hr => (hnext hr).1) h1
      have hconn := conn_next x e u
      generalize x.next e u = y at hreads htimed htraced hu hconn
      subst hconn
      obtain ⟨z, hruns, hz, hused, hreads', htimed'⟩ := ih hu (fun e he => hes e (List.mem_cons_of_mem _ he)) hrest
        fun hr => (hnext hr).2 ▸ hroom hr
      refine ⟨z, .cons ⟨hproper, htraced⟩ hruns, hz, hused, hreads'.trans hreads, fun hc => ?_⟩
      obtain ⟨hy, hnil⟩ := htimed' hc
      obtain ⟨hx, hnil'⟩ := htimed hy
      exact ⟨hx, by rw [List.flatMap_cons, hnil, hnil', List.append_nil]⟩

/-- A user at work keeps the rules, and has handled a timeout in the end. -/
theorem uses_runs {room : Prop} {x : Traced η} {calls : List (Event η)} {t : State η} (hx : Used room x)
    (h : Uses x.conn calls t) (htimed : x.timedOut = true → calls.flatMap Event.written ≠ [])
    (hroom : room → (x.conn.unsent ++ calls.flatMap Event.written).length < 2 ^ 31) :
    ∃ y, Machine.Runs (Machine.Meeting (Proper room) (Machine.Steps tracedStep)) x calls y ∧ y.conn = t ∧
      Used room y ∧ y.timedOut = false := by
  obtain ⟨horderly, hruns⟩ := h
  -- what comes first, and the last call
  have hlast : ∀ {es : List (Event η)} {last : Event η} {t : State η}, (∀ e ∈ es, e.Prepares) → last.written = [] →
      calls = es ++ [last] → Machine.Runs (Machine.Steps step) x.conn (es ++ [last]) t →
      ∃ y, Machine.Runs (Machine.Meeting (Proper room) (Machine.Steps tracedStep)) x es y ∧ Used room y ∧
        y.reads = x.reads ∧ y.timedOut = false ∧ step y.conn last = some t := by
    intro es last t hes hnil hcalls hruns
    have hwritten : calls.flatMap Event.written = es.flatMap Event.written := by
      rw [hcalls, List.flatMap_append, List.flatMap_singleton, hnil, List.append_nil]
    rw [hwritten] at htimed hroom
    obtain ⟨v, hbefore, hafter⟩ := hruns.split
    obtain ⟨y, htraces, rfl, hused, hreads, hidle⟩ := prepares_runs hx hes hbefore hroom
    cases hafter with
    | cons hstep hrest =>
      cases hrest
      refine ⟨y, htraces, hused, hreads, ?_, hstep⟩
      by_contra hc
      obtain ⟨htrue, hnone⟩ := hidle (by simpa using hc)
      exact htimed htrue hnone
  cases horderly with
  | asks es handler size hes hblank =>
    obtain ⟨y, htraces, hused, hreads, hidle, hstep⟩ := hlast hes rfl rfl hruns
    have hcompletes : Completes y (.tlsRead handler size) := by
      refine Or.inr fun c hc hr => ?_
      rw [hreads] at hc
      obtain ⟨hsome, -⟩ := hx.reads.next c hc hr
      rw [hblank.input] at hsome
      cases hsome
    have hconn := Option.some.inj (step_eq_some hstep).2.2
    obtain ⟨htraced, hnext⟩ := used_step hused hcompletes
      (fun hr => hconn ▸ flushes_tlsRead (hused.flushes hr) handler size) hstep
    exact ⟨_, htraces.snoc ⟨⟨hcompletes, fun _ => trivial⟩, htraced⟩, conn_next _ _ _, hnext, hidle⟩
  | ends es hes =>
    obtain ⟨y, htraces, hused, hreads, hidle, hstep⟩ := hlast hes rfl rfl hruns
    have hconn := Option.some.inj (step_eq_some hstep).2.2
    have hcompletes : Completes y .tlsShutdown := trivial
    obtain ⟨htraced, hnext⟩ := used_step hused hcompletes
      (fun hr => hconn ▸ flushes_tlsShutdown (hused.flushes hr)) hstep
    exact ⟨_, htraces.snoc ⟨⟨hcompletes, fun _ => hidle⟩, htraced⟩, conn_next _ _ _, hnext, hidle⟩
  | rests _ hes =>
    obtain ⟨y, htraces, rfl, hused, -, hidle⟩ := prepares_runs hx hes hruns hroom
    refine ⟨y, htraces, rfl, hused, ?_⟩
    by_contra hc
    obtain ⟨htrue, hnone⟩ := hidle (by simpa using hc)
    exact htimed htrue hnone

/-! ### Turns and runs -/

theorem proper_fromLoop {room : Prop} {x : Traced η} {e : Event η} (he : e.FromLoop) : Proper room x e := by
  cases e <;> first | exact ⟨trivial, fun _ => trivial⟩ | exact he.elim

/-- Only a call of the timeout handler is to be followed by some output. -/
theorem timedOut_next {x : Traced η} {e : Event η} {u : State η} (he : e.FromLoop) (hidle : x.timedOut = false)
    (h : step x.conn e = some u) (htimed : (x.next e u).timedOut = true) :
    ∃ handler, u.history.upcalls = x.conn.history.upcalls ++ [.timeout handler] := by
  obtain ⟨-, -, halive⟩ := step_eq_some h
  cases e with
  | timeoutCb =>
    have hgrown : x.conn.history.upcalls.length < u.history.upcalls.length := by
      simpa [Traced.next, hidle] using htimed
    obtain ⟨-, rfl⟩ := invoke_eq_some halive
    rcases upcalls_timeoutCb { x.conn with loop := x.conn.loop.take .timeout } with hsame | hcalled
    · rw [hsame] at hgrown
      exact absurd hgrown (lt_irrefl _)
    · exact hcalled
  | tlsRead handler size => exact he.elim
  | tlsWrite data freeData => exact he.elim
  | tlsWriteLine string => exact he.elim
  | tlsShutdown => exact he.elim
  | tlsOnError handler => exact he.elim
  | tlsOnTimeout handler => exact he.elim
  | tlsOnLineTooLong handler => exact he.elim
  | _ => exact absurd (hidle.symm.trans htimed) Bool.false_ne_true

/-- **A turn of a user that behaves.** -/
theorem behaves_runs {room : Prop} {x : Traced η} {turn : Turn η} {t : State η} (hx : Used room x)
    (hidle : x.timedOut = false) (h : Behaves room x.conn turn t) :
    ∃ y, Machine.Runs (Machine.Meeting (Proper room) (Machine.Steps tracedStep)) x turn.events y ∧ y.conn = t ∧
      Used room y ∧ y.timedOut = false := by
  obtain ⟨⟨u, huses, hevent⟩, hroom⟩ := h
  have hwritten : turn.calls.flatMap Event.written = turn.written := rfl
  have hevents : turn.events = turn.event.toList ++ turn.calls := rfl
  rw [hevents]
  cases he : turn.event with
  | none =>
    rw [he] at hevent
    subst hevent
    refine uses_runs hx huses (fun hc => absurd (hidle.symm.trans hc) Bool.false_ne_true) fun hr => ?_
    rw [List.length_append]
    exact hroom hr
  | some e =>
    rw [he] at hevent
    obtain ⟨hloop, hstep, htimed⟩ := hevent
    have hflushes : room → Flushes u ∧ u.unsent.length ≤ x.conn.unsent.length := fun hr => by
      obtain ⟨halive, -, hsteps⟩ := step_eq_some hstep
      obtain ⟨hf, hsent, hstream⟩ := flushes_stepAlive hx.fed halive (hx.flushes hr) hloop hsteps
      have hle := hsent.length_le
      have hlen := congrArg List.length hstream
      simp only [List.length_append] at hlen
      exact ⟨hf, by omega⟩
    have hproper : Proper room x e := proper_fromLoop hloop
    obtain ⟨htraced, hnext⟩ := used_step hx hproper.1 (fun hr => (hflushes hr).1) hstep
    have hcalled := timedOut_next hloop hidle hstep
    have hconn := conn_next x e u
    generalize x.next e u = y at htraced hnext hcalled hconn
    subst hconn
    obtain ⟨z, hruns, hz⟩ := uses_runs hnext huses
      (fun hc => by
        obtain ⟨handler, hup⟩ := hcalled hc
        exact htimed handler hup)
      fun hr => by
        have hlt := hroom hr
        have hle := (hflushes hr).2
        rw [List.length_append, hwritten]
        omega
    exact ⟨z, .cons ⟨hproper, htraced⟩ hruns, hz⟩

/-- **The users of a connection that behave keep its rules.** -/
theorem traces_of_behaves {room : Prop} {start s : State η} {turns : List (Turn η)} (hstart : Started start)
    (h : Machine.Runs (Behaves room) start turns s) :
    ∃ x, Traces (Proper room) (turns.flatMap Turn.events) x ∧ x.conn = s := by
  have hturn : ∀ (s : State η) (x : Traced η) (turn : Turn η) (t : State η),
      (x.conn = s ∧ Used room x ∧ x.timedOut = false) → Behaves room s turn t →
      ∃ y, Machine.Runs (Machine.Meeting (Proper room) (Machine.Steps tracedStep)) x turn.events y ∧
        y.conn = t ∧ Used room y ∧ y.timedOut = false := by
    rintro s x turn t ⟨rfl, hused, hidle⟩ hb
    exact behaves_runs hused hidle hb
  have hused : Used room (.start start) :=
    ⟨hstart.ioFed, ⟨.nil, fun c hc => by cases hc⟩, fun _ => hstart.unused.flushes⟩
  obtain ⟨x, hruns, rfl, -⟩ := h.expands hturn ⟨rfl, hused, rfl⟩
  exact ⟨x, ⟨hstart, hruns⟩, rfl⟩

end Tls
end NscaNg
