/-
# The server

`src/server/server.c` as a whole: the connections that have been accepted, and the writer of the command file
that they share. A step is one of a connection, whose handler may call `fifo_write()`, or of the writer, or another
connection is accepted. For a connection the others do not exist; the writer is handed the commands of all of them
(`Composed`).
-/
import NscaNg.Server.FifoRecords
import NscaNg.Server.SessionLog

namespace NscaNg
namespace Server

open Posix

variable {ρ : Type}

/-- What `server_start()` makes, with the connections `tls_server_start()` has accepted since. -/
structure ServerState where
  connections : List Session
  fifo : Fifo.State UInt8
  /-- What has been handed to `fifo_write()`, each with the number of its connection. -/
  submitted : List (ℕ × Bytes)

inductive ServerEvent
  | accept (hasAddress hasSsl : Bool) (now : ℚ)
  /-- An event of a connection, and how the calls end that `fifo_write()` makes. -/
  | connection (n : ℕ) (e : Event) (r : Fifo.Replies)
  | fifo (e : Fifo.Event UInt8)

/-- What the handler of a connection has handed to `fifo_write()` in a step. -/
def handedOn (s t : Session) : List Bytes := (written t.log).drop (written s.log).length

def fifoWriteAll (fcfg : Fifo.Config) (blocks : List Bytes) (r : Fifo.Replies) (fifo : Fifo.State UInt8) :
    Fifo.State UInt8 :=
  blocks.foldl (fun fifo block => Fifo.fifoWrite fcfg block true r fifo) fifo

/-- `server_start()`: how `open_cb()` ended. -/
def serverStart (fcfg : Fifo.Config) (reply : Fifo.OpenReply) (r : Fifo.Replies) (now : ℚ) : ServerState where
  connections := []
  fifo := Fifo.fifoStart fcfg reply r now
  submitted := []

/-- A connection has come from one state to another. -/
def ServerState.moved (fcfg : Fifo.Config) (n : ℕ) (s t : Session) (r : Fifo.Replies) (d : ServerState) : ServerState where
  connections := d.connections.set n t
  fifo := fifoWriteAll fcfg (handedOn s t) r d.fifo
  submitted := d.submitted ++ (handedOn s t).map (Prod.mk n)

def ServerState.accepted (s : Session) (d : ServerState) : ServerState := { d with connections := d.connections ++ [s] }

def serverStep (cfg : Config ρ) (fcfg : Fifo.Config) (d : ServerState) : ServerEvent → Option ServerState
  | .accept hasAddress hasSsl now => some (d.accepted (start cfg hasAddress hasSsl now))
  | .connection n e r =>
    match d.connections[n]? with
    | none => none
    | some s => (step cfg s e).map fun t => d.moved fcfg n s t r
  | .fifo e => if e.records = [] then (Fifo.step fcfg d.fifo e).map fun fifo => { d with fifo := fifo } else none

/-- The server has come to this state. -/
def Operating (cfg : Config ρ) (fcfg : Fifo.Config) (es : List ServerEvent) (d : ServerState) : Prop :=
  ∃ reply r now, Machine.Runs (Machine.Steps (serverStep cfg fcfg)) (serverStart fcfg reply r now) es d

/-! ### The log of a session -/

section

variable {cfg : Config ρ} {s t : Session}

/-- The log grows. -/
theorem log_step {e : Event} (h : step cfg s e = some t) : s.log <+: t.log := by
  unfold step at h
  split at h
  · cases h
  · split at h
    · split at h
      · cases h
      · cases h
      · obtain ⟨u, -, rfl⟩ := Option.map_eq_some_iff.mp h
        exact List.prefix_rfl
    · obtain ⟨u, -, rfl⟩ := Option.map_eq_some_iff.mp h
      unfold react
      split
      · exact List.prefix_rfl
      · rw [(foldl_keeps _ _).2]
        exact List.prefix_append _ _

theorem written_step {e : Event} (h : step cfg s e = some t) : written t.log = written s.log ++ handedOn s t := by
  obtain ⟨more, hmore⟩ := log_step h
  have hsplit : written t.log = written s.log ++ written more := by
    rw [← hmore]
    exact List.flatMap_append
  rw [handedOn, hsplit, List.drop_left]

end

/-! ### The parts of the server -/

variable {cfg : Config ρ} {fcfg : Fifo.Config} {d d' : ServerState}

/-- What holds of the server and its parts. -/
structure Composed (cfg : Config ρ) (fcfg : Fifo.Config) (d : ServerState) : Prop where
  serving : ∀ s ∈ d.connections, ∃ es, Serving cfg es s
  writer : ∃ reply r now es, Machine.Runs (Machine.Steps (Fifo.step fcfg)) (Fifo.fifoStart fcfg reply r now) es d.fifo ∧
    Fifo.records es = d.submitted.map Prod.snd
  submitted : ∀ n s, d.connections[n]? = some s → (d.submitted.filter (·.1 = n)).map Prod.snd = written s.log
  known : ∀ p ∈ d.submitted, p.1 < d.connections.length

theorem runs_fifoWriteAll (blocks : List Bytes) (r : Fifo.Replies) (fifo : Fifo.State UInt8) :
    Machine.Runs (Machine.Steps (Fifo.step fcfg)) fifo (blocks.map fun block => .fifoWrite block true r)
      (fifoWriteAll fcfg blocks r fifo) := by
  induction blocks generalizing fifo with
  | nil => exact .nil fifo
  | cons block blocks ih => exact .cons rfl (ih _)

theorem records_fifoWrites (blocks : List Bytes) (r : Fifo.Replies) :
    Fifo.records (blocks.map fun block => Fifo.Event.fifoWrite block true r) = blocks := by
  unfold Fifo.records
  induction blocks with
  | nil => rfl
  | cons block blocks ih =>
    rw [List.map_cons, List.flatMap_cons, ih]
    rfl

theorem composed_start (cfg : Config ρ) (fcfg : Fifo.Config) (reply : Fifo.OpenReply) (r : Fifo.Replies) (now : ℚ) :
    Composed cfg fcfg (serverStart fcfg reply r now) where
  serving s hs := absurd hs List.not_mem_nil
  writer := ⟨reply, r, now, [], .nil _, rfl⟩
  submitted n s hs := by cases hs
  known p hp := absurd hp List.not_mem_nil

theorem Composed.accept (h : Composed cfg fcfg d) (hasAddress hasSsl : Bool) (now : ℚ) :
    Composed cfg fcfg (d.accepted (start cfg hasAddress hasSsl now)) where
  serving s hs := by
    rcases List.mem_append.mp hs with hs | hs
    · exact h.serving s hs
    · rw [List.mem_singleton.mp hs]
      exact ⟨[], hasAddress, hasSsl, now, .nil _⟩
  writer := h.writer
  submitted n s hs := by
    unfold ServerState.accepted at hs ⊢
    dsimp only at hs ⊢
    rcases lt_or_ge n d.connections.length with hn | hn
    · rw [List.getElem?_append_left hn] at hs
      exact h.submitted n s hs
    · rw [List.getElem?_append_right hn, List.getElem?_singleton] at hs
      split at hs
      · cases hs
        -- nothing has come from a connection that has just been accepted
        have hnone : d.submitted.filter (·.1 = n) = [] := List.filter_eq_nil_iff.mpr fun p hp => by
          have := h.known p hp
          simp
          omega
        rw [hnone]
        rfl
      · cases hs
  known p hp := by
    unfold ServerState.accepted
    dsimp only
    rw [List.length_append]
    exact Nat.lt_add_right _ (h.known p hp)

theorem Composed.moved {n : ℕ} {e : Event} {s t : Session} (h : Composed cfg fcfg d)
    (hs : d.connections[n]? = some s) (hstep : step cfg s e = some t) (r : Fifo.Replies) :
    Composed cfg fcfg (d.moved fcfg n s t r) where
  serving u hu := by
    rcases List.mem_or_eq_of_mem_set hu with hu | rfl
    · exact h.serving u hu
    · obtain ⟨es, hasAddress, hasSsl, now, hruns⟩ := h.serving s (List.mem_of_getElem? hs)
      exact ⟨es ++ [e], hasAddress, hasSsl, now, hruns.snoc hstep⟩
  writer := by
    obtain ⟨reply, r', now, es, hruns, hrecords⟩ := h.writer
    refine ⟨reply, r', now, _, hruns.append (runs_fifoWriteAll (handedOn s t) r d.fifo), ?_⟩
    have hsnd : ((handedOn s t).map (Prod.mk n)).map Prod.snd = handedOn s t := by simp
    rw [Fifo.records, List.flatMap_append, ServerState.moved, List.map_append, hsnd]
    exact congrArg₂ (· ++ ·) hrecords (records_fifoWrites _ r)
  submitted k u hu := by
    unfold ServerState.moved at hu ⊢
    dsimp only at hu ⊢
    rw [List.filter_append, List.map_append]
    by_cases hk : n = k
    · subst hk
      have hlt : n < d.connections.length := (List.getElem?_eq_some_iff.mp hs).1
      rw [List.getElem?_set_self hlt] at hu
      obtain rfl := Option.some.inj hu
      have hall : ((handedOn s t).map (Prod.mk n)).filter (·.1 = n) = (handedOn s t).map (Prod.mk n) :=
        List.filter_eq_self.mpr fun p hp => by
          obtain ⟨block, -, rfl⟩ := List.mem_map.mp hp
          exact decide_eq_true rfl
      have hsnd : ((handedOn s t).map (Prod.mk n)).map Prod.snd = handedOn s t := by simp
      rw [h.submitted n s hs, written_step hstep, hall, hsnd]
    · rw [List.getElem?_set_ne hk] at hu
      have hnone : ((handedOn s t).map (Prod.mk n)).filter (·.1 = k) = [] :=
        List.filter_eq_nil_iff.mpr fun p hp => by
          obtain ⟨block, -, rfl⟩ := List.mem_map.mp hp
          simpa using hk
      rw [h.submitted k u hu, hnone, List.map_nil, List.append_nil]
  known p hp := by
    unfold ServerState.moved at hp ⊢
    dsimp only at hp ⊢
    rw [List.length_set]
    rcases List.mem_append.mp hp with hp | hp
    · exact h.known p hp
    · obtain ⟨block, -, rfl⟩ := List.mem_map.mp hp
      exact (List.getElem?_eq_some_iff.mp hs).1

/-- The writer goes on by itself. -/
theorem Composed.fifo {e : Fifo.Event UInt8} {fifo : Fifo.State UInt8} (h : Composed cfg fcfg d) (hrecords : e.records = [])
    (hfifo : Fifo.step fcfg d.fifo e = some fifo) : Composed cfg fcfg { d with fifo := fifo } where
  serving := h.serving
  writer := by
    obtain ⟨reply, r, now, es, hruns, hall⟩ := h.writer
    refine ⟨reply, r, now, es ++ [e], hruns.snoc hfifo, ?_⟩
    rw [Fifo.records, List.flatMap_append, List.flatMap_singleton, hrecords, List.append_nil]
    exact hall
  submitted := h.submitted
  known := h.known

theorem Composed.step {e : ServerEvent} (h : Composed cfg fcfg d) (hstep : serverStep cfg fcfg d e = some d') :
    Composed cfg fcfg d' := by
  cases e with
  | accept hasAddress hasSsl now =>
    cases hstep
    exact h.accept hasAddress hasSsl now
  | connection n e r =>
    unfold serverStep at hstep
    dsimp only at hstep
    split at hstep
    · cases hstep
    · rename_i s hs
      obtain ⟨t, ht, rfl⟩ := Option.map_eq_some_iff.mp hstep
      exact h.moved hs ht r
  | fifo e =>
    unfold serverStep at hstep
    dsimp only at hstep
    split at hstep
    · rename_i hrecords
      obtain ⟨fifo, hfifo, rfl⟩ := Option.map_eq_some_iff.mp hstep
      exact h.fifo hrecords hfifo
    · cases hstep

/-- **The parts of the server.** In every run, each connection has made a run of its own, and so has the writer; and the
writer has been handed the commands of each connection in the order in which this connection has accepted them. -/
theorem Operating.composed {es : List ServerEvent} (h : Operating cfg fcfg es d) : Composed cfg fcfg d := by
  obtain ⟨reply, r, now, hruns⟩ := h
  exact hruns.invariant (fun _ _ _ hd hstep => hd.step hstep) (composed_start cfg fcfg reply r now)

end Server
end NscaNg
