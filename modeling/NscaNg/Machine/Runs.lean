/-
# Runs of a machine

A machine takes steps from state to state, each on an event. A run is a list of events with the
steps they make. An invariant is shown for one step and holds along a run (`Runs.invariant`); a
relation to a second machine that each step keeps gives a run of the second machine
(`Runs.simulates`).
-/
import Mathlib.Data.List.Basic

namespace Machine

variable {σ ε τ : Type}

/-- The runs of a machine with the steps `R`. -/
inductive Runs (R : σ → ε → σ → Prop) : σ → List ε → σ → Prop
  | nil (s : σ) : Runs R s [] s
  | cons {s t u : σ} {e : ε} {es : List ε} : R s e t → Runs R t es u → Runs R s (e :: es) u

/-- The steps of a function that refuses events that cannot happen. -/
def Steps (step : σ → ε → Option σ) (s : σ) (e : ε) (t : σ) : Prop := step s e = some t

/-- The steps that meet a condition on the state and the event. -/
def Meeting (ok : σ → ε → Prop) (R : σ → ε → σ → Prop) (s : σ) (e : ε) (t : σ) : Prop :=
  ok s e ∧ R s e t

/-- The state a list of events leads to. -/
def run (step : σ → ε → Option σ) : σ → List ε → Option σ
  | s, [] => some s
  | s, e :: es =>
    match step s e with
    | none => none
    | some t => run step t es

theorem runs_of_run {step : σ → ε → Option σ} {s u : σ} {es : List ε} (h : run step s es = some u) :
    Runs (Steps step) s es u := by
  induction es generalizing s with
  | nil =>
    obtain rfl : s = u := by simpa [run] using h
    exact .nil s
  | cons e es ih =>
    unfold run at h
    split at h
    · exact absurd h (by simp)
    · rename_i t ht
      exact .cons ht (ih h)

theorem run_of_runs {step : σ → ε → Option σ} {s u : σ} {es : List ε} (h : Runs (Steps step) s es u) :
    run step s es = some u := by
  induction h with
  | nil => rfl
  | cons hs _ ih =>
    unfold run
    rw [hs]
    exact ih

/-- Steps that do not meet the condition are refused as well. -/
def guarded (ok : σ → ε → Prop) [∀ s e, Decidable (ok s e)] (step : σ → ε → Option σ) (s : σ) (e : ε) :
    Option σ :=
  if ok s e then step s e else none

theorem runs_of_guarded {ok : σ → ε → Prop} [∀ s e, Decidable (ok s e)] {step : σ → ε → Option σ} {s u : σ}
    {es : List ε} (h : run (guarded ok step) s es = some u) : Runs (Meeting ok (Steps step)) s es u := by
  have hruns := runs_of_run h
  clear h
  induction hruns with
  | nil s => exact .nil s
  | cons hs _ ih =>
    unfold Steps guarded at hs
    split at hs
    · rename_i hok
      exact .cons ⟨hok, hs⟩ ih
    · cases hs

variable {R R' : σ → ε → σ → Prop}

theorem Runs.append {s t u : σ} {es fs : List ε} (h : Runs R s es t) (h' : Runs R t fs u) :
    Runs R s (es ++ fs) u := by
  induction h with
  | nil => exact h'
  | cons hs _ ih => exact .cons hs (ih h')

theorem Runs.split {s u : σ} {es fs : List ε} (h : Runs R s (es ++ fs) u) : ∃ t, Runs R s es t ∧ Runs R t fs u := by
  induction es generalizing s with
  | nil => exact ⟨s, .nil s, h⟩
  | cons e es ih =>
    cases h with
    | cons h1 hrest =>
      obtain ⟨t, hes, hfs⟩ := ih hrest
      exact ⟨t, .cons h1 hes, hfs⟩

theorem Runs.snoc {s t u : σ} {es : List ε} {e : ε} (h : Runs R s es t) (h' : R t e u) :
    Runs R s (es ++ [e]) u :=
  h.append (.cons h' (.nil u))

theorem Runs.mono (hR : ∀ s e t, R s e t → R' s e t) {s t : σ} {es : List ε} (h : Runs R s es t) :
    Runs R' s es t := by
  induction h with
  | nil s => exact .nil s
  | cons hs _ ih => exact .cons (hR _ _ _ hs) ih

theorem Runs.meeting {P : ε → Prop} {s t : σ} {es : List ε} (h : Runs R s es t) (hP : ∀ e ∈ es, P e) :
    Runs (Meeting (fun _ e => P e) R) s es t := by
  induction h with
  | nil s => exact .nil s
  | cons hs _ ih =>
    obtain ⟨he, hes⟩ := List.forall_mem_cons.mp hP
    exact .cons ⟨he, hs⟩ (ih hes)

/-- What every step keeps, every run keeps. -/
theorem Runs.invariant {I : σ → Prop} (hstep : ∀ s e t, I s → R s e t → I t) {s t : σ} {es : List ε}
    (h : Runs R s es t) (hs : I s) : I t := by
  induction h with
  | nil => exact hs
  | cons h1 _ ih => exact ih (hstep _ _ _ hs h1)

/-- What holds in the end, and before each step behind which it holds, holds all along. -/
theorem Runs.backwards {P : σ → Prop} (hstep : ∀ s e t, R s e t → P t → P s) {s t : σ} {es : List ε}
    (h : Runs R s es t) (ht : P t) : P s ∧ Runs (fun s e t => R s e t ∧ P t) s es t := by
  induction h with
  | nil s => exact ⟨ht, .nil s⟩
  | cons h1 _ ih =>
    obtain ⟨hmiddle, hrest⟩ := ih ht
    exact ⟨hstep _ _ _ h1 hmiddle, .cons ⟨h1, hmiddle⟩ hrest⟩

/-- A relation to a second machine that every step keeps gives a run of the second machine. -/
theorem Runs.simulates {σ' ε' : Type} {R' : σ' → ε' → σ' → Prop} {related : σ → σ' → Prop} {same : ε → ε' → Prop}
    (hstep : ∀ s s' e e' t, related s s' → same e e' → R s e t → ∃ t', R' s' e' t' ∧ related t t') {s t : σ}
    {s' : σ'} {es : List ε} {es' : List ε'} (h : Runs R s es t) (hes : List.Forall₂ same es es')
    (hs : related s s') : ∃ t', Runs R' s' es' t' ∧ related t t' := by
  induction h generalizing s' es' with
  | nil s =>
    cases hes
    exact ⟨s', .nil s', hs⟩
  | cons h1 _ ih =>
    cases hes with
    | cons he hes =>
      obtain ⟨t', h1', ht⟩ := hstep _ _ _ _ _ hs he h1
      obtain ⟨u', hruns, hu⟩ := ih hes ht
      exact ⟨u', .cons h1' hruns, hu⟩

/-- Where each step is one of a second machine, as long as an invariant holds, a run is one of it. -/
theorem Runs.images {σ' ε' : Type} {R' : σ' → ε' → σ' → Prop} {I : σ → Prop} {f : σ → σ'} {same : ε → ε' → Prop}
    (hstep : ∀ s e t, I s → R s e t → I t ∧ ∃ e', same e e' ∧ R' (f s) e' (f t)) {s t : σ} {es : List ε}
    (h : Runs R s es t) (hs : I s) : ∃ es', List.Forall₂ same es es' ∧ Runs R' (f s) es' (f t) := by
  induction h with
  | nil s => exact ⟨[], .nil, .nil (f s)⟩
  | cons h1 _ ih =>
    obtain ⟨ht, e', he, h1'⟩ := hstep _ _ _ hs h1
    obtain ⟨es', hes, hruns⟩ := ih ht
    exact ⟨e' :: es', .cons he hes, .cons h1' hruns⟩

/-- Where each step is a run of a second machine, a run is the joined runs of its steps. -/
theorem Runs.expands {σ' ε' : Type} {R' : σ' → ε' → σ' → Prop} {related : σ → σ' → Prop} {events : ε → List ε'}
    (hstep : ∀ s s' e t, related s s' → R s e t → ∃ t', Runs R' s' (events e) t' ∧ related t t') {s t : σ} {s' : σ'}
    {es : List ε} (h : Runs R s es t) (hs : related s s') : ∃ t', Runs R' s' (es.flatMap events) t' ∧ related t t' := by
  induction h generalizing s' with
  | nil s => exact ⟨s', .nil s', hs⟩
  | cons h1 _ ih =>
    obtain ⟨t', h1', ht⟩ := hstep _ _ _ _ hs h1
    obtain ⟨u', hruns, hu⟩ := ih ht
    exact ⟨u', h1'.append hruns, hu⟩

/-- What every step adds to a list, a run adds one after the other. -/
theorem Runs.accumulates {α : Type} {I : σ → Prop} {f : σ → List α} {g : ε → List α}
    (hstep : ∀ s e t, I s → R s e t → I t ∧ f t = f s ++ g e) {s t : σ} {es : List ε} (h : Runs R s es t)
    (hs : I s) : I t ∧ f t = f s ++ es.flatMap g := by
  induction h with
  | nil => exact ⟨hs, by simp⟩
  | cons h1 _ ih =>
    obtain ⟨ht, hf⟩ := hstep _ _ _ hs h1
    obtain ⟨hu, hg⟩ := ih ht
    exact ⟨hu, by rw [hg, hf, List.flatMap_cons, List.append_assoc]⟩

/-- A run has no more events of a kind than a number that these make smaller and no event makes
larger. -/
theorem Runs.countP_le {p : ε → Bool} {I : σ → Prop} {μ : σ → ℕ}
    (hstep : ∀ s e t, I s → R s e t → I t ∧ μ t + (if p e then 1 else 0) ≤ μ s) {s t : σ} {es : List ε}
    (h : Runs R s es t) (hs : I s) : es.countP p ≤ μ s := by
  induction h with
  | nil => exact Nat.zero_le _
  | cons h1 _ ih =>
    obtain ⟨ht, hle⟩ := hstep _ _ _ hs h1
    have hrest := ih ht
    rw [List.countP_cons]
    omega

/-- Where every state has a step on an event of a kind, there are runs of any number of them. -/
theorem exists_runs {p : ε → Bool} {I : σ → Prop} (hstep : ∀ s, I s → ∃ e t, R s e t ∧ p e = true ∧ I t)
    {s : σ} (hs : I s) (n : ℕ) : ∃ es t, Runs R s es t ∧ es.countP p = n := by
  induction n generalizing s with
  | zero => exact ⟨[], s, .nil s, rfl⟩
  | succ n ih =>
    obtain ⟨e, t, h, hp, ht⟩ := hstep s hs
    obtain ⟨es, u, hruns, hcount⟩ := ih ht
    exact ⟨e :: es, u, .cons h hruns, by rw [List.countP_cons, hcount, if_pos hp]⟩

end Machine
