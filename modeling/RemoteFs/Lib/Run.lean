import Mathlib.Data.List.Basic

/-!
# Runs of a labelled transition system

`Run step guard s₀ es s`: starting from `s₀`, the events `es` (newest first) lead to `s`, and the
`guard` held at every step.  The guard sees the history and the state *before* the step, so it can
express "as long as nobody ever does such and such", and the invariant rule `Run.invariant` hands
it to the step lemma.  Invariants may speak about the history too: that is how a statement such as
"every handle that was issued and not given back since" is made about a state.

An unguarded run is one whose guard is `Run.free`.

A run can be cut in two (`Run.split`), put together from two (`Run.trans`), looked at through one
component of the state only (`Run.project`), and followed by another system (`Run.simulate`).
-/

set_option autoImplicit false

variable {σ ε : Type}

/-- The runs of `step` from `s₀` all of whose steps meet `guard`. -/
inductive Run (step : σ → ε → σ → Prop) (guard : List ε → σ → ε → Prop) (s₀ : σ) :
    List ε → σ → Prop
  | start : Run step guard s₀ [] s₀
  | next {es : List ε} {s s' : σ} {e : ε} (run : Run step guard s₀ es s) (ok : guard es s e)
      (move : step s e s') : Run step guard s₀ (e :: es) s'

namespace Run

variable {step : σ → ε → σ → Prop} {guard guard' : List ε → σ → ε → Prop} {s₀ s : σ}
  {es : List ε}

/-- The guard that is always met. -/
def free : List ε → σ → ε → Prop := fun _ _ _ ↦ True

instance (es : List ε) (s : σ) (e : ε) : Decidable (free es s e) := inferInstanceAs (Decidable True)

/-- **The invariant rule.**  What holds at the start and is preserved by every step of a guarded
run holds in every state such a run reaches.  The step lemma may use that the state before the
step was reached. -/
theorem invariant {I : List ε → σ → Prop} (hinit : I [] s₀)
    (hstep : ∀ {es s e s'}, Run step guard s₀ es s → I es s → guard es s e → step s e s' →
      I (e :: es) s')
    (h : Run step guard s₀ es s) : I es s := by
  induction h with
  | start => exact hinit
  | next run ok move ih => exact hstep run ih ok move

/-- **The rule for histories.**  What every guarded step establishes about its event and the history
before it holds of every event of the history of a run. -/
theorem forall_events {P : List ε → ε → Prop}
    (hstep : ∀ {es s e s'}, Run step guard s₀ es s → guard es s e → step s e s' → P es e)
    (h : Run step guard s₀ es s) {e : ε} {earlier : List ε} (hmem : e :: earlier <:+ es) :
    P earlier e := by
  induction h with
  | start => cases List.suffix_nil.mp hmem
  | next run ok move ih =>
    rcases List.suffix_cons_iff.mp hmem with heq | hmem
    · cases heq
      exact hstep run ok move
    · exact ih hmem

/-- Without its guard a run is still one. -/
theorem forget (h : Run step guard s₀ es s) : Run step free s₀ es s := by
  induction h with
  | start => exact .start
  | next run ok move ih => exact .next ih trivial move

/-- A run goes through the state that each part of its history leads to. -/
theorem split {later : List ε} (h : Run step guard s₀ (later ++ es) s) :
    ∃ s₁, Run step guard s₀ es s₁ ∧ Run step free s₁ later s := by
  induction later generalizing s with
  | nil => exact ⟨s, h, .start⟩
  | cons e later ih =>
    rcases h with _ | ⟨run, ok, move⟩
    obtain ⟨s₁, hfirst, hrest⟩ := ih run
    exact ⟨s₁, hfirst, .next hrest trivial move⟩

/-- A run is continued by a run from where it has come to. -/
theorem trans {later : List ε} {s' : σ} (h : Run step free s₀ es s)
    (h' : Run step free s later s') : Run step free s₀ (later ++ es) s' := by
  induction h' with
  | start => exact h
  | next run ok move ih => exact .next ih trivial move

/-- The oldest event of a run is its first step. -/
theorem first_iff {later : List ε} {e : ε} :
    Run step free s₀ (later ++ [e]) s ↔ ∃ s₁, step s₀ e s₁ ∧ Run step free s₁ later s := by
  constructor
  · intro h
    obtain ⟨s₁, hfirst, hrest⟩ := h.split
    rcases hfirst with _ | ⟨run, -, move⟩
    cases run
    exact ⟨s₁, move, hrest⟩
  · rintro ⟨s₁, move, hrest⟩
    exact (Run.next .start trivial move).trans hrest

/-- **A component of a run.**  What a part of the state does in a run is a run of that part, if each
step of the whole either leaves it alone or is a step of it. -/
theorem project {τ δ : Type} {step' : τ → δ → τ → Prop} (part : σ → τ) (event : ε → Option δ)
    (hstep : ∀ {s e s'}, step s e s' →
      (event e = none ∧ part s' = part s) ∨ ∃ d, event e = some d ∧ step' (part s) d (part s'))
    (h : Run step guard s₀ es s) : Run step' free (part s₀) (es.filterMap event) (part s) := by
  induction h with
  | start => exact .start
  | @next es s s' e run ok move ih =>
    rcases hstep move with ⟨hnone, hpart⟩ | ⟨d, hsome, hmove⟩
    · rw [List.filterMap_cons_none hnone, hpart]
      exact ih
    · rw [List.filterMap_cons_some hsome]
      exact .next ih trivial hmove

/-- **The simulation rule.**  What a step of one system does, a step of the other with the same event
does, and the states stay related. -/
theorem simulate {τ : Type} {step' : τ → ε → τ → Prop} {R : σ → τ → Prop} {t₀ : τ}
    (h : Run step guard s₀ es s) (hinit : R s₀ t₀)
    (hstep : ∀ {s e s' t}, R s t → step s e s' → ∃ t', step' t e t' ∧ R s' t') :
    ∃ t, Run step' free t₀ es t ∧ R s t := by
  induction h with
  | start => exact ⟨t₀, .start, hinit⟩
  | next run ok move ih =>
    obtain ⟨t, hrun, hR⟩ := ih
    obtain ⟨t', hmove, hR'⟩ := hstep hR move
    exact ⟨t', .next hrun trivial hmove, hR'⟩

end Run
