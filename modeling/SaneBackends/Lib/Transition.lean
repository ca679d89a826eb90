import Mathlib.Logic.Relation
/-!
# Labelled transition systems

Runs of a system whose steps carry a label. `Reach C` collects the states met by
the runs all of whose steps satisfy the condition `C` on the state before the
step and on its label; `Reachable` is the unconditional case. Safety facts are
proved once per step and lifted with `Reach.invariant`.
-/

namespace SaneBackends.Lib

/-- A transition system with states `σ` and step labels `ι`. -/
structure System (σ ι : Type*) where
  init : σ → Prop
  step : σ → ι → σ → Prop

namespace System

variable {σ ι : Type*} {S : System σ ι}

/-- The states met by runs whose every step satisfies `C`. -/
inductive Reach (S : System σ ι) (C : σ → ι → Prop) : σ → Prop where
  | start {s : σ} : S.init s → Reach S C s
  | next {s s' : σ} {i : ι} : Reach S C s → C s i → S.step s i s' → Reach S C s'

/-- The states met by any run. -/
abbrev Reachable (S : System σ ι) : σ → Prop := S.Reach fun _ _ => True

/-- Invariance along conditional runs. The step case may use that the state
before the step is itself reached. -/
theorem Reach.invariant {C : σ → ι → Prop} {I : σ → Prop}
    (hinit : ∀ s, S.init s → I s)
    (hstep : ∀ s i s', S.Reach C s → I s → C s i → S.step s i s' → I s')
    {s : σ} (h : S.Reach C s) : I s := by
  induction h with
  | start h => exact hinit _ h
  | next hs hc hst ih => exact hstep _ _ _ hs ih hc hst

/-- The state behind some labels whose steps meet a condition, for steps given by a function. -/
def runSteps (step : σ → ι → Option σ) (C : σ → ι → Prop) [∀ s i, Decidable (C s i)] :
    σ → List ι → Option σ
  | s, [] => some s
  | s, i :: labels =>
      if C s i then
        match step s i with
        | none => none
        | some s' => runSteps step C s' labels
      else none

theorem reach_runSteps {step : σ → ι → Option σ} {C : σ → ι → Prop} [∀ s i, Decidable (C s i)]
    (hstep : ∀ s i s', step s i = some s' → S.step s i s') {s s' : σ} (h : S.Reach C s)
    (labels : List ι) (hrun : runSteps step C s labels = some s') : S.Reach C s' := by
  induction labels generalizing s with
  | nil =>
      cases hrun
      exact h
  | cons i labels ih =>
      rw [runSteps, Option.ite_none_right_eq_some] at hrun
      obtain ⟨hC, hrun⟩ := hrun
      cases hnext : step s i with
      | none =>
          rw [hnext] at hrun
          cases hrun
      | some s₁ =>
          rw [hnext] at hrun
          exact ih (.next h hC (hstep s i s₁ hnext)) hrun

/-- What holds behind a run holds of a state that is reached. -/
theorem exists_reach_runSteps {step : σ → ι → Option σ} {C : σ → ι → Prop}
    [∀ s i, Decidable (C s i)] {Q : σ → Prop} (hstep : ∀ s i s', step s i = some s' → S.step s i s')
    {s : σ} (hs : S.init s) (labels : List ι) (h : ∃ s' ∈ runSteps step C s labels, Q s') :
    ∃ s', S.Reach C s' ∧ Q s' := by
  obtain ⟨s', hrun, hQ⟩ := h
  exact ⟨s', reach_runSteps hstep (.start hs) labels hrun, hQ⟩

/-- Some sequence of steps takes the system from one state to the other. -/
abbrev Leads (S : System σ ι) : σ → σ → Prop := Relation.ReflTransGen fun s s' => ∃ i, S.step s i s'

/-- What a step can always bring closer is eventually led to. -/
theorem leads_of_measure {I goal : σ → Prop} (measure : σ → Nat)
    (hstep : ∀ s, I s → ¬ goal s → ∃ i s', S.step s i s' ∧ I s' ∧ measure s' < measure s)
    {s : σ} (h : I s) : ∃ s', S.Leads s s' ∧ I s' ∧ goal s' := by
  induction hn : measure s using Nat.strongRecOn generalizing s with
  | _ n ih =>
      by_cases hgoal : goal s
      · exact ⟨s, .refl, h, hgoal⟩
      · obtain ⟨i, s₁, hi, h₁, hlt⟩ := hstep s h hgoal
        obtain ⟨s₂, hleads, h₂, hgoal₂⟩ := ih (measure s₁) (hn ▸ hlt) h₁ rfl
        exact ⟨s₂, .head ⟨i, hi⟩ hleads, h₂, hgoal₂⟩

end System

end SaneBackends.Lib
