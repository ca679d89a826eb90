import SaneBackends.Lib.Transition
/-!
# Systems with a log

A component whose steps call another one, and the calls it has made so far. A monitor reads
the calls and refuses those that come at the wrong time. That no call is refused in any run
follows from a relation between the states of the component and of the monitor.
-/

namespace SaneBackends.Lib

variable {σ ι κ μ : Type}

/-- The state of a monitor behind some calls; `none` if it refuses one. -/
def watch (monitor : μ → κ → Option μ) (m : μ) (calls : List κ) : Option μ :=
  calls.foldlM monitor m

section Watch

variable {monitor : μ → κ → Option μ} {m : μ}

@[simp] theorem watch_nil : watch monitor m [] = some m := rfl

theorem watch_cons (c : κ) (calls : List κ) :
    watch monitor m (c :: calls) = (monitor m c).bind fun m' => watch monitor m' calls := rfl

theorem watch_append (calls calls' : List κ) :
    watch monitor m (calls ++ calls') =
      (watch monitor m calls).bind fun m' => watch monitor m' calls' := List.foldlM_append

/-- What is accepted in one piece is accepted up to any point. -/
theorem watch_of_append {calls calls' : List κ} {m' : μ}
    (h : watch monitor m (calls ++ calls') = some m') :
    ∃ m₁, watch monitor m calls = some m₁ ∧ watch monitor m₁ calls' = some m' := by
  rw [watch_append] at h
  exact Option.bind_eq_some_iff.mp h

end Watch

/-- A component that starts in one state, with the calls it makes. -/
def logged (start : σ) (step : σ → ι → Option (σ × List κ)) : System (σ × List κ) ι where
  init p := p = (start, [])
  step p i p' := ∃ calls, step p.1 i = some (p'.1, calls) ∧ p'.2 = p.2 ++ calls

section Logged

variable {start : σ} {step : σ → ι → Option (σ × List κ)} {C : σ × List κ → ι → Prop}
  {monitor : μ → κ → Option μ} {m : μ}

/-- A relation that each step keeps, with calls the monitor accepts, holds all along. -/
theorem watched_of_reach {I : σ → μ → Prop} (hstart : I start m)
    (hstep : ∀ p i s' calls m', I p.1 m' → C p i → step p.1 i = some (s', calls) →
      ∃ m'', watch monitor m' calls = some m'' ∧ I s' m'')
    {p : σ × List κ} (hreach : (logged start step).Reach C p) :
    ∃ m', watch monitor m p.2 = some m' ∧ I p.1 m' := by
  refine hreach.invariant (I := fun p => ∃ m', watch monitor m p.2 = some m' ∧ I p.1 m') ?_ ?_
  · intro p hp
    rw [hp]
    exact ⟨m, rfl, hstart⟩
  · intro p i p' _ hI hC hnext
    obtain ⟨m', hwatch, hI⟩ := hI
    obtain ⟨calls, hcalls, hlog⟩ := hnext
    obtain ⟨m'', hwatch', hI'⟩ := hstep p i p'.1 calls m' hI hC hcalls
    refine ⟨m'', ?_, hI'⟩
    rw [hlog, watch_append, hwatch]
    exact hwatch'

/-- The state behind some labels whose steps meet a condition. -/
def runLogged (step : σ → ι → Option (σ × List κ)) (C : σ × List κ → ι → Prop)
    [∀ p i, Decidable (C p i)] : σ × List κ → List ι → Option (σ × List κ)
  | p, [] => some p
  | p, i :: labels =>
      if C p i then
        match step p.1 i with
        | none => none
        | some (s, calls) => runLogged step C (s, p.2 ++ calls) labels
      else none

theorem reach_runLogged [∀ p i, Decidable (C p i)] {p p' : σ × List κ}
    (h : (logged start step).Reach C p) (labels : List ι)
    (hrun : runLogged step C p labels = some p') : (logged start step).Reach C p' := by
  induction labels generalizing p with
  | nil =>
      cases hrun
      exact h
  | cons i labels ih =>
      rw [runLogged, Option.ite_none_right_eq_some] at hrun
      obtain ⟨hC, hrun⟩ := hrun
      cases hnext : step p.1 i with
      | none =>
          rw [hnext] at hrun
          cases hrun
      | some result =>
          obtain ⟨s, calls⟩ := result
          rw [hnext] at hrun
          have hreach : (logged start step).Reach C (s, p.2 ++ calls) :=
            .next h hC ⟨calls, hnext, rfl⟩
          exact ih hreach hrun

/-- What holds behind a run holds of a state that is reached. -/
theorem exists_reach_runLogged (start : σ) (step : σ → ι → Option (σ × List κ))
    (C : σ × List κ → ι → Prop) [∀ p i, Decidable (C p i)] (Q : σ × List κ → Prop)
    (labels : List ι) (h : ∃ p ∈ runLogged step C (start, []) labels, Q p) :
    ∃ p, (logged start step).Reach C p ∧ Q p := by
  obtain ⟨p, hrun, hQ⟩ := h
  exact ⟨p, reach_runLogged (.start rfl) labels hrun, hQ⟩

end Logged

end SaneBackends.Lib
