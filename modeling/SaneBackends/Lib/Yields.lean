import SaneBackends.Lib.Graded
/-!
# Computations that end without an error

What a computation in `StateT σ (Except ε)` ends with, from one state.
-/

namespace SaneBackends.Lib

variable {σ ε α β : Type}

/-- Run from `s`, the computation ends with a result and a state of which `post` holds. -/
def Yields (s : σ) (m : StateT σ (Except ε) α) (post : α → σ → Prop) : Prop :=
  ∃ a s', m.run s = .ok (a, s') ∧ post a s'

namespace Yields

variable {s : σ} {m : StateT σ (Except ε) α} {k : α → StateT σ (Except ε) β}
  {P Q : α → σ → Prop} {R : β → σ → Prop}

theorem pure {a : α} (h : P a s) : Yields s (Pure.pure a : StateT σ (Except ε) α) P :=
  ⟨a, s, rfl, h⟩

theorem conseq (h : Yields s m P) (hPQ : ∀ a s', P a s' → Q a s') : Yields s m Q := by
  obtain ⟨a, s', hrun, hP⟩ := h
  exact ⟨a, s', hrun, hPQ a s' hP⟩

theorem of_run_eq {m' : StateT σ (Except ε) α} (h : Yields s m' P) (hrun : m.run s = m'.run s) :
    Yields s m P := by
  obtain ⟨a, s', hrun', hP⟩ := h
  exact ⟨a, s', hrun.trans hrun', hP⟩

/-- The computation ends once. -/
theorem and (h : Yields s m P) (h' : Yields s m Q) : Yields s m fun a s' => P a s' ∧ Q a s' := by
  obtain ⟨a, s', hrun, hP⟩ := h
  obtain ⟨b, s'', hrun', hQ⟩ := h'
  rw [hrun] at hrun'
  cases hrun'
  exact ⟨a, s', hrun, hP, hQ⟩

theorem bind (h : Yields s m P) (hk : ∀ a s', P a s' → Yields s' (k a) R) :
    Yields s (m >>= k) R := by
  obtain ⟨a, s', hrun, hP⟩ := h
  obtain ⟨b, s'', hrun', hR⟩ := hk a s' hP
  refine ⟨b, s'', ?_, hR⟩
  rw [run_bind_eq, hrun]
  exact hrun'

theorem get_bind {k : σ → StateT σ (Except ε) β} (h : Yields s (k s) R) :
    Yields s (get >>= k) R := h

end Yields

end SaneBackends.Lib
