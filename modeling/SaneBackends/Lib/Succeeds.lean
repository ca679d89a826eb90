import SaneBackends.Lib.Result
/-!
# Computations that succeed under a condition

A computation that runs into a limit ends under a condition on its input, and fails elsewhere. The
condition of a sequence is that of its last step when this implies those before.
-/

namespace SaneBackends.Lib

variable {ε α β : Type}

/-- Where `fits` holds the computation ends with a result of which `post` holds, elsewhere it
fails. -/
structure SucceedsIff (x : Except ε α) (fits : Prop) (post : α → Prop) : Prop where
  ends : fits → ∃ a, x = .ok a ∧ post a
  fails : ¬ fits → ∃ fault, x = .error fault

namespace SucceedsIff

variable {x : Except ε α} {f : α → Except ε β} {p q : Prop} {P Q : α → Prop} {R : β → Prop} {a : α}

theorem ok (h : P a) (hp : p) : SucceedsIff (.ok a : Except ε α) p P :=
  ⟨fun _ => ⟨a, rfl, h⟩, fun hnot => absurd hp hnot⟩

theorem error (fault : ε) (hp : ¬ p) : SucceedsIff (.error fault : Except ε α) p P :=
  ⟨fun h => absurd h hp, fun _ => ⟨fault, rfl⟩⟩

theorem congr (h : SucceedsIff x p P) (hpq : p ↔ q) : SucceedsIff x q P :=
  ⟨fun hq => h.ends (hpq.mpr hq), fun hq => h.fails fun hp => hq (hpq.mp hp)⟩

theorem conseq (h : SucceedsIff x p P) (hPQ : p → ∀ a, P a → Q a) :
    SucceedsIff x p Q := by
  refine ⟨fun hp => ?_, h.fails⟩
  obtain ⟨a, hrun, ha⟩ := h.ends hp
  exact ⟨a, hrun, hPQ hp a ha⟩

/-- Where the first step fails, the sequence does. -/
theorem bind (h : SucceedsIff x p P) (hqp : q → p)
    (hf : p → ∀ a, P a → SucceedsIff (f a) q R) : SucceedsIff (x >>= f) q R := by
  by_cases hp : p
  · obtain ⟨a, rfl, ha⟩ := h.ends hp
    exact hf hp a ha
  · obtain ⟨fault, rfl⟩ := h.fails hp
    exact error fault fun hq => hp (hqp hq)

end SucceedsIff

end SaneBackends.Lib
