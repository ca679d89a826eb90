import Mathlib.Data.Set.Basic
import Mathlib.Logic.Relation
/-!
# Erasing whole components

The parts of a set that hang together by a symmetric relation, and what it takes to erase some of
them and nothing else.
-/

namespace SaneBackends.Lib

variable {α : Type*} {adj : α → α → Prop} {small : Set α → Prop} {S T W : Set α} {p q : α}

/-- Two points hang together in a set. -/
def Linked (adj : α → α → Prop) (S : Set α) : α → α → Prop :=
  Relation.ReflTransGen fun p q => p ∈ S ∧ q ∈ S ∧ adj p q

/-- What is left of a set when whole parts of it, each inside a small set, are erased. -/
structure Thinned (adj : α → α → Prop) (small : Set α → Prop) (S T : Set α) : Prop where
  subset : T ⊆ S
  closed : ∀ p ∈ T, ∀ q ∈ S, adj p q → q ∈ T
  inside : ∀ p ∈ S, p ∉ T → ∃ W, small W ∧ ∀ q, Linked adj S p q → q ∈ W

theorem Thinned.refl (adj : α → α → Prop) (small : Set α → Prop) (S : Set α) :
    Thinned adj small S S :=
  ⟨Set.Subset.refl S, fun _ _ _ hq _ => hq, fun _ hp hnot => absurd hp hnot⟩

/-- Points that hang together are all left or all erased. -/
theorem Thinned.mem_iff (h : Thinned adj small S T) (hsymm : ∀ p q, adj p q → adj q p)
    (hlinked : Linked adj S p q) : p ∈ T ↔ q ∈ T := by
  induction hlinked with
  | refl => exact Iff.rfl
  | @tail b c _ hstep ih =>
      obtain ⟨hb, hc, hadj⟩ := hstep
      exact ih.trans ⟨fun hmem => h.closed b hmem c hc hadj,
        fun hmem => h.closed c hmem b hb (hsymm b c hadj)⟩

/-- A small set that hangs together with nothing outside is erased. -/
theorem Thinned.erase (h : Thinned adj small S T) (hsymm : ∀ p q, adj p q → adj q p)
    (hsmall : small W) (halone : ∀ p ∈ T, p ∈ W → ∀ q ∈ T, adj p q → q ∈ W) :
    Thinned adj small S (T \ W) := by
  refine ⟨fun p hp => h.subset hp.1, fun p hp q hq hadj => ?_, fun p hp hnot => ?_⟩
  · have hmem := h.closed p hp.1 q hq hadj
    exact ⟨hmem, fun hW => hp.2 (halone q hmem hW p hp.1 (hsymm p q hadj))⟩
  · by_cases hmem : p ∈ T
    · have hW : p ∈ W := by
        by_contra hout
        exact hnot ⟨hmem, hout⟩
      refine ⟨W, hsmall, fun q hlinked => ?_⟩
      induction hlinked with
      | refl => exact hW
      | @tail b c hb hstep ih =>
          obtain ⟨-, hc, hadj⟩ := hstep
          have hleft := (h.mem_iff hsymm hb).mp hmem
          exact halone b hleft ih c (h.closed b hleft c hc hadj) hadj
    · exact h.inside p hp hmem

end SaneBackends.Lib
