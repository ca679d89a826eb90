import Mathlib.Tactic.Common
/-!
# Reading a sequence in pieces

A reader is called again and again, each time with the most that it may return, until a call
has a status other than the good one. `Ends` says how a sequence of calls ends and what the calls
returned together; `ends_of_step` derives it for every choice of sizes from one lemma per call.
-/

namespace SaneBackends.Lib

variable {σ ρ α : Type*} {read : σ → Nat → ρ × List α × σ} {good : ρ} {maxlen : Nat → Nat}

/-- The calls from the `i`-th on end with this status, and return this together. -/
inductive Ends (read : σ → Nat → ρ × List α × σ) (good : ρ) (maxlen : Nat → Nat) :
    Nat → σ → ρ → List α → Prop where
  | last {i : Nat} {s s' : σ} {r : ρ} {data : List α} :
      read s (maxlen i) = (r, data, s') → r ≠ good → Ends read good maxlen i s r data
  | more {i : Nat} {s s' : σ} {r : ρ} {data rest : List α} :
      read s (maxlen i) = (good, data, s') → Ends read good maxlen (i + 1) s' r rest →
      Ends read good maxlen i s r (data ++ rest)

/-- How the calls end is determined by their sizes. -/
theorem Ends.unique {i : Nat} {s : σ} {r₁ r₂ : ρ} {out₁ out₂ : List α}
    (h₁ : Ends read good maxlen i s r₁ out₁) (h₂ : Ends read good maxlen i s r₂ out₂) :
    r₁ = r₂ ∧ out₁ = out₂ := by
  induction h₁ generalizing r₂ out₂ with
  | last hread hr =>
      cases h₂ with
      | last hread₂ hr₂ =>
          rw [hread] at hread₂
          cases hread₂
          exact ⟨rfl, rfl⟩
      | more hread₂ _ =>
          rw [hread] at hread₂
          cases hread₂
          exact absurd rfl hr
  | more hread _ ih =>
      cases h₂ with
      | last hread₂ hr₂ =>
          rw [hread] at hread₂
          cases hread₂
          exact absurd rfl hr₂
      | more hread₂ hrest₂ =>
          rw [hread] at hread₂
          cases hread₂
          obtain ⟨hr, hrest⟩ := ih hrest₂
          exact ⟨hr, congrArg _ hrest⟩

/-- A call either returns something of what is pending, or ends the reading and returns all of
it. -/
def Serves (read : σ → Nat → ρ × List α × σ) (good : ρ) (inv : σ → Prop)
    (pending : σ → List α) (final : ρ) : Prop :=
  ∀ s n, inv s → 0 < n → ∀ r data s', read s n = (r, data, s') →
    (r = good ∧ inv s' ∧ data ≠ [] ∧ data ++ pending s' = pending s) ∨
      (r ≠ good ∧ r = final ∧ data = pending s)

/-- Calls that make progress return what is pending, for every choice of positive sizes. -/
theorem Serves.ends {inv : σ → Prop} {pending : σ → List α} {final : ρ}
    (hstep : Serves read good inv pending final) (hpos : ∀ i, 0 < maxlen i) {s : σ} (hs : inv s)
    (i : Nat) : Ends read good maxlen i s final (pending s) := by
  induction hn : (pending s).length using Nat.strongRecOn generalizing s i with
  | _ n ih =>
      obtain ⟨r, data, s', hread⟩ : ∃ r data s', read s (maxlen i) = (r, data, s') :=
        ⟨_, _, _, rfl⟩
      cases hstep s (maxlen i) hs (hpos i) r data s' hread with
      | inl hmore =>
          obtain ⟨rfl, hs', hdata, hpending⟩ := hmore
          have hshort : (pending s').length < n := by
            have hlength := List.length_pos_iff.mpr hdata
            rw [← hn, ← hpending, List.length_append]
            omega
          rw [← hpending]
          exact .more hread (ih _ hshort hs' (i + 1) rfl)
      | inr hlast =>
          obtain ⟨hr, rfl, rfl⟩ := hlast
          exact .last hread hr

end SaneBackends.Lib
