import SaneBackends.Lib.Loop
/-!
# Counted loops that break off

A counted loop that is left at the first index that fails a test. If the test keeps failing from
there on, it is the loop that skips the passes whose index fails it.
-/

namespace SaneBackends.Lib

variable {ε σ : Type}

/-- `for (i = 0; i < n; ++i) { if (stop (i)) break; .. }`, and whether it was left so. -/
def forBreak : Nat → (Nat → Bool) → (Nat → σ → Except ε σ) → σ → Except ε (σ × Bool)
  | 0, _, _, s => .ok (s, false)
  | n + 1, stop, body, s => do
      let run ← forBreak n stop body s
      if run.2 || stop n then .ok (run.1, true)
      else do
        let s ← body n run.1
        .ok (s, false)

variable {stop : Nat → Bool}

theorem forBreak_succ (body : Nat → σ → Except ε σ) (n : Nat) (s : σ) : forBreak (n + 1) stop body s =
    forBreak n stop body s >>= fun run =>
      if (run.2 || stop n) = true then .ok (run.1, true)
      else body n run.1 >>= fun s => .ok (s, false) := rfl

/-- The state behind the loop is that of the loop which skips passes. -/
theorem forBreak_eq (body : Nat → σ → Except ε σ)
    (hstop : ∀ k, stop k = true → stop (k + 1) = true) (n : Nat) (s : σ) :
    ∃ stopped : Bool, (stopped = true → stop n = true) ∧
      forBreak n stop body s =
        forTo n (fun k s => if stop k = true then .ok s else body k s) s >>=
          fun s => .ok (s, stopped) := by
  induction n with
  | zero => exact ⟨false, fun h => (by cases h), rfl⟩
  | succ n ih =>
      obtain ⟨stopped, hlater, hrun⟩ := ih
      rw [forBreak_succ, hrun, forTo_succ]
      cases hn : stop n with
      | true =>
          refine ⟨true, fun _ => hstop n hn, ?_⟩
          cases forTo n (fun k s => if stop k = true then .ok s else body k s) s with
          | error e => rfl
          | ok s₁ =>
              rw [ok_bind, ok_bind, ok_bind, Bool.or_true, if_pos rfl]
              rfl
      | false =>
          have hgoes : stopped = false := by
            cases stopped with
            | false => rfl
            | true => exact absurd (hlater rfl) (by rw [hn]; decide)
          refine ⟨false, fun h => (by cases h), ?_⟩
          rw [hgoes]
          cases forTo n (fun k s => if stop k = true then .ok s else body k s) s with
          | error e => rfl
          | ok s₁ => rfl

end SaneBackends.Lib
