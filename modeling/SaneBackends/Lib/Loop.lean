import SaneBackends.Lib.Result
/-!
# Counted loops

A loop whose body may fail, as a recursion on the number of its passes, with the rule of its
invariant.
-/

namespace SaneBackends.Lib

variable {ε σ : Type}

/-- `for (i = 0; i < n; ++i)` with a body that changes the state. -/
def forTo : Nat → (Nat → σ → Except ε σ) → σ → Except ε σ
  | 0, _, s => .ok s
  | n + 1, body, s => do
      let s ← forTo n body s
      body n s

variable {n : Nat} {body body' : Nat → σ → Except ε σ} {s s' : σ}

@[simp] theorem forTo_zero (body : Nat → σ → Except ε σ) (s : σ) : forTo 0 body s = .ok s := rfl

theorem forTo_succ (n : Nat) (body : Nat → σ → Except ε σ) (s : σ) :
    forTo (n + 1) body s = forTo n body s >>= body n := rfl

/-- What each pass leads from one index to the next, the loop leads from the first to the last. -/
theorem forTo_invariant {I : Nat → σ → Prop} (hstart : I 0 s)
    (hstep : ∀ i < n, ∀ s, I i s → ∃ s', body i s = .ok s' ∧ I (i + 1) s') :
    ∃ s', forTo n body s = .ok s' ∧ I n s' := by
  induction n with
  | zero => exact ⟨s, rfl, hstart⟩
  | succ n ih =>
      obtain ⟨s₁, hrun, hinv⟩ := ih fun i hi => hstep i (Nat.lt_succ_of_lt hi)
      obtain ⟨s₂, hbody, hinv'⟩ := hstep n (Nat.lt_succ_self n) s₁ hinv
      exact ⟨s₂, by rw [forTo_succ, hrun, ok_bind, hbody], hinv'⟩

/-- What each pass that succeeds keeps holds after a loop that succeeds. -/
theorem forTo_ok {I : Nat → σ → Prop} (hrun : forTo n body s = .ok s') (hstart : I 0 s)
    (hstep : ∀ i < n, ∀ s s', I i s → body i s = .ok s' → I (i + 1) s') : I n s' := by
  induction n generalizing s' with
  | zero =>
      cases hrun
      exact hstart
  | succ n ih =>
      rw [forTo_succ] at hrun
      obtain ⟨s₁, hbefore, hpass⟩ := bind_eq_ok.mp hrun
      have hinv := ih hbefore fun i hi => hstep i (Nat.lt_succ_of_lt hi)
      exact hstep n (Nat.lt_succ_self n) s₁ s' hinv hpass

/-- A loop whose passes succeed does. -/
theorem forTo_total (n : Nat) (pass : Nat → σ → σ) (s : σ) :
    ∃ s', forTo n (fun i s => .ok (pass i s)) s = (.ok s' : Except ε σ) := by
  induction n with
  | zero => exact ⟨s, rfl⟩
  | succ n ih =>
      obtain ⟨s₁, hrun⟩ := ih
      exact ⟨pass n s₁, by rw [forTo_succ, hrun, ok_bind]⟩

theorem forTo_congr (h : ∀ i < n, ∀ s, body i s = body' i s) (s : σ) :
    forTo n body s = forTo n body' s := by
  induction n with
  | zero => rfl
  | succ n ih =>
      rw [forTo_succ, forTo_succ, ih fun i hi => h i (Nat.lt_succ_of_lt hi)]
      congr 1
      funext s
      exact h n (Nat.lt_succ_self n) s

theorem bind_ok_eq (x : Except ε σ) : (x >>= fun a => .ok a) = x := by
  cases x with
  | error e => rfl
  | ok a => rfl

/-- A loop can be left and entered again. -/
theorem forTo_add (m n : Nat) (body : Nat → σ → Except ε σ) (s : σ) :
    forTo (m + n) body s = forTo m body s >>= forTo n (fun i => body (m + i)) := by
  induction n with
  | zero =>
      rw [Nat.add_zero]
      exact (bind_ok_eq _).symm
  | succ n ih =>
      rw [← Nat.add_assoc, forTo_succ, ih]
      cases forTo m body s with
      | error e => rfl
      | ok s₁ => rfl

/-- An item ends inside a row that holds it. -/
theorem part_end_le {x width size : Nat} (hx : x < width) : x * size + size ≤ width * size := by
  rw [← Nat.succ_mul]
  exact Nat.mul_le_mul_right _ hx

/-- A part of an item lies inside a row that holds the item. -/
theorem part_lt {x width size k : Nat} (hx : x < width) (hk : k < size) :
    x * size + k < width * size := by
  calc x * size + k < x * size + size := Nat.add_lt_add_left hk _
    _ ≤ width * size := part_end_le hx

theorem part_div {x size k : Nat} (hk : k < size) : (x * size + k) / size = x := by
  rw [Nat.mul_comm, Nat.mul_add_div (Nat.zero_lt_of_lt hk), Nat.div_eq_of_lt hk, Nat.add_zero]

theorem part_mod {x size k : Nat} (hk : k < size) : (x * size + k) % size = k := by
  rw [Nat.mul_comm, Nat.mul_add_mod, Nat.mod_eq_of_lt hk]

/-- Two nested loops are one over the pairs of their indices. -/
theorem forTo_mul (m n : Nat) (body : Nat → Nat → σ → Except ε σ) (s : σ) :
    forTo m (fun i => forTo n (body i)) s = forTo (m * n) (fun k => body (k / n) (k % n)) s := by
  induction m with
  | zero => rw [Nat.zero_mul, forTo_zero, forTo_zero]
  | succ m ih =>
      rw [forTo_succ, ih, Nat.succ_mul, forTo_add]
      congr 1
      funext s
      refine forTo_congr (fun j hj s => ?_) s
      rw [part_div hj, part_mod hj]

/-! ## Loops with a condition -/

/-- `while (cond (s)) s = body (s)`, which fails if it is not done after so many passes. -/
def whileLoop (unfinished : ε) (cond : σ → Bool) (body : σ → Except ε σ) : Nat → σ → Except ε σ
  | 0, s => if cond s then .error unfinished else .ok s
  | fuel + 1, s =>
      if cond s then do
        let s ← body s
        whileLoop unfinished cond body fuel s
      else .ok s

section While

variable {τ : Type} {unfinished : ε} {cond : τ → Bool} {body : τ → Except ε τ}
  {frame : Nat → σ → τ} {ends : Nat → Nat} {pass : Nat → σ → Except ε σ} {fuel : Nat}

theorem whileLoop_of_false {t : τ} (hcond : cond t = false) :
    whileLoop unfinished cond body fuel t = .ok t := by
  cases fuel with
  | zero => rw [whileLoop, hcond, if_neg Bool.false_ne_true]
  | succ fuel => rw [whileLoop, hcond, if_neg Bool.false_ne_true]

/-- What the loop does from pass `k` on, if pass `k` does what a counted loop does between
`ends k` and `ends (k + 1)`. -/
theorem whileLoop_frame (hmono : ∀ k < n, ends k ≤ ends (k + 1))
    (hstep : ∀ k < n, ∀ s, cond (frame k s) = true ∧ body (frame k s) =
      forTo (ends (k + 1) - ends k) (fun j => pass (ends k + j)) s >>=
        fun s => .ok (frame (k + 1) s))
    (hend : ∀ s, cond (frame n s) = false) (m : Nat) :
    ∀ k fuel s, k + m = n → m ≤ fuel → ends k ≤ ends n ∧
      whileLoop unfinished cond body fuel (frame k s) =
        forTo (ends n - ends k) (fun j => pass (ends k + j)) s >>= fun s => .ok (frame n s) := by
  induction m with
  | zero =>
      intro k fuel s hk hfuel
      rw [Nat.add_zero] at hk
      rw [hk, Nat.sub_self, forTo_zero, ok_bind, whileLoop_of_false (hend s)]
      exact ⟨Nat.le_refl _, rfl⟩
  | succ m ih =>
      intro k fuel s hk hfuel
      cases fuel with
      | zero => exact absurd hfuel (Nat.not_succ_le_zero m)
      | succ fuel =>
          have hless : k < n := by omega
          obtain ⟨hcond, hbody⟩ := hstep k hless s
          have hfirst := hmono k hless
          have hrest := fun s => ih (k + 1) fuel s (by omega) (Nat.le_of_succ_le_succ hfuel)
          have hlast := (hrest s).1
          refine ⟨Nat.le_trans hfirst hlast, ?_⟩
          rw [whileLoop, hcond, if_pos rfl, hbody,
            show ends n - ends k = (ends (k + 1) - ends k) + (ends n - ends (k + 1)) by omega,
            forTo_add]
          cases forTo (ends (k + 1) - ends k) (fun j => pass (ends k + j)) s with
          | error e => rfl
          | ok s₁ =>
              rw [ok_bind, ok_bind, ok_bind, (hrest s₁).2]
              congr 2
              funext j
              rw [← Nat.add_assoc, Nat.add_sub_cancel' hfirst]

/-- A loop with a condition that does in each pass what a counted loop does in some. -/
theorem whileLoop_forTo (frame : Nat → σ → τ) (hstart : ends 0 = 0)
    (hmono : ∀ k < n, ends k ≤ ends (k + 1))
    (hstep : ∀ k < n, ∀ s, cond (frame k s) = true ∧ body (frame k s) =
      forTo (ends (k + 1) - ends k) (fun j => pass (ends k + j)) s >>=
        fun s => .ok (frame (k + 1) s))
    (hend : ∀ s, cond (frame n s) = false) (hfuel : n ≤ fuel) (s : σ) :
    whileLoop unfinished cond body fuel (frame 0 s) =
      forTo (ends n) pass s >>= fun s => .ok (frame n s) := by
  have hloop : whileLoop unfinished cond body fuel (frame 0 s) = _ :=
    (whileLoop_frame hmono hstep hend n 0 fuel s (Nat.zero_add n) hfuel).2
  rw [hstart, Nat.sub_zero] at hloop
  simpa only [Nat.zero_add] using hloop

/-- A loop with a condition that does in each pass what a counted loop does. -/
theorem whileLoop_passes (frame : Nat → σ → τ)
    (hstep : ∀ k < n, ∀ s, cond (frame k s) = true ∧
      body (frame k s) = pass k s >>= fun s => .ok (frame (k + 1) s))
    (hend : ∀ s, cond (frame n s) = false) (hfuel : n ≤ fuel) (s : σ) :
    whileLoop unfinished cond body fuel (frame 0 s) =
      forTo n pass s >>= fun s => .ok (frame n s) := by
  refine whileLoop_forTo frame (show id 0 = 0 from rfl) (fun k _ => Nat.le_succ k)
    (fun k hk s => ?_) hend hfuel s
  obtain ⟨hcond, hbody⟩ := hstep k hk s
  refine ⟨hcond, hbody.trans ?_⟩
  simp only [id_eq, Nat.add_sub_cancel_left, forTo_succ, forTo_zero, ok_bind, Nat.add_zero]

end While

end SaneBackends.Lib
