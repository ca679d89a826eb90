import Mathlib.Tactic.Common
/-!
# Objects under sequences of calls

An object changes with every call made on it, and the call returns something. Two objects
answer every sequence of calls alike once a relation between their states is kept by each
single call.
-/

namespace SaneBackends.Lib

variable {σ τ ι ρ : Type*}

/-- What a sequence of calls returns, and the object behind it. -/
def calls (step : σ → ι → ρ × σ) : σ → List ι → List ρ × σ
  | s, [] => ([], s)
  | s, i :: rest =>
      let here := step s i
      let behind := calls step here.2 rest
      (here.1 :: behind.1, behind.2)

section Calls

variable {step : σ → ι → ρ × σ} {step' : τ → ι → ρ × τ}

@[simp] theorem calls_nil (s : σ) : calls step s [] = ([], s) := rfl

@[simp] theorem calls_cons (s : σ) (i : ι) (rest : List ι) :
    calls step s (i :: rest) =
      ((step s i).1 :: (calls step (step s i).2 rest).1, (calls step (step s i).2 rest).2) := rfl

/-- A property that every call keeps holds behind every sequence of them. -/
theorem calls_invariant {I : σ → Prop} (hstep : ∀ s i, I s → I (step s i).2) {s : σ} (hs : I s)
    (is : List ι) : I (calls step s is).2 := by
  induction is generalizing s with
  | nil => exact hs
  | cons i rest ih => exact ih (hstep s i hs)

/-- Every call of the sequence is made on an object that is in order for it. -/
def Guarded (step : σ → ι → ρ × σ) (G : σ → ι → Prop) : σ → List ι → Prop
  | _, [] => True
  | s, i :: rest => G s i ∧ Guarded step G (step s i).2 rest

/-- Calls in order keep a relation that a single one in order keeps. -/
theorem Guarded.calls {R : σ → τ → Prop} {G : σ → ι → Prop}
    (hstep : ∀ s t i, G s i → R s t → (step s i).1 = (step' t i).1 ∧ R (step s i).2 (step' t i).2)
    {s : σ} {t : τ} {is : List ι} (hguard : Guarded step G s is) (h : R s t) :
    (calls step s is).1 = (calls step' t is).1 ∧ R (calls step s is).2 (calls step' t is).2 := by
  induction is generalizing s t with
  | nil => exact ⟨rfl, h⟩
  | cons i rest ih =>
      obtain ⟨hhere, hrest⟩ := hguard
      obtain ⟨hreturned, hbehind⟩ := hstep s t i hhere h
      obtain ⟨hanswers, hend⟩ := ih hrest hbehind
      refine ⟨?_, hend⟩
      rw [calls_cons, calls_cons, hreturned, hanswers]

theorem guarded_of_forall {G : σ → ι → Prop} {s : σ} {is : List ι} (h : ∀ s, ∀ i ∈ is, G s i) :
    Guarded step G s is := by
  induction is generalizing s with
  | nil => trivial
  | cons i rest ih => exact ⟨h s i (.head _), ih fun s j hj => h s j (.tail _ hj)⟩

/-- One object simulates the other, call by call. -/
def Simulates (step : σ → ι → ρ × σ) (step' : τ → ι → ρ × τ) (R : σ → τ → Prop) : Prop :=
  ∀ s t i, R s t → (step s i).1 = (step' t i).1 ∧ R (step s i).2 (step' t i).2

theorem Simulates.calls {R : σ → τ → Prop} (hstep : Simulates step step' R) {s : σ} {t : τ}
    (h : R s t) (is : List ι) :
    (calls step s is).1 = (calls step' t is).1 ∧ R (calls step s is).2 (calls step' t is).2 :=
  (guarded_of_forall fun _ _ _ => trivial).calls (G := fun _ _ => True)
    (fun s t i _ => hstep s t i) h

end Calls

end SaneBackends.Lib
