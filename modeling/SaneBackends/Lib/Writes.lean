import SaneBackends.Lib.Cells
/-!
# Passes that write a region

What a pass over a block of cells stores, and where: the rules for a single store, for passes one
after the other and for loops. A loop over regions that do not meet leaves in each what its pass
has stored there.
-/

namespace SaneBackends.Lib

variable {α : Type} {size n : Nat} {region region' : Set Nat} {content content' : Nat → α}
  {pass pass' : Cells α → Except CellFault (Cells α)}

/-- The pass succeeds on every block of the size, stores `content` in the region and leaves what
is outside of it. -/
def Writes (size : Nat) (pass : Cells α → Except CellFault (Cells α)) (region : Set Nat)
    (content : Nat → α) : Prop :=
  ∀ block : Cells α, block.size = size → ∃ block', pass block = .ok block' ∧
    block'.size = size ∧ (∀ i ∈ region, block'.cell i = content i) ∧
    ∀ i ∉ region, block'.cell i = block.cell i

theorem Writes.congr (h : Writes size pass region content)
    (heq : ∀ i ∈ region, content i = content' i) : Writes size pass region content' := by
  intro block hsize
  obtain ⟨block', hrun, hsize', hin, hout⟩ := h block hsize
  exact ⟨block', hrun, hsize', fun i hi => (hin i hi).trans (heq i hi), hout⟩

theorem writes_nothing (content : Nat → α) : Writes size .ok ∅ content :=
  fun block hsize => ⟨block, rfl, hsize, fun _ hi => absurd hi (Set.notMem_empty _), fun _ _ => rfl⟩

theorem writes_store {i : Nat} (hi : i < size) (content : Nat → α) :
    Writes size (fun block => block.store i (content i)) {i} content := by
  intro block hsize
  refine ⟨_, Cells.store_eq (hsize ▸ hi) _, hsize, ?_, ?_⟩
  · rintro j rfl
    exact Cells.cell_put_self ..
  · intro j hj
    exact Cells.cell_put_of_ne hj _

/-- The pass does so on blocks that already hold the content in some cells. -/
def WritesGiven (size : Nat) (held : Set Nat) (pass : Cells α → Except CellFault (Cells α))
    (region : Set Nat) (content : Nat → α) : Prop :=
  ∀ block : Cells α, block.size = size → (∀ i ∈ held, block.cell i = content i) →
    ∃ block', pass block = .ok block' ∧ block'.size = size ∧
      (∀ i ∈ region, block'.cell i = content i) ∧ ∀ i ∉ region, block'.cell i = block.cell i

theorem Writes.given (h : Writes size pass region content) (held : Set Nat) :
    WritesGiven size held pass region content := fun block hsize _ => h block hsize

theorem WritesGiven.writes (h : WritesGiven size ∅ pass region content) :
    Writes size pass region content :=
  fun block hsize => h block hsize fun _ hi => absurd hi (Set.notMem_empty _)

/-- What was held or has been written still is behind a pass that writes the same content. -/
theorem held_behind {held : Set Nat} {block block' : Cells α}
    (hheld : ∀ i ∈ held, block.cell i = content i)
    (hin : ∀ i ∈ region, block'.cell i = content i)
    (hout : ∀ i ∉ region, block'.cell i = block.cell i) :
    ∀ i ∈ held ∪ region, block'.cell i = content i := by
  intro i hi
  by_cases hlast : i ∈ region
  · exact hin i hlast
  · rw [hout i hlast]
    exact hheld i (hi.resolve_right hlast)

theorem WritesGiven.andThen {held : Set Nat} (h : WritesGiven size held pass region content)
    (h' : WritesGiven size (held ∪ region) pass' region' content) :
    WritesGiven size held (fun block => pass block >>= pass') (region ∪ region') content := by
  intro block hsize hheld
  obtain ⟨block₁, hrun, hsize₁, hin, hout⟩ := h block hsize hheld
  obtain ⟨block₂, hrun', hsize₂, hin', hout'⟩ := h' block₁ hsize₁ (held_behind hheld hin hout)
  refine ⟨block₂, ?_, hsize₂, held_behind hin hin' hout', ?_⟩
  · dsimp only
    rw [hrun, ok_bind, hrun']
  · intro i hi
    rw [hout' i fun h => hi (.inr h), hout i fun h => hi (.inl h)]

theorem Writes.andThen (h : Writes size pass region content)
    (h' : Writes size pass' region' content) :
    Writes size (fun block => pass block >>= pass') (region ∪ region') content :=
  ((h.given ∅).andThen (h'.given _)).writes

/-- A cell that is copied. -/
theorem writesGiven_copy {src dst : Nat} (hsrc : src < size) (hdst : dst < size)
    (heq : content dst = content src) :
    WritesGiven size {src} (fun block => block.load src >>= block.store dst) {dst} content := by
  intro block hsize hheld
  refine ⟨block.put dst (content src), ?_, hsize, ?_, ?_⟩
  · dsimp only
    rw [Cells.load_eq (hsize ▸ hsrc), ok_bind, Cells.store_eq (hsize ▸ hdst), hheld src rfl]
  · rintro i rfl
    rw [heq]
    exact Cells.cell_put_self ..
  · intro i hi
    exact Cells.cell_put_of_ne hi _

theorem WritesGiven.weaken {held held' : Set Nat} (h : WritesGiven size held pass region content)
    (hsub : held ⊆ held') : WritesGiven size held' pass region content :=
  fun block hsize hheld => h block hsize fun i hi => hheld i (hsub hi)

section Loops

variable {body : Nat → Cells α → Except CellFault (Cells α)} {regions : Nat → Set Nat}
  {contents : Nat → Nat → α}

theorem region_succ (n : Nat) (regions : Nat → Set Nat) :
    {i | ∃ k < n + 1, i ∈ regions k} = {i | ∃ k < n, i ∈ regions k} ∪ regions n := by
  ext i
  simp only [Set.mem_ofPred_eq, Set.mem_union, Nat.lt_succ_iff_lt_or_eq]
  constructor
  · rintro ⟨k, hk | rfl, hi⟩
    · exact .inl ⟨k, hk, hi⟩
    · exact .inr hi
  · rintro (⟨k, hk, hi⟩ | hi)
    · exact ⟨k, .inl hk, hi⟩
    · exact ⟨n, .inr rfl, hi⟩

/-- Passes of a loop that store parts of one content. -/
theorem WritesGiven.forTo {held : Set Nat}
    (h : ∀ k < n, WritesGiven size held (body k) (regions k) content) :
    WritesGiven size held (SaneBackends.Lib.forTo n body) {i | ∃ k < n, i ∈ regions k} content := by
  induction n with
  | zero =>
      refine fun block hsize _ => ⟨block, rfl, hsize, ?_, fun _ _ => rfl⟩
      rintro i ⟨k, hk, -⟩
      exact absurd hk (Nat.not_lt_zero k)
  | succ n ih =>
      have hlast := (h n (Nat.lt_succ_self n)).weaken (Set.subset_union_left (t := {i | ∃ k < n,
        i ∈ regions k}))
      rw [region_succ]
      exact (ih fun k hk => h k (Nat.lt_succ_of_lt hk)).andThen hlast

theorem Writes.forTo (h : ∀ k < n, Writes size (body k) (regions k) content) :
    Writes size (SaneBackends.Lib.forTo n body) {i | ∃ k < n, i ∈ regions k} content :=
  (WritesGiven.forTo fun k hk => (h k hk).given ∅).writes

/-- Passes of a loop with regions that do not meet. -/
theorem Writes.forTo_disjoint [Inhabited α]
    (h : ∀ k < n, Writes size (body k) (regions k) (contents k))
    (hdisjoint : ∀ k < n, ∀ k' < n, k ≠ k' → ∀ i ∈ regions k, i ∉ regions k') :
    ∃ content, Writes size (SaneBackends.Lib.forTo n body) {i | ∃ k < n, i ∈ regions k} content ∧
      ∀ k < n, ∀ i ∈ regions k, content i = contents k i := by
  classical
  let content := fun i =>
    if hk : ∃ k, k < n ∧ i ∈ regions k then contents hk.choose i else default
  have hagree : ∀ k < n, ∀ i ∈ regions k, content i = contents k i := by
    intro k hk i hi
    have hsome : ∃ k, k < n ∧ i ∈ regions k := ⟨k, hk, hi⟩
    have hsame : hsome.choose = k := by
      by_contra hne
      exact hdisjoint k hk _ hsome.choose_spec.1 (Ne.symm hne) i hi hsome.choose_spec.2
    simp only [content]
    rw [dif_pos hsome, hsame]
  refine ⟨content, Writes.forTo fun k hk => ?_, hagree⟩
  exact (h k hk).congr fun i hi => (hagree k hk i hi).symm

end Loops

/-- A loop that succeeds is one of passes that do. -/
theorem forTo_pass_ok {ε σ : Type} {body : Nat → σ → Except ε σ} {s s' : σ} {i : Nat}
    (hrun : forTo n body s = .ok s') (hi : i < n) : ∃ s₁ s₂, body i s₁ = .ok s₂ := by
  have hall := forTo_ok (I := fun k _ => ∀ i < k, ∃ s₁ s₂, body i s₁ = .ok s₂) hrun
    (fun i hi => absurd hi (Nat.not_lt_zero i)) (by
      intro k _ s₁ s₂ hbefore hpass i hi
      rcases Nat.lt_succ_iff_lt_or_eq.mp hi with hlt | rfl
      · exact hbefore i hlt
      · exact ⟨s₁, s₂, hpass⟩)
  exact hall i hi

end SaneBackends.Lib
