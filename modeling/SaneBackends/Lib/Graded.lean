import SaneBackends.Lib.Result
/-!
# Stateful computations and what they do

Specifications of computations in `StateT σ (Except ε)` that account for their
effects by a list. In a `Triple` the list is some evidence for a relation between
the states before and after; a computation that `Follows` a list is equal to the
execution of it. Both are closed under sequencing, where the lists are appended.
-/

namespace SaneBackends.Lib

variable {σ ε ι α β : Type}

@[simp] theorem run_bind_eq (m : StateT σ (Except ε) α) (k : α → StateT σ (Except ε) β) (s : σ) :
    (m >>= k).run s = (m.run s >>= fun p => (k p.1).run p.2) := rfl

/-- A relation between states indexed by what was done in between. -/
structure Graded (σ ι : Type) where
  rel : List ι → σ → σ → Prop
  refl : ∀ s, rel [] s s
  trans : ∀ {l m s t u}, rel l s t → rel m t u → rel (l ++ m) s u

namespace Graded

variable {G : Graded σ ι} {inv ok : σ → Prop}

/-- Run from `s`, the computation ends without an error and keeps `inv`. If it ends in
an `ok` state, it started in one and `post` holds of its result and its effects. -/
def At (G : Graded σ ι) (inv ok : σ → Prop) (s : σ) (m : StateT σ (Except ε) α)
    (post : α → List ι → Prop) : Prop :=
  ∃ a s' l, m.run s = .ok (a, s') ∧ inv s' ∧ G.rel l s s' ∧ (ok s' → ok s ∧ post a l)

/-- `At` from every state that satisfies `inv`. -/
def Triple (G : Graded σ ι) (inv ok : σ → Prop) (m : StateT σ (Except ε) α)
    (post : α → List ι → Prop) : Prop :=
  ∀ s, inv s → G.At inv ok s m post

namespace At

variable {s : σ} {m : StateT σ (Except ε) α} {k : α → StateT σ (Except ε) β}

theorem pure {a : α} {post : α → List ι → Prop} (hinv : inv s) (h : ok s → post a []) :
    G.At inv ok s (Pure.pure a : StateT σ (Except ε) α) post :=
  ⟨a, s, [], rfl, hinv, G.refl s, fun hok => ⟨hok, h hok⟩⟩

theorem conseq {P Q : α → List ι → Prop} (h : G.At inv ok s m P)
    (hPQ : ok s → ∀ a l, P a l → Q a l) : G.At inv ok s m Q := by
  obtain ⟨a, s', l, hrun, hinv, hrel, hpost⟩ := h
  refine ⟨a, s', l, hrun, hinv, hrel, fun hok => ?_⟩
  obtain ⟨hs, hP⟩ := hpost hok
  exact ⟨hs, hPQ hs a l hP⟩

theorem bind {P : α → List ι → Prop} {Q : β → List ι → Prop} (h : G.At inv ok s m P)
    (hk : ∀ a s' l, inv s' → (ok s' → ok s ∧ P a l) →
      G.At inv ok s' (k a) (fun b l' => Q b (l ++ l'))) :
    G.At inv ok s (m >>= k) Q := by
  obtain ⟨a, s', l, hrun, hinv, hrel, hpost⟩ := h
  obtain ⟨b, s'', l', hrun', hinv', hrel', hpost'⟩ := hk a s' l hinv hpost
  refine ⟨b, s'', l ++ l', ?_, hinv', G.trans hrel hrel', fun hok => ?_⟩
  · rw [run_bind_eq, hrun]
    exact hrun'
  · obtain ⟨hok', hQ⟩ := hpost' hok
    exact ⟨(hpost hok').1, hQ⟩

theorem get_bind {k : σ → StateT σ (Except ε) β} {Q : β → List ι → Prop}
    (h : G.At inv ok s (k s) Q) : G.At inv ok s (get >>= k) Q := h

end At

namespace Triple

variable {m : StateT σ (Except ε) α} {k : α → StateT σ (Except ε) β}

theorem pure {a : α} {post : α → List ι → Prop} (h : post a []) :
    G.Triple inv ok (Pure.pure a : StateT σ (Except ε) α) post :=
  fun _ hs => .pure hs fun _ => h

theorem conseq {P Q : α → List ι → Prop} (h : G.Triple inv ok m P)
    (hPQ : ∀ a l, P a l → Q a l) : G.Triple inv ok m Q :=
  fun s hs => (h s hs).conseq fun _ => hPQ

theorem bind {P : α → List ι → Prop} {Q : β → List ι → Prop} (h : G.Triple inv ok m P)
    (hk : ∀ a, G.Triple inv ok (k a) (fun b l' => ∀ l, P a l → Q b (l ++ l'))) :
    G.Triple inv ok (m >>= k) Q := by
  intro s hs
  apply (h s hs).bind
  intro a s' l hs' hP
  exact (hk a s' hs').conseq fun hok b l' hQ => hQ l (hP hok).2

/-- A stronger invariant that the relation preserves. -/
theorem strengthen {inv' : σ → Prop} {post : α → List ι → Prop} (hinv : ∀ s, inv' s → inv s)
    (hrel : ∀ l s s', inv' s → G.rel l s s' → inv s' → inv' s') (h : G.Triple inv ok m post) :
    G.Triple inv' ok m post := by
  intro s hs
  obtain ⟨a, s', l, hrun, hs', hl, hpost⟩ := h s (hinv s hs)
  exact ⟨a, s', l, hrun, hrel l s s' hs hl hs', hl, hpost⟩

theorem map {P : α → List ι → Prop} {Q : β → List ι → Prop} {f : α → β}
    (h : G.Triple inv ok m P) (hPQ : ∀ a l, P a l → Q (f a) l) :
    G.Triple inv ok (f <$> m) Q := by
  rw [map_eq_pure_bind]
  apply h.bind
  intro a
  apply Triple.pure
  intro l hP
  rw [List.append_nil]
  exact hPQ a l hP

end Triple

end Graded

/-- The actions of a list, one after the other. -/
def exec (act : ι → σ → Except ε σ) : List ι → σ → Except ε σ
  | [], s => .ok s
  | i :: is, s => act i s >>= exec act is

variable {act : ι → σ → Except ε σ}

@[simp] theorem exec_nil (s : σ) : exec act [] s = .ok s := rfl

theorem exec_append (is js : List ι) (s : σ) :
    exec act (is ++ js) s = (exec act is s >>= exec act js) := by
  induction is generalizing s with
  | nil => rfl
  | cons i is ih =>
      simp only [List.cons_append, exec]
      cases act i s with
      | error e => rfl
      | ok s' => exact ih s'

/-- On states satisfying `inv` the computation returns `a` and does exactly `is`. -/
def Follows (act : ι → σ → Except ε σ) (inv : σ → Prop) (m : StateT σ (Except ε) α) (a : α)
    (is : List ι) : Prop :=
  ∀ s, inv s → m.run s = (exec act is s >>= fun s' => .ok (a, s'))

namespace Follows

variable {inv : σ → Prop} {m : StateT σ (Except ε) α} {k : α → StateT σ (Except ε) β}

/-- The invariant must survive every action for a second computation to start from it. -/
def Stable (act : ι → σ → Except ε σ) (inv : σ → Prop) : Prop :=
  ∀ i s s', inv s → act i s = .ok s' → inv s'

theorem Stable.exec (hstable : Stable act inv) {is : List ι} {s s' : σ} (hs : inv s)
    (h : exec act is s = .ok s') : inv s' := by
  induction is generalizing s with
  | nil =>
      cases h
      exact hs
  | cons i is ih =>
      obtain ⟨t, ht, hrest⟩ := bind_eq_ok.mp h
      exact ih (hstable i s t hs ht) hrest

theorem pure (a : α) : Follows act inv (Pure.pure a) a [] := fun _ _ => rfl

theorem pure_of_eq {a b : α} (h : a = b) : Follows act inv (Pure.pure a) b [] := h ▸ pure a

theorem bind (hstable : Stable act inv) {a : α} {b : β} {is js : List ι}
    (h : Follows act inv m a is) (hk : Follows act inv (k a) b js) :
    Follows act inv (m >>= k) b (is ++ js) := by
  intro s hs
  rw [run_bind_eq, h s hs, exec_append]
  cases hexec : Lib.exec act is s with
  | error e => rfl
  | ok t => exact hk t (hstable.exec hs hexec)

theorem mono {inv' : σ → Prop} (hinv : ∀ s, inv' s → inv s) {a : α} {is : List ι}
    (h : Follows act inv m a is) : Follows act inv' m a is := fun s hs => h s (hinv s hs)

/-- A first computation without effects. -/
theorem nil_bind (hstable : Stable act inv) {a : α} {b : β} {is : List ι}
    (h : Follows act inv m a []) (hk : Follows act inv (k a) b is) :
    Follows act inv (m >>= k) b is := h.bind hstable hk

/-- A second computation without effects. -/
theorem bind_nil (hstable : Stable act inv) {a : α} {b : β} {is : List ι}
    (h : Follows act inv m a is) (hk : Follows act inv (k a) b []) :
    Follows act inv (m >>= k) b is := List.append_nil is ▸ h.bind hstable hk

theorem get_bind {k : σ → StateT σ (Except ε) β} {b : β} {is : List ι}
    (h : ∀ s, inv s → Follows act inv (k s) b is) : Follows act inv (get >>= k) b is :=
  fun s hs => h s hs s hs

theorem map {a : α} {is : List ι} {f : α → β} (h : Follows act inv m a is) :
    Follows act inv (f <$> m) (f a) is := by
  intro s hs
  rw [map_eq_pure_bind, run_bind_eq, h s hs]
  cases Lib.exec act is s with
  | error e => rfl
  | ok t => rfl

end Follows

end SaneBackends.Lib
