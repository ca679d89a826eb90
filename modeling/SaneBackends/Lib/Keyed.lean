import Mathlib.Data.List.Perm.Basic
import Mathlib.Tactic
/-!
# Lists of keyed entries

A list whose entries carry a key serves as a finite map as long as no key occurs twice. The
rules say what is looked up behind a change of one entry, behind one more entry at the end and
behind the removal of one.
-/

namespace SaneBackends.Lib

variable {ε κ : Type} {key : ε → κ} {xs ys : List ε} {x : ε} {k k' : κ} {i : Nat}

theorem map_key_modify {g : ε → ε} (hg : ∀ x, key (g x) = key x) (xs : List ε) (i : Nat) :
    (xs.modify i g).map key = xs.map key := by
  induction xs generalizing i with
  | nil => simp
  | cons x xs ih =>
      cases i with
      | zero => simp [hg]
      | succ i => simp [ih]

variable [DecidableEq κ]

/-- The first entry with a key. -/
def lookup (key : ε → κ) (k : κ) (xs : List ε) : Option ε := xs.find? fun x => decide (key x = k)

/-- The place of the first entry with a key. -/
def place (key : ε → κ) (k : κ) (xs : List ε) : Option Nat :=
  xs.findIdx? fun x => decide (key x = k)

@[simp] theorem lookup_nil : lookup key k [] = none := rfl

theorem lookup_cons (x : ε) (xs : List ε) :
    lookup key k (x :: xs) = if key x = k then some x else lookup key k xs := by
  by_cases hx : key x = k
  · simp [lookup, hx]
  · simp [lookup, hx]

@[simp] theorem place_nil : place key k ([] : List ε) = none := rfl

theorem place_cons (x : ε) (xs : List ε) :
    place key k (x :: xs) = if key x = k then some 0 else (place key k xs).map (· + 1) := by
  rw [place, List.findIdx?_cons]
  by_cases hx : key x = k
  · rw [if_pos (decide_eq_true hx), if_pos hx]
  · rw [if_neg (by simpa using hx), if_neg hx]
    rfl

theorem lookup_eq_none_iff : lookup key k xs = none ↔ k ∉ xs.map key := by
  simp [lookup]

theorem place_eq_none_iff : place key k xs = none ↔ k ∉ xs.map key := by
  simp [place]

/-- The entry at the place of a key is the one that is looked up. -/
theorem getElem?_place (h : place key k xs = some i) : xs[i]? = lookup key k xs := by
  induction xs generalizing i with
  | nil => cases h
  | cons x xs ih =>
      rw [place_cons] at h
      rw [lookup_cons]
      by_cases hx : key x = k
      · rw [if_pos hx] at h ⊢
        cases h
        rfl
      · rw [if_neg hx] at h ⊢
        obtain ⟨j, hj, rfl⟩ := Option.map_eq_some_iff.mp h
        exact ih hj

theorem exists_lookup_of_place (h : place key k xs = some i) :
    ∃ x, lookup key k xs = some x ∧ xs[i]? = some x ∧ key x = k := by
  have hmem : k ∈ xs.map key := by
    by_contra hnot
    rw [place_eq_none_iff.mpr hnot] at h
    cases h
  cases hx : lookup key k xs with
  | none => exact absurd hmem (lookup_eq_none_iff.mp hx)
  | some x => exact ⟨x, rfl, (getElem?_place h).trans hx, by simpa using List.find?_some hx⟩

/-! ## No key occurs twice -/

theorem lookup_eq_some_iff (h : (xs.map key).Nodup) :
    lookup key k xs = some x ↔ x ∈ xs ∧ key x = k := by
  constructor
  · intro hx
    exact ⟨List.mem_of_find?_eq_some hx, by simpa using List.find?_some hx⟩
  · rintro ⟨hmem, rfl⟩
    cases hfound : lookup key (key x) xs with
    | none => exact absurd (List.mem_map_of_mem hmem) (lookup_eq_none_iff.mp hfound)
    | some y =>
        have hy : key y = key x := by simpa using List.find?_some hfound
        rw [List.inj_on_of_nodup_map h (List.mem_of_find?_eq_some hfound) hmem hy]

theorem lookup_perm (h : (xs.map key).Nodup) (hperm : xs.Perm ys) :
    lookup key k ys = lookup key k xs := by
  ext x
  rw [lookup_eq_some_iff h, lookup_eq_some_iff ((hperm.map key).nodup h), hperm.mem_iff]

/-! ## Changes -/

theorem lookup_modify {g : ε → ε} (hg : ∀ x, key (g x) = key x) (h : place key k xs = some i) (k' : κ) :
    lookup key k' (xs.modify i g) =
      if k' = k then (lookup key k xs).map g else lookup key k' xs := by
  induction xs generalizing i with
  | nil => cases h
  | cons x xs ih =>
      rw [place_cons] at h
      by_cases hx : key x = k
      · rw [if_pos hx] at h
        cases h
        rw [List.modify_zero_cons, lookup_cons, lookup_cons, lookup_cons, hg, hx, if_pos rfl]
        by_cases hk : k' = k
        · rw [if_pos hk.symm, if_pos hk, Option.map_some]
        · rw [if_neg (Ne.symm hk), if_neg hk, if_neg (Ne.symm hk)]
      · rw [if_neg hx] at h
        obtain ⟨j, hj, rfl⟩ := Option.map_eq_some_iff.mp h
        rw [List.modify_succ_cons, lookup_cons, lookup_cons, lookup_cons, ih hj, if_neg hx]
        by_cases hk : k' = k
        · rw [if_pos hk, if_pos hk, hk, if_neg hx]
        · rw [if_neg hk, if_neg hk]

theorem lookup_concat (x : ε) (xs : List ε) (k : κ) :
    lookup key k (xs ++ [x]) = (lookup key k xs).or (if key x = k then some x else none) := by
  rw [lookup, List.find?_append, ← lookup, ← lookup, lookup_cons, lookup_nil]

theorem lookup_eraseIdx (hnodup : (xs.map key).Nodup) (h : place key k xs = some i) (k' : κ) :
    lookup key k' (xs.eraseIdx i) = if k' = k then none else lookup key k' xs := by
  induction xs generalizing i with
  | nil => cases h
  | cons x xs ih =>
      rw [place_cons] at h
      rw [List.map_cons, List.nodup_cons] at hnodup
      by_cases hx : key x = k
      · rw [if_pos hx] at h
        cases h
        rw [List.eraseIdx_cons_zero, lookup_cons]
        by_cases hk : k' = k
        · rw [if_pos hk, lookup_eq_none_iff, hk, ← hx]
          exact hnodup.1
        · rw [if_neg hk, if_neg (by rw [hx]; exact Ne.symm hk)]
      · rw [if_neg hx] at h
        obtain ⟨j, hj, rfl⟩ := Option.map_eq_some_iff.mp h
        rw [List.eraseIdx_cons_succ, lookup_cons, lookup_cons, ih hnodup.2 hj]
        by_cases hk : k' = k
        · rw [if_pos hk, if_pos hk, hk, if_neg hx]
        · rw [if_neg hk, if_neg hk]

/-- Without the entry at the place of a key, the keys are those without that key. -/
theorem map_eraseIdx_place (h : place key k xs = some i) :
    (xs.eraseIdx i).map key = (xs.map key).erase k := by
  induction xs generalizing i with
  | nil => cases h
  | cons x xs ih =>
      rw [place_cons] at h
      rw [List.map_cons]
      by_cases hx : key x = k
      · rw [if_pos hx] at h
        cases h
        rw [List.eraseIdx_cons_zero, hx, List.erase_cons_head]
      · rw [if_neg hx] at h
        obtain ⟨j, hj, rfl⟩ := Option.map_eq_some_iff.mp h
        rw [List.eraseIdx_cons_succ, List.map_cons, ih hj, List.erase_cons_tail (by simpa using hx)]

end SaneBackends.Lib
