import Mathlib.Tactic
import SaneBackends.Lib.Loop
/-!
# The groups of the user that `saned` runs as

`runas_user` collects the group list for `setgroups`. It looks for a group in the list by the
position of the user among the members, and allocates one byte more for a new group.
-/

namespace SaneBackends.Saned

open SaneBackends.Lib

/-! ## The code -/

/-- `struct passwd`, as far as it is used. -/
structure Passwd where
  uid : UInt32
  gid : UInt32

/-- `struct group`, with the members before the null pointer. -/
structure Group where
  gid : UInt32
  mem : List (List UInt8)

inductive RunasStop where
  | outOfBounds
  | exited
  deriving DecidableEq

/-- `grplist` up to `ngroups`, with the bytes that are allocated for it. -/
structure GroupList where
  gids : List UInt32
  bytes : Nat

def sizeofGid : Nat := 4

namespace GroupList

/-- `ngroups`. -/
def ngroups (grplist : GroupList) : Nat := grplist.gids.length

/-- An element of the list is read. -/
def load (grplist : GroupList) (i : Nat) : Except RunasStop UInt32 :=
  match grplist.gids[i]? with
  | none => .error .outOfBounds
  | some gid => .ok gid

/-- `grplist[ngroups++] = gid`. -/
def append (grplist : GroupList) (gid : UInt32) : Except RunasStop GroupList :=
  if sizeofGid * (grplist.ngroups + 1) ≤ grplist.bytes then
    .ok { grplist with gids := grplist.gids ++ [gid] }
  else .error .outOfBounds

end GroupList

-- whether so many bytes can be allocated
variable (alloc : Nat → Bool)

/-- The group is in the list, as the loop over the list finds out with the user at `i`. -/
def needToAdd (gid : UInt32) (i : Nat) (grplist : GroupList) : Except RunasStop Bool :=
  forTo grplist.ngroups (fun _ need => do
    let other ← grplist.load i
    .ok (if gid = other then false else need)) true

/-- The user is the member at `i`. -/
def addGroup (gid : UInt32) (i : Nat) (grplist : GroupList) : Except RunasStop GroupList := do
  let need ← needToAdd gid i grplist
  if need then
    let bytes := sizeofGid * grplist.ngroups + 1
    if alloc bytes then (GroupList.mk grplist.gids bytes).append gid else .error .exited
  else .ok grplist

/-- The members from `i` on. -/
def addMembers (user : List UInt8) (gid : UInt32) :
    List (List UInt8) → Nat → GroupList → Except RunasStop GroupList
  | [], _, grplist => .ok grplist
  | name :: mem, i, grplist =>
      if name = user then do
        let grplist ← addGroup alloc gid i grplist
        addMembers user gid mem (i + 1) grplist
      else addMembers user gid mem (i + 1) grplist

/-- The loop over the group database. -/
def addGroups (user : List UInt8) (runasGid : UInt32) :
    List Group → GroupList → Except RunasStop GroupList
  | [], grplist => .ok grplist
  | grp :: groups, grplist =>
      if grp.gid = runasGid then addGroups user runasGid groups grplist
      else do
        let grplist ← addMembers alloc user grp.gid grp.mem 0 grplist
        addGroups user runasGid groups grplist

/-- `runas_user` up to `setgroups`, with the list that is handed to it, if it is called. -/
def runasUser (pwent : Option Passwd) (groups : List Group) (user : List UInt8) :
    Except RunasStop (Option (List UInt32)) :=
  match pwent with
  | none => .error .exited
  | some pwent =>
      if alloc sizeofGid then do
        let grplist ← addGroups alloc user pwent.gid groups ⟨[pwent.gid], sizeofGid⟩
        .ok (if 0 < pwent.uid then some grplist.gids else none)
      else .error .exited

/-! ## What it is for -/

/-- The list is made inside its bounds, and consists of the groups of the user. -/
def HandsGroups (pwent : Passwd) (groups : List Group) (user : List UInt8) : Prop :=
  ∃ handed, runasUser alloc (some pwent) groups user = .ok handed ∧ ∀ gids, handed = some gids →
    gids.Nodup ∧ ∀ gid, gid ∈ gids ↔ gid = pwent.gid ∨ ∃ grp ∈ groups, grp.gid = gid ∧ user ∈ grp.mem

section Groups

variable {alloc} {user : List UInt8} {runasGid gid : UInt32} {mem : List (List UInt8)}
  {groups : List Group} {grplist : GroupList} {i : Nat}

theorem addMembers_of_not_mem (h : user ∉ mem) :
    addMembers alloc user gid mem i grplist = .ok grplist := by
  induction mem generalizing i with
  | nil => rfl
  | cons name mem ih =>
      rw [List.mem_cons, not_or] at h
      rw [addMembers, if_neg (Ne.symm h.1)]
      exact ih h.2

theorem addGroups_of_forall (h : ∀ grp ∈ groups, user ∈ grp.mem → grp.gid = runasGid) :
    addGroups alloc user runasGid groups grplist = .ok grplist := by
  induction groups with
  | nil => rfl
  | cons grp groups ih =>
      have hrest := ih fun grp' hgrp' => h grp' (List.mem_cons_of_mem _ hgrp')
      rw [addGroups]
      split
      · exact hrest
      · next hgid =>
          rw [addMembers_of_not_mem fun hmem => hgid (h grp (List.mem_cons_self ..) hmem), ok_bind]
          exact hrest

/-- The first group that is to be added is not: the user is its first member, and there is no room
for it, or there is no element of the list at the position of the user. -/
theorem addGroup_fails (halloc : ∀ n, alloc n = true) (hgid : gid ≠ runasGid) :
    addGroup alloc gid i ⟨[runasGid], sizeofGid⟩ = .error .outOfBounds := by
  cases i with
  | zero =>
      have hneed : needToAdd gid 0 ⟨[runasGid], sizeofGid⟩ = .ok true := by
        change Except.ok (if gid = runasGid then false else true) = _
        rw [if_neg hgid]
      rw [addGroup, hneed, ok_bind]
      dsimp only
      rw [if_pos rfl, if_pos (halloc _)]
      rfl
  | succ i => rfl

theorem addMembers_fails (halloc : ∀ n, alloc n = true) (hgid : gid ≠ runasGid)
    (hmem : user ∈ mem) :
    addMembers alloc user gid mem i ⟨[runasGid], sizeofGid⟩ = .error .outOfBounds := by
  induction mem generalizing i with
  | nil => cases hmem
  | cons name mem ih =>
      rw [addMembers]
      split
      · rw [addGroup_fails halloc hgid]
        rfl
      · next hname => exact ih ((List.mem_cons.mp hmem).resolve_left (Ne.symm hname))

theorem addGroups_fails (halloc : ∀ n, alloc n = true)
    (h : ∃ grp ∈ groups, user ∈ grp.mem ∧ grp.gid ≠ runasGid) :
    addGroups alloc user runasGid groups ⟨[runasGid], sizeofGid⟩ = .error .outOfBounds := by
  induction groups with
  | nil =>
      obtain ⟨grp, hgrp, -⟩ := h
      cases hgrp
  | cons grp groups ih =>
      rw [addGroups]
      by_cases hgid : grp.gid = runasGid
      · rw [if_pos hgid]
        obtain ⟨grp', hgrp', hmem, hne⟩ := h
        obtain rfl | hrest := List.mem_cons.mp hgrp'
        · exact absurd hgid hne
        · exact ih ⟨grp', hrest, hmem, hne⟩
      · rw [if_neg hgid]
        by_cases hmem : user ∈ grp.mem
        · rw [addMembers_fails halloc hgid hmem]
          rfl
        · rw [addMembers_of_not_mem hmem, ok_bind]
          obtain ⟨grp', hgrp', hmem', hne⟩ := h
          obtain rfl | hrest := List.mem_cons.mp hgrp'
          · exact absurd hmem' hmem
          · exact ih ⟨grp', hrest, hmem', hne⟩

end Groups

/-- The groups of the user are handed on just if no group lists the user, apart from the primary
one. -/
theorem handsGroups_iff {alloc : Nat → Bool} (halloc : ∀ n, alloc n = true) (pwent : Passwd)
    (groups : List Group) (user : List UInt8) :
    HandsGroups alloc pwent groups user ↔
      ∀ grp ∈ groups, user ∈ grp.mem → grp.gid = pwent.gid := by
  constructor
  · rintro ⟨handed, hrun, -⟩
    by_contra hlists
    push Not at hlists
    rw [runasUser, if_pos (halloc _), addGroups_fails halloc hlists] at hrun
    cases hrun
  · intro h
    have hrun : runasUser alloc (some pwent) groups user =
        .ok (if 0 < pwent.uid then some [pwent.gid] else none) := by
      rw [runasUser, if_pos (halloc _), addGroups_of_forall h, ok_bind]
    refine ⟨_, hrun, fun gids hgids => ?_⟩
    split at hgids
    · cases hgids
      refine ⟨List.nodup_singleton _, fun gid => ?_⟩
      rw [List.mem_singleton]
      refine ⟨.inl, ?_⟩
      rintro (heq | ⟨grp, hgrp, rfl, hmem⟩)
      · exact heq
      · exact h grp hgrp hmem
    · cases hgids

theorem handsGroups_iff_alone :
    HandsGroups (fun _ => true) ⟨7, 7⟩ [⟨7, [[115]]⟩, ⟨8, [[114]]⟩] [115] ↔
      ∀ grp ∈ [(⟨7, [[115]]⟩ : Group), ⟨8, [[114]]⟩], [115] ∈ grp.mem → grp.gid = 7 := by
  have halloc : ∀ n : Nat, (fun _ => true : Nat → Bool) n = true := fun _ => rfl
  exact handsGroups_iff halloc ⟨7, 7⟩ _ _

/-- The user is the first member of one other group: there is no room for it. -/
theorem not_handsGroups_oneGroup : ¬ HandsGroups (fun _ => true) ⟨7, 7⟩ [⟨8, [[115]]⟩] [115] := by
  rintro ⟨handed, hrun, -⟩
  cases hrun

end SaneBackends.Saned
