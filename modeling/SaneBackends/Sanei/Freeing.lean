import SaneBackends.Lib.Graded
import SaneBackends.Sanei.Ownership
/-!
# Freeing a value

A transfer in `WIRE_FREE` direction does exactly the actions listed in the holding
of its value. The holdings are lawful: on a walkable value the walk frees only
blocks of the value, none of them twice, and all of them if they are kept.
-/

namespace SaneBackends.Sanei

open SaneBackends.Lib

/-- The addresses that a list of actions frees. -/
def freed (acts : List FreeAct) : List Nat :=
  acts.filterMap fun act =>
    match act with
    | .release addr _ => some addr
    | .fault _ => none

@[simp] theorem freed_nil : freed [] = [] := rfl

@[simp] theorem freed_append (as bs : List FreeAct) : freed (as ++ bs) = freed as ++ freed bs :=
  List.filterMap_append ..

@[simp] theorem freed_release (addr : Nat) (bytes : BitVec 32) :
    freed [.release addr bytes] = [addr] := rfl

/-- No access outside of the value. -/
def NoFault (acts : List FreeAct) : Prop := ∀ f, FreeAct.fault f ∉ acts

theorem noFault_iff {acts : List FreeAct} : NoFault acts ↔ ∀ f, FreeAct.fault f ∉ acts := Iff.rfl

@[simp] theorem noFault_nil : NoFault [] := fun _ => List.not_mem_nil

@[simp] theorem noFault_release (addr : Nat) (bytes : BitVec 32) :
    NoFault [.release addr bytes] := by
  intro f hmem
  cases List.mem_singleton.mp hmem

@[simp] theorem not_noFault_fault (f : Fault) : ¬ NoFault [.fault f] :=
  fun h => h f List.mem_cons_self

@[simp] theorem noFault_append {as bs : List FreeAct} :
    NoFault (as ++ bs) ↔ NoFault as ∧ NoFault bs := by
  simp only [noFault_iff, List.mem_append, not_or]
  exact forall_and

/-- The three properties of a holding agree with its lists. -/
structure Holding.Lawful (h : Holding) : Prop where
  noFault : NoFault h.acts ↔ h.walkable
  subperm : h.walkable → (freed h.acts).Subperm (h.blocks.map Owned.addr)
  kept : h.walkable → ((freed h.acts).length = h.blocks.length ↔ h.kept)

namespace Holding.Lawful

theorem length_le {h : Holding} (hl : h.Lawful) (hw : h.walkable) :
    (freed h.acts).length ≤ h.blocks.length := by
  have hle := (hl.subperm hw).length_le
  rwa [List.length_map] at hle

theorem empty : Holding.empty.Lawful where
  noFault := by simp [Holding.empty]
  subperm _ := by simp [Holding.empty]
  kept _ := by simp [Holding.empty]

theorem append {g h : Holding} (hg : g.Lawful) (hh : h.Lawful) : (g ++ h).Lawful where
  noFault := by simp [hg.noFault, hh.noFault]
  subperm hw := by
    simp only [Holding.append_acts, freed_append, Holding.append_blocks, List.map_append]
    exact (hg.subperm hw.1).append (hh.subperm hw.2)
  kept hw := by
    have hgle := hg.length_le hw.1
    have hhle := hh.length_le hw.2
    simp only [Holding.append_acts, freed_append, Holding.append_blocks, List.length_append,
      Holding.append_kept]
    rw [← hg.kept hw.1, ← hh.kept hw.2]
    omega

/-- The properties of a lawful holding do not involve what decoding ensures. -/
theorem of_eq {g h : Holding} (hg : g.Lawful) (hblocks : h.blocks = g.blocks)
    (hacts : h.acts = g.acts) (hwalkable : h.walkable = g.walkable) (hkept : h.kept = g.kept) :
    h.Lawful where
  noFault := by
    rw [hacts, hwalkable]
    exact hg.noFault
  subperm := by
    rw [hacts, hwalkable, hblocks]
    exact hg.subperm
  kept := by
    rw [hacts, hwalkable, hblocks, hkept]
    exact hg.kept

end Holding.Lawful

section Combinators

variable {α : Type}

theorem lawful_scalar (x : α) : (scalarHolding x).Lawful := Holding.Lawful.empty

theorem lawful_ptr {size : Nat} {target : α → Holding} (htarget : ∀ x, (target x).Lawful) :
    ∀ v : Ptr α, (ptrHolding size target v).Lawful
  | none => Holding.Lawful.empty
  | some block =>
      have hx := htarget block.val
      { noFault := by simp [ptrHolding, hx.noFault]
        subperm := by
          intro hw
          simp only [ptrHolding, freed_append, freed_release, List.map_cons]
          apply (List.perm_append_singleton ..).subperm.trans
          exact (List.subperm_cons block.addr).mpr (hx.subperm hw)
        kept := by
          intro hw
          simp only [ptrHolding, freed_append, freed_release, List.length_append,
            List.length_cons, List.length_nil]
          rw [← hx.kept hw]
          omega }

theorem noFault_flatMap {element : α → Holding} (helement : ∀ x, (element x).Lawful)
    (xs : List α) :
    NoFault (xs.flatMap fun x => (element x).acts) ↔ ∀ x ∈ xs, (element x).walkable := by
  induction xs with
  | nil => simp
  | cons x xs ih => simp [List.flatMap_cons, (helement x).noFault, ih]

theorem subperm_flatMap {element : α → Holding} (helement : ∀ x, (element x).Lawful)
    {xs : List α} (hw : ∀ x ∈ xs, (element x).walkable) :
    (freed (xs.flatMap fun x => (element x).acts)).Subperm
      ((xs.flatMap fun x => (element x).blocks).map Owned.addr) := by
  induction xs with
  | nil => simp
  | cons x xs ih =>
      simp only [List.flatMap_cons, freed_append, List.map_append]
      apply ((helement x).subperm (hw x List.mem_cons_self)).append
      exact ih fun y hy => hw y (List.mem_cons_of_mem _ hy)

theorem kept_flatMap {element : α → Holding} (helement : ∀ x, (element x).Lawful)
    {xs : List α} (hw : ∀ x ∈ xs, (element x).walkable) :
    (freed (xs.flatMap fun x => (element x).acts)).length =
        (xs.flatMap fun x => (element x).blocks).length ↔ ∀ x ∈ xs, (element x).kept := by
  induction xs with
  | nil => simp
  | cons x xs ih =>
      have hwx := hw x List.mem_cons_self
      have hwxs : ∀ y ∈ xs, (element y).walkable := fun y hy => hw y (List.mem_cons_of_mem _ hy)
      have hle := (helement x).length_le hwx
      have hles := (subperm_flatMap helement hwxs).length_le
      rw [List.length_map] at hles
      rw [List.forall_mem_cons, ← ih hwxs, ← (helement x).kept hwx]
      simp only [List.flatMap_cons, freed_append, List.length_append]
      omega

@[simp] theorem freed_strayActs (stray : Option Fault) (n length : Nat) :
    freed (strayActs stray n length) = [] := by
  cases stray with
  | none => rfl
  | some f =>
      simp only [strayActs]
      split_ifs <;> rfl

theorem noFault_strayActs (stray : Option Fault) (n : Int) (length : Nat) :
    NoFault (strayActs stray n.toNat length) ↔ stray = none ∨ n ≤ length := by
  cases stray with
  | none => simp [strayActs]
  | some f =>
      simp only [strayActs]
      split_ifs with hlt
      · simp only [not_noFault_fault, false_or, false_iff]
        omega
      · simp only [noFault_nil, false_or, true_iff]
        omega

theorem lawful_array_error {size : Nat} {element : α → Holding} {stray : Option Fault}
    (f : Fault) (v : Ptr (List α)) : (arrayHolding size element stray (.error f) v).Lawful where
  noFault := by
    refine iff_of_false (not_noFault_fault f) ?_
    rintro ⟨n, hlen, -⟩
    cases hlen
  subperm := by
    rintro ⟨n, hlen, -⟩
    cases hlen
  kept := by
    rintro ⟨n, hlen, -⟩
    cases hlen

theorem lawful_array_null {size : Nat} {element : α → Holding} {stray : Option Fault}
    (n : SaneWord) : (arrayHolding size element stray (.ok n) none).Lawful where
  noFault := by
    refine iff_of_true noFault_nil ⟨n, rfl, ?_⟩
    intro block hmem
    cases hmem
  subperm _ := List.nil_subperm
  kept _ := by
    refine iff_of_true rfl ?_
    intro m _ block hmem
    cases hmem

/-- With a length of zero nothing is walked, and the block stays. -/
theorem lawful_array_zero {size : Nat} {element : α → Holding} {stray : Option Fault}
    (block : Block (List α)) : (arrayHolding size element stray (.ok 0) (some block)).Lawful := by
  have hacts : (arrayHolding size element stray (.ok 0) (some block)).acts = [] := rfl
  constructor
  · rw [hacts]
    refine iff_of_true noFault_nil ⟨0, rfl, ?_⟩
    intro _ _ hzero
    exact absurd rfl hzero
  · intro _
    rw [hacts]
    exact List.nil_subperm
  · intro _
    rw [hacts]
    refine iff_of_false (Nat.succ_ne_zero _).symm ?_
    intro hkept
    exact (hkept 0 rfl block rfl).1 rfl

theorem lawful_array {size : Nat} {element : α → Holding} (helement : ∀ x, (element x).Lawful)
    {stray : Option Fault} {len : Except Fault SaneWord} {v : Ptr (List α)} :
    (arrayHolding size element stray len v).Lawful := by
  rcases len with f | n
  · exact lawful_array_error f v
  rcases v with _ | ⟨addr, xs⟩
  · exact lawful_array_null n
  by_cases hn : n = 0
  · subst hn
    exact lawful_array_zero _
  have hblocks : (arrayHolding size element stray (.ok n) (some ⟨addr, xs⟩)).blocks =
      ⟨addr, xs.length * size⟩ :: ((xs.take n.toInt.toNat).flatMap (fun x => (element x).blocks) ++
        (xs.drop n.toInt.toNat).flatMap fun x => (element x).blocks) := by
    rw [← List.flatMap_append, List.take_append_drop]
    rfl
  have hacts : (arrayHolding size element stray (.ok n) (some ⟨addr, xs⟩)).acts =
      (xs.take n.toInt.toNat).flatMap (fun x => (element x).acts) ++
        strayActs stray n.toInt.toNat xs.length ++
        [FreeAct.release addr (BitVec.ofInt 32 (n.toInt * size))] := if_neg hn
  have hwalkable : (arrayHolding size element stray (.ok n) (some ⟨addr, xs⟩)).walkable ↔
      (stray = none ∨ n.toInt ≤ xs.length) ∧
        ∀ x ∈ xs.take n.toInt.toNat, (element x).walkable := by
    simp [arrayHolding, show ¬n = 0#32 from hn]
  constructor
  · rw [hacts, hwalkable, noFault_append, noFault_append, noFault_strayActs,
      noFault_flatMap helement]
    simp only [noFault_release, and_true]
    exact and_comm
  · intro hw
    have helements := subperm_flatMap helement (hwalkable.mp hw).2
    rw [hacts, hblocks]
    simp only [freed_append, freed_strayActs, List.append_nil, freed_release, List.map_cons,
      List.map_append]
    apply (List.perm_append_singleton ..).subperm.trans
    rw [List.subperm_cons]
    exact helements.trans (List.sublist_append_left ..).subperm
  · intro hw
    have helements := (hwalkable.mp hw).2
    have hle := (subperm_flatMap helement helements).length_le
    rw [List.length_map] at hle
    have hrest : ((xs.drop n.toInt.toNat).flatMap fun x => (element x).blocks).length = 0 ↔
        ∀ x ∈ xs.drop n.toInt.toNat, (element x).blocks = [] := by
      rw [List.length_eq_zero_iff, List.flatMap_eq_nil_iff]
    have hkept : (arrayHolding size element stray (.ok n) (some ⟨addr, xs⟩)).kept ↔
        (∀ x ∈ xs.take n.toInt.toNat, (element x).kept) ∧
          ∀ x ∈ xs.drop n.toInt.toNat, (element x).blocks = [] := by
      simp [arrayHolding, show ¬n = 0#32 from hn]
    rw [hacts, hblocks, hkept, ← kept_flatMap helement helements, ← hrest]
    simp only [freed_append, freed_strayActs, List.append_nil, freed_release, List.length_append,
      List.length_cons, List.length_nil]
    omega

end Combinators

theorem lawful_string (s : SaneString) : (stringHolding s).Lawful :=
  (lawful_array lawful_scalar).of_eq rfl rfl rfl rfl

theorem lawful_device (v : SaneDevice) : (deviceHolding v).Lawful :=
  (((lawful_string _).append (lawful_string _)).append (lawful_string _)).append (lawful_string _)

theorem lawful_constraint (constraintType : SaneWord) (v : SaneConstraint) :
    (constraintHolding constraintType v).Lawful := by
  unfold constraintHolding
  split_ifs
  · exact lawful_ptr lawful_scalar _
  · exact lawful_array lawful_scalar
  · exact lawful_array lawful_string
  · exact .empty

theorem lawful_optionDescriptor (v : SaneOptionDescriptor) : (optionDescriptorHolding v).Lawful :=
  (((lawful_string _).append (lawful_string _)).append (lawful_string _)).append
    (lawful_constraint _ _)

theorem lawful_optionValue (type size : SaneWord) (value : Ptr OptionValue) :
    (optionValueHolding type size value).Lawful := by
  unfold optionValueHolding
  split_ifs
  · exact (lawful_array lawful_scalar).of_eq rfl rfl rfl rfl
  · exact (lawful_array lawful_scalar).of_eq rfl rfl rfl rfl
  · exact (lawful_array lawful_scalar).of_eq rfl rfl rfl rfl
  · exact Holding.Lawful.empty.of_eq rfl rfl rfl rfl

theorem lawful_message (version : Int) (m : NetMessage) : (messageHolding version m).Lawful := by
  cases m with
  | initReq => exact lawful_string _
  | initReply => exact .empty
  | getDevicesReply => exact lawful_array (lawful_ptr lawful_device)
  | openReply => exact lawful_string _
  | optionDescriptorArray =>
      exact (lawful_array (lawful_ptr lawful_optionDescriptor)).of_eq rfl rfl rfl rfl
  | controlOptionReq =>
      simp only [messageHolding]
      split_ifs
      · exact lawful_optionValue _ _ _
      · exact .empty
  | controlOptionReply => exact (lawful_optionValue _ _ _).append (lawful_string _)
  | getParametersReply => exact .empty
  | startReply => exact lawful_string _
  | authorizationReq => exact ((lawful_string _).append (lawful_string _)).append (lawful_string _)

/-! The `WIRE_FREE` direction of the transfer functions. -/

/-- What an action does to the wire. -/
def freeAct : FreeAct → Wire → Except Fault Wire
  | .release addr bytes, w =>
      if addr ∈ w.heap.live then
        .ok { w with
          heap := w.heap.free addr
          allocatedMemory := w.allocatedMemory - bytes }
      else .error .badFree
  | .fault f, _ => .error f

/-- The bytes that a list of actions takes off `allocated_memory`. -/
def released : List FreeAct → BitVec 32
  | [] => 0
  | .release _ bytes :: acts => bytes + released acts
  | .fault _ :: acts => released acts

/-- What actions that all succeed have done. -/
theorem exec_free {acts : List FreeAct} {w w' : Wire} (h : exec freeAct acts w = .ok w') :
    NoFault acts ∧ (∀ a, a ∈ w'.heap.live ↔ a ∈ w.heap.live ∧ a ∉ freed acts) ∧
      w'.allocatedMemory = w.allocatedMemory - released acts := by
  induction acts generalizing w with
  | nil =>
      cases h
      simp [released]
  | cons act acts ih =>
      cases act with
      | fault f => cases h
      | release addr bytes =>
          simp only [exec, freeAct] at h
          split_ifs at h with hlive
          · obtain ⟨hnofault, hmem, halloc⟩ := ih h
            refine ⟨?_, fun a => ?_, ?_⟩
            · exact (@noFault_append [.release addr bytes] acts).mpr ⟨noFault_release addr bytes, hnofault⟩
            · rw [hmem]
              simp only [Heap.free, w.heap.nodup.mem_erase_iff]
              change _ ↔ a ∈ w.heap.live ∧ a ∉ addr :: freed acts
              rw [List.mem_cons, not_or]
              tauto
            · rw [halloc, released]
              bv_omega
          · cases h

/-- Actions on distinct live blocks succeed. -/
theorem exists_exec_free {acts : List FreeAct} {w : Wire} (hnofault : NoFault acts)
    (hnodup : (freed acts).Nodup) (hlive : ∀ a ∈ freed acts, a ∈ w.heap.live) :
    ∃ w', exec freeAct acts w = .ok w' := by
  induction acts generalizing w with
  | nil => exact ⟨w, rfl⟩
  | cons act acts ih =>
      cases act with
      | fault f => exact absurd List.mem_cons_self (hnofault f)
      | release addr bytes =>
          change (addr :: freed acts).Nodup at hnodup
          change ∀ a ∈ addr :: freed acts, a ∈ w.heap.live at hlive
          rw [List.nodup_cons] at hnodup
          have hrest : ∀ a ∈ freed acts, a ∈ w.heap.live.erase addr := by
            intro a ha
            rw [w.heap.nodup.mem_erase_iff]
            refine ⟨?_, hlive a (List.mem_cons_of_mem _ ha)⟩
            rintro rfl
            exact hnodup.1 ha
          have hact : freeAct (.release addr bytes) w = .ok { w with
              heap := w.heap.free addr
              allocatedMemory := w.allocatedMemory - bytes } :=
            if_pos (hlive addr List.mem_cons_self)
          rw [exec, hact]
          exact ih (fun f hf => hnofault f (List.mem_cons_of_mem _ hf)) hnodup.2 hrest

def Freeing (w : Wire) : Prop := w.direction = .free

theorem freeing_stable : Follows.Stable freeAct Freeing := by
  intro act w w' hw hact
  cases act with
  | release addr bytes =>
      simp only [freeAct] at hact
      split_ifs at hact
      cases hact
      exact hw
  | fault f => cases hact

/-- The transfer function `f` frees a value of holding `h` by the actions of `h`. -/
abbrev Frees {α : Type} (f : α → WireM α) (x : α) (h : Holding) : Prop :=
  Follows freeAct Freeing (f x) x h.acts

theorem saneiWSpace_free {w : Wire} (hw : Freeing w) (n : Nat) : saneiWSpace n w = w := by
  unfold saneiWSpace
  rw [hw]
  split_ifs <;> rfl

theorem frees_scalar {α : Type} (n : Nat) (put : α → List UInt8) (peek : List UInt8 → α) (x : α) :
    Frees (binWScalar n put peek).run x .empty := by
  intro w hw
  have hdir : w.direction = .free := hw
  by_cases hst : w.status = 0
  · simp [binWScalar, saneiWSpace_free hw n, hst, hdir, Holding.empty]
    rfl
  · simp [binWScalar, saneiWSpace_free hw n, hst, Holding.empty]
    rfl

/-- What freeing an element past the end of its block amounts to. -/
def StrayFrees {α : Type} (element : WireCodecFunc α) (stray : Option Fault) : Prop :=
  Follows freeAct Freeing element.stray () (strayActs stray 1 0)

theorem strayFrees_scalar {α : Type} (n : Nat) (put : α → List UInt8) (peek : List UInt8 → α) :
    StrayFrees (binWScalar n put peek) none := by
  intro w hw
  have hdir : w.direction = .free := hw
  by_cases hst : w.status = 0
  · simp [binWScalar, saneiWSpace_free hw n, hst, hdir, strayActs]
    rfl
  · simp [binWScalar, saneiWSpace_free hw n, hst, strayActs]
    rfl

theorem strayFrees_throw {α : Type} {element : WireCodecFunc α} {f : Fault}
    (h : element.stray = throw f) : StrayFrees element (some f) := by
  intro w _
  rw [h]
  rfl

section Arrays

variable {α : Type} {element : WireCodecFunc α} {holding : α → Holding} {stray : Option Fault}

theorem frees_elements (hstray : StrayFrees element stray) {xs : List α} (n : Nat)
    (helement : ∀ x ∈ xs, Frees element.run x (holding x)) :
    Follows freeAct Freeing (freeElements element n xs) () (elementActs holding stray n xs) := by
  induction n generalizing xs with
  | zero =>
      cases stray <;> exact Follows.pure ()
  | succ n ih =>
      cases xs with
      | nil =>
          cases stray with
          | none =>
              have hnone : ∀ x ∈ ([] : List α), Frees element.run x (holding x) := by simp
              have hacts : elementActs holding none n [] = elementActs holding none (n + 1) [] := by
                simp [elementActs, strayActs]
              exact hacts ▸ hstray.nil_bind freeing_stable (ih hnone)
          | some f =>
              intro w hw
              rw [freeElements, run_bind_eq, hstray w hw]
              rfl
      | cons x xs =>
          have hx := helement x List.mem_cons_self
          have hrest := ih fun y hy => helement y (List.mem_cons_of_mem _ hy)
          have hacts : (holding x).acts ++ elementActs holding stray n xs =
              elementActs holding stray (n + 1) (x :: xs) := by
            cases stray <;> simp [elementActs, strayActs]
          exact hacts ▸ Follows.bind freeing_stable hx hrest

theorem follows_freeBlock_release (addr : Nat) (bytes : BitVec 32) :
    Follows freeAct Freeing (do freeBlock addr; release bytes) () [.release addr bytes] := by
  intro w hw
  by_cases hlive : addr ∈ w.heap.live
  · simp [freeBlock, release, exec, freeAct, hlive]
    rfl
  · simp [freeBlock, release, exec, freeAct, hlive]
    rfl

theorem frees_array {wWord : WireCodecFunc SaneWord} {zero : α} {size : Nat} {len : SaneWord}
    {v : Ptr (List α)} (hstray : StrayFrees element stray)
    (helement : ∀ block ∈ v, ∀ x ∈ block.val, Frees element.run x (holding x)) :
    Follows freeAct Freeing (saneiWArray wWord element zero size len v) (len, v)
      (arrayActs size holding stray (.ok len) v) := by
  intro w hw
  have hdir : w.direction = .free := hw
  rcases v with _ | block
  · simp [saneiWArray, hdir, arrayActs]
    rfl
  by_cases hlen : len = 0
  · simp [saneiWArray, hdir, arrayActs, hlen]
    rfl
  have helements := frees_elements hstray len.toInt.toNat (helement block rfl)
  have hall := helements.bind freeing_stable (k := fun _ => do
    freeBlock block.addr
    release (BitVec.ofInt 32 (len.toInt * size))) (follows_freeBlock_release _ _)
  have hacts : arrayActs size holding stray (.ok len) (some block) =
      elementActs holding stray len.toInt.toNat block.val ++
        [FreeAct.release block.addr (BitVec.ofInt 32 (len.toInt * size))] := if_neg hlen
  have hrun := (hall.map (f := fun _ => (len, some block))) w hw
  rw [hacts, ← hrun]
  have hlen' : ¬len = 0#32 := hlen
  simp [saneiWArray, hdir, hlen']

theorem frees_ptr {wWord : WireCodecFunc SaneWord} {f : α → WireM α} {zero : α} {size : Nat}
    (hsize : size ≠ 0) {v : Ptr α} (htarget : ∀ block ∈ v, Frees f block.val (holding block.val)) :
    Frees (saneiWPtr wWord f zero size) v (ptrHolding size holding v) := by
  intro w hw
  have hdir : w.direction = .free := hw
  rcases v with _ | block
  · simp [saneiWPtr, hdir, ptrHolding, Holding.empty]
    rfl
  have hall := (htarget block rfl).bind freeing_stable (k := fun _ => do
    freeBlock block.addr
    release (BitVec.ofNat 32 size)) (follows_freeBlock_release _ _)
  have hrun := (hall.map (f := fun _ => some block)) w hw
  simp only [ptrHolding]
  rw [← hrun]
  simp [saneiWPtr, hdir, hsize]

end Arrays

theorem frees_liftM {α β : Type} {x : Except Fault α} {k : α → WireM β} {b : β}
    {acts : List FreeAct} (hok : ∀ a, x = .ok a → Follows freeAct Freeing (k a) b acts)
    (herr : ∀ f, x = .error f → acts = [.fault f]) :
    Follows freeAct Freeing (liftM x >>= k) b acts := by
  intro w hw
  cases x with
  | error f =>
      rw [herr f rfl]
      rfl
  | ok a => exact hok a rfl w hw

theorem Freeing.not_decode {w : Wire} (hw : Freeing w) : w.direction ≠ .decode := by
  rw [hw]
  decide

theorem frees_string (s : SaneString) : Frees binWString.run s (stringHolding s) := by
  apply Follows.get_bind
  intro w hw
  rw [if_pos hw.not_decode]
  apply frees_liftM
  · intro len hlen
    have harray : Follows freeAct Freeing (saneiWArray binWWord binWByte 0 1 len s) (len, s)
        (stringHolding s).acts := by
      simp only [stringHolding, arrayHolding, hlen]
      exact frees_array (strayFrees_scalar _ _ _) fun _ _ x _ => frees_scalar _ _ _ x
    apply harray.bind_nil freeing_stable
    apply Follows.get_bind
    intro w' hw'
    rw [if_neg hw'.not_decode]
    exact Follows.pure s
  · intro f hf
    simp only [stringHolding, arrayHolding, hf]
    rfl

theorem frees_word (x : SaneWord) : Follows freeAct Freeing (binWWord.run x) x [] :=
  frees_scalar _ _ _ x

theorem frees_enum (v : SaneWord) : Follows freeAct Freeing (saneiWEnum binCodec v) v [] := by
  apply (frees_word v).nil_bind freeing_stable
  apply Follows.get_bind
  intro w hw
  rw [if_neg hw.not_decode]
  exact Follows.pure v

theorem frees_range (v : SaneRange) : Frees (saneiWRange binCodec) v (scalarHolding v) :=
  (frees_word v.min).nil_bind freeing_stable <|
  (frees_word v.max).nil_bind freeing_stable <|
  (frees_word v.quant).nil_bind freeing_stable <| Follows.pure v

theorem frees_device (v : SaneDevice) : Frees (saneiWDevice binCodec) v (deviceHolding v) := by
  simp only [Frees, deviceHolding, Holding.append_acts, List.append_assoc]
  apply (frees_string v.name).bind freeing_stable
  apply (frees_string v.vendor).bind freeing_stable
  apply (frees_string v.model).bind freeing_stable
  exact (frees_string v.type).bind_nil freeing_stable (Follows.pure v)

theorem frees_devicePtr (v : Ptr SaneDevice) :
    Frees (saneiWDevicePtr binCodec).run v (devicePtrHolding v) :=
  frees_ptr (by decide) fun block _ => frees_device block.val

theorem frees_constraint (constraintType : SaneWord) (v : SaneConstraint) :
    Frees (saneiWConstraint binCodec constraintType) v (constraintHolding constraintType v) := by
  unfold Frees saneiWConstraint constraintHolding
  split_ifs
  · exact (frees_ptr (by decide) fun block _ => frees_range block.val).bind_nil freeing_stable
      (Follows.pure v)
  · apply Follows.get_bind
    intro w hw
    rw [if_pos hw.not_decode]
    apply frees_liftM
    · intro len hlen
      rw [hlen]
      apply Follows.bind_nil freeing_stable
      · exact frees_array (strayFrees_scalar _ _ _) fun _ _ x _ => frees_scalar _ _ _ x
      · exact Follows.pure v
    · intro f hf
      rw [hf]
      rfl
  · apply Follows.get_bind
    intro w hw
    rw [if_pos hw.not_decode]
    apply frees_liftM
    · intro len hlen
      rw [hlen]
      apply Follows.bind_nil freeing_stable
      · exact frees_array (strayFrees_throw rfl) fun _ _ x _ => frees_string x
      · exact Follows.pure v
    · intro f hf
      rw [hf]
      rfl
  · exact Follows.pure v

theorem frees_optionDescriptor (v : SaneOptionDescriptor) :
    Frees (saneiWOptionDescriptor binCodec) v (optionDescriptorHolding v) := by
  simp only [Frees, optionDescriptorHolding, Holding.append_acts, List.append_assoc]
  apply (frees_string v.name).bind freeing_stable
  apply (frees_string v.title).bind freeing_stable
  apply (frees_string v.desc).bind freeing_stable
  apply (frees_enum v.type).nil_bind freeing_stable
  apply (frees_enum v.unit).nil_bind freeing_stable
  apply (frees_word v.size).nil_bind freeing_stable
  apply (frees_word v.cap).nil_bind freeing_stable
  apply (frees_enum v.constraintType).nil_bind freeing_stable
  exact (frees_constraint v.constraintType v.constraint).bind_nil freeing_stable (Follows.pure v)

theorem frees_optionDescriptorPtr (v : Ptr SaneOptionDescriptor) :
    Frees (saneiWOptionDescriptorPtr binCodec).run v (optionDescriptorPtrHolding v) :=
  frees_ptr (by decide) fun block _ => frees_optionDescriptor block.val

theorem strayFrees_void : StrayFrees saneiWVoid none := Follows.pure ()

theorem frees_void (x : Unit) : Frees saneiWVoid.run x (scalarHolding x) := Follows.pure ()

theorem frees_optionValue (type size : SaneWord) (value : Ptr OptionValue)
    (hdecoded : (optionValueHolding type size value).decoded) :
    Frees (wOptionValue binCodec type size) value (optionValueHolding type size value) := by
  unfold optionValueHolding at hdecoded
  unfold Frees wOptionValue optionValueHolding
  split_ifs at hdecoded ⊢
  · apply Follows.bind_nil freeing_stable
    · exact frees_array (strayFrees_scalar _ _ _) fun _ _ x _ => frees_scalar _ _ _ x
    · exact Follows.pure_of_eq hdecoded
  · apply Follows.bind_nil freeing_stable
    · exact frees_array (strayFrees_scalar _ _ _) fun _ _ x _ => frees_scalar _ _ _ x
    · exact Follows.pure_of_eq hdecoded
  · apply Follows.bind_nil freeing_stable
    · exact frees_array strayFrees_void fun _ _ x _ => frees_void x
    · exact Follows.pure_of_eq hdecoded
  · exact hdecoded.elim

theorem frees_getDevicesReply (reply : SaneGetDevicesReply) :
    Follows freeAct Freeing (saneiWGetDevicesReply binCodec reply) reply
      (arrayActs sizeofPointer devicePtrHolding (some .outOfBounds)
        (deviceListLen reply.deviceList) reply.deviceList) := by
  apply Follows.get_bind
  intro w hw
  rw [if_pos hw.not_decode]
  apply frees_liftM
  · intro len hlen
    rw [hlen]
    apply (frees_enum reply.status).nil_bind freeing_stable
    apply Follows.bind_nil freeing_stable
    · exact frees_array (strayFrees_throw rfl) fun _ _ x _ => frees_devicePtr x
    · exact Follows.pure reply
  · intro f hf
    rw [hf]
    rfl

theorem frees_optionDescriptorArray (a : SaneOptionDescriptorArray) :
    Follows freeAct Freeing (saneiWOptionDescriptorArray binCodec a) a
      (arrayActs sizeofPointer optionDescriptorPtrHolding (some .outOfBounds)
        (.ok a.numOptions) a.desc) := by
  apply Follows.bind_nil freeing_stable
  · exact frees_array (strayFrees_throw rfl) fun _ _ x _ => frees_optionDescriptorPtr x
  · exact Follows.pure a

/-- The version decides whether the value of a request is there to be freed. -/
def FreeingAt (version : Int) (w : Wire) : Prop := Freeing w ∧ w.version = version

theorem freeingAt_stable (version : Int) : Follows.Stable freeAct (FreeingAt version) := by
  intro act w w' hw hact
  refine ⟨freeing_stable act w w' hw.1 hact, ?_⟩
  cases act with
  | release addr bytes =>
      simp only [freeAct] at hact
      split_ifs at hact
      cases hact
      exact hw.2
  | fault f => cases hact

theorem frees_controlOptionReq (version : Int) (req : SaneControlOptionReq)
    (hdecoded : (messageHolding version (.controlOptionReq req)).decoded) :
    Follows freeAct (FreeingAt version) (saneiWControlOptionReq binCodec req) req
      (messageHolding version (.controlOptionReq req)).acts := by
  have hword : ∀ x, Follows freeAct (FreeingAt version) (binWWord.run x) x [] :=
    fun x => (frees_word x).mono fun _ => And.left
  have hstable := freeingAt_stable version
  apply (hword req.handle).nil_bind hstable
  apply (hword req.option).nil_bind hstable
  apply (hword req.action).nil_bind hstable
  apply Follows.get_bind
  intro w hw
  simp only [messageHolding, carriesValue, hw.2, decide_eq_true_eq] at hdecoded ⊢
  split_ifs at hdecoded ⊢ with hcarries
  · apply (hword req.valueType).nil_bind hstable
    apply (hword req.valueSize).nil_bind hstable
    apply Follows.bind_nil hstable
    · exact (frees_optionValue _ _ _ hdecoded).mono fun _ => And.left
    · exact Follows.pure req
  · exact Follows.pure req

theorem frees_controlOptionReply (reply : SaneControlOptionReply)
    (hdecoded : (optionValueHolding reply.valueType reply.valueSize reply.value).decoded) :
    Follows freeAct Freeing (saneiWControlOptionReply binCodec reply) reply
      (optionValueHolding reply.valueType reply.valueSize reply.value ++
        stringHolding reply.resourceToAuthorize).acts := by
  apply (frees_enum reply.status).nil_bind freeing_stable
  apply (frees_word reply.info).nil_bind freeing_stable
  apply (frees_word reply.valueType).nil_bind freeing_stable
  apply (frees_word reply.valueSize).nil_bind freeing_stable
  apply (frees_optionValue _ _ _ hdecoded).bind freeing_stable
  exact (frees_string reply.resourceToAuthorize).bind_nil freeing_stable (Follows.pure reply)

theorem frees_getParametersReply (reply : SaneGetParametersReply) :
    Follows freeAct Freeing (saneiWGetParametersReply binCodec reply) reply [] := by
  apply (frees_enum reply.status).nil_bind freeing_stable
  apply Follows.nil_bind freeing_stable (a := reply.params) _ (Follows.pure reply)
  apply (frees_enum reply.params.format).nil_bind freeing_stable
  apply (frees_enum reply.params.lastFrame).nil_bind freeing_stable
  apply (frees_word reply.params.bytesPerLine).nil_bind freeing_stable
  apply (frees_word reply.params.pixelsPerLine).nil_bind freeing_stable
  apply (frees_word reply.params.lines).nil_bind freeing_stable
  exact (frees_word reply.params.depth).nil_bind freeing_stable (Follows.pure reply.params)

theorem frees_message (version : Int) (m : NetMessage)
    (hdecoded : (messageHolding version m).decoded) :
    Follows freeAct (FreeingAt version) (transferMessage binCodec m) m
      (messageHolding version m).acts := by
  have hlift : ∀ {m : WireM NetMessage} {a is}, Follows freeAct Freeing m a is →
      Follows freeAct (FreeingAt version) m a is := fun h => h.mono fun _ => And.left
  cases m with
  | initReq req =>
      apply hlift
      apply Follows.map (a := req)
      apply (frees_word req.versionCode).nil_bind freeing_stable
      exact (frees_string req.username).bind_nil freeing_stable (Follows.pure req)
  | initReply reply =>
      apply hlift
      apply Follows.map (a := reply)
      apply (frees_enum reply.status).nil_bind freeing_stable
      exact (frees_word reply.versionCode).nil_bind freeing_stable (Follows.pure reply)
  | getDevicesReply reply => exact hlift (frees_getDevicesReply reply).map
  | openReply reply =>
      apply hlift
      apply Follows.map (a := reply)
      apply (frees_enum reply.status).nil_bind freeing_stable
      apply (frees_word reply.handle).nil_bind freeing_stable
      exact (frees_string reply.resourceToAuthorize).bind_nil freeing_stable (Follows.pure reply)
  | optionDescriptorArray a => exact hlift (frees_optionDescriptorArray a).map
  | controlOptionReq req => exact (frees_controlOptionReq version req hdecoded).map
  | controlOptionReply reply => exact hlift (frees_controlOptionReply reply hdecoded.1).map
  | getParametersReply reply => exact hlift (frees_getParametersReply reply).map
  | startReply reply =>
      apply hlift
      apply Follows.map (a := reply)
      apply (frees_enum reply.status).nil_bind freeing_stable
      apply (frees_word reply.port).nil_bind freeing_stable
      apply (frees_word reply.byteOrder).nil_bind freeing_stable
      exact (frees_string reply.resourceToAuthorize).bind_nil freeing_stable (Follows.pure reply)
  | authorizationReq req =>
      apply hlift
      apply Follows.map (a := req)
      simp only [messageHolding, Holding.append_acts, List.append_assoc]
      apply (frees_string req.resource).bind freeing_stable
      apply (frees_string req.username).bind freeing_stable
      exact (frees_string req.password).bind_nil freeing_stable (Follows.pure req)

end SaneBackends.Sanei
