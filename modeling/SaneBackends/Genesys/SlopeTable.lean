import Mathlib.Tactic
/-!
# The acceleration table of a motor

The table has the steps down to the final speed, that speed, and copies of it up to a size that
is aligned. Copies are appended only below one entry less than the table may have.
-/

namespace SaneBackends.Genesys

inductive StepType where
  | full | half | quarter | eighth
  deriving DecidableEq, Repr

/-- `static_cast<unsigned>(step_type)` -/
def StepType.shift : StepType → UInt32
  | full => 0
  | half => 1
  | quarter => 2
  | eighth => 3

/-- The steps of a slope are computed in floating point. -/
structure MotorSlope where
  maxSpeedW : UInt32
  getTableStepShifted : Nat → StepType → UInt32

structure MotorSlopeTable where
  table : List UInt32
  pixeltimeSum : Nat
  deriving DecidableEq, Repr

/-- `generate_pixeltime_sum`, in `std::size_t`. -/
def generatePixeltimeSum (table : List UInt32) : MotorSlopeTable where
  table
  pixeltimeSum := table.foldl (fun sum entry => (sum + entry.toNat) % 2 ^ 64) 0

inductive SlopeError where
  /-- "Target motor speed is too low" -/
  | targetTooLow
  deriving DecidableEq, Repr

/-- The first loop, while `room` entries are left below `max_size - 1`. -/
def accelerate (step : Nat → UInt32) (finalSpeed : UInt32) :
    (room : Nat) → List UInt32 → List UInt32
  | 0, table => table
  | room + 1, table =>
      let current := step table.length
      if current ≤ finalSpeed then table
      else accelerate step finalSpeed room (table ++ [current])

/-- The second loop, which appends `table.back()`. -/
def fillUp (stepsAlignment minSize : Nat) (finalSpeed : UInt32) :
    (room : Nat) → List UInt32 → List UInt32
  | 0, table => table
  | room + 1, table =>
      if table.length % stepsAlignment ≠ 0 ∨ table.length < minSize then
        fillUp stepsAlignment minSize finalSpeed room
          (table ++ [table.getLastD finalSpeed])
      else table

def finalSpeed (slope : MotorSlope) (targetSpeedW : UInt32) (stepType : StepType) : UInt32 :=
  max (targetSpeedW >>> stepType.shift) (slope.maxSpeedW >>> stepType.shift)

def createSlopeTableForSpeed (slope : MotorSlope) (targetSpeedW : UInt32) (stepType : StepType)
    (stepsAlignment minSize maxSize : UInt32) : Except SlopeError MotorSlopeTable :=
  if 0xffff ≤ targetSpeedW >>> stepType.shift then .error .targetTooLow
  else
    let final := finalSpeed slope targetSpeedW stepType
    let limit := (maxSize - 1).toNat
    let table := accelerate (slope.getTableStepShifted · stepType) final limit []
    let table := table ++ [final]
    let table := fillUp stepsAlignment.toNat minSize.toNat final (limit - table.length) table
    .ok (generatePixeltimeSum table)

/-! ## What the table is to be -/

section Spec

variable (slope : MotorSlope) (targetSpeedW : UInt32) (stepType : StepType)
  (stepsAlignment minSize maxSize : UInt32)

/-- The steps above the final speed that there is room for, and the final speed itself. -/
def accelerationSteps : Nat :=
  (List.range (maxSize.toNat - 1)).countP (fun i => decide
    (finalSpeed slope targetSpeedW stepType < slope.getTableStepShifted i stepType)) + 1

/-- A multiple of the alignment that all steps and the minimal size fit in. -/
def FitsSteps (size : Nat) : Prop :=
  stepsAlignment.toNat ∣ size ∧ minSize.toNat ≤ size ∧
    accelerationSteps slope targetSpeedW stepType maxSize ≤ size

structure Accelerates (result : MotorSlopeTable) : Prop where
  nonIncreasing : result.table.Pairwise (· ≥ ·)
  last : result.table.getLast? =
    some ((max targetSpeedW slope.maxSpeedW) >>> stepType.shift)
  length_le : result.table.length ≤ maxSize.toNat
  sum : result.pixeltimeSum = (result.table.map UInt32.toNat).sum
  aligned : ∀ size, IsLeast {size | FitsSteps slope targetSpeedW stepType stepsAlignment minSize
      maxSize size} size → size ≤ maxSize.toNat → result.table.length = size

/-- The table has to have all entries that there is room for, but acceleration leaves some of
them to the second loop. -/
def LeavesRoom : Prop :=
  IsLeast {size | FitsSteps slope targetSpeedW stepType stepsAlignment minSize maxSize size}
    maxSize.toNat ∧ accelerationSteps slope targetSpeedW stepType maxSize < maxSize.toNat

end Spec

variable {slope : MotorSlope} {targetSpeedW final : UInt32} {stepType : StepType}
  {stepsAlignment minSize maxSize : UInt32} {step : Nat → UInt32} {table : List UInt32}
  {room alignment least : Nat} {result : MotorSlopeTable}

/-! ## The loops -/

theorem accelerate_succ (step : Nat → UInt32) (final : UInt32) (room : Nat)
    (table : List UInt32) : accelerate step final (room + 1) table =
      if step table.length ≤ final then table
      else accelerate step final room (table ++ [step table.length]) := rfl

/-- The first loop appends the steps above the final speed one after another. -/
theorem accelerate_eq (step : Nat → UInt32) (final : UInt32) (room : Nat) (table : List UInt32) :
    accelerate step final room table = table ++ ((List.range room).takeWhile
      (fun i => decide (final < step (table.length + i)))).map fun i => step (table.length + i) := by
  induction room generalizing table with
  | zero => exact (List.append_nil _).symm
  | succ room ih =>
      rw [accelerate_succ, List.range_succ_eq_map, List.takeWhile_cons, Nat.add_zero]
      by_cases hdone : step table.length ≤ final
      · rw [if_pos hdone, if_neg (by simpa using hdone), List.map_nil, List.append_nil]
      · rw [if_neg hdone, if_pos (by simpa using hdone), ih, List.length_append,
          List.length_singleton, List.append_assoc, List.takeWhile_map, List.map_cons,
          List.map_map]
        simp only [Function.comp_def, Nat.succ_eq_add_one, Nat.add_zero, List.singleton_append,
          Nat.add_assoc, Nat.add_comm 1]

/-- Where a predicate holds of all that comes before, taking and filtering are the same. -/
theorem takeWhile_eq_filter {p : Nat → Bool} {xs : List Nat}
    (h : xs.Pairwise fun x y => p y = true → p x = true) : xs.takeWhile p = xs.filter p := by
  induction xs with
  | nil => rfl
  | cons x xs ih =>
      rw [List.pairwise_cons] at h
      rw [List.takeWhile_cons, List.filter_cons]
      by_cases hx : p x = true
      · rw [if_pos hx, if_pos hx, ih h.2]
      · rw [if_neg hx, if_neg hx]
        refine (List.filter_eq_nil_iff.mpr fun y hy hpy => hx (h.1 y hy hpy)).symm

theorem accelerate_eq_filter (hstep : ∀ i j, i ≤ j → step j ≤ step i) (room : Nat) :
    accelerate step final room [] =
      ((List.range room).filter fun i => decide (final < step i)).map step := by
  rw [accelerate_eq, takeWhile_eq_filter]
  · simp only [List.length_nil, Nat.zero_add, List.nil_append]
  · refine List.pairwise_lt_range.imp ?_
    intro i j hij hj
    rw [decide_eq_true_eq, List.length_nil] at hj ⊢
    exact UInt32.lt_of_lt_of_le hj (hstep _ _ (by omega))

theorem pairwise_accelerate (hstep : ∀ i j, i ≤ j → step j ≤ step i) (room : Nat) :
    (accelerate step final room [] ++ [final]).Pairwise (· ≥ ·) := by
  rw [accelerate_eq_filter hstep, List.pairwise_append]
  refine ⟨?_, List.pairwise_singleton .., ?_⟩
  · rw [List.pairwise_map]
    exact (List.pairwise_lt_range.imp fun hij => hstep _ _ (Nat.le_of_lt hij)).filter _
  · intro speed hspeed last hlast
    obtain ⟨i, hi, rfl⟩ := List.mem_map.mp hspeed
    rw [List.mem_singleton.mp hlast]
    exact UInt32.le_of_lt (by simpa using List.of_mem_filter hi)

/-- The size is aligned, and is no less than the minimal one. -/
def Aligned (alignment least size : Nat) : Prop := alignment ∣ size ∧ least ≤ size

theorem fillUp_succ (alignment least : Nat) (final : UInt32) (room : Nat) (table : List UInt32) :
    fillUp alignment least final (room + 1) table =
      if table.length % alignment ≠ 0 ∨ table.length < least then
        fillUp alignment least final room (table ++ [table.getLastD final])
      else table := rfl

theorem not_aligned_iff {size : Nat} :
    ¬ Aligned alignment least size ↔ size % alignment ≠ 0 ∨ size < least := by
  rw [Aligned, Nat.dvd_iff_mod_eq_zero, not_and_or, Nat.not_le]

/-- The second loop appends copies of the final speed until the size is aligned or no room is
left. -/
theorem fillUp_eq (alignment least : Nat) (final : UInt32) (room : Nat) (table : List UInt32) :
    ∃ k ≤ room, fillUp alignment least final room (table ++ [final]) =
        table ++ List.replicate (k + 1) final ∧
      (∀ j < k, ¬ Aligned alignment least (table.length + 1 + j)) ∧
      (k < room → Aligned alignment least (table.length + 1 + k)) := by
  induction room generalizing table with
  | zero =>
      exact ⟨0, Nat.le_refl 0, rfl, fun j hj => absurd hj (Nat.not_lt_zero j),
        fun h => absurd h (Nat.lt_irrefl 0)⟩
  | succ room ih =>
      rw [fillUp_succ, List.length_append, List.length_singleton]
      by_cases haligned : Aligned alignment least (table.length + 1)
      · rw [if_neg fun h => not_aligned_iff.mpr h haligned]
        exact ⟨0, Nat.zero_le _, rfl, fun j hj => absurd hj (Nat.not_lt_zero j),
          fun _ => haligned⟩
      · rw [if_pos (not_aligned_iff.mp haligned), List.getLastD_concat]
        obtain ⟨k, hk, hfill, hbefore, hend⟩ := ih (table ++ [final])
        rw [List.length_append, List.length_singleton] at hbefore hend
        refine ⟨k + 1, Nat.succ_le_succ hk, ?_, ?_, ?_⟩
        · rw [hfill, List.append_assoc, List.singleton_append, ← List.replicate_succ]
        · intro j hj
          cases j with
          | zero => exact haligned
          | succ j =>
              have hnot := hbefore j (by omega)
              rwa [show table.length + 1 + 1 + j = table.length + 1 + (j + 1) by omega] at hnot
        · intro hroom
          have hsize := hend (by omega)
          rwa [show table.length + 1 + 1 + k = table.length + 1 + (k + 1) by omega] at hsize

/-! ## The sum -/

theorem foldl_sum (table : List UInt32) (sum : Nat) (hsum : sum < 2 ^ 64) :
    table.foldl (fun sum entry => (sum + entry.toNat) % 2 ^ 64) sum =
      (sum + (table.map UInt32.toNat).sum) % 2 ^ 64 := by
  induction table generalizing sum with
  | nil => exact (Nat.mod_eq_of_lt hsum).symm
  | cons entry table ih =>
      rw [List.foldl_cons, ih _ (Nat.mod_lt _ (by decide)), List.map_cons, List.sum_cons]
      omega

theorem sum_toNat_le (table : List UInt32) :
    (table.map UInt32.toNat).sum ≤ table.length * (2 ^ 32 - 1) := by
  have hle := List.sum_le_card_nsmul (table.map UInt32.toNat) (2 ^ 32 - 1) (by
    intro n hn
    obtain ⟨entry, -, rfl⟩ := List.mem_map.mp hn
    have hlt := entry.toNat_lt
    omega)
  rwa [List.length_map, smul_eq_mul] at hle

/-- A table that the hardware can address does not overflow the sum. -/
theorem pixeltimeSum_eq (maxSize : UInt32) (hlength : table.length ≤ maxSize.toNat) :
    (generatePixeltimeSum table).pixeltimeSum = (table.map UInt32.toNat).sum := by
  have hle := sum_toNat_le table
  have hmax := maxSize.toNat_lt
  have hmul : table.length * (2 ^ 32 - 1) ≤ 2 ^ 32 * (2 ^ 32 - 1) :=
    Nat.mul_le_mul_right _ (by omega)
  change table.foldl _ 0 = _
  rw [foldl_sum table 0 (by decide), Nat.zero_add]
  exact Nat.mod_eq_of_lt (by omega)

/-! ## The table -/

theorem shiftRight_le {a b : UInt32} (h : a ≤ b) (shift : UInt32) : a >>> shift ≤ b >>> shift := by
  rw [UInt32.le_iff_toNat_le] at h ⊢
  rw [UInt32.toNat_shiftRight, UInt32.toNat_shiftRight, Nat.shiftRight_eq_div_pow,
    Nat.shiftRight_eq_div_pow]
  exact Nat.div_le_div_right h

theorem finalSpeed_eq : finalSpeed slope targetSpeedW stepType =
    (max targetSpeedW slope.maxSpeedW) >>> stepType.shift := by
  have hmax : ∀ a b : UInt32, max a b = if a ≤ b then b else a := fun _ _ => rfl
  rw [finalSpeed, hmax, hmax]
  by_cases hle : targetSpeedW ≤ slope.maxSpeedW
  · rw [if_pos hle, if_pos (shiftRight_le hle _)]
  · rw [if_neg hle]
    have hge := shiftRight_le (UInt32.le_of_lt (UInt32.not_le.mp hle)) stepType.shift
    split_ifs with hshifted
    · exact UInt32.le_antisymm hge hshifted
    · rfl

/-- The table is that of the first loop with copies of the final speed behind it. -/
theorem createSlopeTableForSpeed_ok
    (hstep : ∀ i j, i ≤ j → slope.getTableStepShifted j stepType ≤
      slope.getTableStepShifted i stepType) (hmax : 2 ≤ maxSize)
    (h : createSlopeTableForSpeed slope targetSpeedW stepType stepsAlignment minSize maxSize =
      .ok result) :
    ∃ (steps : List UInt32) (k : Nat),
      (steps ++ [finalSpeed slope targetSpeedW stepType]).Pairwise (· ≥ ·) ∧
      steps.length + 1 = accelerationSteps slope targetSpeedW stepType maxSize ∧
      steps.length ≤ maxSize.toNat - 1 ∧ k ≤ maxSize.toNat - 1 - (steps.length + 1) ∧
      result = generatePixeltimeSum
        (steps ++ List.replicate (k + 1) (finalSpeed slope targetSpeedW stepType)) ∧
      (∀ j < k, ¬ Aligned stepsAlignment.toNat minSize.toNat (steps.length + 1 + j)) ∧
      (k < maxSize.toNat - 1 - (steps.length + 1) →
        Aligned stepsAlignment.toNat minSize.toNat (steps.length + 1 + k)) := by
  have hlimit : (maxSize - 1).toNat = maxSize.toNat - 1 :=
    UInt32.toNat_sub_of_le _ _ (UInt32.le_trans (by decide) hmax)
  rw [createSlopeTableForSpeed] at h
  split_ifs at h with htarget
  rw [hlimit] at h
  cases h
  obtain ⟨k, hk, hfill, hbefore, hend⟩ := fillUp_eq stepsAlignment.toNat minSize.toNat
    (finalSpeed slope targetSpeedW stepType)
    (maxSize.toNat - 1 - ((accelerate (slope.getTableStepShifted · stepType)
      (finalSpeed slope targetSpeedW stepType) (maxSize.toNat - 1) []).length + 1))
    (accelerate (slope.getTableStepShifted · stepType)
      (finalSpeed slope targetSpeedW stepType) (maxSize.toNat - 1) [])
  refine ⟨_, k, pairwise_accelerate hstep _, ?_, ?_, hk, ?_, hbefore, hend⟩
  · rw [accelerate_eq_filter hstep, List.length_map, accelerationSteps, List.countP_eq_length_filter]
  · rw [accelerate_eq_filter hstep, List.length_map]
    exact (List.length_filter_le ..).trans (List.length_range ..).le
  · rw [← hfill, List.length_append, List.length_singleton]

/-- One step above the final speed. -/
def oneStep : MotorSlope where
  maxSpeedW := 0
  getTableStepShifted i _ := if i = 0 then 20 else 5

theorem oneStep_antitone (i j : Nat) (hij : i ≤ j) :
    oneStep.getTableStepShifted j .full ≤ oneStep.getTableStepShifted i .full := by
  simp only [oneStep]
  split_ifs <;> first | decide | omega

end SaneBackends.Genesys
