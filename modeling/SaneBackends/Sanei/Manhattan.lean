import SaneBackends.Lib.Loop
import SaneBackends.Lib.Sweep
import SaneBackends.Sanei.Image
/-!
# Distances in a mask

`sanei_ir_manhattan_dist`, which finds for each pixel of a mask how far the nearest target pixel
is and which one that is.
-/

namespace SaneBackends.Sanei

open SaneBackends.Lib

/-! ## The code -/

/-- The maps, and how many numbers `rand` gave so far. -/
structure DistMaps where
  dist : Cells Nat
  idx : Cells Nat
  draws : Nat := 0

/-- `if (manhattan[near] + 1 < *manhattan)`, with the index that follows. -/
def follow (here near : Nat) (maps : DistMaps) : Except CellFault DistMaps := do
  let other ← maps.dist.load near
  let own ← maps.dist.load here
  if other + 1 < own then do
    let dist ← maps.dist.store here (other + 1)
    let index ← maps.idx.load near
    let idx ← maps.idx.store here index
    pure { maps with dist, idx }
  else pure maps

/-- `if (manhattan[near] + 1 == *manhattan)`, where `rand` chooses the index. -/
def chooseIndex (rand : Nat → Nat) (here near : Nat) (maps : DistMaps) :
    Except CellFault DistMaps := do
  let other ← maps.dist.load near
  let own ← maps.dist.load here
  if other + 1 = own then
    if rand maps.draws % 2 = 0 then do
      let index ← maps.idx.load near
      let idx ← maps.idx.store here index
      pure { maps with idx, draws := maps.draws + 1 }
    else pure { maps with draws := maps.draws + 1 }
  else pure maps

/-- Both for a neighbour. -/
def followOrChoose (rand : Nat → Nat) (here near : Nat) (maps : DistMaps) :
    Except CellFault DistMaps := do
  let maps ← follow here near maps
  chooseIndex rand here near maps

/-- A neighbour is looked at only where there is one. -/
def whenThere (there : Bool) (look : DistMaps → Except CellFault DistMaps) (maps : DistMaps) :
    Except CellFault DistMaps :=
  if there then look maps else .ok maps

/-- The body of the loops from top left to bottom right. -/
def visitDown (params : ImageParams) (target : Nat) (rand : Nat → Nat) (i j : Nat)
    (maps : DistMaps) : Except CellFault DistMaps := do
  let cols := params.pixelsPerLine
  let here := i * cols + j
  let value ← maps.dist.load here
  if value = target then do
    let dist ← maps.dist.store here 0
    pure { maps with dist }
  else do
    let dist ← maps.dist.store here (cols + params.lines)
    let maps ← whenThere (0 < i) (follow here (here - cols)) { maps with dist }
    whenThere (0 < j) (followOrChoose rand here (here - 1)) maps

/-- The body of the loops from bottom right to top left. -/
def visitUp (params : ImageParams) (rand : Nat → Nat) (i j : Nat) (maps : DistMaps) :
    Except CellFault DistMaps := do
  let cols := params.pixelsPerLine
  let here := i * cols + j
  let maps ← whenThere (i < params.lines - 1) (followOrChoose rand here (here + cols)) maps
  whenThere (j < cols - 1) (followOrChoose rand here (here + 1)) maps

def initMaps (mask : Cells Nat) (i : Nat) (maps : DistMaps) : Except CellFault DistMaps := do
  let value ← mask.load i
  let dist ← maps.dist.store i value
  let idx ← maps.idx.store i i
  pure { maps with dist, idx }

def saneiIrManhattanDist (params : ImageParams) (mask : Cells Nat) (maps : DistMaps)
    (erode : Nat) (rand : Nat → Nat) : Except CellFault DistMaps := do
  let target := if erode ≠ 0 then 255 else 0
  let cols := params.pixelsPerLine
  let rows := params.lines
  let maps ← forTo params.pixels (initMaps mask) maps
  let maps ← forTo rows (fun i => forTo cols (visitDown params target rand i)) maps
  forTo rows (fun i => forTo cols fun j =>
    visitUp params rand (rows - 1 - i) (cols - 1 - j)) maps

/-! ## Pixels -/

/-- The Manhattan distance of two pixels. -/
def ImageParams.distance (params : ImageParams) (p t : Nat) : Nat :=
  taxicab (p / params.pixelsPerLine) (p % params.pixelsPerLine) (t / params.pixelsPerLine)
    (t % params.pixelsPerLine)

/-- The distance that stands for none. -/
def ImageParams.far (params : ImageParams) : Nat := params.pixelsPerLine + params.lines

/-- The pixels of a mask that have a value. -/
def IsTarget (params : ImageParams) (mask : Cells Nat) (value t : Nat) : Prop :=
  t < params.pixels ∧ mask.cell t = value

/-- A distance with its index, of which at most the index is not the best yet. -/
def Witnessed (params : ImageParams) (mask : Cells Nat) (value p d x : Nat) : Prop :=
  d ≤ params.far ∧
    (d = params.far ∧ x = p ∨ IsTarget params mask value x ∧ params.distance p x ≤ d)

section Pixels

variable {params : ImageParams} {mask : Cells Nat} {value p q i j d x : Nat}

theorem here_lt (hi : i < params.lines) (hj : j < params.pixelsPerLine) :
    i * params.pixelsPerLine + j < params.pixels := part_lt hi hj

theorem distance_eq (hj : j < params.pixelsPerLine) (t : Nat) :
    params.distance (i * params.pixelsPerLine + j) t =
      taxicab i j (t / params.pixelsPerLine) (t % params.pixelsPerLine) := by
  rw [ImageParams.distance, part_div hj, part_mod hj]

/-- One step away from a pixel the index is as good, one further. -/
theorem Witnessed.step (h : Witnessed params mask value q d x)
    (hnear : ∀ t, params.distance p t ≤ params.distance q t + 1) (hd : d + 1 ≤ params.far) :
    Witnessed params mask value p (d + 1) x := by
  obtain ⟨-, hnone | ⟨htarget, hle⟩⟩ := h
  · omega
  · have hstep := hnear x
    exact ⟨hd, .inr ⟨htarget, by omega⟩⟩

end Pixels

/-! ## Looking at a neighbour -/

/-- The maps have a cell for every pixel. -/
structure Sized (n : Nat) (maps : DistMaps) : Prop where
  dist : n ≤ maps.dist.size
  idx : n ≤ maps.idx.size

/-- What a look at a neighbour does: one pixel may get a smaller distance and another index. -/
structure Looked (n : Nat) (W : Nat → Nat → Prop) (here : Nat) (maps maps' : DistMaps) : Prop where
  sized : Sized n maps → Sized n maps'
  dist : ∀ z, z ≠ here → maps'.dist.cell z = maps.dist.cell z
  idx : ∀ z, z ≠ here → maps'.idx.cell z = maps.idx.cell z
  le : maps'.dist.cell here ≤ maps.dist.cell here
  keeps : W (maps.dist.cell here) (maps.idx.cell here) →
    W (maps'.dist.cell here) (maps'.idx.cell here)

section Looking

variable {n here near : Nat} {W : Nat → Nat → Prop} {maps maps₁ maps₂ : DistMaps}
  {rand : Nat → Nat}

theorem Looked.refl : Looked n W here maps maps :=
  ⟨id, fun _ _ => rfl, fun _ _ => rfl, Nat.le_refl _, id⟩

theorem Looked.trans (h : Looked n W here maps maps₁) (h' : Looked n W here maps₁ maps₂) :
    Looked n W here maps maps₂ where
  sized hsized := h'.sized (h.sized hsized)
  dist z hz := (h'.dist z hz).trans (h.dist z hz)
  idx z hz := (h'.idx z hz).trans (h.idx z hz)
  le := Nat.le_trans h'.le h.le
  keeps hW := h'.keeps (h.keeps hW)

/-- The neighbour's index is good for this pixel, if its distance is one less. -/
def Passes (W : Nat → Nat → Prop) (bound near : Nat) (maps : DistMaps) : Prop :=
  maps.dist.cell near + 1 ≤ bound → W (maps.dist.cell near + 1) (maps.idx.cell near)

theorem follow_spec (hsized : Sized n maps) (hhere : here < n) (hnear : near < n)
    (hpass : Passes W (maps.dist.cell here) near maps) :
    ∃ maps', follow here near maps = .ok maps' ∧ Looked n W here maps maps' ∧
      maps'.dist.cell here ≤ maps.dist.cell near + 1 := by
  have hdist := hsized.dist
  have hidx := hsized.idx
  have hload : ∀ z < n, maps.dist.load z = .ok (maps.dist.cell z) :=
    fun z hz => Cells.load_eq (by omega)
  rw [follow, hload near hnear, ok_bind, hload here hhere, ok_bind]
  by_cases hcloser : maps.dist.cell near + 1 < maps.dist.cell here
  · rw [if_pos hcloser, Cells.store_eq (by omega), ok_bind, Cells.load_eq (by omega), ok_bind,
      Cells.store_eq (by omega), ok_bind]
    refine ⟨_, rfl, ⟨fun _ => ⟨hdist, hidx⟩, fun z hz => Cells.cell_put_of_ne hz _,
      fun z hz => Cells.cell_put_of_ne hz _, ?_, fun _ => ?_⟩, ?_⟩
    · rw [Cells.cell_put_self]
      omega
    · rw [Cells.cell_put_self, Cells.cell_put_self]
      exact hpass (by omega)
    · rw [Cells.cell_put_self]
  · rw [if_neg hcloser]
    exact ⟨maps, rfl, .refl, by omega⟩

theorem chooseIndex_spec (hsized : Sized n maps) (hhere : here < n) (hnear : near < n)
    (hpass : Passes W (maps.dist.cell here) near maps) :
    ∃ maps', chooseIndex rand here near maps = .ok maps' ∧ Looked n W here maps maps' := by
  have hdist := hsized.dist
  have hidx := hsized.idx
  have hload : ∀ z < n, maps.dist.load z = .ok (maps.dist.cell z) :=
    fun z hz => Cells.load_eq (by omega)
  rw [chooseIndex, hload near hnear, ok_bind, hload here hhere, ok_bind]
  by_cases hsame : maps.dist.cell near + 1 = maps.dist.cell here
  · rw [if_pos hsame]
    by_cases hdraw : rand maps.draws % 2 = 0
    · rw [if_pos hdraw, Cells.load_eq (by omega), ok_bind, Cells.store_eq (by omega), ok_bind]
      refine ⟨_, rfl, ⟨fun _ => ⟨hdist, hidx⟩, fun z hz => rfl,
        fun z hz => Cells.cell_put_of_ne hz _, Nat.le_refl _, fun _ => ?_⟩⟩
      have hbetter := hpass (by omega)
      rw [hsame] at hbetter
      rw [Cells.cell_put_self]
      exact hbetter
    · rw [if_neg hdraw]
      exact ⟨_, rfl, fun _ => ⟨hdist, hidx⟩, fun _ _ => rfl, fun _ _ => rfl, Nat.le_refl _, id⟩
  · rw [if_neg hsame]
    exact ⟨maps, rfl, .refl⟩

theorem followOrChoose_spec (hsized : Sized n maps) (hhere : here < n) (hnear : near < n)
    (hne : near ≠ here) (hpass : Passes W (maps.dist.cell here) near maps) :
    ∃ maps', followOrChoose rand here near maps = .ok maps' ∧ Looked n W here maps maps' ∧
      maps'.dist.cell here ≤ maps.dist.cell near + 1 := by
  obtain ⟨maps₁, hfollow, hlooked, hle⟩ := follow_spec hsized hhere hnear hpass
  have hpass₁ : Passes W (maps₁.dist.cell here) near maps₁ := by
    intro hbound
    rw [hlooked.dist near hne] at hbound ⊢
    rw [hlooked.idx near hne]
    exact hpass (Nat.le_trans hbound hlooked.le)
  obtain ⟨maps₂, hchoose, hlooked₂⟩ :=
    @chooseIndex_spec _ _ _ _ _ rand (hlooked.sized hsized) hhere hnear hpass₁
  exact ⟨maps₂, by rw [followOrChoose, hfollow, ok_bind, hchoose], hlooked.trans hlooked₂,
    Nat.le_trans hlooked₂.le hle⟩

/-- Where there is no neighbour nothing happens. -/
theorem whenThere_spec {there : Bool} {look : DistMaps → Except CellFault DistMaps} {bound : Nat}
    (hlook : there = true → ∃ maps', look maps = .ok maps' ∧ Looked n W here maps maps' ∧
      maps'.dist.cell here ≤ bound) :
    ∃ maps', whenThere there look maps = .ok maps' ∧ Looked n W here maps maps' ∧
      (there = true → maps'.dist.cell here ≤ bound) := by
  cases there with
  | false => exact ⟨maps, rfl, .refl, fun hthere => by cases hthere⟩
  | true =>
      obtain ⟨maps', hrun, hlooked, hle⟩ := hlook rfl
      exact ⟨maps', hrun, hlooked, fun _ => hle⟩

end Looking

/-! ## A visit -/

section Visits

variable {params : ImageParams} {mask : Cells Nat} {value i j : Nat} {rand : Nat → Nat}
  {maps : DistMaps}

/-- What the maps hold of a pixel is good. -/
def Good (params : ImageParams) (mask : Cells Nat) (value : Nat) (maps : DistMaps) (p : Nat) :
    Prop :=
  Witnessed params mask value p (maps.dist.cell p) (maps.idx.cell p)

theorem Good.passes {here near bound : Nat} (h : Good params mask value maps near)
    (hnear : ∀ t, params.distance here t ≤ params.distance near t + 1)
    (hbound : bound ≤ params.far) :
    Passes (Witnessed params mask value here) bound near maps :=
  fun hle => Witnessed.step h hnear (Nat.le_trans hle hbound)

/-- A visit changes the maps at its own pixel. -/
structure Visited (params : ImageParams) (mask : Cells Nat) (value here : Nat)
    (maps maps' : DistMaps) : Prop where
  sized : Sized params.pixels maps'
  dist : ∀ z, z ≠ here → maps'.dist.cell z = maps.dist.cell z
  idx : ∀ z, z ≠ here → maps'.idx.cell z = maps.idx.cell z
  good : Good params mask value maps' here

theorem distance_step {i' j' : Nat} (hj : j < params.pixelsPerLine)
    (hj' : j' < params.pixelsPerLine) (hstep : taxicab i j i' j' = 1) (t : Nat) :
    params.distance (i * params.pixelsPerLine + j) t ≤
      params.distance (i' * params.pixelsPerLine + j') t + 1 := by
  rw [distance_eq hj, distance_eq hj']
  exact taxicab_step hstep

theorem distance_self (p : Nat) : params.distance p p = 0 := taxicab_self _ _

/-- Above a pixel, where it is not in the first row, there is one. -/
theorem above_spec (hi : 0 < i) (hj : j < params.pixelsPerLine) :
    i * params.pixelsPerLine + j - params.pixelsPerLine < i * params.pixelsPerLine + j ∧
      ∀ t, params.distance (i * params.pixelsPerLine + j) t ≤
        params.distance (i * params.pixelsPerLine + j - params.pixelsPerLine) t + 1 := by
  have hle := Nat.le_mul_of_pos_left params.pixelsPerLine hi
  have hrow : i * params.pixelsPerLine + j - params.pixelsPerLine =
      (i - 1) * params.pixelsPerLine + j := by
    rw [Nat.sub_one_mul]
    omega
  refine ⟨by omega, fun t => ?_⟩
  rw [hrow]
  refine distance_step hj hj ?_ t
  unfold taxicab
  omega

/-- Before a pixel, where it is not in the first column, there is one. -/
theorem before_spec (hj : j < params.pixelsPerLine) (hfirst : 0 < j) (t : Nat) :
    params.distance (i * params.pixelsPerLine + j) t ≤
      params.distance (i * params.pixelsPerLine + j - 1) t + 1 := by
  rw [Nat.add_sub_assoc hfirst]
  refine distance_step hj (by omega) ?_ t
  unfold taxicab
  omega

theorem visitDown_spec (hi : i < params.lines) (hj : j < params.pixelsPerLine)
    (hsized : Sized params.pixels maps) {here : Nat} (hhere : here = i * params.pixelsPerLine + j)
    (hfresh : maps.dist.cell here = mask.cell here ∧ maps.idx.cell here = here)
    (hgood : ∀ p < here, Good params mask value maps p) :
    ∃ maps', visitDown params value rand i j maps = .ok maps' ∧
      Visited params mask value here maps maps' ∧
      (mask.cell here = value → maps'.dist.cell here = 0) ∧
      (0 < i → maps'.dist.cell here ≤ maps.dist.cell (here - params.pixelsPerLine) + 1) ∧
      (0 < j → maps'.dist.cell here ≤ maps.dist.cell (here - 1) + 1) := by
  have hlt : here < params.pixels := hhere ▸ here_lt hi hj
  have hdist := hsized.dist
  have hidx := hsized.idx
  unfold visitDown
  dsimp only
  rw [← hhere, Cells.load_eq (by omega), ok_bind, hfresh.1]
  by_cases htarget : mask.cell here = value
  · rw [if_pos htarget, Cells.store_eq (by omega), ok_bind]
    have hzero : (maps.dist.put here 0).cell here = 0 := Cells.cell_put_self ..
    refine ⟨_, rfl, ⟨⟨hdist, hidx⟩, fun z hz => Cells.cell_put_of_ne hz _, fun z hz => rfl, ?_⟩,
      fun _ => hzero, fun _ => ?_, fun _ => ?_⟩
    · unfold Good Witnessed
      dsimp only
      rw [hzero, hfresh.2, distance_self]
      exact ⟨Nat.zero_le _, .inr ⟨⟨hlt, htarget⟩, Nat.le_refl 0⟩⟩
    · dsimp only
      rw [hzero]
      exact Nat.zero_le _
    · dsimp only
      rw [hzero]
      exact Nat.zero_le _
  · rw [if_neg htarget, Cells.store_eq (by omega), ok_bind]
    obtain ⟨maps₁, hmaps₁⟩ : ∃ maps₁ : DistMaps,
      maps₁ = { maps with dist := maps.dist.put here params.far } := ⟨_, rfl⟩
    have hsized₁ : Sized params.pixels maps₁ := hmaps₁ ▸ ⟨hdist, hidx⟩
    have hdist₁ : ∀ z, z ≠ here → maps₁.dist.cell z = maps.dist.cell z := by
      intro z hz
      rw [hmaps₁]
      exact Cells.cell_put_of_ne hz _
    have hidx₁ : maps₁.idx = maps.idx := by rw [hmaps₁]
    have hfar : maps₁.dist.cell here = params.far := by
      rw [hmaps₁]
      exact Cells.cell_put_self ..
    have hgood₁ : ∀ p < here, Good params mask value maps₁ p := by
      intro p hp
      unfold Good
      rw [hdist₁ p (by omega), hidx₁]
      exact hgood p hp
    obtain ⟨maps₂, habove, hlooked₂, hle₂⟩ := @whenThere_spec params.pixels here
      (Witnessed params mask value here) maps₁ (0 < i)
      (follow here (here - params.pixelsPerLine))
      (maps₁.dist.cell (here - params.pixelsPerLine) + 1) fun hthere => by
        obtain ⟨hbefore, hnear⟩ := above_spec (of_decide_eq_true hthere) hj
        rw [← hhere] at hbefore hnear
        exact follow_spec hsized₁ hlt (by omega)
          ((hgood₁ _ hbefore).passes hnear (Nat.le_of_eq hfar))
    obtain ⟨maps₃, hbefore, hlooked₃, hle₃⟩ := @whenThere_spec params.pixels here
      (Witnessed params mask value here) maps₂ (0 < j)
      (followOrChoose rand here (here - 1))
      (maps₂.dist.cell (here - 1) + 1) fun hthere => by
        have hfirst : 0 < j := of_decide_eq_true hthere
        have hnear := @before_spec params i j hj hfirst
        rw [← hhere] at hnear
        have hother : here - 1 ≠ here := by omega
        have hgood₂ : Good params mask value maps₂ (here - 1) := by
          unfold Good
          rw [hlooked₂.dist _ hother, hlooked₂.idx _ hother]
          exact hgood₁ _ (by omega)
        exact followOrChoose_spec (hlooked₂.sized hsized₁) hlt (by omega) hother
          (hgood₂.passes hnear (Nat.le_trans hlooked₂.le (Nat.le_of_eq hfar)))
    have hlooked := hlooked₂.trans hlooked₃
    refine ⟨maps₃, ?_, ⟨hlooked.sized hsized₁, fun z hz => ?_, fun z hz => ?_, ?_⟩,
      fun h => absurd h htarget, fun hfirst => ?_, fun hfirst => ?_⟩
    · rw [hmaps₁] at habove
      change (whenThere (0 < i) (follow here (here - params.pixelsPerLine))
        { maps with dist := maps.dist.put here params.far } >>= _) = _
      rw [habove, ok_bind, hbefore]
    · rw [hlooked.dist z hz, hdist₁ z hz]
    · rw [hlooked.idx z hz, hidx₁]
    · refine hlooked.keeps ⟨Nat.le_of_eq hfar, .inl ⟨hfar, ?_⟩⟩
      rw [hidx₁]
      exact hfresh.2
    · have hle := hle₂ (decide_eq_true hfirst)
      obtain ⟨hother, -⟩ := above_spec hfirst hj
      rw [hdist₁ _ (by omega)] at hle
      exact Nat.le_trans hlooked₃.le hle
    · have hle := hle₃ (decide_eq_true hfirst)
      rw [hlooked₂.dist _ (by omega), hdist₁ _ (by omega)] at hle
      exact hle

theorem visitUp_spec (hi : i < params.lines) (hj : j < params.pixelsPerLine)
    (hsized : Sized params.pixels maps) {here : Nat} (hhere : here = i * params.pixelsPerLine + j)
    (hgood : ∀ p < params.pixels, Good params mask value maps p) :
    ∃ maps', visitUp params rand i j maps = .ok maps' ∧
      Visited params mask value here maps maps' ∧ maps'.dist.cell here ≤ maps.dist.cell here ∧
      (i + 1 < params.lines →
        maps'.dist.cell here ≤ maps.dist.cell (here + params.pixelsPerLine) + 1) ∧
      (j + 1 < params.pixelsPerLine → maps'.dist.cell here ≤ maps.dist.cell (here + 1) + 1) := by
  have hlt : here < params.pixels := hhere ▸ here_lt hi hj
  unfold visitUp
  dsimp only
  rw [← hhere]
  obtain ⟨maps₁, hbelow, hlooked₁, hle₁⟩ := @whenThere_spec params.pixels here
    (Witnessed params mask value here) maps (i < params.lines - 1)
    (followOrChoose rand here (here + params.pixelsPerLine))
    (maps.dist.cell (here + params.pixelsPerLine) + 1) fun hthere => by
      have hrow : i < params.lines - 1 := of_decide_eq_true hthere
      have hplace : here + params.pixelsPerLine = (i + 1) * params.pixelsPerLine + j := by
        rw [Nat.succ_mul, hhere]
        omega
      have hinside : here + params.pixelsPerLine < params.pixels := by
        rw [hplace]
        exact here_lt (by omega) hj
      refine followOrChoose_spec hsized hlt hinside (by omega)
        ((hgood _ hinside).passes (fun t => ?_) (hgood here hlt).1)
      rw [hplace, hhere]
      refine distance_step hj hj ?_ t
      unfold taxicab
      omega
  obtain ⟨maps₂, hbehind, hlooked₂, hle₂⟩ := @whenThere_spec params.pixels here
    (Witnessed params mask value here) maps₁ (j < params.pixelsPerLine - 1)
    (followOrChoose rand here (here + 1)) (maps₁.dist.cell (here + 1) + 1) fun hthere => by
      have hcol : j < params.pixelsPerLine - 1 := of_decide_eq_true hthere
      have hplace : here + 1 = i * params.pixelsPerLine + (j + 1) := by
        rw [hhere, Nat.add_assoc]
      have hinside : here + 1 < params.pixels := by
        rw [hplace]
        exact here_lt hi (by omega)
      have hgood₁ : Good params mask value maps₁ (here + 1) := by
        unfold Good
        rw [hlooked₁.dist _ (by omega), hlooked₁.idx _ (by omega)]
        exact hgood _ hinside
      refine followOrChoose_spec (hlooked₁.sized hsized) hlt hinside (by omega)
        (hgood₁.passes (fun t => ?_) (Nat.le_trans hlooked₁.le (hgood here hlt).1))
      rw [hplace, hhere]
      refine distance_step hj (by omega) ?_ t
      unfold taxicab
      omega
  have hlooked := hlooked₁.trans hlooked₂
  refine ⟨maps₂, by rw [hbelow, ok_bind, hbehind], ⟨hlooked.sized hsized, hlooked.dist, hlooked.idx,
    hlooked.keeps (hgood here hlt)⟩, hlooked.le, fun hrow => ?_, fun hcol => ?_⟩
  · exact Nat.le_trans hlooked₂.le (hle₁ (decide_eq_true (by omega)))
  · have hle := hle₂ (decide_eq_true (by omega))
    rw [hlooked₁.dist _ (by omega)] at hle
    exact hle

end Visits

/-! ## The sweeps -/

section Sweeps

variable {params : ImageParams} {mask : Cells Nat} {value k : Nat} {rand : Nat → Nat}
  {maps : DistMaps} {first : Nat → Nat}

/-- The maps with the first `k` pixels visited. -/
structure SweptTo (params : ImageParams) (mask : Cells Nat) (value k : Nat) (maps : DistMaps) :
    Prop where
  sized : Sized params.pixels maps
  good : ∀ p < k, Good params mask value maps p
  fresh : ∀ p, k ≤ p → p < params.pixels → maps.dist.cell p = mask.cell p ∧ maps.idx.cell p = p
  own : ∀ p < k, mask.cell p = value → maps.dist.cell p = 0
  above : ∀ p < k, 0 < p / params.pixelsPerLine →
    maps.dist.cell p ≤ maps.dist.cell (p - params.pixelsPerLine) + 1
  before : ∀ p < k, 0 < p % params.pixelsPerLine →
    maps.dist.cell p ≤ maps.dist.cell (p - 1) + 1

/-- The maps with the last `k` pixels visited again. -/
structure ReturnedTo (params : ImageParams) (mask : Cells Nat) (value : Nat) (first : Nat → Nat)
    (k : Nat) (maps : DistMaps) : Prop where
  sized : Sized params.pixels maps
  good : ∀ p < params.pixels, Good params mask value maps p
  le : ∀ p < params.pixels, maps.dist.cell p ≤ first p
  below : ∀ p < params.pixels, params.pixels ≤ p + k → p / params.pixelsPerLine + 1 < params.lines →
    maps.dist.cell p ≤ maps.dist.cell (p + params.pixelsPerLine) + 1
  behind : ∀ p < params.pixels, params.pixels ≤ p + k →
    p % params.pixelsPerLine + 1 < params.pixelsPerLine →
    maps.dist.cell p ≤ maps.dist.cell (p + 1) + 1

/-- The row and the column of a pixel. -/
theorem place_of_lt (hk : k < params.pixels) :
    k / params.pixelsPerLine < params.lines ∧ k % params.pixelsPerLine < params.pixelsPerLine ∧
      k = k / params.pixelsPerLine * params.pixelsPerLine + k % params.pixelsPerLine := by
  have hcols : 0 < params.pixelsPerLine := by
    refine Nat.pos_of_ne_zero fun hzero => ?_
    rw [ImageParams.pixels, hzero, Nat.mul_zero] at hk
    exact Nat.not_lt_zero _ hk
  refine ⟨Nat.div_lt_of_lt_mul ?_, Nat.mod_lt _ hcols, (Nat.div_add_mod' _ _).symm⟩
  rw [Nat.mul_comm]
  exact hk

theorem initMaps_spec (hmask : params.pixels ≤ mask.size) (hsized : Sized params.pixels maps) :
    ∃ maps', forTo params.pixels (initMaps mask) maps = .ok maps' ∧
      SweptTo params mask value 0 maps' := by
  obtain ⟨maps', hrun, hsized', hcells⟩ := @forTo_invariant _ _ params.pixels (initMaps mask) maps
    (fun k maps => Sized params.pixels maps ∧
      ∀ p < k, maps.dist.cell p = mask.cell p ∧ maps.idx.cell p = p)
    ⟨hsized, fun p hp => absurd hp (Nat.not_lt_zero p)⟩ fun k hk maps hinv => by
      obtain ⟨hsized, hcells⟩ := hinv
      have hdist := hsized.dist
      have hidx := hsized.idx
      refine ⟨{ maps with dist := maps.dist.put k (mask.cell k), idx := maps.idx.put k k }, ?_,
        ⟨hdist, hidx⟩, fun p hp => ?_⟩
      · rw [initMaps, Cells.load_eq (by omega), ok_bind, Cells.store_eq (by omega), ok_bind,
          Cells.store_eq (by omega), ok_bind]
        rfl
      · by_cases hlast : p = k
        · subst hlast
          exact ⟨Cells.cell_put_self .., Cells.cell_put_self ..⟩
        · rw [Cells.cell_put_of_ne hlast, Cells.cell_put_of_ne hlast]
          exact hcells p (by omega)
  exact ⟨maps', hrun, hsized', fun p hp => absurd hp (Nat.not_lt_zero p),
    fun p _ hp => hcells p hp, fun p hp => absurd hp (Nat.not_lt_zero p),
    fun p hp => absurd hp (Nat.not_lt_zero p), fun p hp => absurd hp (Nat.not_lt_zero p)⟩

theorem SweptTo.step (h : SweptTo params mask value k maps) (hk : k < params.pixels) :
    ∃ maps', visitDown params value rand (k / params.pixelsPerLine) (k % params.pixelsPerLine)
        maps = .ok maps' ∧ SweptTo params mask value (k + 1) maps' := by
  obtain ⟨hi, hj, hplace⟩ := place_of_lt hk
  obtain ⟨maps', hrun, hvisited, hown, habove, hbefore⟩ :=
    @visitDown_spec _ _ _ _ _ rand _ hi hj h.sized _ hplace (h.fresh k (Nat.le_refl k) hk) h.good
  have hdist : ∀ p < k, maps'.dist.cell p = maps.dist.cell p :=
    fun p hp => hvisited.dist p (Nat.ne_of_lt hp)
  have hidx : ∀ p < k, maps'.idx.cell p = maps.idx.cell p :=
    fun p hp => hvisited.idx p (Nat.ne_of_lt hp)
  refine ⟨maps', hrun, hvisited.sized, fun p hp => ?_, fun p hp hp' => ?_, fun p hp htarget => ?_,
    fun p hp hrow => ?_, fun p hp hcol => ?_⟩
  · by_cases hlast : p = k
    · exact hlast ▸ hvisited.good
    · have hgood := h.good p (by omega)
      unfold Good at hgood ⊢
      rwa [hdist p (by omega), hidx p (by omega)]
  · rw [hvisited.dist p (by omega), hvisited.idx p (by omega)]
    exact h.fresh p (by omega) hp'
  · by_cases hlast : p = k
    · subst hlast
      exact hown htarget
    · rw [hdist p (by omega)]
      exact h.own p (by omega) htarget
  · have hother : p - params.pixelsPerLine < k := by
      have hle := Nat.div_mul_le_self p params.pixelsPerLine
      have hrowLe := Nat.le_mul_of_pos_left params.pixelsPerLine hrow
      omega
    rw [hdist _ hother]
    by_cases hlast : p = k
    · subst hlast
      exact habove hrow
    · rw [hdist p (by omega)]
      exact h.above p (by omega) hrow
  · have hle := Nat.mod_le p params.pixelsPerLine
    rw [hdist (p - 1) (by omega)]
    by_cases hlast : p = k
    · subst hlast
      exact hbefore hcol
    · rw [hdist p (by omega)]
      exact h.before p (by omega) hcol

/-- The pixel that the loops back have as their `k`-th. -/
theorem back_place (hk : k < params.pixels) :
    (params.lines - 1 - k / params.pixelsPerLine) * params.pixelsPerLine +
      (params.pixelsPerLine - 1 - k % params.pixelsPerLine) = params.pixels - 1 - k := by
  obtain ⟨hi, hj, hplace⟩ := place_of_lt hk
  have hrows : (params.lines - 1 - k / params.pixelsPerLine) * params.pixelsPerLine +
      (k / params.pixelsPerLine + 1) * params.pixelsPerLine = params.pixels := by
    rw [← Nat.add_mul, ImageParams.pixels]
    congr 1
    omega
  rw [Nat.succ_mul] at hrows
  omega

theorem ReturnedTo.step (h : ReturnedTo params mask value first k maps) (hk : k < params.pixels) :
    ∃ maps', visitUp params rand (params.lines - 1 - k / params.pixelsPerLine)
        (params.pixelsPerLine - 1 - k % params.pixelsPerLine) maps = .ok maps' ∧
      ReturnedTo params mask value first (k + 1) maps' := by
  obtain ⟨hi, hj, -⟩ := place_of_lt hk
  have hplace := back_place hk
  obtain ⟨here, hhere⟩ : ∃ here, here = params.pixels - 1 - k := ⟨_, rfl⟩
  rw [← hhere] at hplace
  have hj' : params.pixelsPerLine - 1 - k % params.pixelsPerLine < params.pixelsPerLine := by omega
  have hi' : params.lines - 1 - k / params.pixelsPerLine < params.lines :=
    Nat.lt_of_le_of_lt (Nat.sub_le _ _) (Nat.sub_lt (Nat.zero_lt_of_lt hi) Nat.one_pos)
  obtain ⟨maps', hrun, hvisited, hle, hbelow, hbehind⟩ :=
    @visitUp_spec _ _ _ _ _ rand _ hi' hj' h.sized _ hplace.symm h.good
  have hrow : here / params.pixelsPerLine = params.lines - 1 - k / params.pixelsPerLine := by
    rw [← hplace, part_div hj']
  have hcol :
      here % params.pixelsPerLine = params.pixelsPerLine - 1 - k % params.pixelsPerLine := by
    rw [← hplace, part_mod hj']
  refine ⟨maps', hrun, hvisited.sized, fun p hp => ?_, fun p hp => ?_, fun p hp hvisit hlast => ?_,
    fun p hp hvisit hlast => ?_⟩
  · by_cases hsame : p = here
    · exact hsame ▸ hvisited.good
    · have hgood := h.good p hp
      unfold Good at hgood ⊢
      rwa [hvisited.dist p hsame, hvisited.idx p hsame]
  · by_cases hsame : p = here
    · rw [hsame] at hp ⊢
      exact Nat.le_trans hle (h.le here hp)
    · rw [hvisited.dist p hsame]
      exact h.le p hp
  · rw [hvisited.dist (p + params.pixelsPerLine) (by omega)]
    by_cases hsame : p = here
    · rw [hsame, hrow] at hlast
      rw [hsame]
      exact hbelow hlast
    · rw [hvisited.dist p hsame]
      exact h.below p hp (by omega) hlast
  · rw [hvisited.dist (p + 1) (by omega)]
    by_cases hsame : p = here
    · rw [hsame, hcol] at hlast
      rw [hsame]
      exact hbehind hlast
    · rw [hvisited.dist p hsame]
      exact h.behind p hp (by omega) hlast

/-- The sweep down, as one over rows and columns. -/
theorem SweptTo.sweptDown (h : SweptTo params mask value params.pixels maps) :
    SweptDown params.lines params.pixelsPerLine
      (fun i j => mask.cell (i * params.pixelsPerLine + j) = value)
      (fun i j => maps.dist.cell (i * params.pixelsPerLine + j)) where
  own := fun hi hj htarget => h.own _ (here_lt hi hj) htarget
  above := fun {i j} hi hj => by
    have hle := h.above _ (here_lt hi hj) (by rw [part_div hj]; omega)
    have hplace : (i + 1) * params.pixelsPerLine + j - params.pixelsPerLine =
        i * params.pixelsPerLine + j := by
      rw [Nat.succ_mul]
      omega
    rwa [hplace] at hle
  before := fun {i j} hi hj => by
    have hle := h.before _ (here_lt hi hj) (by rw [part_mod hj]; omega)
    rwa [← Nat.add_assoc, Nat.add_sub_cancel] at hle

/-- The sweep back, as one over rows and columns. -/
theorem ReturnedTo.sweptUp (h : ReturnedTo params mask value first params.pixels maps) :
    SweptUp params.lines params.pixelsPerLine (fun i j => first (i * params.pixelsPerLine + j))
      (fun i j => maps.dist.cell (i * params.pixelsPerLine + j)) where
  le := fun hi hj => h.le _ (here_lt hi hj)
  below := fun {i j} hi hj => by
    have hi' : i < params.lines := by omega
    have hle := h.below _ (here_lt hi' hj) (Nat.le_add_left _ _) (by rwa [part_div hj])
    have hplace : i * params.pixelsPerLine + j + params.pixelsPerLine =
        (i + 1) * params.pixelsPerLine + j := by
      rw [Nat.succ_mul]
      omega
    rwa [hplace] at hle
  behind := fun {i j} hi hj => by
    have hj' : j < params.pixelsPerLine := by omega
    have hle := h.behind _ (here_lt hi hj') (Nat.le_add_left _ _) (by rwa [part_mod hj'])
    rwa [Nat.add_assoc] at hle

end Sweeps

/-! ## The distance transform -/

/-- A distance and an index that are those of a nearest target, or that say that there is none. -/
structure Closest (params : ImageParams) (mask : Cells Nat) (value p d x : Nat) : Prop where
  least : ∀ t, IsTarget params mask value t → d ≤ params.distance p t
  reached : (∃ t, IsTarget params mask value t) →
    IsTarget params mask value x ∧ params.distance p x = d
  own : IsTarget params mask value p → x = p
  absent : (¬ ∃ t, IsTarget params mask value t) →
    d = params.pixelsPerLine + params.lines ∧ x = p

section Transform

variable {params : ImageParams} {mask : Cells Nat} {value p q d x : Nat}

theorem distance_lt (hp : p < params.pixels) (hq : q < params.pixels) :
    params.distance p q < params.far := by
  obtain ⟨hi, hj, -⟩ := place_of_lt hp
  obtain ⟨ha, hb, -⟩ := place_of_lt hq
  rw [ImageParams.far, Nat.add_comm]
  exact taxicab_lt hi hj ha hb

theorem eq_of_distance_eq_zero (hp : p < params.pixels) (hq : q < params.pixels)
    (h : params.distance p q = 0) : q = p := by
  obtain ⟨-, -, hplace⟩ := place_of_lt hp
  obtain ⟨-, -, hplace'⟩ := place_of_lt hq
  obtain ⟨hrow, hcol⟩ := eq_of_taxicab_eq_zero h
  rw [hplace, hplace', hrow, hcol]

/-- A witnessed distance that is not more than any to a target is the least of these. -/
theorem Witnessed.closest (h : Witnessed params mask value p d x) (hp : p < params.pixels)
    (hleast : ∀ t, IsTarget params mask value t → d ≤ params.distance p t) :
    Closest params mask value p d x := by
  have hreached : (∃ t, IsTarget params mask value t) →
      IsTarget params mask value x ∧ params.distance p x = d := by
    rintro ⟨t, htarget⟩
    have hlt := distance_lt hp htarget.1
    have hle := hleast t htarget
    obtain ⟨-, ⟨hfar, -⟩ | ⟨htarget', hle'⟩⟩ := h
    · omega
    · exact ⟨htarget', Nat.le_antisymm hle' (hleast x htarget')⟩
  refine ⟨hleast, hreached, fun hown => ?_, fun hnone => ?_⟩
  · obtain ⟨htarget, hdist⟩ := hreached ⟨p, hown⟩
    have hzero := hleast p hown
    rw [distance_self] at hzero
    exact eq_of_distance_eq_zero hp htarget.1 (by omega)
  · obtain ⟨-, ⟨hfar, hself⟩ | ⟨htarget, -⟩⟩ := h
    · exact ⟨hfar, hself⟩
    · exact absurd ⟨x, htarget⟩ hnone

theorem saneiIrManhattanDist_spec {maps : DistMaps} {rand : Nat → Nat} {erode : Nat}
    (hvalue : value = if erode ≠ 0 then 255 else 0) (hmask : params.pixels ≤ mask.size)
    (hsized : Sized params.pixels maps) :
    ∃ maps', saneiIrManhattanDist params mask maps erode rand = .ok maps' ∧
      Sized params.pixels maps' ∧
      ∀ p < params.pixels, Closest params mask value p (maps'.dist.cell p) (maps'.idx.cell p) := by
  obtain ⟨maps₀, hinit, hswept₀⟩ := @initMaps_spec _ _ value _ hmask hsized
  obtain ⟨maps₁, hdown, hswept⟩ := forTo_invariant hswept₀ fun k hk maps hinv =>
    @SweptTo.step _ _ _ _ rand _ hinv hk
  obtain ⟨maps₂, hup, hreturned⟩ := @forTo_invariant _ _ params.pixels
    (fun k => visitUp params rand (params.lines - 1 - k / params.pixelsPerLine)
      (params.pixelsPerLine - 1 - k % params.pixelsPerLine)) maps₁
    (ReturnedTo params mask value maps₁.dist.cell)
    ⟨hswept.sized, hswept.good, fun p _ => Nat.le_refl _, fun p hp hvisit => by omega,
      fun p hp hvisit => by omega⟩
    fun k hk maps hinv => ReturnedTo.step hinv hk
  refine ⟨maps₂, ?_, hreturned.sized, fun p hp => ?_⟩
  · rw [saneiIrManhattanDist]
    rw [← hvalue, hinit, ok_bind, forTo_mul]
    change (forTo params.pixels _ maps₀ >>= _) = _
    rw [hdown, ok_bind, forTo_mul _ _ fun i j =>
      visitUp params rand (params.lines - 1 - i) (params.pixelsPerLine - 1 - j)]
    exact hup
  · refine Witnessed.closest (hreturned.good p hp) hp fun t htarget => ?_
    obtain ⟨hi, hj, hplace⟩ := place_of_lt hp
    obtain ⟨ha, hb, hplace'⟩ := place_of_lt htarget.1
    have hle := le_taxicab hswept.sweptDown hreturned.sweptUp hi hj ha hb
      (by rw [← hplace']; exact htarget.2)
    rwa [← hplace] at hle

end Transform

/-- For each pixel the distance of the nearest target is found, and one that has it. -/
theorem manhattanDist_closest {params : ImageParams} {mask : Cells Nat} {maps : DistMaps}
    (erode : Nat) (rand : Nat → Nat) (hmask : params.pixels ≤ mask.size)
    (hsized : Sized params.pixels maps) :
    ∃ maps', saneiIrManhattanDist params mask maps erode rand = .ok maps' ∧
      ∀ p < params.pixels, Closest params mask (if erode ≠ 0 then 255 else 0) p
        (maps'.dist.cell p) (maps'.idx.cell p) := by
  obtain ⟨maps', hrun, -, hclosest⟩ := saneiIrManhattanDist_spec rfl hmask hsized
  exact ⟨maps', hrun, hclosest⟩

/-- Two clean pixels and a dirty one. -/
def threePixels : Cells Nat where
  size := 3
  cell i := if i = 2 then 0 else 255

theorem manhattanDist_closest_threePixels :
    ∃ maps', saneiIrManhattanDist { bytesPerLine := 3, pixelsPerLine := 3, lines := 1 } threePixels
        { dist := ⟨3, fun _ => 0⟩, idx := ⟨3, fun _ => 0⟩ } 1 (fun _ => 0) = .ok maps' ∧
      ∀ p < 3, Closest { bytesPerLine := 3, pixelsPerLine := 3, lines := 1 } threePixels 255 p
        (maps'.dist.cell p) (maps'.idx.cell p) := by
  have hmask : (ImageParams.mk .gray 3 3 1 8).pixels ≤ threePixels.size := by decide
  exact manhattanDist_closest 1 (fun _ => 0) hmask ⟨by decide, by decide⟩

end SaneBackends.Sanei
