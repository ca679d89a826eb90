import SaneBackends.Lib.Nearest
import SaneBackends.Sanei.ConstrainArray
/-!
# `sanei_constrain_value.c`: the value nearest to the one asked for

A range with steps and a list of words ask for the nearest value they admit. The arithmetic is
that of 32-bit words, and where it wraps another value is taken.
-/

namespace SaneBackends.Sanei

open SaneBackends.Lib

/-! Ranges. -/

/-- The value brought between the ends of the range. -/
def clamped (min max x : SaneWord) : Int := Max.max min.toInt (Min.min max.toInt x.toInt)

/-- The nearest point of the range as the code computes it, without its wrapping. -/
def nearestPoint (min max quant x : SaneWord) : Int :=
  min.toInt + (clamped min max x - min.toInt + quant.toInt / 2) / quant.toInt * quant.toInt

/-- `r` lies in the range and is a point `min + k * quant` nearest to the clamped `x`, or the
end of the range if that point is beyond it. -/
def NearestInRange (min max quant x r : SaneWord) : Prop :=
  min.toInt ≤ r.toInt ∧ r.toInt ≤ max.toInt ∧
    ∃ p, IsNearest (grid min.toInt quant.toInt) (clamped min max x) p ∧
      (r.toInt = p ∨ max.toInt < p ∧ r = max)

/-- Neither the offset with half a step added to it nor the nearest point wraps. -/
def StaysInWord (min max quant x : SaneWord) : Prop :=
  clamped min max x - min.toInt + quant.toInt / 2 < 2 ^ 32 ∧
    nearestPoint min max quant x < 2 ^ 31

instance (min max quant x : SaneWord) : Decidable (StaysInWord min max quant x) :=
  inferInstanceAs (Decidable (_ ∧ _))

section Range

variable {min max quant : SaneWord}

theorem toInt_clampRange (hle : min.toInt ≤ max.toInt) (x : SaneWord) :
    (clampRange min max x).toInt = clamped min max x := by
  unfold clampRange clamped
  simp only [BitVec.slt_iff_toInt_lt]
  split_ifs <;> omega

theorem toNat_of_nonneg (h : 0 ≤ quant.toInt) : (quant.toNat : Int) = quant.toInt := by
  rw [BitVec.toInt_eq_toNat_cond] at *
  split_ifs at * <;> omega

/-- The element the loop over an array leaves. -/
theorem toInt_constrainRange (hle : min.toInt ≤ max.toInt) (hquant : 0 < quant.toInt)
    (x : SaneWord) :
    let offset := (clamped min max x - min.toInt).toNat
    let v := toInt32 (roundTo quant.toNat offset + min.toInt)
    (constrainRange min max quant x).toInt = if max.toInt < v then max.toInt else v := by
  have hne : quant ≠ 0 := by
    rintro rfl
    exact absurd hquant (by decide)
  have hrun : constrainRange min max quant x =
      let v := (clampRange min max x - min + quant.sdiv 2).udiv quant * quant + min
      if max.slt v then max else v := if_pos hne
  have hoffset : (clampRange min max x - min).toNat = (clamped min max x - min.toInt).toNat := by
    have hnat := toNat_sub_of_le (clampRange_between hle x).1
    rw [toInt_clampRange hle] at hnat
    omega
  dsimp only
  rw [hrun]
  simp only [quantized_eq hquant.le, hoffset, BitVec.slt_iff_toInt_lt, toInt_ofNat_add]
  split_ifs
  · rfl
  · exact toInt_ofNat_add _ _

/-- Each element is brought to a nearest point if and only if nothing wraps on the way. -/
theorem nearestInRange_iff (hle : min.toInt ≤ max.toInt) (hquant : 0 < quant.toInt)
    (x : SaneWord) :
    NearestInRange min max quant x (constrainRange min max quant x) ↔
      StaysInWord min max quant x := by
  have hresult := toInt_constrainRange hle hquant x
  have hmin := min.le_toInt
  have hmax := max.toInt_lt
  have hq := quant.toInt_lt
  have hlow : min.toInt ≤ clamped min max x := le_max_left _ _
  have hhigh : clamped min max x ≤ max.toInt := by
    unfold clamped
    omega
  have hnearest := isNearest_round hquant min.toInt (clamped min max x)
  unfold NearestInRange StaysInWord nearestPoint
  generalize constrainRange min max quant x = r at *
  generalize clamped min max x = c at *
  obtain ⟨offset, hoffset⟩ := Int.eq_ofNat_of_zero_le (Int.sub_nonneg.mpr hlow)
  obtain ⟨q, hqn⟩ : ∃ q : Nat, quant.toInt = q := ⟨quant.toNat, (toNat_of_nonneg hquant.le).symm⟩
  have hqnat : quant.toNat = q := by
    have h := toNat_of_nonneg hquant.le
    omega
  have hround : (roundTo q offset : Int) =
      ((offset + q / 2 : Nat) % 2 ^ 32 : Nat) / (q : Int) * q := by
    unfold roundTo
    push_cast
    rfl
  dsimp only at hresult
  rw [hqnat, show (c - min.toInt).toNat = offset by omega] at hresult
  rw [hoffset, hqn] at hnearest ⊢
  rw [hqn] at hquant hq
  by_cases hhalf : (offset : Int) + q / 2 < 2 ^ 32
  · have hmod : (offset + q / 2) % 2 ^ 32 = offset + q / 2 := Nat.mod_eq_of_lt (by omega)
    rw [hmod] at hround
    push_cast at hround
    rw [← hround] at hnearest ⊢
    have hbelow := roundTo_lt q offset
    rw [and_iff_right hhalf]
    by_cases hfits : min.toInt + roundTo q offset < 2 ^ 31
    · -- nothing wraps: the nearest point, or the end of the range
      have hint : toInt32 (roundTo q offset + min.toInt) = min.toInt + roundTo q offset := by
        rw [Int.add_comm]
        exact toInt32_eq_self (by omega) hfits
      rw [hint] at hresult
      refine iff_of_true ⟨?_, ?_, _, hnearest, ?_⟩ hfits
      · split_ifs at hresult <;> omega
      · split_ifs at hresult <;> omega
      · split_ifs at hresult with hbeyond
        · exact .inr ⟨hbeyond, BitVec.eq_of_toInt_eq hresult⟩
        · exact .inl hresult
    · -- the point wraps to a word below the range
      have hint : toInt32 (roundTo q offset + min.toInt) =
          min.toInt + roundTo q offset - 2 ^ 32 :=
        toInt32_eq_of_emod (by omega) (by omega) (by omega)
      rw [hint, if_neg (by omega)] at hresult
      refine iff_of_false (fun h => ?_) hfits
      have hinside := h.1
      omega
  · -- the half step wraps, and the first point is taken
    have hzero : roundTo q offset = 0 := by
      have hmod : (offset + q / 2) % 2 ^ 32 < q := by omega
      rw [roundTo, Nat.div_eq_of_lt hmod, Nat.zero_mul]
    have hint : toInt32 (roundTo q offset + min.toInt) = min.toInt := by
      rw [hzero, Nat.cast_zero, zero_add]
      exact toInt32_eq_self (by omega) (by omega)
    rw [hint, if_neg (by omega)] at hresult
    refine iff_of_false ?_ fun h => hhalf h.1
    rintro ⟨-, -, p, hp, hvalue | ⟨-, hend⟩⟩
    · rw [← hvalue, hresult] at hp
      have hstart := le_of_isNearest_start hquant hlow hp
      omega
    · rw [hend] at hresult
      omega

/-- `sanei_constrain_value` brings each element of the value to a nearest point of the range if
and only if nothing wraps for any of them. -/
theorem constrain_nearestInRange_iff {opt : OptionDescriptor} {value : List UInt8}
    {ws : List SaneWord} (info : Option SaneWord)
    (hconstraint : opt.constraint = .range min max quant)
    (hle : min.toInt ≤ max.toInt) (hquant : 0 < quant.toInt)
    (hws : wordsOf (elementCount opt) value = some ws) :
    (∃ result ws', saneiConstrainBlock opt value info = .ok result ∧ result.status = .good ∧
      wordsOf (elementCount opt) result.value = some ws' ∧
      List.Forall₂ (NearestInRange min max quant) ws ws') ↔
    ∀ w ∈ ws, StaysInWord min max quant w := by
  obtain ⟨value', hrun, hwords, -⟩ := @constrainWords_eq min max quant _ _ _ hws
  have hblock : saneiConstrainBlock opt value info =
      .ok ⟨.good, value', markInexact (ws.any (rangeInexact min max quant)) info⟩ := by
    unfold saneiConstrainBlock
    rw [hconstraint]
    simp only [hrun, ok_bind]
  have hall : List.Forall₂ (NearestInRange min max quant) ws
      (ws.map (constrainRange min max quant)) ↔ ∀ w ∈ ws, StaysInWord min max quant w := by
    rw [List.forall₂_map_right_iff, List.forall₂_same]
    exact forall₂_congr fun w _ => nearestInRange_iff hle hquant w
  rw [← hall]
  constructor
  · rintro ⟨result, ws', hresult, -, hws', hnearest⟩
    rw [hblock] at hresult
    cases hresult
    rw [hwords, Option.some.injEq] at hws'
    rwa [hws']
  · intro hnearest
    exact ⟨_, _, hblock, rfl, hwords, hnearest⟩

end Range

/-- Two values between -10 and 20 in steps of 6. -/
def stepsOption : OptionDescriptor where
  name := []
  type := .int
  size := 8
  constraint := .range (-10) 20 6

/-- 4 is rounded up to 8, and 30 down to the end of the range. -/
theorem constrain_nearestInRange_iff_steps :
    (∃ result ws', saneiConstrainBlock stepsOption [4, 0, 0, 0, 30, 0, 0, 0] (some 0) = .ok result ∧
      result.status = .good ∧ wordsOf (elementCount stepsOption) result.value = some ws' ∧
      List.Forall₂ (NearestInRange (-10) 20 6) [4, 30] ws') ↔
    ∀ w ∈ [4, 30], StaysInWord (-10) 20 6 w :=
  constrain_nearestInRange_iff (some 0) rfl (by decide) (by decide) (by decide)

/-- All words, in steps of 3. -/
def allWordsOption : OptionDescriptor where
  name := []
  type := .int
  size := 4
  constraint := .range (BitVec.intMin 32) (BitVec.intMax 32) 3

/-- The largest word is a point of the range, and becomes the smallest. -/
theorem not_nearestInRange_allWords :
    saneiConstrainBlock allWordsOption (storedWord (BitVec.intMax 32)) (some 0) =
        .ok ⟨.good, storedWord (BitVec.intMin 32), some infoInexact⟩ ∧
      ¬ NearestInRange (BitVec.intMin 32) (BitVec.intMax 32) 3 (BitVec.intMax 32)
        (BitVec.intMin 32) := by
  have hresult : constrainRange (BitVec.intMin 32) (BitVec.intMax 32) 3 (BitVec.intMax 32) =
      BitVec.intMin 32 := by decide
  refine ⟨by decide, fun h => ?_⟩
  rw [← hresult] at h
  exact absurd ((nearestInRange_iff (by decide) (by decide) _).mp h) (by decide)

/-! Word lists. -/

/-- The mathematical distance of two words. -/
def distance (w e : SaneWord) : Int := |w.toInt - e.toInt|

/-- `abs (w - e)`, given the distance of the words. -/
def wrapped (d : Int) : Int :=
  if d < 2 ^ 31 then d else if d = 2 ^ 31 then -2 ^ 31 else 2 ^ 32 - d

/-- A distance `d` as large as the least one `m` is not taken for less than it. -/
def StaysBehind (m d : Int) : Prop :=
  d < 2 ^ 31 ∨ d = m ∨ m = 2 ^ 31 ∨ 2 ^ 31 < d ∧ d + m ≤ 2 ^ 32

/-- A distance `d` larger than the least one `m` is taken for more than it. -/
def StaysBeyond (m d : Int) : Prop := d < 2 ^ 31 ∨ m = 2 ^ 31 ∨ 2 ^ 31 < d ∧ d + m < 2 ^ 32

/-- The entries keep their order when their distances wrap, at least with respect to the
first nearest one, and none is `2 ^ 31` away from that. -/
def OrderKept (w : SaneWord) (words : List SaneWord) : Prop :=
  ∃ y, IsFirstLeast (distance w) words y ∧
    (∀ e ∈ words, StaysBehind (distance w y) (distance w e)) ∧
    (∀ e ∈ words.takeWhile (· ≠ y), StaysBeyond (distance w y) (distance w e)) ∧
    ∀ e ∈ words, distance y e ≠ 2 ^ 31

section WordList

variable {w y first : SaneWord} {words : List SaneWord}

theorem distance_bounds (w e : SaneWord) : 0 ≤ distance w e ∧ distance w e < 2 ^ 32 := by
  have hw := w.le_toInt
  have hw' := w.toInt_lt
  have he := e.le_toInt
  have he' := e.toInt_lt
  refine ⟨abs_nonneg _, ?_⟩
  rw [distance, abs_lt]
  omega

/-- The distance the code computes. -/
theorem toInt_abs_sub (w e : SaneWord) : (w - e).abs.toInt = wrapped (distance w e) := by
  have hw := w.le_toInt
  have hw' := w.toInt_lt
  have he := e.le_toInt
  have he' := e.toInt_lt
  have hsub : (w - e).toInt = toInt32 (w.toInt - e.toInt) := BitVec.toInt_sub
  have hmod := toInt32_emod (w.toInt - e.toInt)
  have hlt := toInt32_lt (w.toInt - e.toInt)
  have hle := le_toInt32 (w.toInt - e.toInt)
  rw [← hsub] at hmod hlt hle
  unfold wrapped distance
  by_cases hmin : w - e = BitVec.intMin 32
  · have hvalue : (BitVec.intMin 32).toInt = -2 ^ 31 := by decide
    rw [hmin, hvalue] at hmod
    rw [hmin, abs_intMin, hvalue]
    rcases abs_cases (w.toInt - e.toInt) with ⟨heq, -⟩ | ⟨heq, -⟩ <;> split_ifs <;> omega
  · have hne : (w - e).toInt ≠ -2 ^ 31 := by
      intro heq
      exact hmin (BitVec.eq_of_toInt_eq heq)
    rw [BitVec.toInt_abs_eq_natAbs_of_ne_intMin hmin, Int.natCast_natAbs]
    rcases abs_cases (w.toInt - e.toInt) with ⟨heq, hsign⟩ | ⟨heq, hsign⟩ <;>
      rcases abs_cases (w - e).toInt with ⟨heq', hsign'⟩ | ⟨heq', hsign'⟩ <;>
      split_ifs <;> omega

theorem wrapped_le_iff {m d : Int} (hm : 0 ≤ m) (hle : m ≤ d) (hd : d < 2 ^ 32) :
    wrapped m ≤ wrapped d ↔ StaysBehind m d := by
  unfold wrapped StaysBehind
  split_ifs <;> omega

theorem wrapped_lt_iff {m d : Int} (hm : 0 ≤ m) (hlt : m < d) (hd : d < 2 ^ 32) :
    wrapped m < wrapped d ↔ StaysBeyond m d := by
  unfold wrapped StaysBeyond
  split_ifs <;> omega

/-- The loop over the list finds the first entry at the least wrapped distance. -/
theorem nearestWord_eq_firstLeast (w first : SaneWord) (words : List SaneWord) :
    nearestWord w words (w - first).abs first =
      firstLeast (fun e => wrapped (distance w e)) first words := by
  induction words generalizing first with
  | nil => rfl
  | cons word words ih =>
      rw [nearestWord, firstLeast]
      simp only [BitVec.slt_iff_toInt_lt, toInt_abs_sub]
      split_ifs
      · exact ih word
      · exact ih first

/-- The first entry is compared with itself once more. -/
theorem firstLeast_first (d : SaneWord → Int) (first : SaneWord) (words : List SaneWord) :
    firstLeast d first (first :: words) = firstLeast d first words := by
  rw [firstLeast, if_neg (lt_irrefl _)]

theorem nearestWord_eq_iff :
    nearestWord w (first :: words) (w - first).abs first = y ↔
      IsFirstLeast (fun e => wrapped (distance w e)) (first :: words) y := by
  rw [nearestWord_eq_firstLeast, firstLeast_first, firstLeast_eq_iff]

/-- The entry that is nearest is also the one found, if the order of the entries is kept. -/
theorem isFirstLeast_wrapped_iff (hy : IsFirstLeast (distance w) words y) :
    IsFirstLeast (fun e => wrapped (distance w e)) words y ↔
      (∀ e ∈ words, StaysBehind (distance w y) (distance w e)) ∧
        ∀ e ∈ words.takeWhile (· ≠ y), StaysBeyond (distance w y) (distance w e) := by
  obtain ⟨hmem, hle, hbefore⟩ := hy
  have hnonneg := (distance_bounds w y).1
  rw [IsFirstLeast, and_iff_right hmem]
  refine and_congr ?_ ?_
  · exact forall₂_congr fun e he => wrapped_le_iff hnonneg (hle e he) (distance_bounds w e).2
  · exact forall₂_congr fun e he => wrapped_lt_iff hnonneg (hbefore e he) (distance_bounds w e).2

theorem sub_intMin_mem_iff : y - BitVec.intMin 32 ∈ words ↔ ∃ e ∈ words, distance y e = 2 ^ 31 := by
  have hfar : ∀ e, y - BitVec.intMin 32 = e ↔ distance y e = 2 ^ 31 := by
    intro e
    have habs := toInt_abs_sub y e
    have hbounds := distance_bounds y e
    have hsame : y - BitVec.intMin 32 = e ↔ y - e = BitVec.intMin 32 := by
      constructor
      · rintro rfl
        exact sub_sub_self _ _
      · intro h
        rw [← h]
        exact sub_sub_self _ _
    rw [hsame]
    constructor
    · intro h
      have hvalue : (BitVec.intMin 32).toInt = -2 ^ 31 := by decide
      rw [h, abs_intMin, hvalue] at habs
      unfold wrapped at habs
      split_ifs at habs <;> omega
    · intro h
      by_contra hne
      have hnonneg := toInt_abs_nonneg hne
      rw [habs, h] at hnonneg
      exact absurd hnonneg (by decide)
  constructor
  · intro h
    exact ⟨_, h, (hfar _).mp rfl⟩
  · rintro ⟨e, he, hdist⟩
    rwa [(hfar e).mpr hdist]

variable {opt : OptionDescriptor} {rest : List UInt8}

/-- What is stored for a word. -/
theorem constrain_word (hconstraint : opt.constraint = .wordList (first :: words)) (w : SaneWord)
    (info : Option SaneWord) :
    saneiConstrainBlock opt (storedWord w ++ rest) info =
      .ok ⟨.good, storedWord (nearestWord w (first :: words) (w - first).abs first) ++ rest,
        markInexact (w ≠ nearestWord w (first :: words) (w - first).abs first) info⟩ := by
  rw [constrain_wordList hconstraint]
  dsimp only
  generalize nearestWord w (first :: words) (w - first).abs first = word
  by_cases hsame : w = word
  · rw [hsame, ite_self]
  · rw [if_pos hsame]

theorem stored_eq_iff {v v' : SaneWord} :
    storedWord v ++ rest = storedWord v' ++ rest ↔ v = v' := by
  rw [List.append_cancel_right_eq]
  exact ⟨storedWord_injective, congrArg storedWord⟩

end WordList

/-- `sanei_constrain_value` replaces a word by the first entry nearest to it, marks the change,
and leaves that entry alone the next time, if and only if the order of the entries is kept. -/
theorem constrain_nearestWord_iff {opt : OptionDescriptor} {words : List SaneWord}
    (hconstraint : opt.constraint = .wordList words) (hwords : words ≠ []) (w : SaneWord)
    (rest : List UInt8) :
    (∃ y, IsFirstLeast (distance w) words y ∧ ∀ info,
      saneiConstrainBlock opt (storedWord w ++ rest) info =
        .ok ⟨.good, storedWord y ++ rest, markInexact (w ≠ y) info⟩ ∧
      saneiConstrainBlock opt (storedWord y ++ rest) info =
        .ok ⟨.good, storedWord y ++ rest, info⟩) ↔
    OrderKept w words := by
  obtain ⟨first, words, rfl⟩ := List.exists_cons_of_ne_nil hwords
  refine exists_congr fun y => and_congr_right fun hy => ?_
  have hself := @nearestWord_self_iff y first words hy.1
  rw [sub_intMin_mem_iff, not_exists] at hself
  have hkept : (∀ e ∈ first :: words, distance y e ≠ 2 ^ 31) ↔
      nearestWord y (first :: words) (y - first).abs first = y := by
    rw [hself]
    exact forall_congr' fun e => (not_and).symm
  rw [← and_assoc, ← isFirstLeast_wrapped_iff hy, ← nearestWord_eq_iff, hkept]
  constructor
  · intro hruns
    obtain ⟨hrun, hagain⟩ := hruns none
    rw [constrain_word hconstraint, Except.ok.injEq, Constrained.mk.injEq] at hrun hagain
    exact ⟨stored_eq_iff.mp hrun.2.1, stored_eq_iff.mp hagain.2.1⟩
  · rintro ⟨hfound, hself⟩ info
    refine ⟨?_, ?_⟩
    · rw [constrain_word hconstraint, hfound]
    · rw [constrain_word hconstraint, hself]
      simp [markInexact]

/-- A list of two resolutions. -/
def resolutionOption : OptionDescriptor where
  name := []
  type := .int
  size := 4
  constraint := .wordList [100, 300]

theorem constrain_nearestWord_iff_resolution :
    (∃ y, IsFirstLeast (distance 150) [100, 300] y ∧ ∀ info,
      saneiConstrainBlock resolutionOption (storedWord 150 ++ []) info =
        .ok ⟨.good, storedWord y ++ [], markInexact (150 ≠ y) info⟩ ∧
      saneiConstrainBlock resolutionOption (storedWord y ++ []) info =
        .ok ⟨.good, storedWord y ++ [], info⟩) ↔
    OrderKept 150 [100, 300] :=
  constrain_nearestWord_iff rfl (by decide) 150 []

/-- A list of 0 and the smallest word. -/
def farOption : OptionDescriptor where
  name := []
  type := .int
  size := 4
  constraint := .wordList [0, BitVec.intMin 32]

/-- 0 is an entry of the list, and is replaced by the entry that is `2 ^ 31` away. -/
theorem not_constrain_nearestWord_far :
    saneiConstrainBlock farOption (storedWord 0) (some 0) =
        .ok ⟨.good, storedWord (BitVec.intMin 32), some infoInexact⟩ ∧
      IsFirstLeast (distance 0) [0, BitVec.intMin 32] 0 := by
  refine ⟨by decide, .head _, ?_, by simp⟩
  intro e _
  have hself : distance 0 0 = 0 := by simp [distance]
  rw [hself]
  exact (distance_bounds 0 e).1

end SaneBackends.Sanei
