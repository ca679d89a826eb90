import SaneBackends.Sanei.ConstrainValue
/-!
# `sanei_constrain_value.c`: values of any size

`sanei_constrain_value` on the block of bytes a value is stored in, as `sanei_check_value`
reads it. The two functions implement a constraint separately; what one accepts the other
mostly leaves alone, and the other way round.
-/

namespace SaneBackends.Sanei

open SaneBackends.Lib

/-- `SANE_INFO_INEXACT`. -/
def infoInexact : SaneWord := 1

/-- What `sanei_constrain_value` returns and leaves behind; `info` may be `NULL`. -/
structure Constrained where
  status : SaneStatus
  value : List UInt8
  info : Option SaneWord
  deriving DecidableEq, Repr

/-- `*info |= SANE_INFO_INEXACT`. -/
def markInexact (inexact : Bool) (info : Option SaneWord) : Option SaneWord :=
  if inexact then info.map (· ||| infoInexact) else info

/-- "constrain min" and "constrain max". -/
def clampRange (min max x : SaneWord) : SaneWord :=
  let x := if x.slt min then min else x
  if max.slt x then max else x

/-- An element is changed by one of the three steps of the loop over an array. -/
def rangeInexact (min max quant x : SaneWord) : Bool :=
  x.slt min || max.slt (if x.slt min then min else x) ||
    constrainRange min max quant x != clampRange min max x

/-- The loop over the first words of a block, with whether one of them is changed. -/
def constrainWords (min max quant : SaneWord) : Nat → List UInt8 → Except Fault (List UInt8 × Bool)
  | 0, value => .ok (value, false)
  | k + 1, a :: b :: c :: d :: rest => do
      let x := bytesWord [d, c, b, a]
      let (rest, inexact) ← constrainWords min max quant k rest
      .ok (storedWord (constrainRange min max quant x) ++ rest,
        rangeInexact min max quant x || inexact)
  | _ + 1, _ => .error .outOfBounds

/-- `strcpy`. -/
def strcpy (value s : List UInt8) : Except Fault (List UInt8) :=
  if s.length < value.length then .ok (s ++ 0 :: value.drop (s.length + 1)) else .error .outOfBounds

/-- `sanei_constrain_value`. -/
def saneiConstrainBlock (opt : OptionDescriptor) (value : List UInt8) (info : Option SaneWord) :
    Except Fault Constrained :=
  match opt.constraint with
  | .range min max quant => do
      let (value, inexact) ← constrainWords min max quant (elementCount opt) value
      .ok ⟨.good, value, markInexact inexact info⟩
  | .wordList words =>
      match value, words with
      | a :: b :: c :: d :: rest, first :: _ =>
          let w := bytesWord [d, c, b, a]
          let word := nearestWord w words (w - first).abs first
          .ok ⟨.good, if w ≠ word then storedWord word ++ rest else value,
            markInexact (w ≠ word) info⟩
      | _, _ => .error .outOfBounds
  | .stringList strings => do
      let len ← strlen value
      match constrainString (value.take len) strings 0 none with
      | some s =>
          -- `strcmp` finds a difference only if the copy changes something
          if value.take len = s then .ok ⟨.good, value, info⟩
          else do
            let value ← strcpy value s
            .ok ⟨.good, value, info⟩
      | none => .ok ⟨.inval, value, info⟩
  | .none =>
      match opt.type with
      | .bool =>
          match value with
          | a :: b :: c :: d :: _ =>
              let word := bytesWord [d, c, b, a]
              .ok ⟨if word = 0 ∨ word = 1 then .good else .inval, value, info⟩
          | _ => .error .outOfBounds
      | _ => .ok ⟨.good, value, info⟩

/-- The first words of a block. -/
def wordsOf : Nat → List UInt8 → Option (List SaneWord)
  | 0, _ => some []
  | n + 1, a :: b :: c :: d :: rest => (wordsOf n rest).map (bytesWord [d, c, b, a] :: ·)
  | _ + 1, _ => none

section Words

variable {admitted : SaneWord → Bool} {min max quant : SaneWord}

theorem wordBytes_bytesWord (a b c d : UInt8) :
    wordBytes (bytesWord [a, b, c, d]) = [a, b, c, d] := by
  simp only [wordBytes, List.map_cons, List.map_nil, List.cons.injEq, and_true]
  refine ⟨?_, ?_, ?_, ?_⟩
  all_goals
    apply UInt8.eq_of_toBitVec_eq
    apply BitVec.eq_of_getLsbD_eq
    intro i hi
    refine (getLsbD_wordByte _ _ hi).trans ?_
    rw [getLsbD_bytesWord _ _ _ _ (by omega)]
  · rw [if_neg (by omega), if_neg (by omega), if_neg (by omega), Nat.add_sub_cancel_left]
  · rw [if_neg (by omega), if_neg (by omega), if_pos (by omega), Nat.add_sub_cancel_left]
  · rw [if_neg (by omega), if_pos (by omega), Nat.add_sub_cancel_left]
  · rw [if_pos (by omega), Nat.zero_add]

theorem storedWord_bytesWord (a b c d : UInt8) :
    storedWord (bytesWord [d, c, b, a]) = [a, b, c, d] := by
  rw [storedWord, wordBytes_bytesWord]
  rfl

/-- A block either starts with a word or is too short for one. -/
theorem storedWord_or_short (value : List UInt8) :
    (∃ w rest, value = storedWord w ++ rest) ∨ value.length < 4 := by
  rcases value with _ | ⟨a, _ | ⟨b, _ | ⟨c, _ | ⟨d, rest⟩⟩⟩⟩
  case cons.cons.cons.cons =>
    exact .inl ⟨bytesWord [d, c, b, a], rest, by rw [storedWord_bytesWord]; rfl⟩
  all_goals exact .inr (by simp)

theorem wordsOf_stored (n : Nat) (w : SaneWord) (rest : List UInt8) :
    wordsOf (n + 1) (storedWord w ++ rest) = (wordsOf n rest).map (w :: ·) := by
  have hword : bytesWord (wordBytes w) = w := bytesWord_wordBytes w
  have hstored : wordsOf (n + 1) (storedWord w ++ rest) =
      (wordsOf n rest).map (bytesWord (wordBytes w) :: ·) := rfl
  rw [hstored, hword]

theorem checkWords_stored_append (n : Nat) (w : SaneWord) (rest : List UInt8) :
    checkWords admitted (n + 1) (storedWord w ++ rest) =
      if admitted w then checkWords admitted n rest else .ok .inval := by
  have hword : bytesWord (wordBytes w) = w := bytesWord_wordBytes w
  have hstored : checkWords admitted (n + 1) (storedWord w ++ rest) =
      if admitted (bytesWord (wordBytes w)) then checkWords admitted n rest else .ok .inval := rfl
  rw [hstored, hword]

theorem constrainWords_stored (n : Nat) (w : SaneWord) (rest : List UInt8) :
    constrainWords min max quant (n + 1) (storedWord w ++ rest) = (do
      let (rest, inexact) ← constrainWords min max quant n rest
      .ok (storedWord (constrainRange min max quant w) ++ rest,
        rangeInexact min max quant w || inexact)) := by
  have hword : bytesWord (wordBytes w) = w := bytesWord_wordBytes w
  have hstored : constrainWords min max quant (n + 1) (storedWord w ++ rest) = (do
      let (rest, inexact) ← constrainWords min max quant n rest
      .ok (storedWord (constrainRange min max quant (bytesWord (wordBytes w))) ++ rest,
        rangeInexact min max quant (bytesWord (wordBytes w)) || inexact)) := rfl
  rw [hstored, hword]

/-- What the loops make of a block that is too short for one more word. -/
theorem loops_short {value : List UInt8} (h : value.length < 4) (n : Nat) :
    wordsOf (n + 1) value = none ∧
      (∀ admitted, checkWords admitted (n + 1) value = .error .outOfBounds) ∧
      ∀ min max quant, constrainWords min max quant (n + 1) value = .error .outOfBounds := by
  rcases value with _ | ⟨a, _ | ⟨b, _ | ⟨c, _ | ⟨d, rest⟩⟩⟩⟩
  case cons.cons.cons.cons =>
    simp only [List.length_cons] at h
    omega
  all_goals exact ⟨rfl, fun _ => rfl, fun _ _ _ => rfl⟩

/-- The check of an array looks at each word. -/
theorem checkWords_eq_good {n : Nat} {value : List UInt8} :
    checkWords admitted n value = .ok .good ↔
      ∃ ws, wordsOf n value = some ws ∧ ∀ w ∈ ws, admitted w = true := by
  induction n generalizing value with
  | zero => simp [checkWords, wordsOf]
  | succ n ih =>
      cases storedWord_or_short value with
      | inl hword =>
          obtain ⟨w, rest, rfl⟩ := hword
          rw [checkWords_stored_append, wordsOf_stored]
          by_cases hw : admitted w = true
          · rw [if_pos hw, ih]
            simp [hw]
          · rw [if_neg hw]
            simp [hw]
      | inr hshort =>
          obtain ⟨hnone, hcheck, -⟩ := loops_short hshort n
          rw [hcheck, hnone]
          simp

/-- The loop over an array brings each word into the range. -/
theorem constrainWords_eq {n : Nat} {value : List UInt8} {ws : List SaneWord}
    (h : wordsOf n value = some ws) :
    ∃ value', constrainWords min max quant n value =
        .ok (value', ws.any (rangeInexact min max quant)) ∧
      wordsOf n value' = some (ws.map (constrainRange min max quant)) ∧
      ((∀ w ∈ ws, constrainRange min max quant w = w) → value' = value) := by
  induction n generalizing value ws with
  | zero =>
      cases h
      exact ⟨value, rfl, rfl, fun _ => rfl⟩
  | succ n ih =>
      cases storedWord_or_short value with
      | inl hword =>
          obtain ⟨w, rest, rfl⟩ := hword
          rw [wordsOf_stored, Option.map_eq_some_iff] at h
          obtain ⟨ws, hws, rfl⟩ := h
          obtain ⟨rest', hrun, hwords, hkept⟩ := ih hws
          refine ⟨storedWord (constrainRange min max quant w) ++ rest', ?_, ?_, ?_⟩
          · rw [constrainWords_stored, hrun]
            rfl
          · rw [wordsOf_stored, hwords]
            rfl
          · intro hfixed
            rw [hfixed w (.head _), hkept fun w hw => hfixed w (.tail _ hw)]
      | inr hshort =>
          rw [(loops_short hshort n).1] at h
          cases h

theorem constrainWords_none {n : Nat} {value : List UInt8} (h : wordsOf n value = none) :
    constrainWords min max quant n value = .error .outOfBounds := by
  induction n generalizing value with
  | zero => cases h
  | succ n ih =>
      cases storedWord_or_short value with
      | inl hword =>
          obtain ⟨w, rest, rfl⟩ := hword
          rw [wordsOf_stored, Option.map_eq_none_iff] at h
          rw [constrainWords_stored, ih h]
          rfl
      | inr hshort => exact (loops_short hshort n).2.2 min max quant

end Words

section Range

variable {min max quant : SaneWord}

/-- The multiple of `quant` an offset is rounded to, in 32-bit arithmetic. -/
def roundTo (quant offset : Nat) : Nat := (offset + quant / 2) % 2 ^ 32 / quant * quant

theorem roundTo_le (quant offset : Nat) : roundTo quant offset ≤ (offset + quant / 2) % 2 ^ 32 :=
  Nat.div_mul_le_self _ _

theorem roundTo_lt (quant offset : Nat) : roundTo quant offset < 2 ^ 32 :=
  lt_of_le_of_lt (roundTo_le quant offset) (Nat.mod_lt _ (by decide))

/-- A multiple stays where it is unless the half step added to it wraps. -/
theorem roundTo_roundTo {quant : Nat} (hquant : 0 < quant) (hword : quant < 2 ^ 32) (offset : Nat) :
    roundTo quant (roundTo quant offset) = roundTo quant offset ↔
      roundTo quant offset + quant / 2 < 2 ^ 32 := by
  have hlt := roundTo_lt quant offset
  have hmultiple : ∃ k, roundTo quant offset = k * quant := ⟨_, rfl⟩
  obtain ⟨k, hk⟩ := hmultiple
  rw [hk] at hlt ⊢
  have hhalf : quant / 2 < quant := Nat.div_lt_self hquant (by decide)
  by_cases hwrap : k * quant + quant / 2 < 2 ^ 32
  · have hdiv : (k * quant + quant / 2) / quant = k := by
      rw [Nat.mul_comm, Nat.mul_add_div hquant, Nat.div_eq_of_lt hhalf, Nat.add_zero]
    simp only [roundTo, Nat.mod_eq_of_lt hwrap, hdiv, hwrap]
  · have hsmall : (k * quant + quant / 2) % 2 ^ 32 < quant := by omega
    simp only [roundTo, Nat.div_eq_of_lt hsmall, Nat.zero_mul, hwrap, iff_false]
    omega

/-- If something in the range is rounded beyond its end, then the end is not rounded to itself. -/
theorem roundTo_end {quant offset last : Nat} (hword : quant < 2 ^ 32) (hle : offset ≤ last)
    (hlast : last < 2 ^ 32) (hbeyond : last < roundTo quant offset) : roundTo quant last ≠ last := by
  have hsum := roundTo_le quant offset
  have hsum' := roundTo_le quant last
  intro heq
  by_cases hwrap : last + quant / 2 < 2 ^ 32
  · have hmono : roundTo quant offset ≤ roundTo quant last := by
      unfold roundTo
      rw [Nat.mod_eq_of_lt hwrap, Nat.mod_eq_of_lt (by omega)]
      exact Nat.mul_le_mul_right _ (Nat.div_le_div_right (by omega))
    omega
  · have hmod : (offset + quant / 2) % 2 ^ 32 = offset + quant / 2 := by omega
    have hmod' : (last + quant / 2) % 2 ^ 32 = last + quant / 2 - 2 ^ 32 := by omega
    have hpos : 0 < quant := by
      by_contra hzero
      obtain rfl : quant = 0 := by omega
      omega
    have hsmall : roundTo quant last = 0 := by
      rw [roundTo, hmod', Nat.div_eq_of_lt (by omega), Nat.zero_mul]
    omega

theorem toInt_ofNat_add (m : Nat) (a : SaneWord) :
    (BitVec.ofNat 32 m + a).toInt = toInt32 (m + a.toInt) := by
  rw [BitVec.toInt_add, BitVec.toInt_ofNat', toInt32, Int.bmod_add_bmod]

theorem toNat_sub_of_le {a b : SaneWord} (h : a.toInt ≤ b.toInt) :
    ((b - a).toNat : Int) = b.toInt - a.toInt := by
  rw [BitVec.toInt_eq_toNat_cond, BitVec.toInt_eq_toNat_cond] at *
  rw [BitVec.toNat_sub]
  have ha := a.isLt
  have hb := b.isLt
  split_ifs at * <;> omega

/-- The rounding of the two functions. -/
theorem quantized_eq (hquant : 0 ≤ quant.toInt) (x : SaneWord) :
    (x - min + quant.sdiv 2).udiv quant * quant + min =
      BitVec.ofNat 32 (roundTo quant.toNat (x - min).toNat) + min := by
  have hmsb : quant.msb = false := by
    rw [BitVec.msb_eq_false_iff_two_mul_lt]
    rw [BitVec.toInt_eq_toNat_cond] at hquant
    split_ifs at hquant <;> omega
  have htwo : (2 : SaneWord).msb = false := by decide
  have hhalf : (quant.sdiv 2).toNat = quant.toNat / 2 := by
    rw [BitVec.sdiv_eq, hmsb, htwo]
    simp [BitVec.toNat_udiv]
  congr 1
  apply BitVec.eq_of_toNat_eq
  rw [BitVec.toNat_mul, BitVec.udiv_eq, BitVec.toNat_udiv, BitVec.toNat_add, hhalf,
    BitVec.toNat_ofNat]
  rfl

/-- A word is accepted if it lies in the range and is rounded to itself. -/
theorem inRange_iff (hquant : 0 ≤ quant.toInt) (x : SaneWord) :
    inRange min max quant x = true ↔ min.toInt ≤ x.toInt ∧ x.toInt ≤ max.toInt ∧
      (quant = 0 ∨ roundTo quant.toNat (x - min).toNat = (x - min).toNat) := by
  have hround : BitVec.ofNat 32 (roundTo quant.toNat (x - min).toNat) + min = x ↔
      roundTo quant.toNat (x - min).toNat = (x - min).toNat := by
    rw [← BitVec.eq_sub_iff_add_eq]
    constructor
    · intro h
      have hnat := congrArg BitVec.toNat h
      rwa [BitVec.toNat_ofNat, Nat.mod_eq_of_lt (roundTo_lt _ _)] at hnat
    · intro h
      rw [h, BitVec.ofNat_toNat, BitVec.setWidth_eq]
  unfold inRange
  simp only [BitVec.slt_iff_toInt_lt, quantized_eq hquant]
  split
  · next hout =>
      refine iff_of_false nofun fun h => ?_
      omega
  · next hin =>
      rw [not_or, not_lt, not_lt] at hin
      by_cases hzero : quant = 0
      · simp [hin, hzero]
      · rw [if_pos hzero, beq_iff_eq, hround]
        exact ⟨fun h => ⟨hin.1, hin.2, .inr h⟩, fun h => h.2.2.resolve_left hzero⟩

/-- The value is brought to a multiple of `quant` in the range, and the half step added to
that one does not wrap. -/
def Rounds (min max quant x : SaneWord) : Prop :=
  quant = 0 ∨
    let offset := roundTo quant.toNat (clampRange min max x - min).toNat
    min.toInt + offset ≤ max.toInt ∧ offset + quant.toNat / 2 < 2 ^ 32

instance (min max quant x : SaneWord) : Decidable (Rounds min max quant x) :=
  inferInstanceAs (Decidable (_ ∨ _ ∧ _))

theorem clampRange_between (hle : min.toInt ≤ max.toInt) (x : SaneWord) :
    min.toInt ≤ (clampRange min max x).toInt ∧ (clampRange min max x).toInt ≤ max.toInt := by
  unfold clampRange
  simp only [BitVec.slt_iff_toInt_lt]
  split_ifs <;> omega

theorem inRange_constrainRange_iff (hle : min.toInt ≤ max.toInt) (hquant : 0 ≤ quant.toInt)
    (x : SaneWord) :
    inRange min max quant (constrainRange min max quant x) = true ↔ Rounds min max quant x := by
  obtain ⟨hlow, hhigh⟩ := clampRange_between hle x
  have hclamp := toNat_sub_of_le hlow
  have hlast := toNat_sub_of_le hle
  have hrun : constrainRange min max quant x =
      if quant ≠ 0 then
        let v := (clampRange min max x - min + quant.sdiv 2).udiv quant * quant + min
        if max.slt v then max else v
      else clampRange min max x := rfl
  rw [hrun, inRange_iff hquant]
  by_cases hzero : quant = 0
  · simp [hzero, hlow, hhigh, Rounds]
  · have hpos : 0 < quant.toNat := by
      by_contra h
      exact hzero (BitVec.eq_of_toNat_eq (by simpa using h))
    simp only [if_pos hzero, Rounds, hzero, false_or, quantized_eq hquant,
      BitVec.slt_iff_toInt_lt, toInt_ofNat_add]
    have hidem := roundTo_roundTo hpos quant.isLt (clampRange min max x - min).toNat
    have hend := @roundTo_end quant.toNat (clampRange min max x - min).toNat (max - min).toNat
      quant.isLt (by omega) (max - min).isLt
    have hlt := roundTo_lt quant.toNat (clampRange min max x - min).toNat
    generalize roundTo quant.toNat (clampRange min max x - min).toNat = m at *
    have hmin := min.le_toInt
    have hmax := max.toInt_lt
    have hoffset : (BitVec.ofNat 32 m + min - min).toNat = m := by
      rw [BitVec.add_sub_cancel, BitVec.toNat_ofNat, Nat.mod_eq_of_lt hlt]
    by_cases hin : min.toInt + m ≤ max.toInt
    · have hint : toInt32 (m + min.toInt) = m + min.toInt := toInt32_eq_self (by omega) (by omega)
      rw [hint, if_neg (by omega), toInt_ofNat_add, hint, hoffset, hidem]
      omega
    · by_cases hfits : m + min.toInt < 2 ^ 31
      · have hint : toInt32 (m + min.toInt) = m + min.toInt := toInt32_eq_self (by omega) hfits
        rw [hint, if_pos (by omega)]
        have hne := hend (by omega)
        omega
      · have hint : toInt32 (m + min.toInt) = m + min.toInt - 2 ^ 32 :=
          toInt32_eq_of_emod (by omega) (by omega) (by omega)
        rw [hint, if_neg (by omega), toInt_ofNat_add, hint]
        omega

/-- A word that is accepted is left alone. -/
theorem constrainRange_of_inRange {x : SaneWord} (h : inRange min max quant x = true) :
    constrainRange min max quant x = x ∧ rangeInexact min max quant x = false := by
  unfold inRange at h
  have hin : ¬ (x.slt min = true ∨ max.slt x = true) := by
    intro hout
    rw [if_pos hout] at h
    cases h
  rw [if_neg hin] at h
  obtain ⟨hlow, hhigh⟩ := not_or.mp hin
  have hclamp : clampRange min max x = x := by
    rw [clampRange, if_neg hlow, if_neg hhigh]
  have hrun : constrainRange min max quant x =
      if quant ≠ 0 then
        let v := (clampRange min max x - min + quant.sdiv 2).udiv quant * quant + min
        if max.slt v then max else v
      else clampRange min max x := rfl
  have hkept : constrainRange min max quant x = x := by
    rw [hrun, hclamp]
    split
    · next hne =>
        rw [if_pos hne] at h
        dsimp only at h ⊢
        rw [beq_iff_eq.mp h, if_neg hhigh]
    · rfl
  refine ⟨hkept, ?_⟩
  simp [rangeInexact, hkept, hclamp, hlow, hhigh]

end Range

section Nearest

/-- The word found is as near as any, by the distance the code computes. -/
theorem nearestWord_le (w : SaneWord) (words : List SaneWord) (best : SaneWord) :
    ∀ e ∈ best :: words,
      (w - nearestWord w words (w - best).abs best).abs.toInt ≤ (w - e).abs.toInt := by
  induction words generalizing best with
  | nil =>
      intro e he
      obtain rfl := List.mem_singleton.mp he
      exact le_refl _
  | cons word words ih =>
      intro e he
      simp only [nearestWord, BitVec.slt_iff_toInt_lt]
      split_ifs with hnearer
      · rcases List.mem_cons.mp he with rfl | he
        · exact (ih word word (.head _)).trans hnearer.le
        · exact ih word e he
      · rcases List.mem_cons.mp he with rfl | he
        · exact ih e e (.head _)
        · rcases List.mem_cons.mp he with rfl | he
          · exact (ih best best (.head _)).trans (not_lt.mp hnearer)
          · exact ih best e (.tail _ he)

/-- The distance of `2 ^ 31` has no positive word. -/
theorem abs_intMin : (BitVec.intMin 32).abs = BitVec.intMin 32 := by decide

theorem toInt_abs_nonneg {x : SaneWord} (h : x ≠ BitVec.intMin 32) : 0 ≤ x.abs.toInt := by
  rw [BitVec.toInt_abs_eq_natAbs_of_ne_intMin h]
  exact Int.natCast_nonneg _

theorem sub_sub_self (a b : SaneWord) : a - (a - b) = b := by
  bv_omega

/-- A word of the list is its own nearest one, unless the list has the word `2 ^ 31` away. -/
theorem nearestWord_self_iff {w first : SaneWord} {words : List SaneWord}
    (hmem : w ∈ first :: words) :
    nearestWord w (first :: words) (w - first).abs first = w ↔
      w - BitVec.intMin 32 ∉ first :: words := by
  have hle := nearestWord_le w (first :: words) first
  have hfound : nearestWord w (first :: words) (w - first).abs first ∈ first :: words := by
    cases nearestWord_mem w (first :: words) (w - first).abs first with
    | inl heq =>
        rw [heq]
        exact .head _
    | inr hin => exact hin
  generalize nearestWord w (first :: words) (w - first).abs first = found at hle hfound
  constructor
  · intro heq hfar
    have hdist := hle _ (.tail _ hfar)
    rw [heq, BitVec.sub_self, sub_sub_self, abs_intMin] at hdist
    revert hdist
    decide
  · intro hfar
    have hdist := hle w (.tail _ hmem)
    have hne : w - found ≠ BitVec.intMin 32 := by
      intro heq
      rw [← heq, sub_sub_self] at hfar
      exact hfar hfound
    have hzero : (w - found).abs.toInt = 0 := by
      have hnonneg := toInt_abs_nonneg hne
      rw [BitVec.sub_self] at hdist
      have hself : (0#32).abs.toInt = 0 := by decide
      rw [hself] at hdist
      omega
    rw [BitVec.toInt_abs_eq_natAbs_of_ne_intMin hne] at hzero
    have hsame : w - found = 0#32 := by
      apply BitVec.eq_of_toInt_eq
      rw [BitVec.toInt_zero]
      omega
    rw [← sub_sub_self w found, hsame, BitVec.sub_zero]

end Nearest

section Strings

variable {value s : List UInt8} {strings : List (List UInt8)}

/-- `strcasecmp (value, s) == 0`. -/
def sameIgnoringCase (value s : List UInt8) : Bool := s.map lowerCase == value.map lowerCase

theorem abbreviates_of_length (hlen : value.length = s.length) :
    abbreviates value s = sameIgnoringCase value s := by
  rw [abbreviates, hlen, List.take_length, sameIgnoringCase]
  simp

/-- If the list has the string in any case, the first entry that is it is taken. -/
theorem constrainString_of_same (h : ∃ s ∈ strings, sameIgnoringCase value s = true) (n : Nat)
    (found : Option (List UInt8)) :
    constrainString value strings n found = strings.find? (sameIgnoringCase value) := by
  induction strings generalizing n found with
  | nil => simp at h
  | cons t strings ih =>
      by_cases hsame : sameIgnoringCase value t = true
      · have hlen : value.length = t.length := by
          have hmaps := congrArg List.length (beq_iff_eq.mp hsame)
          simpa using hmaps.symm
        rw [constrainString, if_pos (abbreviates_of_length hlen ▸ hsame), if_pos hlen,
          List.find?_cons_of_pos hsame]
      · have hrest : ∃ s ∈ strings, sameIgnoringCase value s = true := by
          obtain ⟨s, hs, hs'⟩ := h
          cases hs with
          | head => exact absurd hs' hsame
          | tail _ hs => exact ⟨s, hs, hs'⟩
        rw [List.find?_cons_of_neg hsame, constrainString]
        split_ifs with habbreviates hlen
        · exact absurd (abbreviates_of_length hlen ▸ habbreviates) hsame
        · exact ih hrest _ _
        · exact ih hrest _ _

theorem strlen_eq_ok {value : List UInt8} {len : Nat} (h : strlen value = .ok len) :
    0 ∉ value.take len ∧ len < value.length ∧ value = value.take len ++ 0 :: value.drop (len + 1) := by
  unfold strlen at h
  split_ifs at h with hmem
  cases h
  have hlt : value.idxOf 0 < value.length := List.idxOf_lt_length_of_mem hmem
  refine ⟨?_, hlt, ?_⟩
  · intro hbefore
    obtain ⟨i, hi, heq⟩ := List.getElem_of_mem hbefore
    rw [List.length_take] at hi
    rw [List.getElem_take] at heq
    have hearly : i < value.findIdx (· == 0) := by
      unfold List.idxOf at hi
      omega
    have hnot := List.not_of_lt_findIdx hearly
    simp [heq] at hnot
  · conv_lhs => rw [← List.take_append_drop (value.idxOf 0) value]
    congr 1
    rw [List.drop_eq_getElem_cons hlt, List.getElem_idxOf hlt]

theorem strlen_of_terminated {s rest : List UInt8} (hs : 0 ∉ s) :
    strlen (s ++ 0 :: rest) = .ok s.length := by
  rw [strlen, if_pos (by simp), List.idxOf_append_of_notMem hs]
  simp

end Strings

section Agree

variable {opt : OptionDescriptor} {value : List UInt8} {info : Option SaneWord}

/-- What `sanei_constrain_value` leaves alone of the values `sanei_check_value` accepts: a word
unless the list has the word `2 ^ 31` away, a string unless an earlier entry differs from it in
case only, and of a boolean too short to be checked those that are readable and 0 or 1. -/
def LeftAlone (opt : OptionDescriptor) (value : List UInt8) : Prop :=
  match opt.constraint with
  | .range _ _ _ => True
  | .wordList words => ∀ w ∈ (wordsOf 1 value).getD [], w - BitVec.intMin 32 ∉ words
  | .stringList strings => ∀ len, strlen value = .ok len →
      strings.find? (sameIgnoringCase (value.take len)) = some (value.take len)
  | .none => opt.type = .bool → 0 < opt.size → opt.size < 4 →
      ∃ w, wordsOf 1 value = some [w] ∧ (w = 0 ∨ w = 1)

theorem wordsOf_one {value : List UInt8} {w : SaneWord} {rest : List UInt8}
    (h : value = storedWord w ++ rest) : wordsOf 1 value = some [w] := by
  rw [h, wordsOf_stored]
  rfl

theorem constrain_wordList {words : List SaneWord} {first w : SaneWord} {rest : List UInt8}
    (hconstraint : opt.constraint = .wordList (first :: words)) :
    saneiConstrainBlock opt (storedWord w ++ rest) info =
      let word := nearestWord w (first :: words) (w - first).abs first
      .ok ⟨.good, if w ≠ word then storedWord word ++ rest else storedWord w ++ rest,
        markInexact (w ≠ word) info⟩ := by
  have hword : bytesWord (wordBytes w) = w := bytesWord_wordBytes w
  have hrun : saneiConstrainBlock opt (storedWord w ++ rest) info =
      let w' := bytesWord (wordBytes w)
      let word := nearestWord w' (first :: words) (w' - first).abs first
      .ok ⟨.good, if w' ≠ word then storedWord word ++ rest else storedWord w ++ rest,
        markInexact (w' ≠ word) info⟩ := by
    unfold saneiConstrainBlock
    rw [hconstraint]
    rfl
  rw [hrun, hword]

theorem storedWord_injective {v w : SaneWord} (h : storedWord v = storedWord w) : v = w := by
  have hbytes := congrArg List.reverse h
  rw [storedWord, storedWord, List.reverse_reverse, List.reverse_reverse] at hbytes
  rw [← bytesWord_wordBytes v, hbytes, bytesWord_wordBytes]

theorem leftAlone_range {min max quant : SaneWord} (hconstraint : opt.constraint = .range min max quant)
    (h : saneiCheckValue opt value = .ok .good) :
    saneiConstrainBlock opt value info = .ok ⟨.good, value, info⟩ := by
  unfold saneiCheckValue at h
  rw [hconstraint] at h
  obtain ⟨ws, hws, hin⟩ := checkWords_eq_good.mp h
  obtain ⟨value', hrun, -, hkept⟩ := @constrainWords_eq min max quant _ _ _ hws
  have hsame := hkept fun w hw => (constrainRange_of_inRange (hin w hw)).1
  have hexact : ws.any (rangeInexact min max quant) = false := by
    rw [List.any_eq_false]
    intro w hw
    rw [(constrainRange_of_inRange (hin w hw)).2]
    simp
  unfold saneiConstrainBlock
  rw [hconstraint]
  simp only [hrun, ok_bind, hexact, hsame]
  rfl

theorem leftAlone_wordList {words : List SaneWord} (hconstraint : opt.constraint = .wordList words)
    (h : saneiCheckValue opt value = .ok .good) :
    saneiConstrainBlock opt value info = .ok ⟨.good, value, info⟩ ↔ LeftAlone opt value := by
  unfold saneiCheckValue at h
  rw [hconstraint] at h
  dsimp only at h
  cases storedWord_or_short value with
  | inr hshort =>
      rcases value with _ | ⟨a, _ | ⟨b, _ | ⟨c, _ | ⟨d, rest⟩⟩⟩⟩
      case cons.cons.cons.cons =>
        simp only [List.length_cons] at hshort
        omega
      all_goals cases h
  | inl hword =>
      obtain ⟨w, rest, rfl⟩ := hword
      have hw : bytesWord (wordBytes w) = w := bytesWord_wordBytes w
      have hsearch : searchWords (bytesWord (wordBytes w)) words = .ok .good := h
      rw [hw] at hsearch
      cases words with
      | nil => cases hsearch
      | cons first words =>
          have hmem := (searchWords_eq_good (List.cons_ne_nil _ _)).mp hsearch
          have hleft : LeftAlone opt (storedWord w ++ rest) ↔
              w - BitVec.intMin 32 ∉ first :: words := by
            unfold LeftAlone
            rw [hconstraint, wordsOf_one rfl]
            simp
          rw [hleft, constrain_wordList hconstraint, ← nearestWord_self_iff hmem]
          generalize nearestWord w (first :: words) (w - first).abs first = word
          dsimp only
          by_cases hsame : w = word
          · rw [hsame]
            simp [markInexact]
          · rw [if_pos hsame]
            refine iff_of_false ?_ (Ne.symm hsame)
            intro heq
            simp only [Except.ok.injEq, Constrained.mk.injEq, List.append_cancel_right_eq] at heq
            exact hsame (storedWord_injective heq.2.1).symm

theorem leftAlone_stringList {strings : List (List UInt8)}
    (hconstraint : opt.constraint = .stringList strings)
    (h : saneiCheckValue opt value = .ok .good) :
    saneiConstrainBlock opt value info = .ok ⟨.good, value, info⟩ ↔ LeftAlone opt value := by
  unfold saneiCheckValue at h
  rw [hconstraint] at h
  obtain ⟨len, hlen, hany⟩ := bind_eq_ok.mp h
  have hmem : value.take len ∈ strings := by
    by_contra hnot
    rw [if_neg] at hany
    · cases hany
    · intro hfound
      obtain ⟨t, ht, heq⟩ := List.any_eq_true.mp hfound
      rw [beq_iff_eq.mp heq] at hnot
      exact hnot ht
  have hfind := constrainString_of_same ⟨_, hmem, beq_self_eq_true _⟩ 0 none
  obtain ⟨hzero, hlt, hsplit⟩ := strlen_eq_ok hlen
  obtain ⟨t, ht⟩ : ∃ t, strings.find? (sameIgnoringCase (value.take len)) = some t := by
    apply Option.isSome_iff_exists.mp
    rw [List.find?_isSome]
    exact ⟨_, hmem, beq_self_eq_true _⟩
  have hlength : t.length = (value.take len).length := by
    have hsame : sameIgnoringCase (value.take len) t = true := List.find?_some ht
    have hmaps := congrArg List.length (beq_iff_eq.mp hsame)
    simpa using hmaps
  have hleft : LeftAlone opt value ↔ t = value.take len := by
    unfold LeftAlone
    rw [hconstraint]
    constructor
    · intro hall
      have hself := hall len hlen
      rw [ht] at hself
      exact Option.some.inj hself
    · intro heq len' hlen'
      rw [hlen] at hlen'
      cases hlen'
      rw [ht, heq]
  have hrun : saneiConstrainBlock opt value info =
      if value.take len = t then .ok ⟨.good, value, info⟩
      else strcpy value t >>= fun copied => .ok ⟨.good, copied, info⟩ := by
    unfold saneiConstrainBlock
    rw [hconstraint]
    simp only [hlen, ok_bind, hfind, ht]
  rw [hleft, hrun]
  by_cases hsame : value.take len = t
  · rw [if_pos hsame]
    exact iff_of_true rfl hsame.symm
  · rw [if_neg hsame]
    refine iff_of_false ?_ (Ne.symm hsame)
    intro heq
    obtain ⟨copied, hcopy, hok⟩ := bind_eq_ok.mp heq
    cases hok
    unfold strcpy at hcopy
    split_ifs at hcopy
    rw [Except.ok.injEq] at hcopy
    apply hsame
    conv_lhs => rw [← hcopy]
    rw [List.take_append_of_le_length (by rw [hlength, List.length_take]; omega), List.take_of_length_le]
    rw [hlength, List.length_take]
    omega

/-- Only the first word of a boolean is looked at. -/
theorem constrain_bool (hconstraint : opt.constraint = .none) (htype : opt.type = .bool)
    {result : Constrained} (hgood : result.status = .good) :
    saneiConstrainBlock opt value info = .ok result ↔
      result = ⟨.good, value, info⟩ ∧ ∃ w, wordsOf 1 value = some [w] ∧ (w = 0 ∨ w = 1) := by
  obtain ⟨status, value', info'⟩ := result
  dsimp only at hgood
  subst hgood
  unfold saneiConstrainBlock
  rw [hconstraint, htype]
  rcases value with _ | ⟨a, _ | ⟨b, _ | ⟨c, _ | ⟨d, rest⟩⟩⟩⟩
  case cons.cons.cons.cons =>
    simp only [wordsOf, Option.map_some, Except.ok.injEq, Constrained.mk.injEq]
    by_cases hword : bytesWord [d, c, b, a] = 0 ∨ bytesWord [d, c, b, a] = 1
    · rw [if_pos hword]
      constructor
      · rintro ⟨-, hvalue, hinfo⟩
        exact ⟨⟨trivial, hvalue.symm, hinfo.symm⟩, _, rfl, hword⟩
      · rintro ⟨⟨-, hvalue, hinfo⟩, -⟩
        exact ⟨rfl, hvalue.symm, hinfo.symm⟩
    · rw [if_neg hword]
      refine iff_of_false (fun h => nomatch h.1) ?_
      rintro ⟨-, w, hw, hin⟩
      cases hw
      exact hword hin
  all_goals simp [wordsOf]

theorem leftAlone_none (hconstraint : opt.constraint = .none)
    (h : saneiCheckValue opt value = .ok .good) :
    saneiConstrainBlock opt value info = .ok ⟨.good, value, info⟩ ↔ LeftAlone opt value := by
  have hleft : LeftAlone opt value ↔ (opt.type = .bool → 0 < opt.size → opt.size < 4 →
      ∃ w, wordsOf 1 value = some [w] ∧ (w = 0 ∨ w = 1)) := by
    unfold LeftAlone
    rw [hconstraint]
  rw [hleft]
  cases htype : opt.type with
  | bool =>
      unfold saneiCheckValue at h
      rw [hconstraint, htype] at h
      obtain ⟨ws, hws, hall⟩ := checkWords_eq_good.mp h
      rw [constrain_bool hconstraint htype rfl]
      simp only [forall_const, true_and]
      constructor
      · exact fun h _ _ => h
      · intro hsmall
        by_cases hcount : elementCount opt = 0
        · have hsize : 0 < opt.size ∧ opt.size < 4 := by
            unfold elementCount at hcount
            split_ifs at hcount with hpos
            exact ⟨hpos, by unfold sizeofWord at hcount; omega⟩
          exact hsmall hsize.1 hsize.2
        · obtain ⟨n, hn⟩ := Nat.exists_eq_succ_of_ne_zero hcount
          rw [hn] at hws
          cases storedWord_or_short value with
          | inl hword =>
              obtain ⟨w, rest, rfl⟩ := hword
              rw [wordsOf_stored, Option.map_eq_some_iff] at hws
              obtain ⟨ws, -, rfl⟩ := hws
              exact ⟨w, wordsOf_one rfl, by simpa using hall w (.head _)⟩
          | inr hshort =>
              rw [(loops_short hshort n).1] at hws
              cases hws
  | int | fixed | string | button | group =>
      unfold saneiConstrainBlock
      rw [hconstraint, htype]
      simp

/-- A value that `sanei_check_value` accepts is left as it is, and `*info` too, if and only if
it is one of those above. -/
theorem constrain_checked_iff (h : saneiCheckValue opt value = .ok .good) :
    saneiConstrainBlock opt value info = .ok ⟨.good, value, info⟩ ↔ LeftAlone opt value := by
  cases hconstraint : opt.constraint with
  | range min max quant =>
      refine iff_of_true (leftAlone_range hconstraint h) ?_
      unfold LeftAlone
      rw [hconstraint]
      trivial
  | wordList words => exact leftAlone_wordList hconstraint h
  | stringList strings => exact leftAlone_stringList hconstraint h
  | none => exact leftAlone_none hconstraint h

/-- The option `--mode` of a scanner with two modes whose names differ in case. -/
def modeOption : OptionDescriptor where
  name := []
  type := .string
  size := 2
  constraint := .stringList [[65], [97]]

/-- The first entry of a string list is left as it is. -/
theorem constrain_checked_iff_firstMode :
    saneiConstrainBlock modeOption [65, 0] (some 0) = .ok ⟨.good, [65, 0], some 0⟩ ↔
      LeftAlone modeOption [65, 0] :=
  constrain_checked_iff (by decide)

/-- The second entry is accepted, and turned into the first. -/
theorem not_constrain_checked_secondMode :
    saneiCheckValue modeOption [97, 0] = .ok .good ∧
      saneiConstrainBlock modeOption [97, 0] (some 0) = .ok ⟨.good, [65, 0], some 0⟩ := by
  decide

/-- A constraint as a backend is to give it: the range is not empty and its step not negative,
the word list is not empty, and the entries of the string list are strings. -/
def OptionConstraint.WellFormed : OptionConstraint → Prop
  | .none => True
  | .range min max quant => min.toInt ≤ max.toInt ∧ 0 ≤ quant.toInt
  | .wordList words => words ≠ []
  | .stringList strings => ∀ s ∈ strings, 0 ∉ s

/-- The values that are brought to one `sanei_check_value` accepts: each word of an array is
rounded within the range, and each word of an array of booleans is 0 or 1. -/
def Lands (opt : OptionDescriptor) (value : List UInt8) : Prop :=
  match opt.constraint with
  | .range min max quant =>
      ∀ w ∈ (wordsOf (elementCount opt) value).getD [], Rounds min max quant w
  | .none => opt.type = .bool →
      ∃ ws, wordsOf (elementCount opt) value = some ws ∧ ∀ w ∈ ws, w = 0 ∨ w = 1
  | _ => True

variable {result : Constrained}

theorem lands_range {min max quant : SaneWord} (hconstraint : opt.constraint = .range min max quant)
    (hwell : opt.constraint.WellFormed) (h : saneiConstrainBlock opt value info = .ok result) :
    saneiCheckValue opt result.value = .ok .good ↔ Lands opt value := by
  rw [hconstraint] at hwell
  obtain ⟨hle, hquant⟩ := hwell
  unfold saneiConstrainBlock at h
  rw [hconstraint] at h
  cases hws : wordsOf (elementCount opt) value with
  | none =>
      simp only [constrainWords_none hws, error_bind] at h
      cases h
  | some ws =>
      obtain ⟨value', hrun, hwords, -⟩ := @constrainWords_eq min max quant _ _ _ hws
      simp only [hrun, ok_bind, Except.ok.injEq] at h
      unfold saneiCheckValue Lands
      rw [hconstraint, ← h]
      simp only [checkWords_eq_good, hwords, hws, Option.some.injEq, exists_eq_left',
        List.forall_mem_map, inRange_constrainRange_iff hle hquant, Option.getD_some]

theorem lands_wordList {words : List SaneWord} (hconstraint : opt.constraint = .wordList words)
    (h : saneiConstrainBlock opt value info = .ok result) :
    saneiCheckValue opt result.value = .ok .good := by
  cases words with
  | nil =>
      unfold saneiConstrainBlock at h
      rw [hconstraint] at h
      rcases value with _ | ⟨a, _ | ⟨b, _ | ⟨c, _ | ⟨d, rest⟩⟩⟩⟩
      all_goals cases h
  | cons first words =>
      cases storedWord_or_short value with
      | inr hshort =>
          unfold saneiConstrainBlock at h
          rw [hconstraint] at h
          rcases value with _ | ⟨a, _ | ⟨b, _ | ⟨c, _ | ⟨d, rest⟩⟩⟩⟩
          case cons.cons.cons.cons =>
            simp only [List.length_cons] at hshort
            omega
          all_goals cases h
      | inl hword =>
          obtain ⟨w, rest, rfl⟩ := hword
          rw [constrain_wordList hconstraint] at h
          have hfound : nearestWord w (first :: words) (w - first).abs first ∈ first :: words := by
            cases nearestWord_mem w (first :: words) (w - first).abs first with
            | inl heq =>
                rw [heq]
                exact .head _
            | inr hin => exact hin
          generalize nearestWord w (first :: words) (w - first).abs first = found at h hfound
          have hvalue : result.value = storedWord found ++ rest := by
            dsimp only at h
            cases h
            by_cases hsame : w = found
            · rw [hsame]
              simp
            · exact if_pos hsame
          have hbytes : bytesWord (wordBytes found) = found := bytesWord_wordBytes found
          have hcheck : saneiCheckValue opt (storedWord found ++ rest) =
              searchWords (bytesWord (wordBytes found)) (first :: words) := by
            unfold saneiCheckValue
            rw [hconstraint]
            rfl
          rw [hvalue, hcheck, hbytes, searchWords_eq_good (List.cons_ne_nil _ _)]
          exact hfound

theorem check_terminated {strings : List (List UInt8)} {s rest : List UInt8}
    (hconstraint : opt.constraint = .stringList strings) (hs : 0 ∉ s) (hmem : s ∈ strings) :
    saneiCheckValue opt (s ++ 0 :: rest) = .ok .good := by
  unfold saneiCheckValue
  rw [hconstraint]
  simp only [strlen_of_terminated hs, ok_bind, List.take_left]
  rw [if_pos (List.any_eq_true.mpr ⟨s, hmem, beq_self_eq_true s⟩)]

theorem lands_stringList {strings : List (List UInt8)}
    (hconstraint : opt.constraint = .stringList strings) (hwell : opt.constraint.WellFormed)
    (hgood : result.status = .good) (h : saneiConstrainBlock opt value info = .ok result) :
    saneiCheckValue opt result.value = .ok .good := by
  rw [hconstraint] at hwell
  unfold saneiConstrainBlock at h
  rw [hconstraint] at h
  obtain ⟨len, hlen, h⟩ := bind_eq_ok.mp h
  obtain ⟨hzero, -, hsplit⟩ := strlen_eq_ok hlen
  cases hfound : constrainString (value.take len) strings 0 none with
  | none =>
      rw [hfound] at h
      cases h
      cases hgood
  | some s =>
      have hmem : s ∈ strings := (constrainString_mem hfound).resolve_left nofun
      rw [hfound] at h
      dsimp only at h
      split_ifs at h with hsame
      · cases h
        rw [hsplit]
        exact check_terminated hconstraint hzero (hsame ▸ hmem)
      · obtain ⟨copied, hcopy, h⟩ := bind_eq_ok.mp h
        cases h
        unfold strcpy at hcopy
        split_ifs at hcopy
        cases hcopy
        exact check_terminated hconstraint (hwell s hmem) hmem

theorem lands_none (hconstraint : opt.constraint = .none) (hgood : result.status = .good)
    (h : saneiConstrainBlock opt value info = .ok result) :
    saneiCheckValue opt result.value = .ok .good ↔ Lands opt value := by
  cases htype : opt.type with
  | bool =>
      obtain ⟨rfl, -⟩ := (constrain_bool hconstraint htype hgood).mp h
      unfold saneiCheckValue Lands
      rw [hconstraint, htype]
      simp [checkWords_eq_good]
  | int | fixed | string | button | group =>
      unfold saneiCheckValue Lands
      rw [hconstraint, htype]
      simp

/-- A value that `sanei_constrain_value` has answered `SANE_STATUS_GOOD` for is accepted by
`sanei_check_value` if and only if it is one of those above. -/
theorem check_constrained_iff (hwell : opt.constraint.WellFormed)
    (h : saneiConstrainBlock opt value info = .ok result) (hgood : result.status = .good) :
    saneiCheckValue opt result.value = .ok .good ↔ Lands opt value := by
  cases hconstraint : opt.constraint with
  | range min max quant => exact lands_range hconstraint hwell h
  | wordList words =>
      refine iff_of_true (lands_wordList hconstraint h) ?_
      unfold Lands
      rw [hconstraint]
      trivial
  | stringList strings =>
      refine iff_of_true (lands_stringList hconstraint hwell hgood h) ?_
      unfold Lands
      rw [hconstraint]
      trivial
  | none => exact lands_none hconstraint hgood h

/-- An array of two switches. -/
def switchesOption : OptionDescriptor where
  name := []
  type := .bool
  size := 8
  constraint := .none

/-- Two switches that are on and off. -/
theorem check_constrained_iff_onOff :
    saneiCheckValue switchesOption [1, 0, 0, 0, 0, 0, 0, 0] = .ok .good ↔
      Lands switchesOption [1, 0, 0, 0, 0, 0, 0, 0] :=
  @check_constrained_iff switchesOption [1, 0, 0, 0, 0, 0, 0, 0] none
    ⟨.good, [1, 0, 0, 0, 0, 0, 0, 0], none⟩ trivial (by decide) rfl

/-- The second switch is 2: it is not looked at by the one function and rejected by the other. -/
theorem not_check_constrained_secondSwitch :
    saneiConstrainBlock switchesOption [1, 0, 0, 0, 2, 0, 0, 0] none =
        .ok ⟨.good, [1, 0, 0, 0, 2, 0, 0, 0], none⟩ ∧
      saneiCheckValue switchesOption [1, 0, 0, 0, 2, 0, 0, 0] = .ok .inval := by
  decide

end Agree

end SaneBackends.Sanei
