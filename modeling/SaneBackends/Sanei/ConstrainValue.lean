import SaneBackends.Sanei.CheckValue
import SaneBackends.Sanei.RoundTrip
/-!
# `sanei_constrain_value.c`: bringing a value into a constraint

The values of options that are a single word or a string. What `sanei_constrain_value` leaves
behind is a value that `sanei_check_value` accepts.
-/

namespace SaneBackends.Sanei

open SaneBackends.Lib

/-- The value of an option, as the word or the string that is stored there. -/
structure OptionMemory where
  word : SaneWord
  string : List UInt8
  deriving DecidableEq, Repr

/-- One element of the loop over an array. -/
def constrainRange (min max quant : SaneWord) (x : SaneWord) : SaneWord :=
  let x := if x.slt min then min else x
  let x := if max.slt x then max else x
  if quant ≠ 0 then
    let v := (x - min + quant.sdiv 2).udiv quant * quant + min
    if max.slt v then max else v
  else x

/-- The loop that looks for the nearest word of a list. -/
def nearestWord (w : SaneWord) : List SaneWord → SaneWord → SaneWord → SaneWord
  | [], _, best => best
  | word :: words, v, best =>
      let vh := (w - word).abs
      if vh.slt v then nearestWord w words vh word else nearestWord w words v best

/-- The C locale's `tolower`. -/
def lowerCase (c : UInt8) : UInt8 := if 65 ≤ c ∧ c ≤ 90 then c + 32 else c

/-- `strncasecmp (value, s, len) == 0 && len <= strlen (s)`, for the length of the value. -/
def abbreviates (value s : List UInt8) : Bool :=
  (s.take value.length).map lowerCase == value.map lowerCase && decide (value.length ≤ s.length)

/-- The loop over a string list, with the matches so far and the last one of them. -/
def constrainString (value : List UInt8) :
    List (List UInt8) → Nat → Option (List UInt8) → Option (List UInt8)
  | [], numMatches, found => if numMatches = 1 then found else none
  | s :: strings, numMatches, found =>
      if abbreviates value s then
        if value.length = s.length then some s
        else constrainString value strings (numMatches + 1) (some s)
      else constrainString value strings numMatches found

/-- `sanei_constrain_value` for an option of one element: the value it leaves, unless it answers
`SANE_STATUS_INVAL`. -/
def saneiConstrainValue (opt : OptionDescriptor) (value : OptionMemory) :
    Except Fault (Option OptionMemory) :=
  match opt.constraint with
  | .range min max quant => .ok (some { value with word := constrainRange min max quant value.word })
  | .wordList [] => .error .outOfBounds
  | .wordList (first :: words) =>
      .ok (some { value with
        word := nearestWord value.word (first :: words) (value.word - first).abs first })
  | .stringList strings =>
      .ok ((constrainString value.string strings 0 none).map fun s => { value with string := s })
  | .none =>
      match opt.type with
      | .bool => .ok (if value.word = 0 ∨ value.word = 1 then some value else none)
      | _ => .ok (some value)

/-- Ranges in which a value can be stored: they are not empty, and without steps of more
than 1. -/
def OptionConstraint.Sound : OptionConstraint → Prop
  | .range min max quant => min.sle max = true ∧ (quant = 0 ∨ quant = 1)
  | .wordList words => words ≠ []
  | _ => True

section Check

variable {opt : OptionDescriptor} {w : SaneWord} {s : List UInt8}

theorem elementCount_word (hsize : opt.size = 4) : elementCount opt = 1 := by
  rw [elementCount, hsize]
  rfl

theorem checkWords_stored (admitted : SaneWord → Bool) (w : SaneWord) :
    checkWords admitted 1 (storedWord w) = .ok (if admitted w then .good else .inval) := by
  have hword : bytesWord (wordBytes w) = w := bytesWord_wordBytes w
  have hstored : checkWords admitted 1 (storedWord w) =
      if admitted (bytesWord (wordBytes w)) then .ok .good else .ok .inval := rfl
  rw [hstored, hword]
  split <;> rfl

theorem searchWords_eq_good {words : List SaneWord} (hwords : words ≠ []) :
    searchWords w words = .ok .good ↔ w ∈ words := by
  induction words with
  | nil => exact absurd rfl hwords
  | cons word words ih =>
      cases words with
      | nil =>
          rw [searchWords, List.mem_singleton]
          split <;> simp_all
      | cons next words =>
          rw [searchWords, List.mem_cons]
          · by_cases heq : w = word
            · simp [heq]
            · rw [if_neg heq, ih (by simp)]
              simp [heq]
          · simp

/-- What the check of a single word looks at. -/
theorem check_word_iff (hsize : opt.size = 4) (hlist : ∀ l, opt.constraint ≠ .stringList l)
    (hsound : opt.constraint ≠ .wordList []) :
    saneiCheckValue opt (storedWord w) = .ok .good ↔
      match opt.constraint with
      | .range min max quant => inRange min max quant w = true
      | .wordList words => w ∈ words
      | _ => opt.type = .bool → w = 0 ∨ w = 1 := by
  unfold saneiCheckValue
  cases hconstraint : opt.constraint with
  | range min max quant =>
      simp only [elementCount_word hsize, checkWords_stored, Except.ok.injEq]
      split <;> simp_all
  | wordList words =>
      have hstored : bytesWord (wordBytes w) = w := bytesWord_wordBytes w
      have hne : words ≠ [] := fun h => hsound (h ▸ hconstraint)
      have hsearch : searchWords (bytesWord (wordBytes w)) words = .ok .good ↔ w ∈ words := by
        rw [hstored, searchWords_eq_good hne]
      exact hsearch
  | stringList strings => exact absurd hconstraint (hlist strings)
  | none =>
      cases htype : opt.type with
      | bool =>
          simp only [elementCount_word hsize, checkWords_stored, Except.ok.injEq]
          split <;> simp_all
      | int | fixed | string | button | group => simp

/-- What the check of a string looks at. -/
theorem check_string_iff {strings : List (List UInt8)}
    (hconstraint : opt.constraint = .stringList strings) (hs : 0 ∉ s) :
    saneiCheckValue opt (s ++ [0]) = .ok .good ↔ s ∈ strings := by
  have hlen : strlen (s ++ [0]) = .ok s.length := by
    rw [strlen, if_pos (by simp), List.idxOf_append_of_notMem hs]
    simp
  unfold saneiCheckValue
  rw [hconstraint]
  have hany : (strings.any fun t => (s ++ [0]).take s.length == t) = true ↔ s ∈ strings := by
    rw [List.take_left, List.any_eq_true]
    constructor
    · rintro ⟨t, ht, heq⟩
      rwa [beq_iff_eq.mp heq]
    · exact fun hmem => ⟨s, hmem, beq_self_eq_true s⟩
  simp only [hlen, ok_bind, Except.ok.injEq]
  rw [← hany]
  split <;> simp_all

end Check

section Constrain

variable {opt : OptionDescriptor} {value value' : OptionMemory} {w min max quant : SaneWord}

theorem clamp_between (hle : min.sle max = true) (x : SaneWord) :
    let y := if x.slt min then min else x
    let z := if max.slt y then max else y
    min.sle z = true ∧ z.sle max = true := by
  simp only [BitVec.slt_iff_toInt_lt, BitVec.sle_iff_toInt_le] at *
  split <;> split <;> omega

theorem quantized_one (x : SaneWord) :
    (x - min + (1 : SaneWord).sdiv 2).udiv 1 * 1 + min = x := by
  have hhalf : (1 : SaneWord).sdiv 2 = 0 := by decide
  have hone : (x - min + 0).udiv 1 = x - min + 0 := BitVec.udiv_one
  rw [hhalf, hone]
  simp [BitVec.sub_add_cancel]

theorem inRange_of_between (hquant : quant = 0 ∨ quant = 1) (hlow : min.sle w = true)
    (hhigh : w.sle max = true) : inRange min max quant w = true := by
  have hin : ¬ (w.slt min = true ∨ max.slt w = true) := by
    simp only [BitVec.slt_iff_toInt_lt, BitVec.sle_iff_toInt_le] at *
    omega
  rw [inRange, if_neg hin]
  split
  · next hne =>
      obtain rfl := hquant.resolve_left hne
      exact beq_iff_eq.mpr (quantized_one w)
  · rfl

theorem inRange_constrainRange (hle : min.sle max = true) (hquant : quant = 0 ∨ quant = 1)
    (x : SaneWord) : inRange min max quant (constrainRange min max quant x) = true := by
  have hclamp := clamp_between hle x
  dsimp only at hclamp
  unfold constrainRange
  dsimp only
  generalize (if max.slt (if x.slt min = true then min else x) = true then max
    else if x.slt min = true then min else x) = z at hclamp ⊢
  obtain ⟨hlow, hhigh⟩ := hclamp
  split
  · next hne =>
      obtain rfl := hquant.resolve_left hne
      have hle : ¬ max.slt z = true := by
        simp only [BitVec.slt_iff_toInt_lt, BitVec.sle_iff_toInt_le] at *
        omega
      rw [quantized_one, if_neg hle]
      exact inRange_of_between (.inr rfl) hlow hhigh
  · exact inRange_of_between hquant hlow hhigh

theorem nearestWord_mem (w : SaneWord) (words : List SaneWord) (v best : SaneWord) :
    nearestWord w words v best = best ∨ nearestWord w words v best ∈ words := by
  induction words generalizing v best with
  | nil => exact .inl rfl
  | cons word words ih =>
      simp only [nearestWord]
      split
      · refine .inr ?_
        cases ih (w - word).abs word with
        | inl h =>
            rw [h]
            exact .head _
        | inr h => exact .tail _ h
      · exact (ih v best).imp_right (List.mem_cons_of_mem _)

theorem constrainString_mem {value s : List UInt8} {strings : List (List UInt8)} {n : Nat}
    {found : Option (List UInt8)} (h : constrainString value strings n found = some s) :
    found = some s ∨ s ∈ strings := by
  induction strings generalizing n found with
  | nil =>
      rw [constrainString, Option.ite_none_right_eq_some] at h
      exact .inl h.2
  | cons t strings ih =>
      rw [constrainString] at h
      split at h
      · split at h
        · cases h
          exact .inr (.head _)
        · cases ih h with
          | inl heq =>
              cases heq
              exact .inr (.head _)
          | inr hmem => exact .inr (.tail _ hmem)
      · exact (ih h).imp_right (List.mem_cons_of_mem _)

/-- The word that is left is one that the check accepts. -/
theorem check_of_constrain_word (hsize : opt.size = 4) (hsound : opt.constraint.Sound)
    (hlist : ∀ l, opt.constraint ≠ .stringList l)
    (h : saneiConstrainValue opt value = .ok (some value')) :
    saneiCheckValue opt (storedWord value'.word) = .ok .good := by
  have hne : opt.constraint ≠ .wordList [] := fun heq => by
    rw [heq] at hsound
    exact hsound rfl
  rw [check_word_iff hsize hlist hne]
  unfold saneiConstrainValue at h
  cases hconstraint : opt.constraint with
  | range min max quant =>
      rw [hconstraint] at h hsound
      cases h
      exact inRange_constrainRange hsound.1 hsound.2 _
  | wordList words =>
      rw [hconstraint] at h
      cases words with
      | nil => exact absurd hconstraint hne
      | cons first words =>
          cases h
          cases nearestWord_mem value.word (first :: words) (value.word - first).abs first with
          | inl heq =>
              simp only [heq]
              exact .head _
          | inr hmem => exact hmem
  | stringList strings => exact absurd hconstraint (hlist strings)
  | none =>
      rw [hconstraint] at h
      intro htype
      simp only [htype, Except.ok.injEq, Option.ite_none_right_eq_some] at h
      obtain ⟨hbool, heq⟩ := h
      cases heq
      exact hbool

/-- The string that is left is one of the list. -/
theorem mem_of_constrain_string {strings : List (List UInt8)}
    (hconstraint : opt.constraint = .stringList strings)
    (h : saneiConstrainValue opt value = .ok (some value')) : value'.string ∈ strings := by
  unfold saneiConstrainValue at h
  rw [hconstraint] at h
  simp only [Except.ok.injEq, Option.map_eq_some_iff] at h
  obtain ⟨s, hs, rfl⟩ := h
  exact (constrainString_mem hs).resolve_left nofun

end Constrain

end SaneBackends.Sanei
