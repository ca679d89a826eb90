import SaneBackends.Lib.Cells
import SaneBackends.Saned.Numerals
/-!
# Option vectors

`parse_scalar` and `parse_vector` for an option of `SANE_TYPE_INT`. A string is its bytes up to the
terminator. What is computed in `double` is a parameter.
-/

namespace SaneBackends.Scanimage

open SaneBackends.Lib SaneBackends.Sanei
open SaneBackends.Saned (strtolEnd strtolEnd_length_lt)

inductive SaneUnit where
  | none | pixel | bit | mm | dpi | percent | microsecond
  deriving DecidableEq, Repr

/-- What a unit multiplies the number with. -/
inductive Factor where
  | one | eight | ten | inch
  deriving DecidableEq, Repr

/-- The fields of the option descriptor; `size` is an `int`. -/
structure VectorOption where
  unit : SaneUnit
  size : Nat
  size_le : size ≤ intMax

def VectorOption.vectorLength (opt : VectorOption) : Nat := opt.size / 4

/-- The word for a number and the factor of its unit, and the words on the line between two values
that are so many elements apart, from the first one behind its start on. -/
structure Doubles where
  scaled : Int → Factor → Int
  onLine : Int → Int → Int → Nat → Int

/-- The messages, with the rest of the option or the index and the last one. -/
inductive Complaint where
  | badOptionValue (rest : List UInt8)
  | illegalUnit (rest : List UInt8)
  | closingBracketMissing (rest : List UInt8)
  | indexOutOfRange (index last : Int)
  | illegalSeparator (rest : List UInt8)
  deriving DecidableEq, Repr

/-- `scanimage_exit (1)`, a store outside of the vector, and a loop that does not end. -/
inductive Stop where
  | exit (complaint : Complaint)
  | outOfBounds
  | endless
  deriving DecidableEq, Repr

/-! ## Scalars -/

/-- The switch over the unit of the option. -/
def takeUnit (unit : SaneUnit) (str : List UInt8) : Option (Factor × List UInt8) :=
  match unit with
  | .none | .pixel => some (.one, str)
  | .bit =>
      if str.head? = some 98 then some (.one, str.tail)
      else if str.head? = some 66 then some (.eight, str.tail)
      else some (.one, str)
  | .mm =>
      if str = [] then some (.one, str)
      else if str = ascii ['m', 'm'] then some (.one, str.drop 2)
      else if str = ascii ['c', 'm'] then some (.ten, str.drop 2)
      else if str = ascii ['i', 'n'] ∨ str.head? = some 34 then
        some (.inch, if str.head? ≠ some 34 then str.tail.tail else str.tail)
      else none
  | .dpi => some (.one, if str = ascii ['d', 'p', 'i'] then str.drop 3 else str)
  | .percent => some (.one, if str.head? = some 37 then str.tail else str)
  | .microsecond => some (.one, if str = ascii ['u', 's'] then str.drop 2 else str)

/-- `parse_scalar`. Where it returns 0, `parse_vector` exits. -/
def parseScalar (doubles : Doubles) (opt : VectorOption) (str : List UInt8) :
    Except Stop (List UInt8 × Int) :=
  match strtolEnd str with
  | none => .error (.exit (.badOptionValue str))
  | some (v, str) =>
      match takeUnit opt.unit str with
      | none => .error (.exit (.illegalUnit str))
      | some (factor, str) => .ok (str, doubles.scaled v factor)

/-! ## Vectors -/

/-- `vector[i] = value` -/
def storeAt (vector : Cells Int) (i value : Int) : Except Stop (Cells Int) :=
  if 0 ≤ i ∧ i < vector.size then .ok (vector.put i.toNat value) else .error .outOfBounds

structure VectorState where
  str : List UInt8
  vector : Cells Int
  index : Int := -1
  prevIndex : Int := 0
  prevValue : Int := 0
  separator : UInt8 := 0

/-- The index of the next element. -/
def readIndex (s : VectorState) : Except Stop (Int × List UInt8) :=
  match s.str with
  | 91 :: str =>
      match strtolEnd str with
      | some (index, 93 :: rest) => .ok (toInt32 index, rest)
      | _ => .error (.exit (.closingBracketMissing str))
  | str => .ok (s.index + 1, str)

/-- One turn of the loop. -/
def vectorTurn (doubles : Doubles) (opt : VectorOption) (s : VectorState) :
    Except Stop VectorState := do
  let (index, str) ← readIndex s
  if index < 0 ∨ (opt.vectorLength : Int) ≤ index then
    .error (.exit (.indexOutOfRange index (opt.vectorLength - 1)))
  else
    let (str, value) ← parseScalar doubles opt str
    if str ≠ [] ∧ str.head? ≠ some 45 ∧ str.head? ≠ some 44 then
      .error (.exit (.illegalSeparator str))
    else
      let vector ← storeAt s.vector index value
      let vector ←
        if s.separator = 45 then
          forTo (index - (s.prevIndex + 1)).toNat
            (fun k vector => storeAt vector (s.prevIndex + 1 + k)
              (doubles.onLine s.prevValue value (index - s.prevIndex) k)) vector
        else .ok vector
      .ok
        { str := str.tail, vector, index, prevIndex := index, prevValue := value
          separator := str.headD 0 }

/-- `fuel` bounds the number of turns. -/
def vectorLoop (doubles : Doubles) (opt : VectorOption) :
    Nat → VectorState → Except Stop (Cells Int)
  | 0, _ => .error .endless
  | fuel + 1, s => do
      let s ← vectorTurn doubles opt s
      if s.separator = 44 ∨ s.separator = 45 then vectorLoop doubles opt fuel s else .ok s.vector

/-- `parse_vector`. Each turn takes at least one character. -/
def parseVector (doubles : Doubles) (opt : VectorOption) (str : List UInt8) :
    Except Stop (Cells Int) :=
  vectorLoop doubles opt (str.length + 1) { str, vector := ⟨opt.vectorLength, fun _ => 0⟩ }

/-! ## Every string -/

section Safety

variable {doubles : Doubles} {opt : VectorOption} {s : VectorState} {str rest : List UInt8}

/-- The vector is set, or `scanimage` exits. -/
def EndsWell {α : Type} (result : Except Stop α) : Prop :=
  (∃ a, result = .ok a) ∨ ∃ complaint, result = .error (.exit complaint)

theorem takeUnit_suffix {unit : SaneUnit} {factor : Factor}
    (h : takeUnit unit str = some (factor, rest)) : rest <:+ str := by
  have htail : str.tail <:+ str := List.tail_suffix str
  have htail' : str.tail.tail <:+ str := (List.tail_suffix _).trans htail
  unfold takeUnit at h
  cases unit with
  | none | pixel =>
      cases h
      exact List.suffix_refl str
  | bit =>
      dsimp only at h
      split_ifs at h <;> cases h
      exacts [htail, htail, List.suffix_refl str]
  | mm =>
      dsimp only at h
      split_ifs at h <;> cases h
      exacts [List.suffix_refl _, List.drop_suffix 2 _, List.drop_suffix 2 _, htail', htail]
  | dpi | percent | microsecond =>
      dsimp only at h
      split_ifs at h <;> cases h
      exacts [by first | exact htail | exact List.drop_suffix _ _, List.suffix_refl str]

/-- A scalar takes a character at least. -/
theorem parseScalar_endsWell (doubles : Doubles) (opt : VectorOption) (str : List UInt8) :
    (∃ complaint, parseScalar doubles opt str = .error (.exit complaint)) ∨
      ∃ rest value, parseScalar doubles opt str = .ok (rest, value) ∧
        rest.length < str.length := by
  unfold parseScalar
  cases hnum : strtolEnd str with
  | none => exact .inl ⟨_, rfl⟩
  | some number =>
      obtain ⟨v, after⟩ := number
      have hlt := strtolEnd_length_lt hnum
      dsimp only
      cases hunit : takeUnit opt.unit after with
      | none => exact .inl ⟨_, rfl⟩
      | some scalar =>
          obtain ⟨factor, rest⟩ := scalar
          exact .inr ⟨rest, _, rfl, lt_of_le_of_lt (takeUnit_suffix hunit).length_le hlt⟩

theorem storeAt_eq {vector : Cells Int} {i : Int} (hlo : 0 ≤ i) (hhi : i < vector.size)
    (value : Int) : storeAt vector i value = .ok (vector.put i.toNat value) :=
  if_pos ⟨hlo, hhi⟩

theorem readIndex_endsWell (s : VectorState) :
    (∃ complaint, readIndex s = .error (.exit complaint)) ∨
      ∃ index rest, readIndex s = .ok (index, rest) ∧ rest.length ≤ s.str.length := by
  unfold readIndex
  split
  · rename_i str hstr
    split
    · rename_i index rest hnum
      have hlt := strtolEnd_length_lt hnum
      rw [hstr]
      simp only [List.length_cons] at hlt ⊢
      exact .inr ⟨_, _, rfl, by omega⟩
    · exact .inl ⟨_, rfl⟩
  · exact .inr ⟨_, _, rfl, le_rfl⟩

/-- What holds before each turn. -/
structure Ready (opt : VectorOption) (s : VectorState) : Prop where
  size : s.vector.size = opt.vectorLength
  prevIndex : 0 ≤ s.prevIndex

/-- The line between two values stays inside of the vector. -/
theorem interpolate_endsWell {vector : Cells Int} {index prevIndex : Int} (line : Nat → Int)
    (hprev : 0 ≤ prevIndex) (hindex : index < vector.size) :
    ∃ vector', forTo (index - (prevIndex + 1)).toNat
      (fun k vector => storeAt vector (prevIndex + 1 + k) (line k)) vector = .ok vector' ∧
        vector'.size = vector.size := by
  refine forTo_invariant (I := fun _ (v : Cells Int) => v.size = vector.size) rfl
    fun k hk v hsize => ⟨v.put (prevIndex + 1 + k).toNat (line k), ?_, hsize⟩
  exact storeAt_eq (by omega) (by omega) _

theorem vectorTurn_endsWell (doubles : Doubles) (hs : Ready opt s) :
    (∃ complaint, vectorTurn doubles opt s = .error (.exit complaint)) ∨
      ∃ s', vectorTurn doubles opt s = .ok s' ∧ Ready opt s' ∧ s'.str.length < s.str.length := by
  unfold vectorTurn
  obtain ⟨complaint, hread⟩ | ⟨index, str, hread, hle⟩ := readIndex_endsWell s
  · exact .inl ⟨complaint, by rw [hread, error_bind]⟩
  rw [hread, ok_bind]
  dsimp only
  by_cases hindex : index < 0 ∨ (opt.vectorLength : Int) ≤ index
  · exact .inl ⟨_, if_pos hindex⟩
  rw [if_neg hindex]
  obtain ⟨complaint, hscalar⟩ | ⟨rest, value, hscalar, hlt⟩ := parseScalar_endsWell doubles opt str
  · exact .inl ⟨complaint, by rw [hscalar, error_bind]⟩
  rw [hscalar, ok_bind]
  dsimp only
  by_cases hsep : rest ≠ [] ∧ rest.head? ≠ some 45 ∧ rest.head? ≠ some 44
  · exact .inl ⟨_, if_pos hsep⟩
  have hsize := hs.size
  have htail := rest.length_tail
  rw [if_neg hsep, storeAt_eq (by omega) (by omega), ok_bind]
  by_cases hline : s.separator = 45
  · have hhi : index < (s.vector.put index.toNat value).size := by
      rw [Cells.size_put]
      omega
    obtain ⟨vector, hrun, hkeep⟩ := interpolate_endsWell
      (doubles.onLine s.prevValue value (index - s.prevIndex)) hs.prevIndex hhi
    rw [if_pos hline, hrun, ok_bind]
    exact .inr ⟨_, rfl, ⟨hkeep.trans hsize, by dsimp only; omega⟩, by dsimp only; omega⟩
  · rw [if_neg hline, ok_bind]
    exact .inr ⟨_, rfl, ⟨hsize, by dsimp only; omega⟩, by dsimp only; omega⟩

theorem vectorLoop_endsWell (doubles : Doubles) {fuel : Nat} (hs : Ready opt s)
    (hfuel : s.str.length < fuel) : EndsWell (vectorLoop doubles opt fuel s) := by
  induction fuel generalizing s with
  | zero => exact absurd hfuel (Nat.not_lt_zero _)
  | succ fuel ih =>
      rw [vectorLoop]
      obtain ⟨complaint, hturn⟩ | ⟨s', hturn, hs', hlt⟩ := vectorTurn_endsWell doubles hs
      · exact .inr ⟨complaint, by rw [hturn, error_bind]⟩
      · rw [hturn, ok_bind]
        split_ifs
        · exact ih hs' (by omega)
        · exact .inl ⟨_, rfl⟩

/-- No string makes `parse_vector` write outside of the vector, or go on for ever. -/
theorem parseVector_endsWell (doubles : Doubles) (opt : VectorOption) (str : List UInt8) :
    EndsWell (parseVector doubles opt str) :=
  vectorLoop_endsWell doubles ⟨rfl, le_rfl⟩ (Nat.lt_succ_self _)

end Safety

end SaneBackends.Scanimage
