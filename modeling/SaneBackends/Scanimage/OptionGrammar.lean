import SaneBackends.Scanimage.OptionVector
/-!
# The grammar of option vectors

The documented grammar: elements with a comma or a dash between them, each with an index in brackets
or none, a number, and a unit of the option's list or none. The scanner takes some units just behind
the last element, and an index modulo `2 ^ 32`.
-/

namespace SaneBackends.Scanimage

open SaneBackends.Lib SaneBackends.Sanei
open SaneBackends.Saned (Numeral Sign NoDigit clampLong)

/-! ## The grammar -/

inductive UnitWord where
  | pel | bit | byte | mm | cm | inch | quote | dpi | percent | us
  deriving DecidableEq, Repr

namespace UnitWord

def text : UnitWord → List UInt8
  | pel => ascii ['p', 'e', 'l']
  | bit => ascii ['b']
  | byte => ascii ['B']
  | mm => ascii ['m', 'm']
  | cm => ascii ['c', 'm']
  | inch => ascii ['i', 'n']
  | quote => [34]
  | dpi => ascii ['d', 'p', 'i']
  | percent => ascii ['%']
  | us => ascii ['u', 's']

def factor : UnitWord → Factor
  | byte => .eight
  | cm => .ten
  | inch | quote => .inch
  | _ => .one

end UnitWord

/-- The list of the option's units. -/
def SaneUnit.allowed : SaneUnit → List UnitWord
  | none => []
  | pixel => [.pel]
  | bit => [.bit, .byte]
  | mm => [.mm, .cm, .inch, .quote]
  | dpi => [.dpi]
  | percent => [.percent]
  | microsecond => [.us]

structure Element (unit : SaneUnit) where
  index : Option Numeral
  number : Numeral
  word : Option UnitWord
  word_allowed : ∀ w ∈ word, w ∈ unit.allowed

def wordText (word : Option UnitWord) : List UInt8 := word.elim [] UnitWord.text

def wordFactor (word : Option UnitWord) : Factor := word.elim .one UnitWord.factor

def indexText : Option Numeral → List UInt8
  | none => []
  | some index => 91 :: (index.text ++ [93])

/-- The value of a numeral in brackets, or the last index and 1. -/
def nextIndex (read : Numeral → Int) (last : Int) (index : Option Numeral) : Int :=
  index.elim (last + 1) read

namespace Element

variable {unit : SaneUnit}

def text (e : Element unit) : List UInt8 := indexText e.index ++ (e.number.text ++ wordText e.word)

def value (doubles : Doubles) (e : Element unit) : Int :=
  doubles.scaled (clampLong e.number.value) (wordFactor e.word)

end Element

inductive Separator where
  | comma | dash
  deriving DecidableEq, Repr

def Separator.char : Separator → UInt8
  | comma => 44
  | dash => 45

/-- An element behind another. -/
structure Further (unit : SaneUnit) where
  separator : Separator
  element : Element unit

variable {unit : SaneUnit}

def furtherText (further : List (Further unit)) : List UInt8 :=
  further.flatMap fun f => f.separator.char :: f.element.text

def vectorText (first : Element unit) (further : List (Further unit)) : List UInt8 :=
  first.text ++ furtherText further

def elements (first : Element unit) (further : List (Further unit)) : List (Element unit) :=
  first :: further.map Further.element

/-- The indices, behind the last one. -/
def indices (read : Numeral → Int) : Int → List (Element unit) → List Int
  | _, [] => []
  | last, e :: es => nextIndex read last e.index :: indices read (nextIndex read last e.index) es

/-- A later value at an index replaces the former. -/
def assign (pairs : List (Int × Int)) (values : Int → Int) : Int → Int :=
  pairs.foldl (fun values p => Function.update values p.1 p.2) values

/-- The vector that elements with commas between them stand for. -/
def assigned (doubles : Doubles) (opt : VectorOption) (es : List (Element opt.unit)) :
    Cells Int where
  size := opt.vectorLength
  cell i := assign ((indices Numeral.value (-1) es).zip (es.map (Element.value doubles)))
    (fun _ => 0) i

def Inside (read : Numeral → Int) (opt : VectorOption) (last : Int)
    (es : List (Element opt.unit)) : Prop :=
  ∀ i ∈ indices read last es, 0 ≤ i ∧ i < opt.vectorLength

instance (read : Numeral → Int) (opt : VectorOption) (last : Int) (es : List (Element opt.unit)) :
    Decidable (Inside read opt last es) :=
  List.decidableBAll _ _

/-- A text with commas and all indices inside sets its vector, one with an index outside makes
`scanimage` exit, and no text makes it write outside. -/
structure Obeys (doubles : Doubles) (opt : VectorOption) (first : Element opt.unit)
    (further : List (Further opt.unit)) : Prop where
  accepted : (∀ f ∈ further, f.separator = .comma) →
    Inside Numeral.value opt (-1) (elements first further) →
    parseVector doubles opt (vectorText first further) =
      .ok (assigned doubles opt (elements first further))
  rejected : ¬ Inside Numeral.value opt (-1) (elements first further) →
    ∃ complaint, parseVector doubles opt (vectorText first further) = .error (.exit complaint)
  bounded : ∀ str, EndsWell (parseVector doubles opt str)

/-! ## Where the scanner takes it -/

/-- The unit is one that the scanner takes, at the end of the text or before a separator. -/
def isTaken (unit : SaneUnit) (isLast : Bool) (word : Option UnitWord) : Bool :=
  match unit with
  | .pixel => word = none
  | .mm => isLast ∨ word = some .quote
  | .dpi | .microsecond => isLast ∨ word = none
  | .none | .bit | .percent => true

def AllTaken : List (Element unit) → Prop
  | [] => True
  | e :: es => isTaken unit es.isEmpty e.word ∧ AllTaken es

/-- The `int` that an index is stored as. -/
def intIndex (index : Numeral) : Int := toInt32 (clampLong index.value)

/-- With commas and all indices inside, every unit is taken. With an index outside, some unit is not
taken or some index is outside even as an `int`. -/
structure Taken (opt : VectorOption) (first : Element opt.unit)
    (further : List (Further opt.unit)) : Prop where
  units : (∀ f ∈ further, f.separator = .comma) →
    Inside Numeral.value opt (-1) (elements first further) → AllTaken (elements first further)
  wrapped : ¬ Inside Numeral.value opt (-1) (elements first further) →
    AllTaken (elements first further) → ¬ Inside intIndex opt (-1) (elements first further)

/-! ## Units -/

section Units

variable {word : Option UnitWord} {tail : List UInt8}

/-- The text ends, or goes on with a separator. -/
def AtEnd (tail : List UInt8) : Prop := ∀ c ∈ tail.head?, c = 44 ∨ c = 45

/-- A unit that is taken is taken whole. -/
theorem takeUnit_taken (hword : ∀ w ∈ word, w ∈ unit.allowed) (htail : AtEnd tail)
    (h : isTaken unit tail.isEmpty word) :
    takeUnit unit (wordText word ++ tail) = some (wordFactor word, tail) := by
  cases word with
  | none =>
      cases tail with
      | nil => cases unit <;> rfl
      | cons c tail =>
          obtain rfl | rfl := htail c rfl
          all_goals
            cases unit with
            | mm => cases h
            | none | pixel | bit | dpi | percent | microsecond => rfl
  | some w =>
      have hallowed := hword w rfl
      cases unit with
      | none => cases hallowed
      | pixel => cases h
      | bit =>
          simp only [SaneUnit.allowed, List.mem_cons, List.not_mem_nil, or_false] at hallowed
          obtain rfl | rfl := hallowed <;> rfl
      | percent =>
          obtain rfl := List.mem_singleton.mp hallowed
          rfl
      | mm =>
          simp only [SaneUnit.allowed, List.mem_cons, List.not_mem_nil, or_false] at hallowed
          -- Before a separator, only the quote is taken.
          cases tail with
          | nil => obtain rfl | rfl | rfl | rfl := hallowed <;> rfl
          | cons c tail =>
              obtain rfl | rfl | rfl | rfl := hallowed
              · cases h
              · cases h
              · cases h
              · rfl
      | dpi | microsecond =>
          obtain rfl := List.mem_singleton.mp hallowed
          cases tail with
          | nil => rfl
          | cons c tail => cases h

/-- A unit that is not taken is illegal, or what is left of it an illegal separator. -/
theorem takeUnit_not_taken (hword : ∀ w ∈ word, w ∈ unit.allowed) (htail : AtEnd tail)
    (h : ¬ isTaken unit tail.isEmpty word) :
    takeUnit unit (wordText word ++ tail) = none ∨
      ∃ factor c rest, takeUnit unit (wordText word ++ tail) = some (factor, c :: rest) ∧
        c ≠ 45 ∧ c ≠ 44 := by
  cases word with
  | none =>
      cases tail with
      | nil => cases unit <;> exact absurd rfl h
      | cons c tail =>
          obtain rfl | rfl := htail c rfl
          all_goals
            cases unit with
            | mm => exact .inl rfl
            | none | pixel | bit | dpi | percent | microsecond => exact absurd rfl h
  | some w =>
      have hallowed := hword w rfl
      cases unit with
      | none => cases hallowed
      | bit | percent => exact absurd rfl h
      | pixel =>
          obtain rfl := List.mem_singleton.mp hallowed
          exact .inr ⟨_, _, _, rfl, by decide, by decide⟩
      | mm =>
          simp only [SaneUnit.allowed, List.mem_cons, List.not_mem_nil, or_false] at hallowed
          cases tail with
          | nil => exact absurd rfl h
          | cons c tail =>
              obtain rfl | rfl | rfl | rfl := hallowed
              · exact .inl rfl
              · exact .inl rfl
              · exact .inl rfl
              · exact absurd rfl h
      | dpi | microsecond =>
          obtain rfl := List.mem_singleton.mp hallowed
          cases tail with
          | nil => exact absurd rfl h
          | cons c tail => exact .inr ⟨_, _, _, rfl, by decide, by decide⟩

theorem noDigit_word (word : Option UnitWord) (htail : AtEnd tail) :
    NoDigit (wordText word ++ tail) := by
  cases word with
  | none =>
      intro c hc
      obtain rfl | rfl := htail c hc <;> decide
  | some w =>
      intro c hc
      cases w <;> cases hc <;> decide

end Units

/-! ## Elements -/

section Elements

variable {doubles : Doubles} {opt : VectorOption} {e : Element opt.unit} {s : VectorState}
  {tail : List UInt8}

/-- A numeral does not look like an index. -/
theorem head_numeral (numeral : Numeral) (rest : List UInt8) :
    (numeral.text ++ rest).head? ≠ some 91 := by
  obtain ⟨sign, text, hne, hdigit⟩ := numeral
  obtain ⟨c, text, rfl⟩ := List.exists_cons_of_ne_nil hne
  have hc := hdigit c (List.mem_cons_self ..)
  cases sign with
  | minus | plus => simp [Numeral.text, Sign.text]
  | absent =>
      simp only [Numeral.text, Sign.text, List.nil_append, List.cons_append, List.head?_cons, ne_eq,
        Option.some.injEq]
      rintro rfl
      exact absurd hc (by decide)

theorem readIndex_text (hstr : s.str = e.text ++ tail) :
    readIndex s = .ok (nextIndex intIndex s.index e.index,
      e.number.text ++ (wordText e.word ++ tail)) := by
  unfold readIndex
  rw [hstr, Element.text]
  cases hindex : e.index with
  | none =>
      have hhead := head_numeral e.number (wordText e.word ++ tail)
      simp only [indexText, List.nil_append, List.append_assoc]
      split
      · rename_i heq
        rw [heq] at hhead
        exact absurd rfl hhead
      · rfl
  | some index =>
      have hbracket : NoDigit (93 :: (e.number.text ++ (wordText e.word ++ tail))) := by
        intro c hc
        cases hc
        decide
      have hread := index.strtolEnd_text hbracket
      simp only [indexText, List.cons_append, List.append_assoc, List.nil_append, hread]
      rfl

theorem parseScalar_taken (htail : AtEnd tail) (h : isTaken opt.unit tail.isEmpty e.word) :
    parseScalar doubles opt (e.number.text ++ (wordText e.word ++ tail)) =
      .ok (tail, e.value doubles) := by
  unfold parseScalar
  rw [e.number.strtolEnd_text (noDigit_word e.word htail)]
  dsimp only
  rw [takeUnit_taken e.word_allowed htail h]
  rfl

/-- The turn for an element that the scanner takes. -/
theorem vectorTurn_taken (doubles : Doubles) (hstr : s.str = e.text ++ tail) (htail : AtEnd tail)
    (hs : Ready opt s) (hlo : 0 ≤ nextIndex intIndex s.index e.index)
    (hhi : nextIndex intIndex s.index e.index < opt.vectorLength)
    (h : isTaken opt.unit tail.isEmpty e.word) :
    ∃ s', vectorTurn doubles opt s = .ok s' ∧ Ready opt s' ∧ s'.str = tail.tail ∧
      s'.index = nextIndex intIndex s.index e.index ∧ s'.separator = tail.headD 0 ∧
      (s.separator ≠ 45 → s'.vector =
        s.vector.put (nextIndex intIndex s.index e.index).toNat (e.value doubles)) := by
  have hsize := hs.size
  have hin : ¬ (nextIndex intIndex s.index e.index < 0 ∨
      (opt.vectorLength : Int) ≤ nextIndex intIndex s.index e.index) := by omega
  have hseparator : ¬ (tail ≠ [] ∧ tail.head? ≠ some 45 ∧ tail.head? ≠ some 44) := by
    rintro ⟨hne, hdash, hcomma⟩
    obtain ⟨c, rest, rfl⟩ := List.exists_cons_of_ne_nil hne
    obtain rfl | rfl := htail c rfl
    · exact hcomma rfl
    · exact hdash rfl
  unfold vectorTurn
  rw [readIndex_text hstr, ok_bind]
  dsimp only
  rw [if_neg hin, parseScalar_taken htail h, ok_bind]
  dsimp only
  rw [if_neg hseparator, storeAt_eq hlo (by rw [hsize]; exact hhi), ok_bind]
  by_cases hline : s.separator = 45
  · have hend : nextIndex intIndex s.index e.index <
        (s.vector.put (nextIndex intIndex s.index e.index).toNat (e.value doubles)).size := by
      rw [Cells.size_put, hsize]
      exact hhi
    obtain ⟨vector, hrun, hkeep⟩ := interpolate_endsWell
      (doubles.onLine s.prevValue (e.value doubles)
        (nextIndex intIndex s.index e.index - s.prevIndex)) hs.prevIndex hend
    rw [if_pos hline, hrun, ok_bind]
    exact ⟨_, rfl, ⟨hkeep.trans hsize, hlo⟩, rfl, rfl, rfl, fun hsep => absurd hline hsep⟩
  · rw [if_neg hline, ok_bind]
    exact ⟨_, rfl, ⟨hsize, hlo⟩, rfl, rfl, rfl, fun _ => rfl⟩

/-- The turn for any other element. -/
theorem vectorTurn_not_taken (doubles : Doubles) (hstr : s.str = e.text ++ tail)
    (htail : AtEnd tail) (h : ¬ (0 ≤ nextIndex intIndex s.index e.index ∧
      nextIndex intIndex s.index e.index < opt.vectorLength ∧
      isTaken opt.unit tail.isEmpty e.word)) :
    ∃ complaint, vectorTurn doubles opt s = .error (.exit complaint) := by
  unfold vectorTurn
  rw [readIndex_text hstr, ok_bind]
  dsimp only
  by_cases hindex : nextIndex intIndex s.index e.index < 0 ∨
      (opt.vectorLength : Int) ≤ nextIndex intIndex s.index e.index
  · exact ⟨_, if_pos hindex⟩
  have hunit : ¬ isTaken opt.unit tail.isEmpty e.word := fun htaken =>
    h ⟨by omega, by omega, htaken⟩
  rw [if_neg hindex, parseScalar, e.number.strtolEnd_text (noDigit_word e.word htail)]
  dsimp only
  obtain hillegal | ⟨factor, c, rest, htake, hdash, hcomma⟩ :=
    takeUnit_not_taken e.word_allowed htail hunit
  · rw [hillegal]
    exact ⟨_, rfl⟩
  · rw [htake, ok_bind]
    dsimp only
    exact ⟨_, if_pos ⟨by simp, by simpa using hdash, by simpa using hcomma⟩⟩

end Elements

/-! ## Texts -/

section Texts

variable {doubles : Doubles} {opt : VectorOption} {first e : Element opt.unit}
  {further : List (Further opt.unit)} {es : List (Element opt.unit)} {s : VectorState} {last : Int}

/-- The stores of a text without a dash. -/
def putAll (pairs : List (Int × Int)) (vector : Cells Int) : Cells Int :=
  pairs.foldl (fun vector p => vector.put p.1.toNat p.2) vector

def pairs (read : Numeral → Int) (doubles : Doubles) (last : Int) (es : List (Element unit)) :
    List (Int × Int) :=
  (indices read last es).zip (es.map (Element.value doubles))

theorem inside_cons {read : Numeral → Int} :
    Inside read opt last (e :: es) ↔
      (0 ≤ nextIndex read last e.index ∧ nextIndex read last e.index < opt.vectorLength) ∧
        Inside read opt (nextIndex read last e.index) es :=
  List.forall_mem_cons

theorem isSeparator_char (separator : Separator) :
    separator.char = 44 ∨ separator.char = 45 := by
  cases separator with
  | comma => exact .inl rfl
  | dash => exact .inr rfl

theorem furtherText_cons (f : Further unit) (further : List (Further unit)) :
    furtherText (f :: further) = f.separator.char :: vectorText f.element further := rfl

theorem atEnd_furtherText (further : List (Further unit)) : AtEnd (furtherText further) := by
  intro c hc
  cases further with
  | nil => cases hc
  | cons f further =>
      cases hc
      exact isSeparator_char f.separator

theorem isEmpty_furtherText (further : List (Further unit)) :
    (furtherText further).isEmpty = (further.map Further.element).isEmpty := by
  cases further <;> rfl

/-- The turn for the first element of a text. -/
theorem firstTurn_taken (doubles : Doubles) (hstr : s.str = vectorText first further)
    (hs : Ready opt s) (hlo : 0 ≤ nextIndex intIndex s.index first.index)
    (hhi : nextIndex intIndex s.index first.index < opt.vectorLength)
    (h : isTaken opt.unit (further.map Further.element).isEmpty first.word) :
    ∃ s', vectorTurn doubles opt s = .ok s' ∧ Ready opt s' ∧ s'.str = (furtherText further).tail ∧
      s'.index = nextIndex intIndex s.index first.index ∧
      s'.separator = (furtherText further).headD 0 ∧
      (s.separator ≠ 45 → s'.vector =
        s.vector.put (nextIndex intIndex s.index first.index).toNat (first.value doubles)) := by
  rw [← isEmpty_furtherText] at h
  exact vectorTurn_taken doubles hstr (atEnd_furtherText further) hs hlo hhi h

/-- A text that the scanner takes is stored, element by element. -/
theorem vectorLoop_taken (doubles : Doubles) {fuel : Nat} (hstr : s.str = vectorText first further)
    (hfuel : s.str.length < fuel) (hs : Ready opt s)
    (hinside : Inside intIndex opt s.index (elements first further))
    (htaken : AllTaken (elements first further)) :
    ∃ vector, vectorLoop doubles opt fuel s = .ok vector ∧
      (s.separator ≠ 45 → (∀ f ∈ further, f.separator = .comma) →
        vector = putAll (pairs intIndex doubles s.index (elements first further)) s.vector) := by
  induction further generalizing fuel first s with
  | nil =>
      obtain ⟨fuel, rfl⟩ := Nat.exists_eq_succ_of_ne_zero (Nat.ne_zero_of_lt hfuel)
      obtain ⟨⟨hlo, hhi⟩, -⟩ := inside_cons.mp hinside
      obtain ⟨s', hturn, -, -, -, hsep, hput⟩ :=
        firstTurn_taken doubles hstr hs hlo hhi htaken.1
      have hend : ¬ (s'.separator = 44 ∨ s'.separator = 45) := by
        rw [hsep, furtherText, List.flatMap_nil]
        decide
      rw [vectorLoop, hturn, ok_bind, if_neg hend]
      exact ⟨_, rfl, fun hcomma _ => hput hcomma⟩
  | cons f further ih =>
      obtain ⟨fuel, rfl⟩ := Nat.exists_eq_succ_of_ne_zero (Nat.ne_zero_of_lt hfuel)
      obtain ⟨⟨hlo, hhi⟩, hinside⟩ := inside_cons.mp hinside
      obtain ⟨s', hturn, hs', hstr', hindex, hsep, hput⟩ :=
        firstTurn_taken doubles hstr hs hlo hhi htaken.1
      rw [furtherText_cons] at hsep hstr'
      have hmore : s'.separator = 44 ∨ s'.separator = 45 := by
        rw [hsep]
        exact isSeparator_char f.separator
      have hfuel' : s'.str.length < fuel := by
        rw [hstr, vectorText, furtherText_cons, List.length_append, List.length_cons] at hfuel
        rw [hstr', List.tail_cons]
        omega
      rw [← hindex] at hinside
      obtain ⟨vector, hrun, hvector⟩ := ih hstr' hfuel' hs' hinside htaken.2
      rw [vectorLoop, hturn, ok_bind, if_pos hmore, hrun]
      refine ⟨vector, rfl, fun hcomma hall => ?_⟩
      obtain ⟨hfirst, hall⟩ := List.forall_mem_cons.mp hall
      have hcomma' : s'.separator ≠ 45 := by
        rw [hsep, List.headD_cons, hfirst]
        decide
      rw [hvector hcomma' hall, hindex, hput hcomma]
      rfl

/-- At an element that it does not take, `scanimage` exits. -/
theorem vectorLoop_not_taken (doubles : Doubles) {fuel : Nat}
    (hstr : s.str = vectorText first further) (hfuel : s.str.length < fuel) (hs : Ready opt s)
    (h : ¬ (Inside intIndex opt s.index (elements first further) ∧
      AllTaken (elements first further))) :
    ∃ complaint, vectorLoop doubles opt fuel s = .error (.exit complaint) := by
  induction further generalizing fuel first s with
  | nil =>
      obtain ⟨fuel, rfl⟩ := Nat.exists_eq_succ_of_ne_zero (Nat.ne_zero_of_lt hfuel)
      obtain ⟨complaint, hturn⟩ := vectorTurn_not_taken doubles hstr (atEnd_furtherText []) <| by
        rintro ⟨hlo, hhi, hunit⟩
        exact h ⟨inside_cons.mpr ⟨⟨hlo, hhi⟩, List.forall_mem_nil _⟩, hunit, trivial⟩
      exact ⟨complaint, by rw [vectorLoop, hturn, error_bind]⟩
  | cons f further ih =>
      obtain ⟨fuel, rfl⟩ := Nat.exists_eq_succ_of_ne_zero (Nat.ne_zero_of_lt hfuel)
      by_cases hfirst : 0 ≤ nextIndex intIndex s.index first.index ∧
          nextIndex intIndex s.index first.index < opt.vectorLength ∧
          isTaken opt.unit (furtherText (f :: further)).isEmpty first.word
      · obtain ⟨hlo, hhi, hunit⟩ := hfirst
        obtain ⟨s', hturn, hs', hstr', hindex, hsep, -⟩ :=
          firstTurn_taken doubles hstr hs hlo hhi hunit
        have hmore := isSeparator_char f.separator
        have hfuel' : s'.str.length < fuel := by
          rw [hstr, vectorText, furtherText_cons, List.length_append, List.length_cons] at hfuel
          rw [hstr', furtherText_cons, List.tail_cons]
          omega
        rw [vectorLoop, hturn, ok_bind, hsep, furtherText_cons, List.headD_cons, if_pos hmore]
        refine ih hstr' hfuel' hs' ?_
        rintro ⟨hinside, htaken⟩
        rw [hindex] at hinside
        exact h ⟨inside_cons.mpr ⟨⟨hlo, hhi⟩, hinside⟩, hunit, htaken⟩
      · obtain ⟨complaint, hturn⟩ :=
          vectorTurn_not_taken doubles hstr (atEnd_furtherText (f :: further)) hfirst
        exact ⟨complaint, by rw [vectorLoop, hturn, error_bind]⟩

/-- The state before the first turn. -/
theorem ready_start (opt : VectorOption) (str : List UInt8) :
    Ready opt { str, vector := ⟨opt.vectorLength, fun _ => 0⟩ } :=
  ⟨rfl, le_rfl⟩

theorem parseVector_taken (doubles : Doubles)
    (hinside : Inside intIndex opt (-1) (elements first further))
    (htaken : AllTaken (elements first further)) :
    ∃ vector, parseVector doubles opt (vectorText first further) = .ok vector ∧
      ((∀ f ∈ further, f.separator = .comma) →
        vector = putAll (pairs intIndex doubles (-1) (elements first further))
          ⟨opt.vectorLength, fun _ => 0⟩) := by
  obtain ⟨vector, hrun, hvector⟩ := vectorLoop_taken doubles rfl (Nat.lt_succ_self _)
    (ready_start opt (vectorText first further)) hinside htaken
  have hstart : (0 : UInt8) ≠ 45 := by decide
  exact ⟨vector, hrun, hvector hstart⟩

theorem parseVector_not_taken (doubles : Doubles)
    (h : ¬ (Inside intIndex opt (-1) (elements first further) ∧
      AllTaken (elements first further))) :
    ∃ complaint, parseVector doubles opt (vectorText first further) = .error (.exit complaint) :=
  vectorLoop_not_taken doubles rfl (Nat.lt_succ_self _)
    (ready_start opt (vectorText first further)) h

/-! ## Indices -/

/-- An index inside is stored as it is. -/
theorem nextIndex_int {index : Option Numeral} (hlo : 0 ≤ nextIndex Numeral.value last index)
    (hhi : nextIndex Numeral.value last index < opt.vectorLength) :
    nextIndex intIndex last index = nextIndex Numeral.value last index := by
  have hsize := opt.size_le
  cases index with
  | none => rfl
  | some index =>
      change 0 ≤ index.value at hlo
      change index.value < opt.vectorLength at hhi
      change toInt32 (clampLong index.value) = index.value
      rw [VectorOption.vectorLength] at hhi
      rw [intMax] at hsize
      have hclamp : clampLong index.value = index.value := by
        rw [clampLong]
        omega
      rw [hclamp, toInt32_eq_self (by omega) (by omega)]

theorem indices_int (h : Inside Numeral.value opt last es) :
    indices intIndex last es = indices Numeral.value last es := by
  induction es generalizing last with
  | nil => rfl
  | cons e es ih =>
      obtain ⟨⟨hlo, hhi⟩, hrest⟩ := inside_cons.mp h
      rw [indices, indices, nextIndex_int hlo hhi, ih hrest]

theorem putAll_eq_assign {n : Nat} {ps : List (Int × Int)} (hps : ∀ p ∈ ps, 0 ≤ p.1)
    (values : Int → Int) :
    putAll ps ⟨n, fun i => values i⟩ = ⟨n, fun i => assign ps values i⟩ := by
  induction ps generalizing values with
  | nil => rfl
  | cons p ps ih =>
      obtain ⟨hp, hps⟩ := List.forall_mem_cons.mp hps
      have hput : Cells.put ⟨n, fun i => values i⟩ p.1.toNat p.2 =
          ⟨n, fun i => Function.update values p.1 p.2 i⟩ := by
        rw [Cells.put]
        congr 1
        funext i
        by_cases hi : (i : Int) = p.1
        · have hi' : i = p.1.toNat := by omega
          rw [hi, hi', Function.update_self, Function.update_self]
        · have hi' : i ≠ p.1.toNat := by omega
          rw [Function.update_of_ne hi, Function.update_of_ne hi']
      change putAll ps (Cells.put _ p.1.toNat p.2) = _
      rw [hput]
      exact ih hps _

/-- The stores of a text with all indices inside leave the vector of the grammar. -/
theorem putAll_assigned (doubles : Doubles) (h : Inside Numeral.value opt (-1) es) :
    putAll (pairs intIndex doubles (-1) es) ⟨opt.vectorLength, fun _ => 0⟩ =
      assigned doubles opt es := by
  rw [pairs, indices_int h]
  refine putAll_eq_assign (fun p hp => ?_) fun _ => 0
  obtain ⟨hindex, -⟩ := List.of_mem_zip (a := p.1) (b := p.2) hp
  exact (h _ hindex).1

end Texts

/-- A text does as the grammar says just if the scanner takes its units where they stand and no
index outside comes inside as an `int`. -/
theorem parseVector_obeys_iff (doubles : Doubles) (opt : VectorOption) (first : Element opt.unit)
    (further : List (Further opt.unit)) :
    Obeys doubles opt first further ↔ Taken opt first further := by
  constructor
  · intro h
    refine ⟨fun hcommas hinside => ?_, fun houtside hall hwrapped => ?_⟩
    · by_contra hall
      obtain ⟨complaint, hrun⟩ := parseVector_not_taken doubles fun ⟨_, hall'⟩ => hall hall'
      cases (h.accepted hcommas hinside).symm.trans hrun
    · obtain ⟨vector, hrun, -⟩ := parseVector_taken doubles hwrapped hall
      obtain ⟨complaint, hexit⟩ := h.rejected houtside
      cases hrun.symm.trans hexit
  · intro h
    refine ⟨fun hcommas hinside => ?_, fun houtside => ?_, parseVector_endsWell doubles opt⟩
    · have hint : Inside intIndex opt (-1) (elements first further) := by
        rw [Inside, indices_int hinside]
        exact hinside
      obtain ⟨vector, hrun, hvector⟩ := parseVector_taken doubles hint (h.units hcommas hinside)
      rw [← putAll_assigned doubles hinside, ← hvector hcommas]
      exact hrun
    · exact parseVector_not_taken doubles fun ⟨hint, hall⟩ => h.wrapped houtside hall hint

/-- Products rounded to the next integer, and points of a line rounded towards zero. -/
def roundedDoubles : Doubles where
  scaled
    | v, .one => v
    | v, .eight => v * 8
    | v, .ten => v * 10
    | v, .inch => Int.tdiv (v * 254 + 5 * v.sign) 10
  onLine start stop n k := Int.tdiv (start * n + (stop - start) * (k + 1)) n

/-- One digit, without an index or a unit. -/
def digitElement (unit : SaneUnit) (digit : UInt8) (h : 48 ≤ digit ∧ digit ≤ 57) :
    Element unit where
  index := none
  number :=
    { digits := [digit]
      digits_ne_nil := List.cons_ne_nil _ _
      digit_of_mem := List.forall_mem_singleton.mpr h }
  word := none
  word_allowed _ hw := by cases hw

def twoLengths : VectorOption where
  unit := .mm
  size := 8
  size_le := by decide

/-- `1,2` for two lengths. -/
theorem not_obeys_twoLengths :
    vectorText (digitElement .mm 49 (by decide))
      [⟨.comma, digitElement .mm 50 (by decide)⟩] = ascii ['1', ',', '2'] ∧
    parseVector roundedDoubles twoLengths (ascii ['1', ',', '2']) =
      .error (.exit (.illegalUnit (ascii [',', '2']))) ∧
    ¬ Obeys roundedDoubles twoLengths (digitElement .mm 49 (by decide))
      [⟨.comma, digitElement .mm 50 (by decide)⟩] := by
  have hrun : parseVector roundedDoubles twoLengths (ascii ['1', ',', '2']) =
      .error (.exit (.illegalUnit (ascii [',', '2']))) := by rfl
  refine ⟨rfl, hrun, fun h => ?_⟩
  have hinside : Inside Numeral.value twoLengths (-1) (elements (digitElement .mm 49 (by decide))
      [⟨.comma, digitElement .mm 50 (by decide)⟩]) := by
    decide
  have hset := h.accepted (by simp) hinside
  cases hrun.symm.trans hset

/-- The index `2 ^ 32 + 1` is taken for 1. -/
example : ∃ vector, vector.cell 1 = 5 ∧ parseVector roundedDoubles twoLengths
    (ascii ['[', '4', '2', '9', '4', '9', '6', '7', '2', '9', '7', ']', '5']) = .ok vector :=
  ⟨_, rfl, rfl⟩

end SaneBackends.Scanimage
