import SaneBackends.Sanei.Decoding
/-!
# What decoding takes from the wire

Decoding takes a first part of the bytes yet to be decoded. When it ends with status 0
the value is the one these bytes hold, whatever was in its place before.
-/

namespace SaneBackends.Sanei

open SaneBackends.Lib

/-- From `w` to `w'` the bytes were decoded. -/
structure Consumed (bytes : List UInt8) (w w' : Wire) : Prop where
  version : w'.version = w.version
  input : w.input = bytes ++ w'.input

theorem Consumed.refl (w : Wire) : Consumed [] w w := ⟨rfl, rfl⟩

theorem Consumed.trans {bytes bytes' : List UInt8} {w w' w'' : Wire} (h : Consumed bytes w w')
    (h' : Consumed bytes' w' w'') : Consumed (bytes ++ bytes') w w'' where
  version := h'.version.trans h.version
  input := by rw [h.input, h'.input, List.append_assoc]

def consuming : Graded Wire UInt8 := ⟨Consumed, Consumed.refl, Consumed.trans⟩

/-- Whatever is on the wire, decoding ends without a fault; with status 0 it leaves `post`
of the value and the bytes. -/
abbrev Consumes {α : Type} (m : WireM α) (post : α → List UInt8 → Prop) : Prop :=
  consuming.Triple Decoding Fine m post

/-- A word among the bytes of a stream. -/
def wordOf (bytes : List UInt8) (i : Nat) : SaneWord := bytesWord ((bytes.drop (4 * i)).take 4)

theorem wordOf_append {bytes : List UInt8} {i : Nat} (h : 4 * i + 4 ≤ bytes.length)
    (rest : List UInt8) : wordOf (bytes ++ rest) i = wordOf bytes i := by
  rw [wordOf, wordOf, List.drop_append_of_le_length (by omega),
    List.take_append_of_le_length (by rw [List.length_drop]; omega)]

theorem wordOf_append_succ {word : List UInt8} (h : word.length = 4) (rest : List UInt8) (i : Nat) :
    wordOf (word ++ rest) (i + 1) = wordOf rest i := by
  rw [wordOf, wordOf, Nat.mul_succ, Nat.add_comm, ← h, List.drop_length_add_append]

theorem consumes_scalar {α : Type} {n : Nat} (put : α → List UInt8) (peek : List UInt8 → α) (x : α) :
    Consumes ((binWScalar n put peek).run x) fun y bytes => bytes.length = n ∧ y = peek bytes := by
  intro w hw
  obtain ⟨hrec, hsound, hdone⟩ := saneiWSpace_decode hw.direction hw.sound n
  have hdir : (saneiWSpace n w).direction = .decode := by
    rw [hrec.eq]
    exact hw.direction
  have hversion : (saneiWSpace n w).version = w.version := by rw [hrec.eq]
  by_cases hst : (saneiWSpace n w).status = 0
  · obtain ⟨hok, hle⟩ := hdone hst
    refine ⟨_, (saneiWSpace n w).advance n, _,
      binWScalar_run_decode put peek x hw.direction hw.sound hst, ⟨hdir, hsound.advance hle⟩,
      ⟨hversion, ?_⟩, fun _ => ⟨hok, slice_length .., rfl⟩⟩
    rw [← hrec.input]
    exact (input_advance hle).symm
  · refine ⟨x, saneiWSpace n w, [], ?_, ⟨hdir, hsound⟩, ⟨hversion, hrec.input.symm⟩,
      fun h => absurd h hst⟩
    simp [binWScalar, hst]
    rfl

theorem consumes_word (x : SaneWord) :
    Consumes (binWWord.run x) fun y bytes => bytes.length = 4 ∧ y = bytesWord bytes :=
  consumes_scalar _ _ x

section Arrays

variable {α : Type} {element : WireCodecFunc α}

theorem consumes_elements (helement : ∀ x, Consumes (element.run x) fun _ _ => True) (xs : List α) :
    Consumes (transferElements element xs.length xs) fun ys _ => ys.length = xs.length := by
  induction xs with
  | nil => exact .pure rfl
  | cons x xs ih =>
      apply (helement x).bind
      intro y w hw
      apply Graded.At.get_bind
      split_ifs with hst
      · exact .pure hw fun hok => absurd hok hst
      · apply (ih w hw).bind
        intro ys w' bytes hw' hys
        apply Graded.At.pure hw'
        intro hok _ _
        rw [List.length_cons, List.length_cons, (hys hok).2]

theorem at_consumes_setStatus {w : Wire} (hw : Decoding w) {status : Nat} (hst : status ≠ 0) (a : α)
    (post : α → List UInt8 → Prop) :
    consuming.At Decoding Fine w (do setStatus status; pure a) post :=
  ⟨a, { w with status }, [], rfl, ⟨hw.direction, hw.sound⟩, ⟨rfl, rfl⟩, fun h => absurd h hst⟩

theorem at_consumes_allocate {w : Wire} (hw : Decoding w) (site : ChargeSite) (bytes : Nat) :
    consuming.At Decoding Fine w (allocate site bytes) fun addr cs => addr ≠ none ∧ cs = [] := by
  by_cases hgrant : w.heap.grant w.heap.asked
  · obtain ⟨heap, hrun, -, -⟩ := allocate_granted hgrant site bytes
    exact ⟨some w.heap.next, _, [], hrun, ⟨hw.direction, hw.sound⟩, ⟨rfl, rfl⟩,
      fun hok => ⟨hok, nofun, rfl⟩⟩
  · obtain ⟨heap, hmalloc, -⟩ := malloc_refused hgrant
    refine ⟨none, { w with heap, status := enomem }, [], ?_, ⟨hw.direction, hw.sound⟩, ⟨rfl, rfl⟩,
      fun hok => absurd hok (by decide : enomem ≠ 0)⟩
    simp only [allocate, StateT.run_bind, StateT.run_get, pure_bind, hmalloc]
    rfl

/-- An array starts with its length, and has as many elements. -/
theorem consumes_array {zero : α} {size : Nat} (lenPtr : SaneWord) (v : Ptr (List α))
    (helement : ∀ x, Consumes (element.run x) fun _ _ => True) :
    Consumes (saneiWArray binWWord element zero size lenPtr v) fun p bytes =>
      4 ≤ bytes.length ∧ p.1 = wordOf bytes 0 ∧ (Ptr.cells p.2).length = p.1.toInt.toNat := by
  intro w hw
  apply Graded.At.get_bind
  simp only [hw.direction]
  apply Graded.At.get_bind
  apply (consumes_word w.stale w hw).bind
  intro len w₁ word hw₁ hword
  have hlen : Fine w₁ → ∀ rest : List UInt8, 4 ≤ (word ++ rest).length ∧
      len = wordOf (word ++ rest) 0 := by
    intro hok rest
    obtain ⟨-, hlength, rfl⟩ := hword hok
    refine ⟨by rw [List.length_append]; omega, ?_⟩
    rw [wordOf_append (by omega), wordOf, Nat.mul_zero, List.drop_zero, ← hlength,
      List.take_length]
  apply Graded.At.get_bind
  split_ifs with hst hzero
  · exact .pure hw₁ fun hok => absurd hok hst
  · apply Graded.At.pure hw₁
    intro hok
    refine ⟨(hlen hok []).1, (hlen hok []).2, ?_⟩
    rw [hzero]
    rfl
  apply Graded.At.get_bind
  split_ifs with hexceeds
  · exact at_consumes_setStatus hw₁ (by decide) _ _
  obtain ⟨hle, -, -⟩ := le_of_not_exceedsMaxMem hexceeds
  apply (at_consumes_allocate hw₁ .array _).bind
  intro addr w₂ none₂ hw₂ haddr
  cases addr with
  | none => exact .pure hw₂ fun hok => absurd rfl (haddr hok).2.1
  | some addr =>
      have hint : len.toInt = len.toNat := BitVec.toInt_eq_toNat_of_lt (by
        have hbig : maxMem = 2 ^ 20 := rfl
        omega)
      have hcount : len.toInt.toNat = len.toNat := by omega
      have helements := consumes_elements helement (List.replicate len.toNat zero)
      rw [List.length_replicate] at helements
      rw [hcount]
      apply (helements w₂ hw₂).bind
      intro ys w₃ bytes hw₃ hys
      apply Graded.At.pure hw₃
      intro hok
      obtain ⟨hok₂, hlength⟩ := hys hok
      have hok₁ := (haddr hok₂).1
      exact ⟨(hlen hok₁ _).1, (hlen hok₁ _).2, hlength.trans hcount.symm⟩

end Arrays

/-- The bytes of an element of an option value. -/
def elementSize (type : SaneWord) : Nat :=
  if type = typeBool ∨ type = typeInt ∨ type = typeFixed then sizeofWord
  else if type = typeString then sizeofChar
  else 0

/-- The bytes of the block of an option value. -/
def OptionValue.size : OptionValue → Nat
  | words ws => ws.length * sizeofWord
  | chars cs => cs.length * sizeofChar
  | voids _ => 0

/-- The bytes a pointer to an option value may be used for. -/
def valueBytes (value : Ptr OptionValue) : Nat := (value.map fun block => block.val.size).getD 0

/-- A block of the cells a type transfers. -/
def OptionValue.OfType (type : SaneWord) : OptionValue → Prop
  | words _ => type = typeBool ∨ type = typeInt ∨ type = typeFixed
  | chars _ => type = typeString
  | voids _ => type = typeButton ∨ type = typeGroup

/-- The types `w_option_value` knows. -/
def IsValueType (type : SaneWord) : Prop :=
  (type = typeBool ∨ type = typeInt ∨ type = typeFixed) ∨ type = typeString ∨
    type = typeButton ∨ type = typeGroup

theorem consumes_optionValue (type size : SaneWord) (value : Ptr OptionValue) :
    Consumes (wOptionValue binCodec type size value) fun y bytes =>
      4 ≤ bytes.length ∧ valueBytes y = (wordOf bytes 0).toInt.toNat * elementSize type ∧
        IsValueType type ∧ ∀ block ∈ y, block.val.OfType type := by
  unfold wOptionValue elementSize
  split_ifs with hwords hstring hvoids
  · apply (consumes_array _ _ fun x => (consumes_word x).conseq fun _ _ _ => trivial).bind
    intro p
    apply Graded.Triple.pure
    rintro bytes ⟨hlength, hcount, hcells⟩
    rw [List.append_nil, ← hcount, ← hcells]
    refine ⟨hlength, ?_, .inl hwords, ?_⟩
    · cases p.2 <;> simp [valueBytes, Ptr.cast, Ptr.cells, OptionValue.size]
    · cases p.2 <;> simp [Ptr.cast, OptionValue.OfType, hwords]
  · apply (consumes_array _ _ fun x => (consumes_scalar _ _ x).conseq fun _ _ _ => trivial).bind
    intro p
    apply Graded.Triple.pure
    rintro bytes ⟨hlength, hcount, hcells⟩
    rw [List.append_nil, ← hcount, ← hcells]
    refine ⟨hlength, ?_, .inr (.inl hstring), ?_⟩
    · cases p.2 <;> simp [valueBytes, Ptr.cast, Ptr.cells, OptionValue.size]
    · cases p.2 <;> simp [Ptr.cast, OptionValue.OfType, hstring]
  · apply (consumes_array _ _ fun x => .pure trivial).bind
    intro p
    apply Graded.Triple.pure
    rintro bytes ⟨hlength, hcount, hcells⟩
    rw [List.append_nil]
    refine ⟨hlength, ?_, .inr (.inr hvoids), ?_⟩
    · cases p.2 <;> simp [valueBytes, Ptr.cast, OptionValue.size]
    · cases p.2 <;> simp [Ptr.cast, OptionValue.OfType, hvoids]
  · exact fun w hw => at_consumes_setStatus hw (by decide) _ _

theorem Consumes.at {α : Type} {m : WireM α} {post : α → List UInt8 → Prop}
    (h : Consumes m post) (version : Int) : consuming.Triple (DecodingAt version) Fine m post := by
  apply h.strengthen fun w hw => hw.1
  intro bytes w w' hw hconsumed hw'
  exact ⟨hw', hconsumed.version.trans hw.2⟩

/-- The fields of a control-option request that are always transmitted. -/
def HeadOf (req : SaneControlOptionReq) (bytes : List UInt8) : Prop :=
  12 ≤ bytes.length ∧ req.handle = wordOf bytes 0 ∧ req.option = wordOf bytes 1 ∧
    req.action = wordOf bytes 2

/-- The other ones. The number of elements is the sixth word. -/
def ValueOf (req : SaneControlOptionReq) (bytes : List UInt8) : Prop :=
  24 ≤ bytes.length ∧ req.valueType = wordOf bytes 3 ∧ req.valueSize = wordOf bytes 4 ∧
    valueBytes req.value = (wordOf bytes 5).toInt.toNat * elementSize req.valueType ∧
    IsValueType req.valueType ∧ ∀ block ∈ req.value, block.val.OfType req.valueType

theorem wordOf_of_length {word : List UInt8} (h : word.length = 4) (rest : List UInt8) :
    wordOf (word ++ rest) 0 = bytesWord word := by
  rw [wordOf_append (by omega), wordOf, Nat.mul_zero, List.drop_zero, ← h, List.take_length]

/-- What is not transmitted stays as it was. -/
theorem consumes_controlOptionReq (version : Int) (stale : SaneControlOptionReq) :
    consuming.Triple (DecodingAt version) Fine (saneiWControlOptionReq binCodec stale)
      fun req bytes => HeadOf req bytes ∧
        if carriesValue version req.action then ValueOf req bytes
        else req.valueType = stale.valueType ∧ req.valueSize = stale.valueSize ∧
          req.value = stale.value := by
  apply ((consumes_word stale.handle).at version).bind
  intro handle
  apply ((consumes_word stale.option).at version).bind
  intro option
  apply ((consumes_word stale.action).at version).bind
  intro action w hw
  apply Graded.At.get_bind
  have hcarries : (w.version < 3 ∨ action ≠ actionSetAuto) ↔ carriesValue version action := by
    rw [hw.2]
    simp [carriesValue]
  simp only [hcarries]
  split_ifs with hvalue
  · apply ((consumes_word stale.valueType).at version w hw).bind
    intro valueType w₁ bytes₄ hw₁ h₄
    apply ((consumes_word stale.valueSize).at version w₁ hw₁).bind
    intro valueSize w₂ bytes₅ hw₂ h₅
    apply ((consumes_optionValue valueType valueSize stale.value).at version w₂ hw₂).bind
    intro value w₃ bytes₆ hw₃ h₆
    apply Graded.At.pure hw₃
    rintro hok bytes₃ ⟨hl₃, rfl⟩ bytes₂ ⟨hl₂, rfl⟩ bytes₁ ⟨hl₁, rfl⟩
    obtain ⟨hok₂, hl₆, hbytes, hof⟩ := h₆ hok
    obtain ⟨hok₁, hl₅, rfl⟩ := h₅ hok₂
    obtain ⟨-, hl₄, rfl⟩ := h₄ hok₁
    rw [if_pos hvalue]
    refine ⟨⟨by simp only [List.length_append]; omega, ?_⟩,
      ⟨by simp only [List.length_append]; omega, ?_⟩⟩
    · simp only [wordOf_append_succ hl₁, wordOf_append_succ hl₂, wordOf_of_length hl₁,
        wordOf_of_length hl₂, wordOf_of_length hl₃, and_self]
    · simp only [wordOf_append_succ hl₁, wordOf_append_succ hl₂, wordOf_append_succ hl₃,
        wordOf_append_succ hl₄, wordOf_append_succ hl₅, wordOf_of_length hl₄,
        wordOf_of_length hl₅, true_and]
      rw [List.append_nil]
      exact ⟨hbytes, hof⟩
  · apply Graded.At.pure hw
    rintro - bytes₃ ⟨hl₃, rfl⟩ bytes₂ ⟨hl₂, rfl⟩ bytes₁ ⟨hl₁, rfl⟩
    rw [if_neg hvalue]
    refine ⟨⟨by simp only [List.length_append]; omega, ?_⟩, rfl, rfl, rfl⟩
    simp only [wordOf_append_succ hl₁, wordOf_append_succ hl₂, wordOf_of_length hl₁,
      wordOf_of_length hl₂, wordOf_of_length hl₃, and_self]

/-- A word that is decoded leaves a wire that decodes, and started from a good status. -/
theorem word_decodes {w w' : Wire} {x a : SaneWord} (hw : Decoding w)
    (hrun : (binWWord.run x).run w = .ok (a, w')) :
    Decoding w' ∧ w'.version = w.version ∧ (w'.status = 0 → w.status = 0) := by
  obtain ⟨a', w₁, bytes, hrun', hw', hconsumed, hpost⟩ := consumes_word x w hw
  cases hrun.symm.trans hrun'
  exact ⟨hw', hconsumed.version, fun hok => (hpost hok).1⟩

/-- What a word held before does not matter once it is decoded. -/
theorem word_repeats {w w' : Wire} {x y a : SaneWord} (hw : Decoding w)
    (hrun : (binWWord.run x).run w = .ok (a, w')) (hok : w'.status = 0) :
    (binWWord.run y).run w = .ok (a, w') := by
  by_cases hst : (saneiWSpace 4 w).status = 0
  · have hpeek := fun z => binWScalar_run_decode wordBytes bytesWord z hw.direction hw.sound hst
    exact (hpeek y).trans ((hpeek x).symm.trans hrun)
  · have hbad : (binWWord.run x).run w = .ok (x, saneiWSpace 4 w) := by
      simp [binWWord, binWScalar, hst]
      rfl
    cases hrun.symm.trans hbad
    exact absurd hok hst

theorem bind_apply_eq_ok {α β : Type} {m : WireM α} {k : α → WireM β} {w w' : Wire} {b : β} :
    (m >>= k) w = .ok (b, w') ↔ ∃ a w₁, m w = .ok (a, w₁) ∧ k a w₁ = .ok (b, w') := by
  refine bind_eq_ok.trans ⟨?_, ?_⟩
  · rintro ⟨⟨a, w₁⟩, hm, hk⟩
    exact ⟨a, w₁, hm, hk⟩
  · rintro ⟨a, w₁, hm, hk⟩
    exact ⟨(a, w₁), hm, hk⟩

theorem get_bind_apply {α : Type} (k : Wire → WireM α) (w : Wire) :
    (get >>= k) w = k w w := rfl

/-- A request that carries no value is decoded the same over whatever there was before. -/
theorem controlOptionReq_repeats {w w' : Wire} {stale stale' req : SaneControlOptionReq}
    (hw : Decoding w) (hrun : (saneiWControlOptionReq binCodec stale).run w = .ok (req, w'))
    (hok : w'.status = 0) (hcarries : ¬ carriesValue w.version req.action) :
    (saneiWControlOptionReq binCodec stale').run w = .ok ({ stale' with
      handle := req.handle, option := req.option, action := req.action }, w') := by
  obtain ⟨handle, w₁, h₁, hrun⟩ := bind_apply_eq_ok.mp hrun
  obtain ⟨option, w₂, h₂, hrun⟩ := bind_apply_eq_ok.mp hrun
  obtain ⟨action, w₃, h₃, hrun⟩ := bind_apply_eq_ok.mp hrun
  obtain ⟨hw₁, hversion₁, hfine₁⟩ := word_decodes hw h₁
  obtain ⟨hw₂, hversion₂, hfine₂⟩ := word_decodes hw₁ h₂
  obtain ⟨-, hversion₃, hfine₃⟩ := word_decodes hw₂ h₃
  have hversion : w₃.version = w.version := hversion₃.trans (hversion₂.trans hversion₁)
  by_cases hvalue : w₃.version < 3 ∨ action ≠ actionSetAuto
  · have haction : req.action = action := by
      rw [get_bind_apply, if_pos hvalue] at hrun
      obtain ⟨valueType, w₄, -, hrun⟩ := bind_apply_eq_ok.mp hrun
      obtain ⟨valueSize, w₅, -, hrun⟩ := bind_apply_eq_ok.mp hrun
      obtain ⟨value, w₆, -, hrun⟩ := bind_apply_eq_ok.mp hrun
      cases hrun
      rfl
    rw [hversion] at hvalue
    rw [haction] at hcarries
    exact absurd (by simpa [carriesValue] using hvalue) hcarries
  · have hlast : ∀ kept : SaneControlOptionReq, ∀ m : WireM SaneControlOptionReq,
        (get >>= fun w => if w.version < 3 ∨ action ≠ actionSetAuto then m else pure kept) w₃ =
          .ok (kept, w₃) := by
      intro kept m
      rw [get_bind_apply, if_neg hvalue]
      rfl
    cases (hlast _ _).symm.trans hrun
    have hok₂ := hfine₃ hok
    have hok₁ := hfine₂ hok₂
    refine bind_apply_eq_ok.mpr ⟨_, _, word_repeats hw h₁ hok₁, ?_⟩
    refine bind_apply_eq_ok.mpr ⟨_, _, word_repeats hw₁ h₂ hok₂, ?_⟩
    exact bind_apply_eq_ok.mpr ⟨_, _, word_repeats hw₂ h₃ hok, hlast _ _⟩

end SaneBackends.Sanei
