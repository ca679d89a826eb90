import SaneBackends.Saned.ControlOption
import SaneBackends.Sanei.Consuming
import SaneBackends.Sanei.DecodeMemory
import SaneBackends.Sanei.Encoding
/-!
# The length of an option value

The size the client states for a value and the number of elements it sends are two words
of the request. The block the backend gets has room for the stated size just if the words
agree, or the block is made anew for a string that is to be read.
-/

namespace SaneBackends.Saned

open SaneBackends.Lib SaneBackends.Sanei

/-- The block of the value holds the size the request states. -/
def Fits (req : SaneControlOptionReq) : Prop := req.valueSize.toInt ≤ valueBytes req.value

/-- The backend writes inside the block. -/
def ControlAnswer.InPlace (answer : ControlAnswer) : Prop :=
  ∀ type v, v.OfType type → (answer.store v).OfType type ∧ (answer.store v).size = v.size

/-- A request that is executed hands the backend a block of the stated size, and the reply
is encoded from inside the block, whatever the uninitialised request holds. -/
def ValueHeld (t : HandleTable) (w : Wire) : Prop :=
  ∀ stale req w', (controlOptionCall t stale).run w = .ok (some req, w') →
    Fits req ∧ ∀ answer : ControlAnswer, answer.InPlace → ∀ version v, Streaming version v →
      ∃ r, (saneiWControlOptionReply binCodec (controlOptionReply req answer)).run v = .ok r

/-- The value is transmitted, and is a string to be read or has the elements for the size. -/
def ValueSized (version : Int) (input : List UInt8) : Prop :=
  carriesValue version (wordOf input 2) ∧
    (wordOf input 3 = typeString ∧ wordOf input 2 = actionGetValue ∨
      (wordOf input 4).toInt ≤ (wordOf input 5).toInt.toNat * elementSize (wordOf input 3))

section Encode

variable {version : Int}

/-- A negative length is sent, and no element. -/
theorem emits_array_negative {α : Type} {element : WireCodecFunc α} {zero : α} {size : Nat}
    {len : SaneWord} (hlen : len.toInt < 0) (v : Ptr (List α)) :
    Emits version (saneiWArray binWWord element zero size len v) (wordBytes len)
      fun _ => True := by
  have hnone : len.toInt.toNat = 0 := by omega
  apply Emits.get_bind
  intro w hw
  simp only [hw.direction]
  apply (emits_word len).bind_nil
  rintro _ rfl
  apply Emits.unless_bad trivial
  rw [hnone]
  cases v with
  | none => exact .pure trivial
  | some block => exact .pure trivial

/-- Any length up to the cells there are can be encoded. -/
theorem emits_array_le {α : Type} {element : WireCodecFunc α} {sending : α → Sending} {zero : α}
    {size : Nat} {len : SaneWord} {v : Ptr (List α)} (helement : Sends version element.run sending)
    (hheld : ∀ x, (sending x).held) (hlen : len.toInt ≤ (Ptr.cells v).length) :
    ∃ bytes, Emits version (saneiWArray binWWord element zero size len v) bytes
      fun _ => True := by
  by_cases hneg : len.toInt < 0
  · exact ⟨_, emits_array_negative hneg v⟩
  · have hbound := len.toInt_lt
    have hcount : len = BitVec.ofNat 32 len.toInt.toNat := by
      apply BitVec.eq_of_toInt_eq
      rw [toInt_ofNat_of_le_intMax (by unfold intMax; omega)]
      omega
    refine ⟨_, emits_array helement hcount (by omega) ⟨?_, by omega, fun x _ => hheld x⟩⟩
    unfold intMax
    omega

/-- The whole words of a size are no more than the cells that hold it. -/
theorem sdiv_sizeofWord_le {size : SaneWord} {n : Nat} (h : size.toInt ≤ n * 4) :
    (size.sdiv (BitVec.ofNat 32 sizeofWord)).toInt ≤ n := by
  have hlo := size.le_toInt
  have hhi := size.toInt_lt
  have hfour : (BitVec.ofNat 32 sizeofWord).toInt = 4 := by decide
  rw [BitVec.toInt_sdiv, hfour, Int.bmod_def]
  have hdiv : size.toInt.tdiv 4 = if 0 ≤ size.toInt then size.toInt / 4 else -(-size.toInt / 4) := by
    split_ifs with hpos
    · exact Int.tdiv_eq_ediv_of_nonneg hpos
    · rw [← Int.neg_neg size.toInt, Int.neg_tdiv, Int.tdiv_eq_ediv_of_nonneg (by omega), Int.neg_neg]
  rw [hdiv]
  split_ifs <;> omega

/-- An option value whose block holds the size can be encoded. -/
theorem emits_optionValue_of_size {type size : SaneWord} {value : Ptr OptionValue}
    (htype : IsValueType type) (hof : ∀ block ∈ value, block.val.OfType type)
    (hsize : size.toInt ≤ valueBytes value) :
    ∃ bytes, Emits version (wOptionValue binCodec type size value) bytes fun _ => True := by
  unfold wOptionValue
  split_ifs with hwords hstring hvoids
  · have hcells : (valueBytes value : Int) =
        (Ptr.cells (Ptr.cast OptionValue.asWords value)).length * 4 := by
      cases value with
      | none => rfl
      | some block =>
          obtain ⟨addr, v⟩ := block
          have hv := hof _ rfl
          cases v with
          | words ws => simp [valueBytes, OptionValue.size, Ptr.cells, Ptr.cast,
              OptionValue.asWords, sizeofWord]
          | chars cs =>
              have htype : type = typeString := hv
              rw [htype] at hwords
              exact absurd hwords (by decide)
          | voids us =>
              have htype : type = typeButton ∨ type = typeGroup := hv
              rcases htype with rfl | rfl <;> exact absurd hwords (by decide)
    rw [hcells] at hsize
    obtain ⟨bytes, hemits⟩ := @emits_array_le version _ _ wordSending 0 sizeofWord _
      (Ptr.cast OptionValue.asWords value) sends_word (fun _ => trivial) (sdiv_sizeofWord_le hsize)
    exact ⟨bytes, hemits.bind_nil fun _ _ => .pure trivial⟩
  · have hcells : valueBytes value =
        (Ptr.cells (Ptr.cast OptionValue.asChars value)).length := by
      cases value with
      | none => rfl
      | some block =>
          obtain ⟨addr, v⟩ := block
          have hv := hof _ rfl
          cases v with
          | words ws => exact absurd hv hwords
          | chars cs => simp [valueBytes, OptionValue.size, Ptr.cells, Ptr.cast,
              OptionValue.asChars, sizeofChar]
          | voids us =>
              have htype : type = typeButton ∨ type = typeGroup := hv
              rcases htype with rfl | rfl <;> exact absurd hstring (by decide)
    rw [hcells] at hsize
    obtain ⟨bytes, hemits⟩ := @emits_array_le version _ _ byteSending 0 sizeofChar _
      (Ptr.cast OptionValue.asChars value) sends_byte (fun _ => trivial) hsize
    exact ⟨bytes, hemits.bind_nil fun _ _ => .pure trivial⟩
  · have hvoid : Sends version saneiWVoid.run fun _ => ⟨[], 0, True⟩ := fun _ _ => .pure trivial
    obtain ⟨bytes, hemits⟩ := @emits_array_le version _ saneiWVoid _ () 0 0
      (Ptr.cast OptionValue.asVoids value) hvoid (fun _ => trivial) (Int.natCast_nonneg _)
    exact ⟨bytes, hemits.bind_nil fun _ _ => .pure trivial⟩
  · rcases htype with h | h | h
    · exact absurd h hwords
    · exact absurd h hstring
    · exact absurd h hvoids

/-- The reply to a request whose block fits is encoded without a fault. -/
theorem reply_encodes {req : SaneControlOptionReq} (htype : IsValueType req.valueType)
    (hof : ∀ block ∈ req.value, block.val.OfType req.valueType) (hfits : Fits req)
    {answer : ControlAnswer} (hplace : answer.InPlace) {v : Wire} (hv : Streaming version v) :
    ∃ r, (saneiWControlOptionReply binCodec (controlOptionReply req answer)).run v = .ok r := by
  set reply := controlOptionReply req answer with hreply
  have hsize : reply.valueSize.toInt ≤ valueBytes reply.value := by
    have hsame : valueBytes reply.value = valueBytes req.value := by
      rw [hreply, controlOptionReply]
      dsimp only
      cases hvalue : req.value with
      | none => rfl
      | some block => exact (hplace _ _ (hof block (hvalue ▸ rfl))).2
    rw [hsame]
    exact hfits
  have hof' : ∀ block ∈ reply.value, block.val.OfType reply.valueType := by
    rw [hreply, controlOptionReply]
    dsimp only
    intro block hblock
    obtain ⟨block', hblock', rfl⟩ := Option.mem_map.mp hblock
    exact (hplace _ _ (hof block' hblock')).1
  obtain ⟨bytes, hvalue⟩ := @emits_optionValue_of_size version _ _ _ htype hof' hsize
  have hall : Emits version (saneiWControlOptionReply binCodec reply)
      (wordBytes reply.status ++ (wordBytes reply.info ++ (wordBytes reply.valueType ++
        (wordBytes reply.valueSize ++ (bytes ++ (stringSending none).bytes))))) fun _ => True := by
    apply (emits_enum reply.status).bind
    intro status _
    apply (emits_word reply.info).bind
    intro info _
    apply (emits_word reply.valueType).bind
    rintro _ rfl
    apply (emits_word reply.valueSize).bind
    rintro _ rfl
    apply hvalue.bind
    intro value _
    have hresource : (stringSending none).held :=
      ⟨⟨by decide, by decide, nofun⟩, fun h => absurd rfl h⟩
    exact (sends_string none hresource).bind_nil fun _ _ => .pure trivial
  obtain ⟨a, v', -, hrun, -⟩ := hall v hv
  exact ⟨(a, v'), hrun⟩

end Encode

section Call

variable {t : HandleTable} {w w' : Wire} {stale req : SaneControlOptionReq}

theorem replaceString_some (h : replaceString req w = .ok (some stale, w')) :
    ∃ addr, stale = { req with
      value := some ⟨addr, .chars (List.replicate req.valueSize.toInt.toNat 0)⟩ } := by
  obtain ⟨-, w₁, -, h⟩ := bind_apply_eq_ok.mp h
  obtain ⟨addr, w₂, -, h⟩ := bind_apply_eq_ok.mp h
  cases addr with
  | none => cases h
  | some addr =>
      cases h
      exact ⟨addr, rfl⟩

/-- A request that is executed was decoded, and its value is what was decoded or a string
of the size it states. -/
theorem controlOptionCall_some (h : (controlOptionCall t stale).run w = .ok (some req, w')) :
    ∃ decoded w₁, (saneiWControlOptionReq binCodec stale).run w = .ok (decoded, w₁) ∧
      w₁.status = 0 ∧
      (t.numHandles ≤ decoded.handle.toNat ∨ (t.slot decoded.handle.toNat).inuse = false → False) ∧
      (req = decoded ∧
          ¬ (w₁.direction = .decode ∧ decoded.valueType = typeString ∧
            decoded.action = actionGetValue) ∨
        decoded.valueType = typeString ∧ decoded.action = actionGetValue ∧
          ∃ addr, req = { decoded with
            value := some ⟨addr, .chars (List.replicate decoded.valueSize.toInt.toNat 0)⟩ }) := by
  obtain ⟨decoded, w₁, hdecoded, h⟩ := bind_apply_eq_ok.mp h
  rw [get_bind_apply] at h
  refine ⟨decoded, w₁, hdecoded, ?_⟩
  split_ifs at h with hbad hstring
  · cases h
  · rw [not_or, not_not] at hbad
    exact ⟨hbad.1, hbad.2, .inr ⟨hstring.2.1, hstring.2.2, replaceString_some h⟩⟩
  · cases h
    rw [not_or, not_not] at hbad
    exact ⟨hbad.1, hbad.2, .inl ⟨rfl, hstring⟩⟩

/-- What an executed request says of the bytes it was decoded from. -/
theorem executed_input (hw : Decoding w)
    (h : (controlOptionCall t stale).run w = .ok (some req, w')) :
    req.action = wordOf w.input 2 ∧
      (carriesValue w.version req.action → req.valueType = wordOf w.input 3 ∧
        IsValueType req.valueType ∧ (∀ block ∈ req.value, block.val.OfType req.valueType) ∧
        (Fits req ↔ wordOf w.input 3 = typeString ∧ wordOf w.input 2 = actionGetValue ∨
          (wordOf w.input 4).toInt ≤
            (wordOf w.input 5).toInt.toNat * elementSize (wordOf w.input 3))) := by
  obtain ⟨decoded, w₁, hdecoded, hok, -, hreq⟩ := controlOptionCall_some h
  obtain ⟨decoded', w₁', bytes, hrun, hw₁, hconsumed, hpost⟩ :=
    consumes_controlOptionReq w.version stale w ⟨hw, rfl⟩
  cases hdecoded.symm.trans hrun
  obtain ⟨-, ⟨hlength, -, -, haction⟩, hvalue⟩ := hpost hok
  have hwords : ∀ i, 4 * i + 4 ≤ bytes.length → wordOf w.input i = wordOf bytes i := by
    intro i hi
    rw [hconsumed.input, wordOf_append hi]
  have haction' : decoded.action = wordOf w.input 2 := haction.trans (hwords 2 (by omega)).symm
  have hsame : req.action = decoded.action ∧ req.valueType = decoded.valueType ∧
      req.valueSize = decoded.valueSize := by
    rcases hreq with ⟨rfl, -⟩ | ⟨-, -, addr, rfl⟩ <;> exact ⟨rfl, rfl, rfl⟩
  refine ⟨hsame.1.trans haction', fun hcarries => ?_⟩
  rw [hsame.1] at hcarries
  rw [if_pos hcarries] at hvalue
  obtain ⟨hlength', htype, hsize, hbytes, hknown, hof⟩ := hvalue
  have htype' : decoded.valueType = wordOf w.input 3 := htype.trans (hwords 3 (by omega)).symm
  have hsize' : decoded.valueSize = wordOf w.input 4 := hsize.trans (hwords 4 (by omega)).symm
  rw [← hwords 5 (by omega), htype'] at hbytes
  rw [hsame.2.1]
  refine ⟨htype', hknown, ?_, ?_⟩
  · rcases hreq with ⟨rfl, -⟩ | ⟨hstring, -, addr, rfl⟩
    · exact hof
    · intro block hblock
      cases hblock
      exact hstring
  · rcases hreq with ⟨rfl, hother⟩ | ⟨hstring, hget, addr, rfl⟩
    · rw [Fits, hbytes, hsize', Nat.cast_mul]
      refine (or_iff_right fun hread => hother ⟨hw₁.1.direction, ?_, ?_⟩).symm
      · exact htype'.trans hread.1
      · exact haction'.trans hread.2
    · refine iff_of_true ?_ (.inl ⟨htype' ▸ hstring, haction' ▸ hget⟩)
      change decoded.valueSize.toInt ≤ ((List.replicate _ (0 : UInt8)).length * sizeofChar : Nat)
      rw [List.length_replicate]
      have hchar : sizeofChar = 1 := rfl
      rw [hchar]
      omega

/-- A request that carries no value is executed over any memory. -/
theorem executed_setAuto (hw : Decoding w)
    (h : (controlOptionCall t stale).run w = .ok (some req, w'))
    (hcarries : ¬ carriesValue w.version req.action) (stale' : SaneControlOptionReq) :
    ∃ handle option action w', (controlOptionCall t stale').run w =
      .ok (some { stale' with handle, option, action }, w') := by
  obtain ⟨decoded, w₁, hdecoded, hok, hslot, hreq⟩ := controlOptionCall_some h
  have hsame : req.action = decoded.action := by
    rcases hreq with ⟨rfl, -⟩ | ⟨-, -, addr, rfl⟩ <;> rfl
  rw [hsame] at hcarries
  have hauto : decoded.action = actionSetAuto := by
    by_contra hother
    exact hcarries (by simp [carriesValue, hother])
  refine ⟨decoded.handle, decoded.option, decoded.action, w₁, ?_⟩
  refine bind_apply_eq_ok.mpr ⟨_, w₁, controlOptionReq_repeats hw hdecoded hok hcarries, ?_⟩
  rw [get_bind_apply, if_neg (by rw [not_or, not_not]; exact ⟨hok, hslot⟩), if_neg]
  · rfl
  · rintro ⟨-, -, hget⟩
    rw [hauto] at hget
    exact absurd hget (by decide)

/-- The block of an executed request holds its stated size, and so does the reply keep to
it, just if the request carries a value of that size. -/
theorem valueHeld_iff (t : HandleTable) (w : Wire) (hw : Decoding w)
    (hexecuted : ∃ stale req w', (controlOptionCall t stale).run w = .ok (some req, w')) :
    ValueHeld t w ↔ ValueSized w.version w.input := by
  constructor
  · intro hheld
    obtain ⟨stale, req, w', hrun⟩ := hexecuted
    obtain ⟨haction, hvalue⟩ := executed_input hw hrun
    by_cases hcarries : carriesValue w.version req.action
    · exact ⟨haction ▸ hcarries, (hvalue hcarries).2.2.2.mp (hheld stale req w' hrun).1⟩
    · -- the stated size is whatever was there before
      obtain ⟨handle, option, action, w'', hrun'⟩ :=
        executed_setAuto hw hrun hcarries ⟨0, 0, 0, 0, 1, none⟩
      have hfits : (1 : SaneWord).toInt ≤ (0 : Nat) := (hheld _ _ w'' hrun').1
      exact absurd hfits (by decide)
  · rintro ⟨hcarries, hsized⟩ stale req w' hrun
    obtain ⟨haction, hvalue⟩ := executed_input hw hrun
    rw [← haction] at hcarries
    obtain ⟨-, hknown, hof, hfits⟩ := hvalue hcarries
    have hheld := hfits.mpr hsized
    exact ⟨hheld, fun answer hplace version v hv => reply_encodes hknown hof hheld hplace hv⟩

end Call

section Requests

/-- One handle is open. -/
def oneHandle : HandleTable := ⟨[⟨true, false, false, 1⟩], 0⟩

/-- Handle 0, option 1, action, type and size, then a length and elements. -/
def optionRequest (action valueType valueSize : SaneWord) (elements : List SaneWord) : Wire :=
  freshWire 3 (([0, 1, action, valueType, valueSize, BitVec.ofNat 32 elements.length] ++
    elements).flatMap wordBytes)

theorem decoding_optionRequest (action valueType valueSize : SaneWord) (elements : List SaneWord) :
    Decoding (optionRequest action valueType valueSize elements) := decoding_freshWire 3 _

/-- Whether the request is executed, with a block that holds its stated size. -/
def executedFits (w : Wire) : Option Bool :=
  match (controlOptionCall oneHandle ⟨0, 0, 0, 0, 0, none⟩).run w with
  | .ok (some req, _) => some (req.valueSize.toInt ≤ valueBytes req.value)
  | _ => none

theorem executed_of_executedFits {w : Wire} {fits : Bool} (h : executedFits w = some fits) :
    ∃ req w', (controlOptionCall oneHandle ⟨0, 0, 0, 0, 0, none⟩).run w = .ok (some req, w') ∧
      (fits = true ↔ Fits req) := by
  unfold executedFits at h
  split at h
  · next req w' hrun =>
      cases h
      exact ⟨req, w', hrun, decide_eq_true_iff⟩
  · cases h

theorem executedFits_requests :
    executedFits (optionRequest actionSetValue typeInt 8 [5, 6]) = some true ∧
      executedFits (optionRequest actionGetValue typeInt 8 [5]) = some false := by
  decide +kernel

/-- Two words for a size of eight. -/
theorem valueHeld_iff_twoWords :
    ValueHeld oneHandle (optionRequest actionSetValue typeInt 8 [5, 6]) ↔
      ValueSized 3 (optionRequest actionSetValue typeInt 8 [5, 6]).input := by
  obtain ⟨req, w', hrun, -⟩ := executed_of_executedFits executedFits_requests.1
  exact valueHeld_iff oneHandle _ (decoding_optionRequest _ _ _ _) ⟨_, req, w', hrun⟩

/-- One word for a size of eight. -/
theorem not_valueHeld_oneWord :
    ¬ ∀ t w, Decoding w → ValueHeld t w := by
  intro hheld
  obtain ⟨req, w', hrun, hiff⟩ := executed_of_executedFits executedFits_requests.2
  exact absurd (hiff.mpr (hheld _ _ (decoding_optionRequest _ _ _ _) _ req w' hrun).1) Bool.false_ne_true

end Requests

end SaneBackends.Saned
