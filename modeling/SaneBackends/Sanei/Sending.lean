import SaneBackends.Lib.Result
import SaneBackends.Sanei.CodecBin
import SaneBackends.Sanei.Net
/-!
# What a sender holds and sends

The bytes of a value on the wire, the memory its copy takes at the peer, and when a
value is well formed for sending. The shape of a value is what a peer can see of it:
addresses and the cells beyond the end of an array are left out.
-/

namespace SaneBackends.Sanei

open SaneBackends.Lib

/-- `held` says that the lengths the encoder computes are no overflow and stay inside the
value. -/
structure Sending where
  bytes : List UInt8
  cost : Nat
  held : Prop

namespace Sending

instance : Append Sending where
  append s t := ⟨s.bytes ++ t.bytes, s.cost + t.cost, s.held ∧ t.held⟩

/-- Held by the sender and small enough for the memory of the peer. -/
def Fit (s : Sending) : Prop := s.held ∧ s.cost ≤ maxMem

theorem Fit.append {s t : Sending} (h : (s ++ t).Fit) : s.Fit ∧ t.Fit := by
  obtain ⟨hheld, hcost⟩ := h
  exact ⟨⟨hheld.1, (Nat.le_add_right ..).trans hcost⟩, ⟨hheld.2, (Nat.le_add_left ..).trans hcost⟩⟩

@[simp] theorem append_bytes (s t : Sending) : (s ++ t).bytes = s.bytes ++ t.bytes := rfl
@[simp] theorem append_cost (s t : Sending) : (s ++ t).cost = s.cost + t.cost := rfl
@[simp] theorem append_held (s t : Sending) : (s ++ t).held = (s.held ∧ t.held) := rfl

end Sending

def Ptr.cells {α : Type} : Ptr (List α) → List α
  | none => []
  | some block => block.val

section Combinators

variable {α : Type}

def ptrSending (size : Nat) (target : α → Sending) : Ptr α → Sending
  | none => ⟨wordBytes 1, 0, True⟩
  | some block =>
      { bytes := wordBytes 0 ++ (target block.val).bytes
        cost := size + (target block.val).cost
        held := (target block.val).held }

/-- The first `n` elements of an array, after their number. -/
def elementsSending (size : Nat) (element : α → Sending) (n : Nat) (xs : List α) : Sending where
  bytes := wordBytes (BitVec.ofNat 32 n) ++ (xs.take n).flatMap fun x => (element x).bytes
  cost := n * size + ((xs.take n).map fun x => (element x).cost).sum
  held := n ≤ intMax ∧ n ≤ xs.length ∧ ∀ x ∈ xs.take n, (element x).held

/-- An array whose elements are counted, and found not to be none if it exists. -/
def arraySending (size : Nat) (element : α → Sending) (count : Except Fault Nat)
    (v : Ptr (List α)) : Sending :=
  match count with
  | .ok n =>
      { elementsSending size element n (Ptr.cells v) with
        held := (elementsSending size element n (Ptr.cells v)).held ∧ (v ≠ none → n ≠ 0) }
  | .error _ => ⟨[], 0, False⟩

theorem elementsSending_fit {size : Nat} {element : α → Sending} {n : Nat} {xs : List α}
    (h : (elementsSending size element n xs).Fit) :
    n ≤ xs.length ∧ n * size ≤ maxMem ∧ ∀ x ∈ xs.take n, (element x).Fit := by
  obtain ⟨⟨-, hn, hheld⟩, hcost⟩ := h
  simp only [elementsSending] at hcost
  refine ⟨hn, by omega, fun x hx => ⟨hheld x hx, ?_⟩⟩
  have hle := List.single_le_sum (l := (xs.take n).map fun x => (element x).cost) (by simp) _
    (List.mem_map_of_mem hx)
  omega

theorem arraySending_held {size : Nat} {element : α → Sending} {count : Except Fault Nat}
    {v : Ptr (List α)} (h : (arraySending size element count v).held) :
    ∃ n, count = .ok n ∧ (elementsSending size element n (Ptr.cells v)).held ∧
      (v ≠ none → n ≠ 0) ∧
      (arraySending size element count v).bytes =
        (elementsSending size element n (Ptr.cells v)).bytes ∧
      (arraySending size element count v).cost =
        (elementsSending size element n (Ptr.cells v)).cost := by
  cases count with
  | error f => exact h.elim
  | ok n => exact ⟨n, rfl, h.1, h.2, rfl, rfl⟩

theorem arraySending_fit {size : Nat} {element : α → Sending} {count : Except Fault Nat}
    {v : Ptr (List α)} (h : (arraySending size element count v).Fit) :
    ∃ n, count = .ok n ∧ (elementsSending size element n (Ptr.cells v)).Fit ∧
      (v ≠ none → n ≠ 0) ∧
      (arraySending size element count v).bytes =
        (elementsSending size element n (Ptr.cells v)).bytes ∧
      (arraySending size element count v).cost =
        (elementsSending size element n (Ptr.cells v)).cost := by
  obtain ⟨n, hcount, hheld, hsome, hbytes, hcost⟩ := arraySending_held h.1
  exact ⟨n, hcount, ⟨hheld, hcost ▸ h.2⟩, hsome, hbytes, hcost⟩

theorem toInt_ofNat_of_le_intMax {n : Nat} (h : n ≤ intMax) : (BitVec.ofNat 32 n).toInt = n := by
  have hbig : intMax = 2 ^ 31 - 1 := rfl
  rw [BitVec.toInt_ofNat']
  exact toInt32_eq_self (by omega) (by omega)

theorem toInt_ofNat_of_le {n : Nat} (h : n ≤ maxMem) : (BitVec.ofNat 32 n).toInt = n :=
  toInt_ofNat_of_le_intMax (h.trans (by decide))

def ptrShape (target : α → α) : Ptr α → Ptr α
  | none => none
  | some block => some ⟨0, target block.val⟩

/-- An array of no elements is no array. -/
def elementsShape (element : α → α) (n : Nat) (xs : List α) : Ptr (List α) :=
  if n = 0 then none else some ⟨0, (xs.take n).map element⟩

def arrayShape (element : α → α) (count : Except Fault Nat) (v : Ptr (List α)) : Ptr (List α) :=
  match count with
  | .ok n => elementsShape element n (Ptr.cells v)
  | .error _ => none

end Combinators

/-! The numbers of elements, before their conversion to a word. -/

def stringCount : SaneString → Except Fault Nat
  | none => .ok 0
  | some block => do
      let n ← strlen block.val
      .ok (n + 1)

def wordListCount : Ptr (List SaneWord) → Except Fault Nat
  | none => .error .nullPointer
  | some block =>
      match block.val with
      | [] => .error .outOfBounds
      | count :: _ => .ok (count.toNat + 1)

def stringListCount : Ptr (List SaneString) → Except Fault Nat
  | none => .error .nullPointer
  | some block => do
      let n ← nullScan block.val
      .ok (n + 1)

def deviceListCount : Ptr (List (Ptr SaneDevice)) → Except Fault Nat
  | none => .ok 0
  | some block => do
      let n ← nullScan block.val
      .ok (n + 1)

theorem stringLen_eq {s : SaneString} {n : Nat} (h : stringCount s = .ok n) :
    stringLen s = .ok (BitVec.ofNat 32 n) := by
  cases s with
  | none =>
      cases h
      rfl
  | some block =>
      obtain ⟨k, hk, hn⟩ := bind_eq_ok.mp h
      cases hn
      simp only [stringLen, hk, ok_bind]

theorem wordListLen_eq {v : Ptr (List SaneWord)} {n : Nat} (h : wordListCount v = .ok n) :
    wordListLen v = .ok (BitVec.ofNat 32 n) := by
  rcases v with _ | ⟨addr, _ | ⟨count, ws⟩⟩
  · cases h
  · cases h
  · cases h
    simp only [wordListLen]
    refine congrArg Except.ok ?_
    bv_omega

theorem stringListLen_eq {v : Ptr (List SaneString)} {n : Nat} (h : stringListCount v = .ok n) :
    stringListLen v = .ok (BitVec.ofNat 32 n) := by
  cases v with
  | none => cases h
  | some block =>
      obtain ⟨k, hk, hn⟩ := bind_eq_ok.mp h
      cases hn
      simp only [stringListLen, hk, ok_bind]
      refine congrArg Except.ok ?_
      bv_omega

theorem deviceListLen_eq {v : Ptr (List (Ptr SaneDevice))} {n : Nat}
    (h : deviceListCount v = .ok n) : deviceListLen v = .ok (BitVec.ofNat 32 n) := by
  cases v with
  | none =>
      cases h
      rfl
  | some block =>
      obtain ⟨k, hk, hn⟩ := bind_eq_ok.mp h
      cases hn
      simp only [deviceListLen, hk, ok_bind]
      refine congrArg Except.ok ?_
      bv_omega

def wordSending (v : SaneWord) : Sending := ⟨wordBytes v, 0, True⟩

def byteSending (v : UInt8) : Sending := ⟨[v], 0, True⟩

def stringSending (s : SaneString) : Sending := arraySending 1 byteSending (stringCount s) s

def stringShape (s : SaneString) : SaneString := arrayShape id (stringCount s) s

def rangeSending (v : SaneRange) : Sending :=
  wordSending v.min ++ (wordSending v.max ++ wordSending v.quant)

def deviceSending (v : SaneDevice) : Sending :=
  stringSending v.name ++ (stringSending v.vendor ++ (stringSending v.model ++ stringSending v.type))

def deviceShape (v : SaneDevice) : SaneDevice :=
  ⟨stringShape v.name, stringShape v.vendor, stringShape v.model, stringShape v.type⟩

def devicePtrSending : Ptr SaneDevice → Sending := ptrSending sizeofDevice deviceSending

def constraintSending (constraintType : SaneWord) (v : SaneConstraint) : Sending :=
  if constraintType = constraintRange then ptrSending sizeofRange rangeSending v.range
  else if constraintType = constraintWordList then
    arraySending sizeofWord wordSending (wordListCount v.wordList) v.wordList
  else if constraintType = constraintStringList then
    arraySending sizeofPointer stringSending (stringListCount v.stringList) v.stringList
  else ⟨[], 0, True⟩

/-- The arm of the union that the type selects. -/
def constraintShape (constraintType : SaneWord) (v : SaneConstraint) : SaneConstraint :=
  if constraintType = constraintRange then ⟨ptrShape id v.range, none, none⟩
  else if constraintType = constraintWordList then
    ⟨none, arrayShape id (wordListCount v.wordList) v.wordList, none⟩
  else if constraintType = constraintStringList then
    ⟨none, none, arrayShape stringShape (stringListCount v.stringList) v.stringList⟩
  else ⟨none, none, none⟩

def optionDescriptorSending (v : SaneOptionDescriptor) : Sending :=
  stringSending v.name ++ (stringSending v.title ++ (stringSending v.desc ++
    (wordSending v.type ++ (wordSending v.unit ++ (wordSending v.size ++ (wordSending v.cap ++
      (wordSending v.constraintType ++ constraintSending v.constraintType v.constraint)))))))

def optionDescriptorShape (v : SaneOptionDescriptor) : SaneOptionDescriptor :=
  { v with
    name := stringShape v.name
    title := stringShape v.title
    desc := stringShape v.desc
    constraint := constraintShape v.constraintType v.constraint }

def optionDescriptorPtrSending : Ptr SaneOptionDescriptor → Sending :=
  ptrSending sizeofOptionDescriptor optionDescriptorSending

def parametersSending (v : SaneParameters) : Sending :=
  wordSending v.format ++ (wordSending v.lastFrame ++ (wordSending v.bytesPerLine ++
    (wordSending v.pixelsPerLine ++ (wordSending v.lines ++ wordSending v.depth))))

/-- An array of the number of elements a message states. -/
def countedSending {α : Type} (size : Nat) (element : α → Sending) (len : SaneWord)
    (v : Ptr (List α)) : Sending :=
  { elementsSending size element len.toInt.toNat (Ptr.cells v) with
    held := 0 ≤ len.toInt ∧ (elementsSending size element len.toInt.toNat (Ptr.cells v)).held }

theorem countedSending_held {α : Type} {size : Nat} {element : α → Sending} {len : SaneWord}
    {v : Ptr (List α)} (h : (countedSending size element len v).held) :
    len = BitVec.ofNat 32 len.toInt.toNat ∧ len.toInt = len.toInt.toNat ∧
      (elementsSending size element len.toInt.toNat (Ptr.cells v)).held := by
  obtain ⟨hpos, hheld⟩ := h
  refine ⟨?_, by omega, hheld⟩
  apply BitVec.eq_of_toInt_eq
  have hlt := len.toInt_lt
  rw [BitVec.toInt_ofNat', Int.toNat_of_nonneg hpos]
  exact (toInt32_eq_self (by omega) (by omega)).symm

theorem countedSending_fit {α : Type} {size : Nat} {element : α → Sending} {len : SaneWord}
    {v : Ptr (List α)} (h : (countedSending size element len v).Fit) :
    len = BitVec.ofNat 32 len.toInt.toNat ∧ len.toInt = len.toInt.toNat ∧
      (elementsSending size element len.toInt.toNat (Ptr.cells v)).Fit := by
  obtain ⟨hlen, hn, hheld⟩ := countedSending_held h.1
  exact ⟨hlen, hn, hheld, h.2⟩

/-- An option value as an array of the number of elements `w_option_value` computes. -/
def optionValueSending (type size : SaneWord) (value : Ptr OptionValue) : Sending :=
  if type = typeBool ∨ type = typeInt ∨ type = typeFixed then
    countedSending sizeofWord wordSending (size.sdiv (BitVec.ofNat 32 sizeofWord))
      (Ptr.cast OptionValue.asWords value)
  else if type = typeString then
    countedSending sizeofChar byteSending size (Ptr.cast OptionValue.asChars value)
  else if type = typeButton ∨ type = typeGroup then
    countedSending 0 (fun _ => ⟨[], 0, True⟩) 0 (Ptr.cast OptionValue.asVoids value)
  else ⟨[], 0, False⟩

def optionValueShape (type size : SaneWord) (value : Ptr OptionValue) : Ptr OptionValue :=
  if type = typeBool ∨ type = typeInt ∨ type = typeFixed then
    Ptr.cast OptionValue.words (elementsShape id
      (size.sdiv (BitVec.ofNat 32 sizeofWord)).toInt.toNat (Ptr.cells (Ptr.cast OptionValue.asWords value)))
  else if type = typeString then
    Ptr.cast OptionValue.chars (elementsShape id size.toInt.toNat
      (Ptr.cells (Ptr.cast OptionValue.asChars value)))
  else none

/-- Whether the value fields of a control-option request are transmitted. -/
def carriesValue (version : Int) (action : SaneWord) : Bool :=
  version < 3 ∨ action ≠ actionSetAuto

def messageSending (version : Int) : NetMessage → Sending
  | .initReq req => wordSending req.versionCode ++ stringSending req.username
  | .initReply reply => wordSending reply.status ++ wordSending reply.versionCode
  | .getDevicesReply reply =>
      wordSending reply.status ++
        arraySending sizeofPointer devicePtrSending (deviceListCount reply.deviceList) reply.deviceList
  | .openReply reply =>
      wordSending reply.status ++
        (wordSending reply.handle ++ stringSending reply.resourceToAuthorize)
  | .optionDescriptorArray a =>
      countedSending sizeofPointer optionDescriptorPtrSending a.numOptions a.desc
  | .controlOptionReq req =>
      wordSending req.handle ++ (wordSending req.option ++ (wordSending req.action ++
        if carriesValue version req.action then
          wordSending req.valueType ++ (wordSending req.valueSize ++
            optionValueSending req.valueType req.valueSize req.value)
        else ⟨[], 0, True⟩))
  | .controlOptionReply reply =>
      wordSending reply.status ++ (wordSending reply.info ++ (wordSending reply.valueType ++
        (wordSending reply.valueSize ++
          (optionValueSending reply.valueType reply.valueSize reply.value ++
            stringSending reply.resourceToAuthorize))))
  | .getParametersReply reply => wordSending reply.status ++ parametersSending reply.params
  | .startReply reply =>
      wordSending reply.status ++ (wordSending reply.port ++
        (wordSending reply.byteOrder ++ stringSending reply.resourceToAuthorize))
  | .authorizationReq req =>
      stringSending req.resource ++ (stringSending req.username ++ stringSending req.password)

/-- What a peer sees of a message under a protocol version. -/
def messageShape (version : Int) : NetMessage → NetMessage
  | .initReq req => .initReq { req with username := stringShape req.username }
  | .initReply reply => .initReply reply
  | .getDevicesReply reply =>
      .getDevicesReply { reply with
        deviceList := arrayShape (ptrShape deviceShape) (deviceListCount reply.deviceList)
          reply.deviceList }
  | .openReply reply =>
      .openReply { reply with resourceToAuthorize := stringShape reply.resourceToAuthorize }
  | .optionDescriptorArray a =>
      .optionDescriptorArray { a with
        desc := elementsShape (ptrShape optionDescriptorShape) a.numOptions.toInt.toNat
          (Ptr.cells a.desc) }
  | .controlOptionReq req =>
      .controlOptionReq
        (if carriesValue version req.action then
          { req with value := optionValueShape req.valueType req.valueSize req.value }
        else { req with valueType := 0, valueSize := 0, value := none })
  | .controlOptionReply reply =>
      .controlOptionReply { reply with
        value := optionValueShape reply.valueType reply.valueSize reply.value
        resourceToAuthorize := stringShape reply.resourceToAuthorize }
  | .getParametersReply reply => .getParametersReply reply
  | .startReply reply =>
      .startReply { reply with resourceToAuthorize := stringShape reply.resourceToAuthorize }
  | .authorizationReq req =>
      .authorizationReq ⟨stringShape req.resource, stringShape req.username,
        stringShape req.password⟩

end SaneBackends.Sanei
