import SaneBackends.Lib.Decimal
import SaneBackends.Sanei.CodecAscii
import SaneBackends.Sanei.Sending
/-!
# What a sender writes with the ASCII codec

A message is a row of tokens, one for each value that the codec is called for. How far they
fill the buffer decides whether they can be written; the allocations of the peer decide whether
they can be read.
-/

namespace SaneBackends.Sanei

open SaneBackends.Lib

/-- A value handed to the codec. The characters of a string end before the NUL. -/
inductive Token where
  | word (v : SaneWord)
  | char (c : UInt8)
  | string (chars : Option (List UInt8))
  deriving DecidableEq, Repr

def signText (v : SaneWord) : List UInt8 := if v.toInt < 0 then [45] else []

def nilText : List UInt8 := [40, 110, 105, 108, 41]

def Token.text : Token → List UInt8
  | word v => signText v ++ decimal v.toInt.natAbs ++ [10]
  | char c => [39] ++ escape 39 c ++ [39, 10]
  | string none => nilText ++ [10]
  | string (some chars) => [34] ++ chars.flatMap (escape 34) ++ [34, 10]

def Token.isChar : Token → Bool
  | char _ => true
  | _ => false

/-- Where `n` bytes are stored: behind the bytes in the buffer, or at its start once these are
sent. -/
def roomFrom (size n curr : Nat) : Nat := if size < curr + n then 0 else curr

/-- The fill of the buffer after the characters of a string. -/
def charsFill (size curr : Nat) (chars : List UInt8) : Nat :=
  chars.foldl (fun curr ch => roomFrom size 2 curr + (escape 34 ch).length) curr

/-- The fill of the buffer after a token; `none` if it cannot be written. The closing quote of a
string takes no room of its own. -/
def Token.fill (size curr : Nat) (t : Token) : Option Nat :=
  match t with
  | word v =>
      if intMax < -v.toInt then none
      else some (roomFrom size (word v).text.length curr + (word v).text.length)
  | char c => some (roomFrom size 5 curr + (char c).text.length)
  | string none => some (roomFrom size 1 (roomFrom size 5 curr + 5) + 1)
  | string (some chars) =>
      let curr := charsFill size (roomFrom size 1 curr + 1) chars
      if curr < size then some (roomFrom size 1 (curr + 1) + 1) else none

/-- The fill of the buffer after a row of tokens. -/
def fillAfter (size : Nat) : Nat → List Token → Option Nat
  | curr, [] => some curr
  | curr, t :: ts => (t.fill size curr).bind fun curr => fillAfter size curr ts

theorem fillAfter_append (size curr : Nat) (ts us : List Token) :
    fillAfter size curr (ts ++ us) =
      (fillAfter size curr ts).bind fun curr => fillAfter size curr us := by
  induction ts generalizing curr with
  | nil => rfl
  | cons t ts ih =>
      simp only [List.cons_append, fillAfter, Option.bind_assoc]
      congr 1
      funext curr
      exact ih curr

theorem fillAfter_singleton (size curr : Nat) (t : Token) :
    fillAfter size curr [t] = t.fill size curr := by
  simp [fillAfter]

def tokensText (ts : List Token) : List UInt8 := ts.flatMap Token.text

@[simp] theorem tokensText_nil : tokensText [] = [] := rfl

@[simp] theorem tokensText_singleton (t : Token) : tokensText [t] = t.text := by
  simp [tokensText]

theorem tokensText_append (ts us : List Token) :
    tokensText (ts ++ us) = tokensText ts ++ tokensText us := List.flatMap_append

/-- An allocation that the peer charges to its wire. -/
inductive Alloc where
  | array (n size : Nat)
  | ptr (size : Nat)
  deriving DecidableEq, Repr

def Alloc.bytes : Alloc → Nat
  | array n size => n * size
  | ptr size => size

/-- The tests of `sanei_w_array` let every array pass, from a total on. -/
def Admitted : BitVec 32 → List Alloc → Prop
  | _, [] => True
  | total, .array n size :: rest =>
      (n ≤ maxMem ∧ n * size ≤ maxMem ∧ 0 ≤ total.toInt + (n * size : Nat) ∧
        total.toInt + (n * size : Nat) ≤ maxMem) ∧
      Admitted (total + BitVec.ofNat 32 (n * size)) rest
  | total, .ptr size :: rest => Admitted (total + BitVec.ofNat 32 size) rest

/-- The total after the allocations. -/
def totalAfter (total : BitVec 32) (allocs : List Alloc) : BitVec 32 :=
  allocs.foldl (fun total a => total + BitVec.ofNat 32 a.bytes) total

instance decidableAdmitted : ∀ (total : BitVec 32) (allocs : List Alloc),
    Decidable (Admitted total allocs)
  | _, [] => .isTrue trivial
  | _, .array _ _ :: rest => @instDecidableAnd _ _ _ (decidableAdmitted _ rest)
  | _, .ptr _ :: rest => decidableAdmitted _ rest

theorem admitted_append {total : BitVec 32} {as bs : List Alloc} :
    Admitted total (as ++ bs) ↔ Admitted total as ∧ Admitted (totalAfter total as) bs := by
  induction as generalizing total with
  | nil => simp [Admitted, totalAfter]
  | cons a as ih =>
      cases a with
      | array n size =>
          rw [List.cons_append, Admitted, Admitted, ih]
          exact and_assoc.symm
      | ptr size =>
          rw [List.cons_append, Admitted, Admitted, ih]
          rfl

theorem totalAfter_append (total : BitVec 32) (as bs : List Alloc) :
    totalAfter total (as ++ bs) = totalAfter (totalAfter total as) bs := List.foldl_append

/-- `held` says that the lengths the encoder computes are no overflow and stay inside the
value. -/
structure Script where
  tokens : List Token
  allocs : List Alloc
  held : Prop

namespace Script

def empty : Script := ⟨[], [], True⟩

instance : Append Script where
  append s t := ⟨s.tokens ++ t.tokens, s.allocs ++ t.allocs, s.held ∧ t.held⟩

@[simp] theorem append_tokens (s t : Script) : (s ++ t).tokens = s.tokens ++ t.tokens := rfl
@[simp] theorem append_allocs (s t : Script) : (s ++ t).allocs = s.allocs ++ t.allocs := rfl
@[simp] theorem append_held (s t : Script) : (s ++ t).held = (s.held ∧ t.held) := rfl

end Script

section Combinators

variable {α : Type}

def ptrScript (size : Nat) (target : α → Script) : Ptr α → Script
  | none => ⟨[.word 1], [], True⟩
  | some block =>
      { tokens := .word 0 :: (target block.val).tokens
        allocs := .ptr size :: (target block.val).allocs
        held := (target block.val).held }

/-- The first `n` elements of an array, after their number. -/
def elementsScript (size : Nat) (element : α → Script) (n : Nat) (xs : List α) : Script where
  tokens := .word (BitVec.ofNat 32 n) :: (xs.take n).flatMap fun x => (element x).tokens
  allocs := if n = 0 then []
    else .array n size :: (xs.take n).flatMap fun x => (element x).allocs
  held := n ≤ intMax ∧ n ≤ xs.length ∧ ∀ x ∈ xs.take n, (element x).held

/-- An array whose elements are counted, and found not to be none if it exists. -/
def arrayScript (size : Nat) (element : α → Script) (count : Except Fault Nat)
    (v : Ptr (List α)) : Script :=
  match count with
  | .ok n =>
      { elementsScript size element n (Ptr.cells v) with
        held := (elementsScript size element n (Ptr.cells v)).held ∧ (v ≠ none → n ≠ 0) }
  | .error _ => ⟨[], [], False⟩

theorem arrayScript_held {size : Nat} {element : α → Script} {count : Except Fault Nat}
    {v : Ptr (List α)} (h : (arrayScript size element count v).held) :
    ∃ n, count = .ok n ∧ (elementsScript size element n (Ptr.cells v)).held ∧
      (v ≠ none → n ≠ 0) ∧
      (arrayScript size element count v).tokens =
        (elementsScript size element n (Ptr.cells v)).tokens ∧
      (arrayScript size element count v).allocs =
        (elementsScript size element n (Ptr.cells v)).allocs := by
  cases count with
  | error f => exact h.elim
  | ok n => exact ⟨n, rfl, h.1, h.2, rfl, rfl⟩

/-- An array of the number of elements a message states. -/
def countedScript (size : Nat) (element : α → Script) (len : SaneWord) (v : Ptr (List α)) :
    Script :=
  { elementsScript size element len.toInt.toNat (Ptr.cells v) with
    held := 0 ≤ len.toInt ∧ (elementsScript size element len.toInt.toNat (Ptr.cells v)).held }

theorem countedScript_held {size : Nat} {element : α → Script} {len : SaneWord}
    {v : Ptr (List α)} (h : (countedScript size element len v).held) :
    len = BitVec.ofNat 32 len.toInt.toNat ∧ len.toInt = len.toInt.toNat ∧
      (elementsScript size element len.toInt.toNat (Ptr.cells v)).held := by
  obtain ⟨hpos, hheld⟩ := h
  refine ⟨?_, by omega, hheld⟩
  apply BitVec.eq_of_toInt_eq
  have hlt := len.toInt_lt
  rw [BitVec.toInt_ofNat', Int.toNat_of_nonneg hpos]
  exact (toInt32_eq_self (by omega) (by omega)).symm

end Combinators

def wordScript (v : SaneWord) : Script := ⟨[.word v], [], True⟩

def charScript (c : UInt8) : Script := ⟨[.char c], [], True⟩

/-- The characters of a string up to its NUL, which must be in the block. -/
def stringScript : SaneString → Script
  | none => ⟨[.string none], [], True⟩
  | some block =>
      ⟨[.string (some (block.val.take (block.val.idxOf 0)))], [], 0 ∈ block.val⟩

def rangeScript (v : SaneRange) : Script :=
  wordScript v.min ++ (wordScript v.max ++ wordScript v.quant)

def deviceScript (v : SaneDevice) : Script :=
  stringScript v.name ++ (stringScript v.vendor ++ (stringScript v.model ++ stringScript v.type))

def devicePtrScript : Ptr SaneDevice → Script := ptrScript sizeofDevice deviceScript

def constraintScript (constraintType : SaneWord) (v : SaneConstraint) : Script :=
  if constraintType = constraintRange then ptrScript sizeofRange rangeScript v.range
  else if constraintType = constraintWordList then
    arrayScript sizeofWord wordScript (wordListCount v.wordList) v.wordList
  else if constraintType = constraintStringList then
    arrayScript sizeofPointer stringScript (stringListCount v.stringList) v.stringList
  else .empty

def optionDescriptorScript (v : SaneOptionDescriptor) : Script :=
  stringScript v.name ++ (stringScript v.title ++ (stringScript v.desc ++
    (wordScript v.type ++ (wordScript v.unit ++ (wordScript v.size ++ (wordScript v.cap ++
      (wordScript v.constraintType ++ constraintScript v.constraintType v.constraint)))))))

def optionDescriptorPtrScript : Ptr SaneOptionDescriptor → Script :=
  ptrScript sizeofOptionDescriptor optionDescriptorScript

def parametersScript (v : SaneParameters) : Script :=
  wordScript v.format ++ (wordScript v.lastFrame ++ (wordScript v.bytesPerLine ++
    (wordScript v.pixelsPerLine ++ (wordScript v.lines ++ wordScript v.depth))))

/-- An option value as an array of the number of elements `w_option_value` computes. -/
def optionValueScript (type size : SaneWord) (value : Ptr OptionValue) : Script :=
  if type = typeBool ∨ type = typeInt ∨ type = typeFixed then
    countedScript sizeofWord wordScript (size.sdiv (BitVec.ofNat 32 sizeofWord))
      (Ptr.cast OptionValue.asWords value)
  else if type = typeString then
    countedScript sizeofChar charScript size (Ptr.cast OptionValue.asChars value)
  else if type = typeButton ∨ type = typeGroup then
    countedScript 0 (fun _ => .empty) 0 (Ptr.cast OptionValue.asVoids value)
  else ⟨[], [], False⟩

def messageScript (version : Int) : NetMessage → Script
  | .initReq req => wordScript req.versionCode ++ stringScript req.username
  | .initReply reply => wordScript reply.status ++ wordScript reply.versionCode
  | .getDevicesReply reply =>
      wordScript reply.status ++
        arrayScript sizeofPointer devicePtrScript (deviceListCount reply.deviceList)
          reply.deviceList
  | .openReply reply =>
      wordScript reply.status ++
        (wordScript reply.handle ++ stringScript reply.resourceToAuthorize)
  | .optionDescriptorArray a =>
      countedScript sizeofPointer optionDescriptorPtrScript a.numOptions a.desc
  | .controlOptionReq req =>
      wordScript req.handle ++ (wordScript req.option ++ (wordScript req.action ++
        if carriesValue version req.action then
          wordScript req.valueType ++ (wordScript req.valueSize ++
            optionValueScript req.valueType req.valueSize req.value)
        else .empty))
  | .controlOptionReply reply =>
      wordScript reply.status ++ (wordScript reply.info ++ (wordScript reply.valueType ++
        (wordScript reply.valueSize ++
          (optionValueScript reply.valueType reply.valueSize reply.value ++
            stringScript reply.resourceToAuthorize))))
  | .getParametersReply reply => wordScript reply.status ++ parametersScript reply.params
  | .startReply reply =>
      wordScript reply.status ++ (wordScript reply.port ++
        (wordScript reply.byteOrder ++ stringScript reply.resourceToAuthorize))
  | .authorizationReq req =>
      stringScript req.resource ++ (stringScript req.username ++ stringScript req.password)

end SaneBackends.Sanei
