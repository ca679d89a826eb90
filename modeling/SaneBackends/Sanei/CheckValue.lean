import SaneBackends.Lib.Result
import SaneBackends.Sanei.CodecBin
import SaneBackends.Sanei.WireValues
/-!
# `sanei_constrain_value.c`: checking a value

A value is the block of bytes it is stored in, words in little-endian order. What the
code reads beyond the block is a fault.
-/

namespace SaneBackends.Sanei

open SaneBackends.Lib

/-- `SANE_Value_Type`. -/
inductive SaneValueType where
  | bool | int | fixed | string | button | group
  deriving DecidableEq, Repr

/-- `constraint_type` with the member of the union it selects. A word list is given by
the words after its count, a string list by its entries before `NULL`. -/
inductive OptionConstraint where
  | none
  | range (min max quant : SaneWord)
  | wordList (words : List SaneWord)
  | stringList (strings : List (List UInt8))
  deriving DecidableEq, Repr

/-- The fields of `SANE_Option_Descriptor` that checking and configuring read. -/
structure OptionDescriptor where
  name : List UInt8
  type : SaneValueType
  size : Int
  constraint : OptionConstraint
  deriving DecidableEq, Repr

/-- A word as memory holds it. -/
def storedWord (w : SaneWord) : List UInt8 := (wordBytes w).reverse

/-- The loop over the first `count` words of a block, left at one that is not `admitted`. -/
def checkWords (admitted : SaneWord → Bool) : Nat → List UInt8 → Except Fault SaneStatus
  | 0, _ => .ok .good
  | count + 1, a :: b :: c :: d :: rest =>
      if admitted (bytesWord [d, c, b, a]) then checkWords admitted count rest else .ok .inval
  | _ + 1, _ => .error .outOfBounds

/-- The test of one array element against a range. -/
def inRange (min max quant : SaneWord) (x : SaneWord) : Bool :=
  if x.slt min ∨ max.slt x then false
  else if quant ≠ 0 then
    let v := (x - min + quant.sdiv 2).udiv quant
    v * quant + min == x
  else true

/-- The search of a word list, which always looks at its first word. -/
def searchWords (w : SaneWord) : List SaneWord → Except Fault SaneStatus
  | [] => .error .outOfBounds
  | [word] => .ok (if w = word then .good else .inval)
  | word :: words => if w = word then .ok .good else searchWords w words

/-- The elements of an array value; single values are arrays of length 1. -/
def elementCount (opt : OptionDescriptor) : Nat :=
  if 0 < opt.size then opt.size.toNat / sizeofWord else 1

def saneiCheckValue (opt : OptionDescriptor) (value : List UInt8) : Except Fault SaneStatus :=
  match opt.constraint with
  | .range min max quant => checkWords (inRange min max quant) (elementCount opt) value
  | .wordList words =>
      match value with
      | a :: b :: c :: d :: _ => searchWords (bytesWord [d, c, b, a]) words
      | _ => .error .outOfBounds
  | .stringList strings => do
      let len ← strlen value
      .ok (if strings.any fun s => value.take len == s then .good else .inval)
  | .none =>
      match opt.type with
      | .bool => checkWords (fun w => w == 0 || w == 1) (elementCount opt) value
      | _ => .ok .good

end SaneBackends.Sanei
