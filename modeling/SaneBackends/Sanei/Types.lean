import Mathlib.Tactic
/-!
# The types of `sane/sane.h`

Words are 32-bit vectors read as signed numbers where the code compares or
divides them. A pointer is `none` for `NULL` or the block it points to; a block
carries the address `malloc` gave it, so that frees can be matched with
allocations. Sizes are those of an LP64 target.
-/

namespace SaneBackends

/-- `SANE_Word`, and every enumeration the wire transfers as a word. -/
abbrev SaneWord := BitVec 32

/-- A `malloc`ed block: its address and the cells stored in it. -/
structure Block (α : Type) where
  addr : Nat
  val : α
  deriving DecidableEq, Repr

/-- A pointer to `α`; `none` is `NULL`. -/
abbrev Ptr (α : Type) := Option (Block α)

/-- `SANE_String`: the whole block of characters, terminator included. -/
abbrev SaneString := Ptr (List UInt8)

inductive SaneStatus where
  | good | unsupported | cancelled | deviceBusy | inval | eof | jammed | noDocs
  | coverOpen | ioError | noMem | accessDenied
  deriving DecidableEq, Repr

/-- The enumerator's value. -/
def SaneStatus.code : SaneStatus → Nat
  | good => 0 | unsupported => 1 | cancelled => 2 | deviceBusy => 3 | inval => 4
  | eof => 5 | jammed => 6 | noDocs => 7 | coverOpen => 8 | ioError => 9
  | noMem => 10 | accessDenied => 11

def SaneStatus.word (s : SaneStatus) : SaneWord := BitVec.ofNat 32 s.code

/-- The status as the single byte of a data-stream trailer. -/
def SaneStatus.byte (s : SaneStatus) : UInt8 := UInt8.ofNat s.code

/-- What an access or an arithmetic step that C leaves undefined is reported as. -/
inductive Fault where
  | nullPointer | outOfBounds | badFree | signedOverflow
  deriving DecidableEq, Repr

end SaneBackends
