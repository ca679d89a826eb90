import SaneBackends.Genesys.RowBuffer
/-!
# Clearing a row buffer

`RowBuffer::clear` resets the two indices and nothing else, where the pops that empty a buffer
make it linear again as well.
-/

namespace SaneBackends.Genesys

open SaneBackends.Lib

namespace RowBuffer

variable {rowBytes : Nat}

def clear (buf : RowBuffer rowBytes) : RowBuffer rowBytes := { buf with first := 0, last := 0 }

end RowBuffer

/-- The operations with `clear` among them. -/
inductive RowCall (rowBytes : Nat) where
  | op (rowOp : RowOp rowBytes)
  | clear
  deriving DecidableEq, Repr

def RowBuffer.call {rowBytes : Nat} (buf : RowBuffer rowBytes) :
    RowCall rowBytes → RowBuffer.Outcome (RowBuffer rowBytes)
  | .op rowOp => buf.step rowOp
  | .clear => (.ok (), buf.clear)

def RowCall.onQueue {rowBytes : Nat} (rows : List (QueuedRow rowBytes)) :
    RowCall rowBytes → RowBuffer.Outcome (List (QueuedRow rowBytes))
  | .op rowOp => rowOp.onQueue rows
  | .clear => (.ok (), [])

namespace RowBuffer

variable {rowBytes : Nat} {buf : RowBuffer rowBytes} {rows : List (QueuedRow rowBytes)}

/-- A buffer that is to be cleared is linear. -/
def ClearsLinear (buf : RowBuffer rowBytes) (c : RowCall rowBytes) : Prop :=
  c = .clear → buf.isLinear = true

/-- The buffer answers the calls as a fresh one does, and both hold the rows of a queue that
was empty before. -/
structure ActsFresh (buf : RowBuffer rowBytes) (later : List (RowCall rowBytes)) : Prop where
  answers : (calls call buf later).1 = (calls call {} later).1
  height : (calls call buf later).2.height = (calls call {} later).2.height
  empty : (calls call buf later).2.empty = (calls call {} later).2.empty
  rows : Refines (calls call buf later).2 (calls RowCall.onQueue [] later).2
  freshRows : Refines (calls call ({} : RowBuffer rowBytes) later).2
    (calls RowCall.onQueue [] later).2

/-- The buffer is empty once it is cleared, and from then on like a fresh one, for any calls
with linear buffers behind them wherever they clear again. -/
structure ClearsFully (buf : RowBuffer rowBytes) : Prop where
  height : buf.clear.height = 0
  empty : buf.clear.empty = true
  later : ∀ later : List (RowCall rowBytes), Guarded call ClearsLinear buf.clear later →
    Guarded call ClearsLinear {} later → ActsFresh buf.clear later

/-- The layout of a wrapped buffer that is cleared is the one of a full buffer. -/
theorem clear_sound (h : Sound buf) : Sound buf.clear := by
  cases hlinear : buf.isLinear with
  | true => exact .of_linear h.size hlinear (Nat.zero_le _) (.inr ⟨rfl, rfl⟩)
  | false =>
      have hlayout := h.wrapped hlinear
      refine .of_wrapped h.size hlinear (Nat.le_refl 0) ?_
      exact Nat.lt_of_le_of_lt (Nat.zero_le _) hlayout.2

theorem clear_empty (buf : RowBuffer rowBytes) : buf.clear.empty = buf.isLinear := by
  simp [RowBuffer.empty, clear]

/-- Whatever was written, the rows that were pushed are there. -/
theorem Sound.refines (h : Sound buf) :
    Refines buf (List.replicate buf.height (.pushed rowBytes)) := by
  refine ⟨h, List.length_replicate .., ?_⟩
  intro y row hrow j byte hbyte
  have hpushed := List.eq_of_mem_replicate (List.mem_of_getElem? hrow)
  rw [hpushed] at hbyte
  cases hbyte

theorem call_sound (buf : RowBuffer rowBytes) (c : RowCall rowBytes) (h : Sound buf) :
    Sound (buf.call c).2 := by
  cases c with
  | op rowOp => exact (step_simulates buf _ rowOp h.refines).2.sound
  | clear => exact clear_sound h

theorem clear_refines (h : Sound buf) (hlinear : buf.isLinear = true) :
    Refines buf.clear ([] : List (QueuedRow rowBytes)) := by
  refine ⟨clear_sound h, ?_, ?_⟩
  · rw [height_of_linear (show buf.clear.isLinear = true from hlinear)]
    rfl
  · intro y row hrow
    simp at hrow

/-- A call does to the buffer what it does to the queue, unless it clears a wrapped one. -/
theorem call_refines (buf : RowBuffer rowBytes) (rows : List (QueuedRow rowBytes))
    (c : RowCall rowBytes) (hlinear : ClearsLinear buf c) (h : Refines buf rows) :
    (buf.call c).1 = (c.onQueue rows).1 ∧ Refines (buf.call c).2 (c.onQueue rows).2 := by
  cases c with
  | op rowOp => exact step_simulates buf rows rowOp h
  | clear => exact ⟨rfl, clear_refines h.sound (hlinear rfl)⟩

theorem actsFresh {later : List (RowCall rowBytes)} (h : Refines buf [])
    (hlater : Guarded call ClearsLinear buf later)
    (hfresh : Guarded call ClearsLinear ({} : RowBuffer rowBytes) later) : ActsFresh buf later := by
  obtain ⟨hanswers, hrows⟩ := hlater.calls call_refines h
  obtain ⟨hanswers', hrows'⟩ := hfresh.calls call_refines Refines.fresh
  refine ⟨hanswers.trans hanswers'.symm, hrows.length.symm.trans hrows'.length, ?_, hrows, hrows'⟩
  rw [Bool.eq_iff_iff, hrows.empty_iff, hrows'.empty_iff]

end RowBuffer

/-- In whatever state the calls leave a row buffer, clearing it makes it like a fresh one if and
only if its rows do not wrap around the end of the storage. -/
theorem rowBuffer_clearsFully_iff {rowBytes : Nat} (ops : List (RowCall rowBytes)) :
    (calls RowBuffer.call {} ops).2.ClearsFully ↔
      (calls RowBuffer.call ({} : RowBuffer rowBytes) ops).2.isLinear = true := by
  have hsound : RowBuffer.Sound (calls RowBuffer.call ({} : RowBuffer rowBytes) ops).2 :=
    calls_invariant RowBuffer.call_sound RowBuffer.sound_fresh ops
  generalize (calls RowBuffer.call ({} : RowBuffer rowBytes) ops).2 = buf at hsound ⊢
  constructor
  · intro h
    rw [← buf.clear_empty]
    exact h.empty
  · intro hlinear
    have hrows := RowBuffer.clear_refines hsound hlinear
    refine ⟨hrows.length.symm, ?_, fun later => RowBuffer.actsFresh hrows⟩
    rw [buf.clear_empty]
    exact hlinear

/-- A row is pushed to the front of a fresh buffer: it is still there when that is cleared. -/
theorem not_rowBuffer_clearsFully_pushFront :
    let buf := (calls RowBuffer.call ({} : RowBuffer 1) [.op .pushFront]).2
    buf.clear.height = 1 ∧ buf.clear.empty = false ∧ ¬ buf.ClearsFully := by
  intro buf
  have hheight : buf.clear.height = 1 := by decide
  refine ⟨hheight, by decide, fun h => ?_⟩
  rw [h.height] at hheight
  cases hheight

end SaneBackends.Genesys
