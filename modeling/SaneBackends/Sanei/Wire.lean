import SaneBackends.Lib.Ring
import SaneBackends.Lib.CInt
import SaneBackends.Sanei.Types
/-!
# `sanei_wire.c`: the wire

One set of functions encodes, decodes and frees a value, as the direction of the
wire says. A transfer function takes the value as memory holds it and returns
what memory holds afterwards. `io.read`, `io.write` and `malloc` answer from
arbitrary schedules; contents of uninitialised locals come from `stale`.
-/

namespace SaneBackends.Sanei

open SaneBackends.Lib

def maxMem : Nat := 1024 * 1024

/-- The values of `errno` the sources store in the status themselves. -/
def enomem : Nat := 12
def einval : Nat := 22

inductive WireDirection where
  | encode | decode | free
  deriving DecidableEq, Repr

/-- What a call of `io.read` or `io.write` does: it fails, or it moves at least one
byte and at most `atMost + 1`, as far as there are bytes and room. -/
inductive IoEvent where
  | failed (errno : Nat) (hpos : 0 < errno)
  | moved (atMost : Nat)

/-- Positions are relative to `buffer.start`. -/
structure WireBuffer where
  size : Nat
  curr : Nat
  endPos : Nat
  mem : Nat → UInt8

structure WireIo where
  reads : Nat → IoEvent
  writes : Nat → IoEvent
  nreads : Nat
  nwrites : Nat
  incoming : List UInt8
  sent : List UInt8

/-- The blocks `malloc` has handed out. `grant` says which requests it meets. -/
structure Heap where
  live : List Nat
  next : Nat
  asked : Nat
  grant : Nat → Bool
  nodup : live.Nodup
  fresh : ∀ a ∈ live, a < next

theorem Heap.fresh_nil : ∀ a ∈ ([] : List Nat), a < 0 := by simp

def Heap.malloc (h : Heap) : Option Nat × Heap :=
  if h.grant h.asked then
    (some h.next,
      { h with
        live := h.next :: h.live
        next := h.next + 1
        asked := h.asked + 1
        nodup := List.nodup_cons.mpr ⟨fun hmem => Nat.lt_irrefl _ (h.fresh _ hmem), h.nodup⟩
        fresh := by
          intro a ha
          rcases List.mem_cons.mp ha with rfl | ha
          · exact Nat.lt_succ_self _
          · exact Nat.lt_succ_of_lt (h.fresh a ha) })
  else
    (none, { h with asked := h.asked + 1 })

def Heap.free (h : Heap) (addr : Nat) : Heap :=
  { h with
    live := h.live.erase addr
    nodup := h.nodup.erase addr
    fresh := fun a ha => h.fresh a (List.mem_of_mem_erase ha) }

/-- Which function of the wire layer made an allocation. -/
inductive ChargeSite where
  | array | ptr
  deriving DecidableEq, Repr

/-- An allocation charged to the wire: the running total before it and its size. -/
structure Charge where
  site : ChargeSite
  before : BitVec 32
  bytes : Nat
  addr : Nat
  deriving DecidableEq, Repr

/-- `Wire`. `charges` is a ghost log of the changes decoding makes to
`allocated_memory`; no function reads it. -/
structure Wire where
  version : Int
  direction : WireDirection
  status : Nat
  allocatedMemory : BitVec 32
  buffer : WireBuffer
  io : WireIo
  heap : Heap
  stale : SaneWord
  charges : List Charge

/-- The `while (nbytes > 0)` loop of the encoder; `fuel` bounds the writes, each of
which moves a byte. -/
def sendLoop : Nat → Nat → Wire → Wire
  | 0, _, w => w
  | fuel + 1, nbytes, w =>
      if nbytes = 0 then w
      else
        match w.io.writes w.io.nwrites with
        | .failed errno _ =>
            { w with status := errno, io := { w.io with nwrites := w.io.nwrites + 1 } }
        | .moved atMost =>
            let nwritten := min (atMost + 1) nbytes
            let chunk := (List.range nwritten).map fun i => w.buffer.mem (w.buffer.curr + i)
            sendLoop fuel (nbytes - nwritten)
              { w with
                buffer := { w.buffer with curr := w.buffer.curr + nwritten }
                io := { w.io with nwrites := w.io.nwrites + 1, sent := w.io.sent ++ chunk } }

/-- The `do … while (left_over < howmuch)` loop of the decoder. A request of no
bytes and an exhausted stream both read nothing. -/
def recvLoop (howmuch : Nat) : Nat → Nat → Wire → Wire
  | 0, _, w => w
  | fuel + 1, leftOver, w =>
      match w.io.reads w.io.nreads with
      | .failed errno _ =>
          { w with status := errno, io := { w.io with nreads := w.io.nreads + 1 } }
      | .moved atMost =>
          let got := w.io.incoming.take (min (atMost + 1) (w.buffer.size - leftOver))
          if got = [] then
            { w with status := einval, io := { w.io with nreads := w.io.nreads + 1 } }
          else
            let w :=
              { w with
                buffer := { w.buffer with
                  mem := storeBlock w.buffer.mem w.buffer.endPos got
                  endPos := w.buffer.endPos + got.length }
                io := { w.io with
                  nreads := w.io.nreads + 1
                  incoming := w.io.incoming.drop got.length } }
            if leftOver + got.length < howmuch then
              recvLoop howmuch fuel (leftOver + got.length) w
            else w

def saneiWSpace (howmuch : Nat) (w : Wire) : Wire :=
  if w.status ≠ 0 then w
  else if w.buffer.endPos < w.buffer.curr + howmuch then
    match w.direction with
    | .encode =>
        let w := sendLoop w.buffer.curr w.buffer.curr
          { w with buffer := { w.buffer with curr := 0 } }
        if w.status ≠ 0 then w
        else { w with buffer := { w.buffer with curr := 0, endPos := w.buffer.size } }
    | .decode =>
        let leftOver := w.buffer.endPos - w.buffer.curr
        if toInt32 ((w.buffer.endPos : Int) - w.buffer.curr) < 0 then w
        else
          recvLoop howmuch (howmuch + 1) leftOver
            { w with
              buffer := { w.buffer with
                mem := fun i =>
                  if i < leftOver then w.buffer.mem (w.buffer.curr + i) else w.buffer.mem i
                curr := 0
                endPos := leftOver } }
    | .free => w
  else w

abbrev WireM := StateT Wire (Except Fault)

/-- A function called through a `WireCodecFunc` pointer: what it does on a cell, and
what it does when handed an address outside every block. -/
structure WireCodecFunc (α : Type) where
  run : α → WireM α
  stray : WireM Unit

/-- `w->codec`. -/
structure Codec where
  wByte : WireCodecFunc UInt8
  wChar : WireCodecFunc UInt8
  wWord : WireCodecFunc SaneWord
  wString : WireCodecFunc SaneString

def setStatus (status : Nat) : WireM Unit := modify fun w => { w with status }

/-- `free`, which the address of no live block may reach. -/
def freeBlock (addr : Nat) : WireM Unit := do
  let w ← get
  if addr ∈ w.heap.live then
    set { w with heap := w.heap.free addr }
  else throw .badFree

/-- `w->allocated_memory -= bytes`. -/
def release (bytes : BitVec 32) : WireM Unit :=
  modify fun w => { w with allocatedMemory := w.allocatedMemory - bytes }

/-- `malloc (bytes)` with the charge to `allocated_memory` that follows its success. -/
def allocate (site : ChargeSite) (bytes : Nat) : WireM (Option Nat) := do
  let w ← get
  match w.heap.malloc with
  | (none, heap) => do
      set { w with heap, status := enomem }
      pure none
  | (some addr, heap) => do
      let charge : Charge := { site, before := w.allocatedMemory, bytes, addr }
      set { w with
        heap
        allocatedMemory := w.allocatedMemory + BitVec.ofNat 32 bytes
        charges := w.charges ++ [charge] }
      pure (some addr)

/-- The element loop of `sanei_w_array` when freeing. -/
def freeElements {α : Type} (element : WireCodecFunc α) : Nat → List α → WireM Unit
  | 0, _ => pure ()
  | n + 1, [] => do
      element.stray
      freeElements element n []
  | n + 1, x :: xs => do
      let _ ← element.run x
      freeElements element n xs

/-- The element loop of `sanei_w_array` when encoding or decoding. -/
def transferElements {α : Type} (element : WireCodecFunc α) : Nat → List α → WireM (List α)
  | 0, xs => pure xs
  | n + 1, [] => do
      element.stray
      if (← get).status ≠ 0 then pure []
      else transferElements element n []
  | n + 1, x :: xs => do
      let x ← element.run x
      if (← get).status ≠ 0 then pure (x :: xs)
      else do
        let xs ← transferElements element n xs
        pure (x :: xs)

/-- The three tests before the allocation of an array. -/
def exceedsMaxMem (w : Wire) (len : SaneWord) (elementSize : Nat) : Bool :=
  maxMem < len.toNat ∨ maxMem < len.toNat * elementSize ∨
    maxMem < toSize (w.allocatedMemory.toInt + len.toInt * elementSize)

/-- `sanei_w_array`; the result pairs `*len_ptr` with `*v`. Fresh elements are `zero`. -/
def saneiWArray {α : Type} (wWord : WireCodecFunc SaneWord) (element : WireCodecFunc α) (zero : α)
    (elementSize : Nat) (lenPtr : SaneWord) (v : Ptr (List α)) :
    WireM (SaneWord × Ptr (List α)) := do
  match (← get).direction with
  | .free =>
      match v with
      | some block => do
          if lenPtr ≠ 0 then
            freeElements element lenPtr.toInt.toNat block.val
            freeBlock block.addr
            release (BitVec.ofInt 32 (lenPtr.toInt * elementSize))
          pure (lenPtr, v)
      | none => pure (lenPtr, v)
  | .encode => do
      let len ← wWord.run lenPtr
      if (← get).status ≠ 0 then pure (lenPtr, v)
      else
        match v with
        | some block => do
            let val ← transferElements element len.toInt.toNat block.val
            pure (lenPtr, some { block with val })
        | none => do
            let _ ← transferElements element len.toInt.toNat []
            pure (lenPtr, none)
  | .decode => do
      let len ← wWord.run (← get).stale
      if (← get).status ≠ 0 then pure (lenPtr, v)
      else if len = 0 then pure (len, none)
      else if exceedsMaxMem (← get) len elementSize then do
        setStatus enomem
        pure (len, v)
      else
        match ← allocate .array (len.toNat * elementSize) with
        | none => pure (len, none)
        | some addr => do
            let val ← transferElements element len.toInt.toNat (List.replicate len.toNat zero)
            pure (len, some ⟨addr, val⟩)

/-- `sanei_w_ptr`; a fresh target is `zero`. -/
def saneiWPtr {α : Type} (wWord : WireCodecFunc SaneWord) (wValue : α → WireM α) (zero : α)
    (valueSize : Nat) (v : Ptr α) : WireM (Ptr α) := do
  match (← get).direction with
  | .free =>
      match v with
      | some block => do
          if valueSize ≠ 0 then
            let _ ← wValue block.val
            freeBlock block.addr
            release (BitVec.ofNat 32 valueSize)
          pure v
      | none => pure v
  | .encode => do
      let isNull ← wWord.run (if v = none then 1 else 0)
      if (← get).status ≠ 0 then pure v
      else if isNull = 0 then
        match v with
        | some block => do
            let val ← wValue block.val
            pure (some { block with val })
        | none => throw .nullPointer
      else pure v
  | .decode => do
      let isNull ← wWord.run (← get).stale
      if (← get).status ≠ 0 then pure v
      else if isNull = 0 then
        if maxMem < valueSize then do
          setStatus enomem
          pure v
        else
          match ← allocate .ptr valueSize with
          | none => pure none
          | some addr => do
              let val ← wValue zero
              pure (some ⟨addr, val⟩)
      else pure none

end SaneBackends.Sanei
