import SaneBackends.Lib.Result
import SaneBackends.Saned.DoScan
/-!
# What the scan loop does to its ring buffer

Exact descriptions of `store_reclen`, the fill, the drain and the trailer for a
buffer size the casts to `int` do not damage, in terms of the ring view of
`Lib.Ring`.
-/

namespace SaneBackends.Saned

open SaneBackends.Lib

/-- The four bytes of a record header. -/
def reclenBytes (reclen : Nat) : List UInt8 :=
  [reclenByte reclen 24, reclenByte reclen 16, reclenByte reclen 8, reclenByte reclen 0]

@[simp] theorem length_reclenBytes (reclen : Nat) : (reclenBytes reclen).length = 4 := rfl

/-- The five closing bytes of the data stream. -/
def trailerBytes (status : SaneStatus) : List UInt8 :=
  reclenBytes 0xffffffff ++ [status.byte]

@[simp] theorem length_trailerBytes (status : SaneStatus) : (trailerBytes status).length = 5 := rfl

/-- What a turn that does not leave the loop has done. -/
theorem scanBody_cases {bufferSize : Nat} {l l' : ScanLocals} {input : ScanInput}
    {out : ScanOutput} {flow : Flow} (hrun : scanBody bufferSize l input = .ok (l', out, flow))
    (hflow : ∀ d, flow ≠ .leave d) :
    (l.beFd ∧ out = ⟨[], none⟩ ∧
        l' = { l with
          beFd := false
          statusDirty := l.statusDirty || l.status = .good
          status := .eof }) ∨
      ∃ data be l₁, transfer bufferSize l input data be = .ok (some (l₁, out)) ∧
        addTrailer bufferSize l₁ = .ok l' := by
  unfold scanBody at hrun
  split at hrun
  · split_ifs at hrun with hfd
    · simp only [Except.ok.injEq, Prod.mk.injEq] at hrun
      exact .inl ⟨hfd, hrun.2.1.symm, hrun.1.symm⟩
    · simp only [Except.ok.injEq, Prod.mk.injEq] at hrun
      exact absurd hrun.2.2.symm (hflow _)
  · simp only [Except.ok.injEq, Prod.mk.injEq] at hrun
    exact absurd hrun.2.2.symm (hflow _)
  · rename_i data be _
    obtain ⟨result, htransfer, hrest⟩ := bind_eq_ok.1 hrun
    cases result with
    | none =>
        simp only [pure_eq_ok, Prod.mk.injEq] at hrest
        exact absurd hrest.2.2.symm (hflow _)
    | some pair =>
        obtain ⟨l₂, htrailer, hdone⟩ := bind_eq_ok.1 hrest
        simp only [pure_eq_ok, Prod.mk.injEq] at hdone
        obtain ⟨rfl, rfl, -⟩ := hdone
        exact .inr ⟨data, be, pair.1, htransfer, htrailer⟩

/-- What a transfer that does not fail has done: a drain, a fill or nothing. -/
theorem transfer_cases {bufferSize : Nat} {l l₁ : ScanLocals} {input : ScanInput}
    {data be : Bool} {out : ScanOutput}
    (hrun : transfer bufferSize l input data be = .ok (some (l₁, out))) :
    (∃ accepted, 0 < l.bytesInBuf ∧ out.read = none ∧
        (l₁, out.written) = drain bufferSize l accepted) ∨
      (∃ answer, l.bytesInBuf = 0 ∧ l.status = .good ∧ out = ⟨[], some answer⟩ ∧
        fill bufferSize l input.read = .ok (l₁, answer)) ∨
      l₁ = l ∧ out = ⟨[], none⟩ := by
  unfold transfer at hrun
  split_ifs at hrun with hne hready hfill
  · cases hwrite : input.write with
    | none => simp [hwrite] at hrun
    | some accepted =>
        simp only [hwrite, Except.ok.injEq, Option.some.injEq, Prod.mk.injEq] at hrun
        obtain ⟨rfl, rfl⟩ := hrun
        exact .inl ⟨accepted, hready.2, rfl, rfl⟩
  · simp only [Except.ok.injEq, Option.some.injEq, Prod.mk.injEq] at hrun
    exact .inr (.inr ⟨hrun.1.symm, hrun.2.symm⟩)
  · obtain ⟨⟨l₂, answer⟩, hfilled, hdone⟩ := bind_eq_ok.1 hrun
    simp only [pure_eq_ok, Option.some.injEq, Prod.mk.injEq] at hdone
    obtain ⟨rfl, rfl⟩ := hdone
    exact .inr (.inl ⟨answer, not_not.1 hne, hfill.1, rfl, hfilled⟩)
  · simp only [Except.ok.injEq, Option.some.injEq, Prod.mk.injEq] at hrun
    exact .inr (.inr ⟨hrun.1.symm, hrun.2.symm⟩)

/-- A finished scan is a first turn that stays in the loop and, unless the loop
test fails after it, the finished rest. -/
theorem scanLoop_finished {bufferSize : Nat} {l : ScanLocals} {turn : ScanTurn}
    {turns : List ScanTurn} {run : ScanRun}
    (hrun : scanLoop bufferSize l (turn :: turns) = .ok run) (hfin : run.ended = .finished) :
    ∃ l' out flow, scanBody bufferSize l turn.input = .ok (l', out, flow) ∧
      (∀ d, flow ≠ .leave d) ∧
      (l'.continues = false ∧ run = ⟨l', out.written, out.read.toList, .finished⟩ ∨
        l'.continues = true ∧ ∃ rest, scanLoop bufferSize l' turns = .ok rest ∧
          rest.ended = .finished ∧ run.locals = rest.locals ∧
          run.written = out.written ++ rest.written ∧
          run.reads = out.read.toList ++ rest.reads) := by
  rw [scanLoop] at hrun
  obtain ⟨⟨l', out, flow⟩, hbody, hrest⟩ := bind_eq_ok.1 hrun
  refine ⟨l', out, flow, hbody, ?_, ?_⟩
  · rintro d rfl
    simp only [Flow.breaks, if_true, pure_eq_ok] at hrest
    subst hrest
    cases hfin
  · dsimp only at hrest
    split_ifs at hrest with hbreak hcont
    · simp only [pure_eq_ok] at hrest
      subst hrest
      cases hfin
    · obtain ⟨rest, hloop, hdone⟩ := bind_eq_ok.1 hrest
      simp only [pure_eq_ok] at hdone
      subst hdone
      exact .inr ⟨hcont, rest, hloop, hfin, rfl, rfl, rfl⟩
    · simp only [pure_eq_ok] at hrest
      exact .inl ⟨by simpa using hcont, hrest.symm⟩

theorem scanLoop_cons {bufferSize : Nat} {l l' : ScanLocals} {turn : ScanTurn}
    {turns : List ScanTurn} {out : ScanOutput} {flow : Flow} {rest : ScanRun}
    (hbody : scanBody bufferSize l turn.input = .ok (l', out, flow))
    (hbreak : flow.breaks turn.rpc = false) (hcont : l'.continues = true)
    (hrest : scanLoop bufferSize l' turns = .ok rest) :
    scanLoop bufferSize l (turn :: turns) =
      .ok { rest with
        written := out.written ++ rest.written
        reads := out.read.toList ++ rest.reads } := by
  simp only [scanLoop, hbody, ok_bind, hbreak, hcont, hrest, if_true, Bool.false_eq_true, if_false]
  rfl

theorem scanLoop_last {bufferSize : Nat} {l l' : ScanLocals} {turn : ScanTurn}
    {turns : List ScanTurn} {out : ScanOutput} {flow : Flow}
    (hbody : scanBody bufferSize l turn.input = .ok (l', out, flow))
    (hbreak : flow.breaks turn.rpc = false) (hcont : l'.continues = false) :
    scanLoop bufferSize l (turn :: turns) = .ok ⟨l', out.written, out.read.toList, .finished⟩ := by
  simp only [scanLoop, hbody, ok_bind, hbreak, hcont, Bool.false_eq_true, if_false]
  rfl

section InRange

variable {bufferSize : Nat} (hmin : 4 ≤ bufferSize) (hmax : bufferSize ≤ intMax)

theorem poke_eq_ok {i : Nat} (hi : i < bufferSize) (buf : Bytes) (b : UInt8) :
    poke bufferSize buf i b = .ok (Function.update buf i b) := by
  unfold poke
  rw [if_pos (by omega)]
  rfl

include hmax in
theorem wrapIndex_succ {i : Nat} (hi : i < bufferSize) :
    wrapIndex bufferSize ((i : Int) + 1) = ringIndex bufferSize i 1 := by
  unfold wrapIndex ringIndex
  rw [toInt32_of_le hmax]
  split_ifs <;> omega

include hmin hmax in
theorem storeReclen_eq {i : Nat} (hi : i < bufferSize) (buf : Bytes) (reclen : Nat) :
    storeReclen bufferSize buf i reclen =
      .ok (storeRing bufferSize buf i (reclenBytes reclen), (ringIndex bufferSize i 4 : Nat)) := by
  have h1 := ringIndex_lt hi (show 1 ≤ bufferSize by omega)
  have h2 := ringIndex_lt h1 (show 1 ≤ bufferSize by omega)
  have h3 := ringIndex_lt h2 (show 1 ≤ bufferSize by omega)
  have h4 : ringIndex bufferSize (ringIndex bufferSize (ringIndex bufferSize
      (ringIndex bufferSize i 1) 1) 1) 1 = ringIndex bufferSize i 4 := by
    rw [ringIndex_add h2 (by omega), ringIndex_add h1 (by omega), ringIndex_add hi (by omega)]
  unfold storeReclen
  simp only [poke_eq_ok hi, poke_eq_ok h1, poke_eq_ok h2, poke_eq_ok h3, wrapIndex_succ hmax hi,
    wrapIndex_succ hmax h1, wrapIndex_succ hmax h2, wrapIndex_succ hmax h3, h4]
  rfl

/-- The most a read at reader index `r` may return. -/
def fillRequest (bufferSize r : Nat) : Nat :=
  min (bufferSize - 4) (bufferSize - ringIndex bufferSize r 4)

/-- The bytes a fill at reader index `r` takes from the backend's answer. -/
def fillData (bufferSize r : Nat) (read : SaneStatus × List UInt8) : List UInt8 :=
  read.2.take (fillRequest bufferSize r)

theorem length_fillData_le (bufferSize r : Nat) (read : SaneStatus × List UInt8) :
    (fillData bufferSize r read).length ≤ bufferSize - 4 ∧
      (fillData bufferSize r read).length ≤ bufferSize - ringIndex bufferSize r 4 := by
  have h : (fillData bufferSize r read).length ≤ fillRequest bufferSize r := by
    simp [fillData]
  unfold fillRequest at h
  omega

theorem storeData_eq {base : Nat} (hbase : base < bufferSize) (buf : Bytes) {data : List UInt8}
    (hlen : data.length ≤ bufferSize - base) :
    storeData bufferSize buf base data = .ok (storeBlock buf base data) := by
  unfold storeData
  split_ifs with hnil hfit
  · rw [hnil, storeBlock_nil]
  · rfl
  · omega

include hmax in
theorem reserveHeader_eq {r : Nat} (hr : r < bufferSize) :
    reserveHeader bufferSize r = ringIndex bufferSize r 4 := by
  unfold intMax at hmax
  unfold reserveHeader ringIndex
  dsimp only
  rw [toInt32_of_le hmax]
  split_ifs
  · omega
  · rw [toInt32_eq_self (by omega) (by omega)]
    omega
  · omega
  · omega

include hmin hmax in
theorem readRequest_eq {r : Nat} (hr : r < bufferSize) :
    (toInt32 (readRequest bufferSize (ringIndex bufferSize r 4))).toNat =
      fillRequest bufferSize r := by
  have hr4 := ringIndex_lt hr hmin
  unfold intMax at hmax
  have hval : readRequest bufferSize (ringIndex bufferSize r 4) = fillRequest bufferSize r := by
    unfold readRequest fillRequest toSize
    dsimp only
    split_ifs <;> omega
  rw [hval, toInt32_of_le (by unfold fillRequest intMax; omega)]
  rfl

include hmin hmax in
theorem advanceReader_eq {r len : Nat} (hr : r < bufferSize) (hlen : len ≤ bufferSize - 4)
    (hlen' : len ≤ bufferSize - ringIndex bufferSize r 4) :
    advanceReader bufferSize (ringIndex bufferSize r 4) len =
      ringIndex bufferSize r (4 + len) := by
  have hr4 := ringIndex_lt hr hmin
  rw [← ringIndex_add hr (by omega)]
  unfold intMax at hmax
  unfold advanceReader
  generalize ringIndex bufferSize r 4 = q at *
  dsimp only
  rw [toInt32_of_le hmax, toInt32_eq_self (by omega) (by omega)]
  unfold ringIndex
  split_ifs <;> omega

include hmin hmax in
/-- One fill, in ring terms. Only a `GOOD` read gets a header and moves `reader`,
but either one is charged for header and data. -/
theorem fill_eq {l : ScanLocals} {r : Nat} (hr : l.reader = r) (hlt : r < bufferSize)
    (hempty : l.bytesInBuf = 0) (read : SaneStatus × List UInt8) :
    fill bufferSize l read =
      let data := fillData bufferSize r read
      let buf := storeBlock l.buf (ringIndex bufferSize r 4) data
      let bytesInBuf : Int := data.length + 4
      if read.1 = .good then
        .ok ({ l with
          status := read.1
          bytesInBuf
          buf := storeRing bufferSize buf r (reclenBytes data.length)
          reader := (ringIndex bufferSize r (4 + data.length) : Nat) }, (read.1, data))
      else
        .ok ({ l with
          status := read.1
          bytesInBuf, buf
          reader := (r : Int)
          statusDirty := true }, (read.1, data)) := by
  have hr4 := ringIndex_lt hlt hmin
  obtain ⟨hd4, hdr⟩ := length_fillData_le bufferSize r read
  have hdata : read.2.take (toInt32 (readRequest bufferSize (ringIndex bufferSize r 4))).toNat =
      fillData bufferSize r read := by
    rw [readRequest_eq hmin hmax hlt, fillData]
  have hbytes : toInt32 (0 + ((fillData bufferSize r read).length : Int) + 4) =
      (fillData bufferSize r read).length + 4 := by
    unfold intMax at hmax
    rw [toInt32_eq_self] <;> omega
  unfold fill
  simp only [hr, reserveHeader_eq hmax hlt, hdata, hempty, hbytes]
  rw [storeData_eq hr4 l.buf hdr, advanceReader_eq hmin hmax hlt hd4 hdr]
  simp only [bind, Except.bind, pure, Except.pure, storeReclen_eq hmin hmax hlt]

include hmin hmax in
theorem addTrailer_eq {l : ScanLocals} {r : Nat} (hr : l.reader = r) (hlt : r < bufferSize)
    (hbytes : 0 ≤ l.bytesInBuf) (hfits : l.bytesInBuf ≤ bufferSize) :
    addTrailer bufferSize l =
      if l.statusDirty ∧ l.bytesInBuf + 5 ≤ bufferSize then
        .ok { l with
          buf := storeRing bufferSize l.buf r (trailerBytes l.status)
          reader := (ringIndex bufferSize r 4 : Nat)
          statusDirty := false
          bytesInBuf := l.bytesInBuf + 5 }
      else .ok l := by
  have hr4 := ringIndex_lt hlt hmin
  have hroom : 5 ≤ toSize ((bufferSize : Int) - l.bytesInBuf) ↔
      l.bytesInBuf + 5 ≤ bufferSize := by
    unfold intMax at hmax
    unfold toSize
    omega
  have hadd : l.bytesInBuf + 5 ≤ bufferSize → toInt32 (l.bytesInBuf + 5) = l.bytesInBuf + 5 := by
    unfold intMax at hmax
    intro h
    rw [toInt32_eq_self] <;> omega
  have htrailer : Function.update (storeRing bufferSize l.buf r (reclenBytes 0xffffffff))
      (ringIndex bufferSize r 4) l.status.byte =
      storeRing bufferSize l.buf r (trailerBytes l.status) := by
    rw [trailerBytes, storeRing_append hlt (by simp; omega)]
    rfl
  unfold addTrailer
  simp only [hroom, hr]
  split_ifs with h
  · rw [storeReclen_eq hmin hmax hlt]
    simp only [bind, Except.bind, pure, Except.pure, poke_eq_ok hr4, htrailer, hadd h.2]
  · rfl

/-- The buffer holds the bytes `pend`, waiting to be sent from `writer` on. -/
structure Queued (bufferSize : Nat) (l : ScanLocals) (pend : List UInt8) : Prop where
  writer_lt : l.writer < bufferSize
  bytes : l.bytesInBuf = pend.length
  fits : pend.length ≤ bufferSize
  holds : RingHolds bufferSize l.buf l.writer pend

/-- A drain sends a prefix of what is queued and keeps the rest queued. -/
theorem Queued.drain {l : ScanLocals} {pend : List UInt8} (h : Queued bufferSize l pend)
    (accepted : Nat) :
    ∃ n ≤ pend.length, (Saned.drain bufferSize l accepted).2 = pend.take n ∧
      Queued bufferSize (Saned.drain bufferSize l accepted).1 (pend.drop n) ∧
      (Saned.drain bufferSize l accepted).1.writer = ringIndex bufferSize l.writer n ∧
      (0 < accepted → pend ≠ [] → 0 < n) := by
  obtain ⟨hw, hbytes, hfits, hholds⟩ := h
  set n := min accepted (if bufferSize < l.writer + l.bytesInBuf.toNat then
    bufferSize - l.writer else l.bytesInBuf.toNat) with hn
  have hle : n ≤ pend.length ∧ l.writer + n ≤ bufferSize := by
    rw [hn, hbytes]
    split_ifs <;> omega
  have hwriter : (Saned.drain bufferSize l accepted).1.writer = ringIndex bufferSize l.writer n := by
    change (if l.writer + n = bufferSize then 0 else l.writer + n) = _
    unfold ringIndex
    split_ifs <;> omega
  have hsplit : pend.take n ++ pend.drop n = pend := List.take_append_drop n pend
  have htake : (pend.take n).length = n := by simp; omega
  refine ⟨n, hle.1, ?_, ⟨?_, ?_, ?_, ?_⟩, hwriter, ?_⟩
  · have hread := RingHolds.read_eq
      (show RingHolds bufferSize l.buf l.writer (pend.take n ++ pend.drop n) by
        rw [hsplit]; exact hholds) (by rw [htake]; exact hle.2)
    rw [htake] at hread
    exact hread
  · rw [hwriter]
    exact ringIndex_lt hw (by omega)
  · change l.bytesInBuf - n = _
    rw [List.length_drop, hbytes]
    omega
  · rw [List.length_drop]
    omega
  · rw [hwriter]
    rw [← hsplit] at hholds
    have hboth := (RingHolds.append hw (by simp; omega)).1 hholds
    rw [htake] at hboth
    exact hboth.2
  · intro haccepted hne
    have hlen := List.length_pos_iff.2 hne
    rw [hn, hbytes]
    split_ifs <;> omega

end InRange

end SaneBackends.Saned
