import SaneBackends.Saned.ScanGrammar
/-!
# Buffers past `INT_MAX`

`-B` accepts buffer sizes the casts to `int` in the loop of `do_scan` turn into
another number. On a buffer that starts out filled with `0xff`, storing the
trailer's header is invisible, which leaves one byte to follow.
-/

namespace SaneBackends.Saned

open SaneBackends.Lib

/-- A buffer whose every byte is `0xff`. -/
def blank : Bytes := fun _ => 0xff

theorem poke_blank {bufferSize : Nat} {i : Int} (hlo : 0 ≤ i) (hhi : i < bufferSize) :
    poke bufferSize blank i 0xff = .ok blank := by
  unfold poke
  rw [if_pos ⟨hlo, hhi⟩]
  congr 1
  exact Function.update_eq_self i.toNat blank

/-- The index behind a header stored at `0` when indices wrap at `c`. -/
def headerEnd (c : Int) : Int := if 5 ≤ c then 4 else if c = 3 then 1 else 0

theorem headerEnd_cases (c : Int) :
    headerEnd c = 4 ∧ 5 ≤ c ∨ (headerEnd c = 0 ∨ headerEnd c = 1) ∧ c ≤ 4 := by
  unfold headerEnd
  split_ifs <;> omega

theorem wrapIndex_mem (bufferSize : Nat) {i : Int} (hi : 0 ≤ i) :
    0 ≤ wrapIndex bufferSize i ∧ wrapIndex bufferSize i ≤ i := by
  unfold wrapIndex
  split_ifs <;> omega

theorem storeReclen_blank {bufferSize : Nat} (hmin : 5 ≤ bufferSize) :
    storeReclen bufferSize blank 0 0xffffffff =
      .ok (blank, headerEnd (toInt32 bufferSize)) := by
  have hbytes : ∀ shift ∈ [24, 16, 8, 0], reclenByte 0xffffffff shift = 0xff := by decide
  have h1 := wrapIndex_mem bufferSize (i := 0 + 1) (by omega)
  have h2 := wrapIndex_mem bufferSize
    (i := wrapIndex bufferSize (0 + 1) + 1) (by omega)
  have h3 := wrapIndex_mem bufferSize
    (i := wrapIndex bufferSize (wrapIndex bufferSize (0 + 1) + 1) + 1) (by omega)
  have hend : wrapIndex bufferSize (wrapIndex bufferSize (wrapIndex bufferSize
      (wrapIndex bufferSize (0 + 1) + 1) + 1) + 1) = headerEnd (toInt32 bufferSize) := by
    unfold wrapIndex headerEnd
    split_ifs <;> omega
  unfold storeReclen
  simp only [hbytes, List.mem_cons, true_or, or_true]
  rw [poke_blank (by omega) (by omega), ok_bind, poke_blank (by omega) (by omega), ok_bind,
    poke_blank (by omega) (by omega), ok_bind, poke_blank (by omega) (by omega), ok_bind, hend]
  rfl

/-- The trailer as it lands in a blank buffer, with at most the four bytes of a bad
read charged before. -/
theorem addTrailer_blank {bufferSize : Nat} (hmin : 9 ≤ bufferSize) (hsize : bufferSize < 2 ^ 64)
    {l : ScanLocals} (hbuf : l.buf = blank) (hreader : l.reader = 0) {charged : Int}
    (hbytes : l.bytesInBuf = charged) (hlo : 0 ≤ charged) (hhi : charged ≤ 4)
    (hdirty : l.statusDirty = true) :
    addTrailer bufferSize l =
      .ok { l with
        buf := Function.update blank (headerEnd (toInt32 bufferSize)).toNat l.status.byte
        reader := headerEnd (toInt32 bufferSize)
        statusDirty := false
        bytesInBuf := charged + 5 } := by
  have hend := headerEnd_cases (toInt32 bufferSize)
  have hroom : 5 ≤ toSize ((bufferSize : Int) - charged) := by
    unfold toSize
    omega
  have hadd : toInt32 (charged + 5) = charged + 5 := toInt32_eq_self (by omega) (by omega)
  unfold addTrailer
  rw [hbytes, if_pos ⟨hdirty, hroom⟩, hbuf, hreader, storeReclen_blank (by omega), ok_bind]
  dsimp only
  rw [poke, if_pos (by omega), ok_bind, hadd]
  rfl

/-- A header stored at `0` when indices do not wrap before it ends. -/
theorem storeReclen_zero {bufferSize : Nat} (hmin : 5 ≤ bufferSize)
    (hc : 5 ≤ toInt32 bufferSize) (buf : Bytes) (reclen : Nat) :
    ∃ buf', storeReclen bufferSize buf 0 reclen = .ok (buf', 4) ∧
      (List.range 4).map buf' = reclenBytes reclen ∧ ∀ j, 4 ≤ j → buf' j = buf j := by
  have hpoke : ∀ (buf : Bytes) (i : Int) (b : UInt8), 0 ≤ i → i < 5 →
      poke bufferSize buf i b = .ok (Function.update buf i.toNat b) := by
    intro buf i b hlo hhi
    rw [poke, if_pos (by omega)]
  have hwrap : ∀ i : Int, i < 5 → wrapIndex bufferSize i = i := by
    intro i hi
    rw [wrapIndex, if_neg (by omega)]
  refine ⟨Function.update (Function.update (Function.update (Function.update buf 0
    (reclenByte reclen 24)) 1 (reclenByte reclen 16)) 2 (reclenByte reclen 8)) 3
    (reclenByte reclen 0), ?_, ?_, ?_⟩
  · unfold storeReclen
    simp only [hpoke, hwrap, ok_bind, Int.reduceAdd, Int.reduceLE, Int.reduceLT, Int.toNat_zero,
      Int.toNat_one]
    rfl
  · simp [List.range_succ, reclenBytes, Function.update]
  · intro j hj
    simp only [Function.update]
    grind

/-- The trailer when indices do not wrap before it ends. -/
theorem addTrailer_zero {bufferSize : Nat} (hmin : 9 ≤ bufferSize) (hsize : bufferSize < 2 ^ 64)
    (hc : 5 ≤ toInt32 bufferSize) {l : ScanLocals} (hreader : l.reader = 0) {charged : Int}
    (hbytes : l.bytesInBuf = charged) (hlo : 0 ≤ charged) (hhi : charged ≤ 4)
    (hdirty : l.statusDirty = true) :
    ∃ buf', (∀ j, 5 ≤ j → buf' j = l.buf j) ∧
      addTrailer bufferSize l =
        .ok { l with
          buf := buf', reader := 4, statusDirty := false, bytesInBuf := charged + 5 } := by
  have hroom : 5 ≤ toSize ((bufferSize : Int) - charged) := by
    unfold toSize
    omega
  have hadd : toInt32 (charged + 5) = charged + 5 := toInt32_eq_self (by omega) (by omega)
  obtain ⟨buf₁, hstore, -, hrest⟩ := storeReclen_zero (by omega) hc l.buf 0xffffffff
  refine ⟨Function.update buf₁ 4 l.status.byte, ?_, ?_⟩
  · intro j hj
    rw [Function.update_of_ne (by omega), hrest j (by omega)]
  · unfold addTrailer
    rw [hbytes, if_pos ⟨hdirty, hroom⟩, hreader, hstore, ok_bind]
    dsimp only
    rw [poke, if_pos (by omega), ok_bind, hadd]
    rfl

/-- A read of all that fits before the wrapped end, into an empty buffer. -/
theorem fill_full {bufferSize : Nat} (hbig : 2 ^ 31 ≤ bufferSize) (hsize : bufferSize < 2 ^ 64)
    (hc : 5 ≤ toInt32 bufferSize) {l : ScanLocals} (hreader : l.reader = 0)
    (hbytes : l.bytesInBuf = 0) (data : List UInt8)
    (hdata : (data.length : Int) = toInt32 bufferSize - 4) :
    ∃ buf', (List.range 4).map buf' = reclenBytes data.length ∧
      (∀ j, 4 ≤ j → buf' j = storeBlock l.buf 4 data j) ∧
      fill bufferSize l (.good, data) =
        .ok ({ l with
          status := .good, buf := buf', reader := 0
          bytesInBuf := toInt32 bufferSize }, (.good, data)) := by
  have hlt := toInt32_lt bufferSize
  have hcong := toInt32_emod bufferSize
  have hlen : (toInt32 ((bufferSize - 4 : Nat) : Int)).toNat = data.length := by
    rw [toInt32_eq_of_emod (y := data.length) (by omega) (by omega) (by omega)]
    rfl
  have hle : toInt32 bufferSize ≤ bufferSize := by omega
  have hstored : storeData bufferSize l.buf 4 data = .ok (storeBlock l.buf 4 data) := by
    rw [storeData, if_neg (by rintro rfl; simp at hdata; omega), if_pos (by omega)]
    rfl
  have hcharge : toInt32 (0 + (data.length : Int) + 4) = toInt32 bufferSize := by
    rw [toInt32_eq_self (by omega) (by omega)]
    omega
  have hadvance : advanceReader bufferSize 4 data.length = 0 := by
    have hsum : toInt32 (4 + (data.length : Int)) = toInt32 bufferSize := by
      rw [← hcharge, zero_add, add_comm]
    unfold advanceReader
    dsimp only
    rw [hsum, if_pos le_rfl]
  have hreserve : reserveHeader bufferSize 0 = 4 := by
    unfold reserveHeader
    rw [if_neg (by omega)]
    rfl
  have hrequest : readRequest bufferSize 4 = bufferSize - 4 := by
    unfold readRequest toSize
    dsimp only
    split_ifs <;> omega
  obtain ⟨buf', hstore, hheader, hrest⟩ :=
    storeReclen_zero (by omega) hc (storeBlock l.buf 4 data) data.length
  refine ⟨buf', hheader, hrest, ?_⟩
  unfold fill
  simp only [hreader, hreserve, hrequest, hlen, List.take_length, hbytes, hcharge, hadvance,
    hstored, ok_bind, if_true, hstore]
  rfl

/-- A bad read without data is charged four bytes, whatever the buffer size. -/
theorem fill_bad (bufferSize : Nat) {l : ScanLocals} (hbytes : l.bytesInBuf = 0) {st : SaneStatus}
    (hbad : st ≠ .good) :
    fill bufferSize l (st, []) =
      .ok ({ l with status := st, bytesInBuf := 4, statusDirty := true }, (st, [])) := by
  have hcharge : toInt32 4 = 4 := by decide
  simp [fill, storeData, hbytes, hbad, hcharge]

/-- A turn in which `select` finds the backend's descriptor closed. -/
def ScanTurn.lostFd : ScanTurn := ⟨⟨.badFd, none, .good, []⟩, none⟩

/-- A turn with nothing ready. -/
def ScanTurn.idle : ScanTurn := ⟨⟨.ready false false, none, .good, []⟩, none⟩

/-- A turn in which the data socket accepts `n` bytes. -/
def ScanTurn.send (n : Nat) : ScanTurn := ⟨⟨.ready true false, some n, .good, []⟩, none⟩

/-- A turn in which the backend has `data`. -/
def ScanTurn.receive (data : List UInt8) : ScanTurn :=
  ⟨⟨.ready false true, some 0, .good, data⟩, none⟩

theorem scanBody_lostFd (bufferSize : Nat) {l : ScanLocals} (hgood : l.status = .good)
    (hfd : l.beFd = true) :
    scanBody bufferSize l ScanTurn.lostFd.input =
      .ok ({ l with beFd := false, statusDirty := true, status := .eof }, ⟨[], none⟩, .again) := by
  simp [scanBody, ScanTurn.lostFd, hfd, hgood]

/-- With an empty buffer and a status to report, a turn only adds the trailer. -/
theorem scanBody_idle {bufferSize : Nat} {l l' : ScanLocals} (hbad : l.status ≠ .good)
    (hbytes : l.bytesInBuf = 0) (htrailer : addTrailer bufferSize l = .ok l') :
    scanBody bufferSize l ScanTurn.idle.input = .ok (l', ⟨[], none⟩, .next) := by
  simp only [scanBody, ScanTurn.idle, transfer, hbytes, hbad, ne_eq, not_true_eq_false, if_false,
    false_and, ok_bind, htrailer]
  rfl

/-- A turn that sends all `n` bytes in the buffer. -/
theorem scanBody_send {bufferSize n : Nat} {l : ScanLocals} (hpos : 0 < n)
    (hbytes : l.bytesInBuf = n) (hroom : l.writer + n < bufferSize)
    (hclean : l.statusDirty = false) :
    scanBody bufferSize l (ScanTurn.send n).input =
      .ok ({ l with bytesInBuf := 0, writer := l.writer + n },
        ⟨(List.range n).map fun k => l.buf (l.writer + k), none⟩, .next) := by
  have hdrain : drain bufferSize l n =
      ({ l with bytesInBuf := 0, writer := l.writer + n },
        (List.range n).map fun k => l.buf (l.writer + k)) := by
    unfold drain
    simp only [hbytes, Int.toNat_natCast, if_neg (show ¬ bufferSize < l.writer + n by omega),
      if_neg (show ¬ l.writer + n = bufferSize by omega), Nat.min_self, Int.sub_self]
  have hready : (l.bytesInBuf ≠ 0) ∧ 0 < l.bytesInBuf := by omega
  simp only [scanBody, ScanTurn.send, transfer, hready, ne_eq, not_false_eq_true, if_true, and_true,
    hdrain, ok_bind]
  simp [addTrailer, hclean, ok_bind, pure, Except.pure]

/-- A turn that reads one record into the empty buffer. -/
theorem scanBody_receive {bufferSize : Nat} {l l' : ScanLocals} {data : List UInt8}
    {answer : SaneStatus × List UInt8} (hgood : l.status = .good) (hbytes : l.bytesInBuf = 0)
    (hfill : fill bufferSize l (.good, data) = .ok (l', answer)) (hclean : l'.statusDirty = false) :
    scanBody bufferSize l (ScanTurn.receive data).input = .ok (l', ⟨[], some answer⟩, .next) := by
  simp only [scanBody, ScanTurn.receive, transfer, hbytes, hgood, ne_eq, not_true_eq_false,
    if_false, or_true, and_self, if_true, hfill, ok_bind]
  simp [addTrailer, hclean, ok_bind, pure, Except.pure]

/-- The last three turns of a scan whose backend closes its descriptor. -/
theorem scanLoop_closing {bufferSize : Nat} {l : ScanLocals} (hgood : l.status = .good)
    (hfd : l.beFd = true) (hbytes : l.bytesInBuf = 0) (hroom : l.writer + 5 < bufferSize)
    {buf : Bytes} {reader : Int}
    (htrailer : addTrailer bufferSize
        { l with beFd := false, statusDirty := true, status := .eof } =
      .ok { l with
        beFd := false, status := .eof
        buf, reader, statusDirty := false, bytesInBuf := 5 }) :
    ∃ run, scanLoop bufferSize l [.lostFd, .idle, .send 5] = .ok run ∧ run.ended = .finished ∧
      run.locals.status = .eof ∧ run.reads = [] ∧
      run.written = (List.range 5).map fun k => buf (l.writer + k) := by
  have hlost := scanBody_lostFd bufferSize hgood hfd
  have hidle := scanBody_idle (l := { l with beFd := false, statusDirty := true, status := .eof })
    (by simp) hbytes htrailer
  have hsend := scanBody_send (n := 5) (l := { l with
    beFd := false, status := .eof, buf, reader, statusDirty := false, bytesInBuf := 5 })
    (by omega) rfl hroom rfl
  exact ⟨_, scanLoop_cons hlost rfl (by simp [ScanLocals.continues])
    (scanLoop_cons hidle rfl (by simp [ScanLocals.continues])
      (scanLoop_last hsend rfl (by simp [ScanLocals.continues]))), rfl, rfl, rfl, by simp⟩

/-- A buffer size the casts damage lets a scan without a bad read break the grammar. -/
theorem exists_not_grammatical {bufferSize : Nat} (hbig : 2 ^ 31 ≤ bufferSize)
    (hsize : bufferSize < 2 ^ 64) :
    ∃ turns run, scanLoop bufferSize (.start blank true) turns = .ok run ∧
      run.ended = .finished ∧ (∀ r ∈ run.reads, r.1 = .good) ∧ ¬ run.Grammatical := by
  by_cases hc : 5 ≤ toInt32 bufferSize
  · -- a record that ends at the wrapped size leaves `writer` there and `reader` at `0`
    have hlt := toInt32_lt bufferSize
    have hcong := toInt32_emod bufferSize
    obtain ⟨n, hn⟩ : ∃ n : Nat, toInt32 bufferSize = (n : Int) + 4 :=
      ⟨(toInt32 bufferSize - 4).toNat, by omega⟩
    obtain ⟨buf₁, -, hbuf₁, hfill⟩ := fill_full hbig hsize hc (l := .start blank true) rfl rfl
      (List.replicate n 0xff) (by simp [hn])
    have hreceive := scanBody_receive rfl rfl hfill rfl
    have hsend := scanBody_send (n := n + 4) (l := { ScanLocals.start blank true with
      status := .good, buf := buf₁, reader := 0, bytesInBuf := toInt32 bufferSize })
      (by omega) (by simp [hn]) (by change 0 + (n + 4) < bufferSize; omega) rfl
    obtain ⟨buf₂, hbuf₂, htrailer⟩ := addTrailer_zero (by omega) hsize hc
      (l := { ScanLocals.start blank true with
        buf := buf₁, reader := 0, bytesInBuf := 0, writer := 0 + (n + 4), status := .eof
        beFd := false, statusDirty := true }) rfl (show _ = (0 : Int) from rfl) le_rfl (by omega) rfl
    obtain ⟨run, hrun, hfin, hst, hreads, hwritten⟩ := scanLoop_closing
      (l := { ScanLocals.start blank true with
        buf := buf₁, reader := 0, bytesInBuf := 0, writer := 0 + (n + 4), status := .good })
      rfl rfl rfl (by change 0 + (n + 4) + 5 < bufferSize; omega) htrailer
    have hlast : (List.range 5).map (fun k => buf₂ (0 + (n + 4) + k)) = List.replicate 5 0xff := by
      apply List.ext_getElem (by simp)
      intro k hk _
      have hk' : k < 5 := by simpa using hk
      simp only [List.getElem_map, List.getElem_range, List.getElem_replicate]
      rw [hbuf₂ _ (by omega)]
      change buf₁ _ = _
      rw [hbuf₁ _ (by omega), storeBlock_of_not_mem (by simp; omega)]
      rfl
    refine ⟨_, _, scanLoop_cons hreceive rfl (by simp [ScanLocals.continues])
      (scanLoop_cons hsend rfl (by simp [ScanLocals.continues]) hrun), hfin, by simp [hreads], ?_⟩
    intro hgram
    simp only [ScanRun.Grammatical, hst, hwritten, hlast] at hgram
    rw [List.nil_append] at hgram
    have htail := (List.append_inj' hgram (by simp)).2
    revert htail
    decide
  · have hend := headerEnd_cases (toInt32 bufferSize)
    obtain ⟨run, hrun, hfin, hst, hreads, hwritten⟩ :=
      scanLoop_closing (l := .start blank true) rfl rfl rfl
        (by change 0 + 5 < bufferSize; omega)
        (addTrailer_blank (by omega) hsize rfl rfl (show _ = (0 : Int) from rfl) le_rfl (by omega) rfl)
    refine ⟨_, run, hrun, hfin, by simp [hreads], ?_⟩
    rw [ScanRun.Grammatical, hst, hreads, hwritten]
    have hpos : headerEnd (toInt32 bufferSize) = 0 ∨ headerEnd (toInt32 bufferSize) = 1 := by
      omega
    obtain h | h := hpos <;> rw [h] <;> decide

theorem storeReclen_noBuffer (buf : Bytes) (i : Int) (reclen : Nat) :
    storeReclen 0 buf i reclen = .error .outOfBounds := by
  rw [storeReclen, poke, if_neg (by simp)]
  rfl

/-- A turn without a buffer leaves the trailer owing. -/
theorem scanBody_noBuffer {l l' : ScanLocals} {input : ScanInput} {out : ScanOutput} {flow : Flow}
    (hbytes : l.bytesInBuf = 0) (howes : l.OwesTrailer)
    (hrun : scanBody 0 l input = .ok (l', out, flow)) (hflow : ∀ d, flow ≠ .leave d) :
    l'.bytesInBuf = 0 ∧ l'.OwesTrailer := by
  obtain ⟨-, -, rfl⟩ | ⟨data, be, l₁, htransfer, htrailer⟩ := scanBody_cases hrun hflow
  · refine ⟨hbytes, .inr ?_⟩
    obtain hgood | hdirty := howes
    · simp [hgood]
    · simp [hdirty]
  · obtain ⟨accepted, hpos, -⟩ | ⟨answer, -, -, -, hfill⟩ | ⟨rfl, -⟩ := transfer_cases htransfer
    · omega
    · -- a bad read is charged four bytes, so the trailer seems to fit
      exfalso
      obtain ⟨buf, hstore, hrest⟩ := bind_eq_ok.1 hfill
      dsimp only at hrest
      split_ifs at hrest with hgood
      · rw [storeReclen_noBuffer] at hrest
        cases hrest
      · simp only [pure_eq_ok, Prod.mk.injEq] at hrest
        obtain ⟨rfl, -⟩ := hrest
        have hnil : ∀ data : List UInt8, ∀ base : Int,
            storeData 0 l.buf base data = .ok buf → data = [] := by
          intro data base h
          unfold storeData at h
          split_ifs at h with hdata hfit
          · exact hdata
          · have : data.length ≠ 0 := by simpa using hdata
            omega
        rw [hnil _ _ hstore, hbytes] at htrailer
        have hroom : 5 ≤ toSize (((0 : Nat) : Int) - toInt32 (0 + ((0 : Nat) : Int) + 4)) := by
          decide
        rw [addTrailer, if_pos ⟨rfl, hroom⟩, storeReclen_noBuffer] at htrailer
        cases htrailer
    · rw [addTrailer, hbytes, if_neg (fun h => absurd h.2 (by decide))] at htrailer
      cases htrailer
      exact ⟨hbytes, howes⟩

/-- Without a buffer no scan gets to its end. -/
theorem not_finished_of_noBuffer {turns : List ScanTurn} :
    ∀ {l : ScanLocals} {run : ScanRun}, l.bytesInBuf = 0 → l.OwesTrailer →
      scanLoop 0 l turns = .ok run → run.ended ≠ .finished := by
  induction turns with
  | nil =>
      intro l run _ _ hrun hfin
      simp only [scanLoop, Except.ok.injEq] at hrun
      subst hrun
      cases hfin
  | cons turn turns ih =>
      intro l run hbytes howes hrun hfin
      obtain ⟨l', out, flow, hbody, hflow, ⟨hcont, -⟩ | ⟨-, rest, hrest, hrestFin, -⟩⟩ :=
        scanLoop_finished hrun hfin
      · obtain ⟨-, howes'⟩ := scanBody_noBuffer hbytes howes hbody hflow
        simp only [ScanLocals.continues, Bool.or_eq_false_iff, decide_eq_false_iff_not] at hcont
        simp [ScanLocals.OwesTrailer, hcont] at howes'
      · obtain ⟨hbytes', howes'⟩ := scanBody_noBuffer hbytes howes hbody hflow
        exact ih hbytes' howes' hrest hrestFin

/-- A finished scan puts on the data connection exactly the records and the
trailer when no read was bad, for the buffer sizes up to `INT_MAX`. -/
theorem scan_grammatical_iff (bufferArg : BitVec 32) :
    (∀ buf fd turns run,
        scanLoop (bufferSizeOf bufferArg) (.start buf fd) turns = .ok run → run.ended = .finished →
          (run.Grammatical ↔ ∀ r ∈ run.reads, r.1 = .good)) ↔
      bufferSizeOf bufferArg ≤ intMax := by
  constructor
  · intro h
    by_contra hbig
    have hlt := bufferSizeOf_lt bufferArg
    obtain ⟨turns, run, hrun, hfin, hgood, hbroken⟩ :=
      exists_not_grammatical (intMax_lt_iff.1 (not_le.1 hbig)) (by omega)
    exact hbroken ((h _ _ _ _ hrun hfin).2 hgood)
  · intro hmax buf fd turns run hrun hfin
    have hdvd := bufferSizeOf_dvd bufferArg
    obtain hzero | hpos := Nat.eq_zero_or_pos (bufferSizeOf bufferArg)
    · rw [hzero] at hrun
      exact absurd hfin (not_finished_of_noBuffer rfl (.inl rfl) hrun)
    · exact grammatical_iff (by omega) hmax hrun hfin

/-- A scan that is over at its first read: the read is charged four bytes, which
go out behind the trailer as the buffer happens to hold them. -/
theorem scan_grammatical_emptyScan :
    ∃ run, scanLoop (bufferSizeOf 1) (.start (fun _ => 0x2a) true)
        [⟨⟨.ready false true, none, .eof, []⟩, none⟩, .send 9] = .ok run ∧
      run.ended = .finished ∧
      run.written = [0xff, 0xff, 0xff, 0xff, 5, 0x2a, 0x2a, 0x2a, 0x2a] ∧
      ¬ run.Grammatical := by
  exact ⟨_, rfl, rfl, by decide, by decide⟩

end SaneBackends.Saned
