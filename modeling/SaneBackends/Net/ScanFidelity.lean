import SaneBackends.Net.ScanLink
/-!
# Fidelity of the scan data link

For which buffer sizes of the server the data link carries the backend's data and
status to the client.
-/

namespace SaneBackends.Net

open SaneBackends.Lib SaneBackends.Saned

/-- Both ends before the first turn, with a server whose buffer is blank. -/
def Link.blank : Link where
  server := .start Saned.blank true
  running := true
  channel := []
  client := .start 8 false false
  produced := []
  final := none
  returned := []
  seen := none

theorem reachable_blank (bufferSize : Nat) : (linkSystem bufferSize).Reachable .blank :=
  .start ⟨Saned.blank, true, 8, false, rfl⟩

section Oversize

variable {bufferSize : Nat}

theorem reachable_turn {s : Link} (hs : (linkSystem bufferSize).Reachable s) {input : ScanInput}
    (hrunning : s.running = true) (horderly : Orderly input) {l : ScanLocals} {out : ScanOutput}
    {flow : Flow} (hbody : scanBody bufferSize s.server input = .ok (l, out, flow)) :
    (linkSystem bufferSize).Reachable (s.afterTurn l out) :=
  .next (i := .turn input) hs trivial ⟨hrunning, horderly, l, out, flow, hbody, rfl⟩

theorem reachable_call {s : Link} (hs : (linkSystem bufferSize).Reachable s)
    (hseen : s.seen = none) {maxLength : Int} (hmaxLength : 0 < maxLength)
    {header answer : ReadResult} {channel : List UInt8}
    (hserves : Serves s.running s.channel (saneRead s.client maxLength header answer).2.2 channel) :
    (linkSystem bufferSize).Reachable
      (s.afterCall channel (saneRead s.client maxLength header answer)) :=
  .next (i := .call maxLength header answer) hs trivial ⟨hseen, hmaxLength, channel, hserves, rfl⟩

/-- The turn that ends the scan, for a trailer that goes in as `l'` says. -/
theorem scanBody_eof {l l' : ScanLocals} (hgood : l.status = .good) (hbytes : l.bytesInBuf = 0)
    (htrailer : addTrailer bufferSize
      { l with status := .eof, bytesInBuf := 4, statusDirty := true } = .ok l') :
    scanBody bufferSize l ScanInput.eof = .ok (l', ⟨[], some (.eof, [])⟩, .next) := by
  have hfill := fill_bad bufferSize hbytes (show SaneStatus.eof ≠ .good by decide)
  simp [scanBody, ScanInput.eof, transfer, hbytes, hgood, hfill, ok_bind, htrailer]

theorem orderly_eof : Orderly ScanInput.eof :=
  ⟨⟨false, true, rfl⟩, by simp [ScanInput.eof], by simp [ScanInput.eof]⟩

theorem orderly_send (n : Nat) : Orderly (ScanTurn.send n).input :=
  ⟨⟨true, false, rfl⟩, by simp [ScanTurn.send], by simp [ScanTurn.send]⟩

theorem orderly_receive (data : List UInt8) : Orderly (ScanTurn.receive data).input :=
  ⟨⟨false, true, rfl⟩, by simp [ScanTurn.receive], by simp [ScanTurn.receive]⟩

/-- One call takes a whole record. -/
theorem saneRead_record {data : List UInt8} {n : Nat} (hpos : 0 < n) (hn : n < 2 ^ 31)
    (hlen : data.length = n) :
    saneRead (.start 8 false false) n (.bytes (reclenBytes n)) (.bytes data) =
      (.start 8 false false, .of .good data,
        [⟨.header, 4, .bytes (reclenBytes n)⟩, ⟨.payload, n, .bytes data⟩]) := by
  obtain ⟨request, -, -, hrequest, hrecord⟩ := readRecord_eq
    (c := ⟨true, [], n, 8, false, false, none, none⟩) rfl rfl hn
    (show (0 : Int) < n by omega) (.bytes data)
  obtain rfl : request = n := hrequest rfl
  have hcut : (ReadResult.bytes data).cut request = .bytes data := by
    rw [ReadResult.cut, ← hlen, List.take_length]
  rw [hcut] at hrecord
  have hvalue : reclenValue ([] ++ reclenBytes request) = request :=
    reclenValue_reclenBytes (by omega)
  have hheader : (ReadResult.bytes (reclenBytes request)).cut 4 = .bytes (reclenBytes request) :=
    rfl
  have htrailer : ¬ request = 4294967295 := by omega
  simp only [saneRead, readPipe, NetScanner.start, NetScanner.swaps, List.length_nil, Nat.sub_zero,
    hheader, hvalue, htrailer, if_false, hrecord]
  simp [hlen]

/-- When the trailer's header wraps, the client takes the trailer for a record. -/
theorem exists_extra_of_wrap (hbig : 2 ^ 31 ≤ bufferSize) (hsize : bufferSize < 2 ^ 64)
    (hc : toInt32 bufferSize ≤ 4) :
    ∃ s, (linkSystem bufferSize).Reachable s ∧ s.produced = [] ∧ s.returned = [0xff] := by
  have hend := headerEnd_cases (toInt32 bufferSize)
  have htrailer := addTrailer_blank (show 9 ≤ bufferSize by omega) hsize
    (l := { ScanLocals.start blank true with status := .eof, bytesInBuf := 4, statusDirty := true })
    rfl rfl (show _ = (4 : Int) from rfl) (by omega) le_rfl rfl
  have h₁ := reachable_turn (reachable_blank bufferSize) rfl orderly_eof
    (scanBody_eof rfl rfl htrailer)
  have h₂ := reachable_turn h₁ rfl (orderly_send 9)
    (scanBody_send (n := 9) (by omega) rfl (by change 0 + 9 < bufferSize; omega) rfl)
  -- the misplaced status byte is the first or the second of the nine bytes sent
  have hpos : (headerEnd (toInt32 bufferSize)).toNat = 0 ∨
      (headerEnd (toInt32 bufferSize)).toNat = 1 := by omega
  obtain ⟨a, b, rest, hsent, hbytes⟩ : ∃ a b rest,
      (List.range 9).map (fun k => Function.update Saned.blank
        (headerEnd (toInt32 bufferSize)).toNat SaneStatus.eof.byte (0 + k)) =
          [a, b, 0xff, 0xff] ++ ([0xff] ++ rest) ∧
        (a = 5 ∧ b = 0xff ∨ a = 0xff ∧ b = 5) := by
    obtain h | h := hpos <;> rw [h]
    · exact ⟨5, 0xff, [0xff, 0xff, 0xff, 0xff], by decide, .inl ⟨rfl, rfl⟩⟩
    · exact ⟨0xff, 5, [0xff, 0xff, 0xff, 0xff], by decide, .inr ⟨rfl, rfl⟩⟩
  obtain ⟨s, hs, hchannel, hclient, hproduced, hreturned, hseen⟩ :
      ∃ s, (linkSystem bufferSize).Reachable s ∧
        s.channel = [a, b, 0xff, 0xff] ++ ([0xff] ++ rest) ∧ s.client = .start 8 false false ∧
        s.produced = [] ∧ s.returned = [] ∧ s.seen = none := by
    refine ⟨_, h₂, ?_, rfl, rfl, rfl, rfl⟩
    rw [← hsent]
    simp only [Link.afterTurn, Link.blank, List.nil_append]
    rfl
  obtain ⟨request, hlog, hdata⟩ : ∃ request,
      (saneRead (.start 8 false false) 1 (.bytes [a, b, 0xff, 0xff]) (.bytes [0xff])).2.2 =
          [⟨.header, 4, .bytes [a, b, 0xff, 0xff]⟩, ⟨.payload, request, .bytes [0xff]⟩] ∧
        (saneRead (.start 8 false false) 1 (.bytes [a, b, 0xff, 0xff])
          (.bytes [0xff])).2.1.data = [0xff] := by
    obtain ⟨rfl, rfl⟩ | ⟨rfl, rfl⟩ := hbytes
    · exact ⟨1, by decide +kernel⟩
    · exact ⟨18446744073693167615, by decide +kernel⟩
  have hserves : Serves s.running s.channel
      (saneRead s.client 1 (.bytes [a, b, 0xff, 0xff]) (.bytes [0xff])).2.2 rest := by
    rw [hclient, hlog, hchannel]
    exact .bytes rfl (.inl (by simp)) (.bytes rfl (.inl (by simp)) .done)
  exact ⟨_, reachable_call hs hseen (by omega) hserves, hproduced,
    by simp [Link.afterCall, hreturned, hclient, hdata]⟩

theorem Link.not_faithful_of_extra {s : Link} (hproduced : s.produced = [])
    (hreturned : s.returned = [0xff]) : ¬ s.Faithful := by
  intro h
  have hleads := h.1
  rw [hproduced, hreturned] at hleads
  simp at hleads

/-- When the record wraps `reader` short of the end, the server sends the trailer
from a place it was not stored at. -/
theorem exists_not_faithful_of_gap (hbig : 2 ^ 31 ≤ bufferSize) (hsize : bufferSize < 2 ^ 64)
    (hc : 5 ≤ toInt32 bufferSize) :
    ∃ s, (linkSystem bufferSize).Reachable s ∧ ¬ s.Faithful := by
  have hlt := toInt32_lt bufferSize
  have hcong := toInt32_emod bufferSize
  obtain ⟨n, hn⟩ : ∃ n : Nat, toInt32 bufferSize = (n : Int) + 4 :=
    ⟨(toInt32 bufferSize - 4).toNat, by omega⟩
  -- a record up to the wrapped size, sent in full
  obtain ⟨buf₁, hheader, hbuf₁, hfill⟩ := fill_full hbig hsize hc (l := .start Saned.blank true)
    rfl rfl (List.replicate n 0xff) (by simp [hn])
  have h₁ := reachable_turn (reachable_blank bufferSize) rfl (orderly_receive _)
    (scanBody_receive rfl rfl hfill rfl)
  have h₂ := reachable_turn h₁ rfl (orderly_send (n + 4))
    (scanBody_send (by omega) (by simp [Link.afterTurn, hn])
      (by change 0 + (n + 4) < bufferSize; omega) rfl)
  -- the trailer, stored at the start but sent from behind the record
  obtain ⟨buf₂, hbuf₂, htrailer⟩ := addTrailer_zero (show 9 ≤ bufferSize by omega) hsize hc
    (l := { ScanLocals.start Saned.blank true with
      buf := buf₁, reader := 0, bytesInBuf := 4, writer := 0 + (n + 4), status := .eof
      statusDirty := true }) rfl (show _ = (4 : Int) from rfl) (by omega) le_rfl rfl
  have h₃ := reachable_turn h₂ rfl orderly_eof (scanBody_eof rfl rfl htrailer)
  have h₄ := reachable_turn h₃ rfl (orderly_send 9)
    (scanBody_send (n := 9) (by omega) rfl (by change 0 + (n + 4) + 9 < bufferSize; omega) rfl)
  have hrecord : (List.range (n + 4)).map (fun k => buf₁ (0 + k)) =
      reclenBytes n ++ List.replicate n 0xff := by
    have hdata : ∀ k < n, buf₁ (4 + k) = 0xff := by
      intro k hk
      rw [hbuf₁ _ (by omega), storeBlock_of_mem (by simpa using hk), List.getElem_replicate]
    rw [Nat.add_comm n 4, List.range_add, List.map_append, List.map_map]
    simp only [Nat.zero_add]
    rw [hheader, List.length_replicate]
    refine congrArg (reclenBytes n ++ ·) ?_
    apply List.ext_getElem (by simp)
    intro k hk _
    simp only [List.length_map, List.length_range] at hk
    simp [hdata k hk]
  have hrest : (List.range 9).map (fun k => buf₂ (0 + (n + 4) + k)) = List.replicate 9 0xff := by
    apply List.ext_getElem (by simp)
    intro k _ _
    simp only [List.getElem_map, List.getElem_range, List.getElem_replicate]
    rw [hbuf₂ _ (by omega)]
    change buf₁ _ = _
    rw [hbuf₁ _ (by omega), storeBlock_of_not_mem (by simp; omega)]
    rfl
  obtain ⟨s, hs, hchannel, hclient, hfinal, hseen⟩ :
      ∃ s, (linkSystem bufferSize).Reachable s ∧
        s.channel = reclenBytes n ++ (List.replicate n 0xff ++ List.replicate 9 0xff) ∧
        s.client = .start 8 false false ∧ s.final = some .eof ∧ s.seen = none := by
    refine ⟨_, h₄, ?_, rfl, rfl, rfl⟩
    rw [← List.append_assoc, ← hrecord, ← hrest]
    simp only [Link.afterTurn, Link.blank, List.nil_append, List.append_nil]
    rfl
  -- the client takes the record and then a status the backend never gave
  have hrecordRead : saneRead (.start 8 false false) n (.bytes (reclenBytes n))
      (.bytes (List.replicate n 0xff)) =
        (.start 8 false false, .of .good (List.replicate n 0xff),
          [⟨.header, 4, .bytes (reclenBytes n)⟩, ⟨.payload, n, .bytes (List.replicate n 0xff)⟩]) :=
    saneRead_record (by omega) (by omega) (by simp)
  have hserves₁ : Serves s.running s.channel (saneRead s.client n (.bytes (reclenBytes n))
      (.bytes (List.replicate n 0xff))).2.2 (List.replicate 9 0xff) := by
    rw [hclient, hrecordRead, hchannel]
    exact .bytes rfl (.inl (by simp [reclenBytes])) (.bytes rfl (.inl (by simp; omega)) .done)
  have h₅ := reachable_call hs hseen (by omega) hserves₁
  have hstatusRead : (saneRead (.start 8 false false) 1 (.bytes [0xff, 0xff, 0xff, 0xff])
        (.bytes [0xff])).2.2 =
          [⟨.header, 4, .bytes [0xff, 0xff, 0xff, 0xff]⟩, ⟨.status, 1, .bytes [0xff]⟩] ∧
      (saneRead (.start 8 false false) 1 (.bytes [0xff, 0xff, 0xff, 0xff])
        (.bytes [0xff])).2.1.status = -1 := by
    decide +kernel
  obtain ⟨hlog, hstatus⟩ := hstatusRead
  have hserves₂ : Serves s.running ([0xff, 0xff, 0xff, 0xff] ++ ([0xff] ++ [0xff, 0xff, 0xff, 0xff]))
      (saneRead (.start 8 false false) 1 (.bytes [0xff, 0xff, 0xff, 0xff])
        (.bytes [0xff])).2.2 [0xff, 0xff, 0xff, 0xff] := by
    rw [hlog]
    exact .bytes rfl (.inl (by simp)) (.bytes rfl (.inl (by simp)) .done)
  rw [hclient, hrecordRead] at h₅
  refine ⟨_, reachable_call h₅ rfl (show (0 : Int) < 1 by omega) hserves₂, fun hfaithful => ?_⟩
  obtain ⟨st, -, hcode, -⟩ := hfaithful.2 (-1) (by
    change (if (saneRead (.start 8 false false) 1 (.bytes [0xff, 0xff, 0xff, 0xff])
        (.bytes [0xff])).2.1.status = 0 then none else
      some (saneRead (.start 8 false false) 1 (.bytes [0xff, 0xff, 0xff, 0xff])
        (.bytes [0xff])).2.1.status) = _
    rw [hstatus]
    rfl)
  omega

end Oversize

/-- For a server buffer of at least 16 bytes, the data and the status arrive in
every run exactly if the size is not cut by the casts to `int`. -/
theorem faithful_iff {bufferSize : Nat} (hmin : 16 ≤ bufferSize) (hsize : bufferSize < 2 ^ 64) :
    (∀ s, (linkSystem bufferSize).Reachable s → s.Faithful ∧
        ∃ s', (linkSystem bufferSize).Leads s s' ∧ s'.seen ≠ none) ↔
      bufferSize ≤ intMax := by
  constructor
  · intro h
    by_contra hbig
    have hbig' := intMax_lt_iff.1 (not_le.1 hbig)
    obtain ⟨s, hs, hbroken⟩ : ∃ s, (linkSystem bufferSize).Reachable s ∧ ¬ s.Faithful := by
      by_cases hc : 5 ≤ toInt32 bufferSize
      · exact exists_not_faithful_of_gap hbig' hsize hc
      · obtain ⟨s, hs, hproduced, hreturned⟩ := exists_extra_of_wrap hbig' hsize (by omega)
        exact ⟨s, hs, Link.not_faithful_of_extra hproduced hreturned⟩
    exact hbroken (h s hs).1
  · intro hmax s hs
    exact ⟨(linkInv_of_reachable (by omega) hmax hs).faithful,
      exists_seen_of_reachable (by omega) hmax hs⟩

/-- The default buffer size. -/
theorem faithful_default :
    1048576 ≤ intMax ∧ ∀ s, (linkSystem 1048576).Reachable s → s.Faithful ∧
      ∃ s', (linkSystem 1048576).Leads s s' ∧ s'.seen ≠ none :=
  ⟨by decide, (faithful_iff (by decide) (by decide)).2 (by decide)⟩

/-- A scan over at its first read, with the buffer of `-B 2097152`: the client is
handed a byte the backend never produced. -/
theorem not_faithful_twoGiB :
    ∃ s, (linkSystem (bufferSizeOf 2097152)).Reachable s ∧ s.produced = [] ∧
      s.returned = [0xff] ∧ ¬ s.Faithful := by
  obtain ⟨s, hs, hproduced, hreturned⟩ :=
    exists_extra_of_wrap (show 2 ^ 31 ≤ bufferSizeOf 2097152 by decide) (by decide) (by decide)
  exact ⟨s, hs, hproduced, hreturned, Link.not_faithful_of_extra hproduced hreturned⟩

end SaneBackends.Net
