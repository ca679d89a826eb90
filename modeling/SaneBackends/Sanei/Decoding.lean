import SaneBackends.Lib.Graded
import SaneBackends.Sanei.Ownership
import SaneBackends.Sanei.WireBuffer
/-!
# Decoding whatever a peer sends

Decoding never faults. It charges the wire for each block it allocates, and when it
ends with status 0 the blocks of the decoded value are exactly those charged for.
-/

namespace SaneBackends.Sanei

open SaneBackends.Lib

def Charge.after (c : Charge) : BitVec 32 := c.before + BitVec.ofNat 32 c.bytes

def Charge.owned (c : Charge) : Owned := ⟨c.addr, c.bytes⟩

/-- The bytes of a list of charges. -/
def chargedBytes : List Charge → BitVec 32
  | [] => 0
  | c :: cs => BitVec.ofNat 32 c.bytes + chargedBytes cs

/-- Each charge starts from the total the one before it left. -/
def Chained : BitVec 32 → List Charge → Prop
  | _, [] => True
  | total, c :: cs => c.before = total ∧ Chained c.after cs

theorem chargedBytes_append (cs ds : List Charge) :
    chargedBytes (cs ++ ds) = chargedBytes cs + chargedBytes ds := by
  induction cs with
  | nil => simp [chargedBytes]
  | cons c cs ih =>
      simp only [List.cons_append, chargedBytes, ih]
      bv_omega

theorem chained_append {total : BitVec 32} {cs ds : List Charge} :
    Chained total (cs ++ ds) ↔ Chained total cs ∧ Chained (total + chargedBytes cs) ds := by
  induction cs generalizing total with
  | nil => simp [Chained, chargedBytes]
  | cons c cs ih =>
      simp only [List.cons_append, Chained, ih, and_assoc]
      apply and_congr_right
      rintro rfl
      have hsum : c.before + chargedBytes (c :: cs) = c.after + chargedBytes cs := by
        simp only [chargedBytes, Charge.after]
        bv_omega
      rw [hsum]

/-- From `w` to `w'` the blocks of `cs` were allocated and charged for. -/
structure Charged (cs : List Charge) (w w' : Wire) : Prop where
  version : w'.version = w.version
  io : w'.io = { w.io with nreads := w'.io.nreads, incoming := w'.io.incoming }
  live : w'.heap.live = (cs.map Charge.addr).reverse ++ w.heap.live
  total : w'.allocatedMemory = w.allocatedMemory + chargedBytes cs
  charges : w'.charges = w.charges ++ cs
  chained : Chained w.allocatedMemory cs
  bounded : ∀ c ∈ cs, c.bytes ≤ maxMem ∧ (c.site = .array → c.after.toInt ≤ maxMem)

theorem Charged.refl (w : Wire) : Charged [] w w where
  version := rfl
  io := rfl
  live := rfl
  total := by simp [chargedBytes]
  charges := (List.append_nil _).symm
  chained := trivial
  bounded := by simp

theorem Charged.trans {cs ds : List Charge} {w w' w'' : Wire} (h : Charged cs w w')
    (h' : Charged ds w' w'') : Charged (cs ++ ds) w w'' where
  version := h'.version.trans h.version
  io := by rw [h'.io, h.io]
  live := by rw [h'.live, h.live, List.map_append, List.reverse_append, List.append_assoc]
  total := by
    rw [h'.total, h.total, chargedBytes_append]
    bv_omega
  charges := by rw [h'.charges, h.charges, List.append_assoc]
  chained := chained_append.mpr ⟨h.chained, h.total ▸ h'.chained⟩
  bounded := by
    intro c hc
    rcases List.mem_append.mp hc with hc | hc
    · exact h.bounded c hc
    · exact h'.bounded c hc

def charging : Graded Wire Charge := ⟨Charged, Charged.refl, Charged.trans⟩

structure Decoding (w : Wire) : Prop where
  direction : w.direction = .decode
  sound : w.buffer.Sound

def Fine (w : Wire) : Prop := w.status = 0

/-- Whatever is on the wire, decoding ends without a fault; with status 0 it leaves
`post` of the value and the charges. -/
abbrev Decodes {α : Type} (m : WireM α) (post : α → List Charge → Prop) : Prop :=
  charging.Triple Decoding Fine m post

/-- A decoded value of holding `h` owns what was charged for. -/
def Accounts (h : Holding) (cs : List Charge) : Prop :=
  h.decoded ∧ cs.map Charge.owned = h.blocks

theorem Accounts.empty : Accounts .empty [] := ⟨trivial, rfl⟩

theorem Accounts.append {g h : Holding} {cs ds : List Charge} (hg : Accounts g cs)
    (hh : Accounts h ds) : Accounts (g ++ h) (cs ++ ds) := by
  refine ⟨⟨hg.1, hh.1⟩, ?_⟩
  rw [List.map_append, hg.2, hh.2, Holding.append_blocks]

/-- A computation that only receives. -/
theorem charged_of_received {w w' : Wire} (h : Received w w') : Charged [] w w' := by
  have hrefl := Charged.refl w
  refine ⟨?_, h.io, ?_, ?_, ?_, trivial, by simp⟩
  · rw [h.eq]
  · rw [h.eq]
    rfl
  · rw [h.eq]
    exact hrefl.total
  · rw [h.eq]
    exact hrefl.charges

theorem decodes_scalar {α : Type} {n : Nat} (put : α → List UInt8) (peek : List UInt8 → α) (x : α) :
    Decodes ((binWScalar n put peek).run x) (fun _ cs => cs = []) := by
  intro w hw
  obtain ⟨hrec, hsound, hdone⟩ := saneiWSpace_decode hw.direction hw.sound n
  have hdir : (saneiWSpace n w).direction = .decode := by
    rw [hrec.eq]
    exact hw.direction
  have hcharged := charged_of_received hrec
  by_cases hst : (saneiWSpace n w).status = 0
  · obtain ⟨hok, hle⟩ := hdone hst
    refine ⟨_, (saneiWSpace n w).advance n, [],
      binWScalar_run_decode put peek x hw.direction hw.sound hst, ⟨hdir, hsound.advance hle⟩, ?_,
      fun _ => ⟨hok, rfl⟩⟩
    exact ⟨hcharged.version, hcharged.io, hcharged.live, hcharged.total, hcharged.charges, trivial, by simp⟩
  · refine ⟨x, saneiWSpace n w, [], ?_, ⟨hdir, hsound⟩, hcharged, fun h => absurd h hst⟩
    simp [binWScalar, hst]
    rfl

theorem decodes_scalar_accounts {α : Type} {n : Nat} (put : α → List UInt8)
    (peek : List UInt8 → α) (x : α) :
    Decodes ((binWScalar n put peek).run x) fun y cs => Accounts (scalarHolding y) cs :=
  (decodes_scalar put peek x).conseq fun _ _ hcs => hcs ▸ .empty

/-- The bytes of an array that passes the three tests keep the total in bounds. -/
theorem le_of_not_exceedsMaxMem {w : Wire} {len : SaneWord} {size : Nat}
    (h : ¬ exceedsMaxMem w len size) :
    len.toNat ≤ maxMem ∧ len.toNat * size ≤ maxMem ∧
      (w.allocatedMemory + BitVec.ofNat 32 (len.toNat * size)).toInt ≤ maxMem := by
  simp only [exceedsMaxMem, decide_eq_true_eq, not_or, not_lt] at h
  obtain ⟨hlen, hbytes, htotal⟩ := h
  refine ⟨hlen, hbytes, ?_⟩
  have hbig : maxMem = 2 ^ 20 := rfl
  have hint : len.toInt = len.toNat := BitVec.toInt_eq_toNat_of_lt (by omega)
  have hlo := w.allocatedMemory.le_toInt
  have hhi := w.allocatedMemory.toInt_lt
  rw [hint, ← Nat.cast_mul] at htotal
  generalize len.toNat * size = bytes at hbytes htotal ⊢
  have hsum : (w.allocatedMemory + BitVec.ofNat 32 bytes).toInt =
      toInt32 (w.allocatedMemory.toInt + bytes) := by
    rw [BitVec.toInt_add, BitVec.toInt_ofNat', toInt32, Int.add_bmod_bmod]
  have hrange : 0 ≤ w.allocatedMemory.toInt + bytes ∧
      w.allocatedMemory.toInt + bytes ≤ maxMem := by
    unfold toSize at htotal
    omega
  rw [hsum, toInt32_eq_self (by omega) (by omega)]
  exact hrange.2

theorem at_setStatus {w : Wire} (hw : Decoding w) {status : Nat} (hst : status ≠ 0) {α : Type}
    (a : α) (post : α → List Charge → Prop) :
    charging.At Decoding Fine w (do setStatus status; pure a) post := by
  refine ⟨a, { w with status }, [], rfl, ⟨hw.direction, hw.sound⟩, ?_, fun h => absurd h hst⟩
  have hrefl := Charged.refl w
  exact ⟨rfl, rfl, rfl, hrefl.total, hrefl.charges, trivial, by simp⟩

theorem malloc_granted {h : Heap} (hgrant : h.grant h.asked) :
    ∃ heap, h.malloc = (some h.next, heap) ∧ heap.live = h.next :: h.live ∧
      heap.grant = h.grant := by
  rw [Heap.malloc, if_pos hgrant]
  exact ⟨_, rfl, rfl, rfl⟩

theorem malloc_refused {h : Heap} (hgrant : ¬ h.grant h.asked) :
    ∃ heap, h.malloc = (none, heap) ∧ heap.live = h.live := by
  rw [Heap.malloc, if_neg hgrant]
  exact ⟨_, rfl, rfl⟩

theorem allocate_granted {w : Wire} (hgrant : w.heap.grant w.heap.asked) (site : ChargeSite)
    (bytes : Nat) :
    ∃ heap, (allocate site bytes).run w = .ok (some w.heap.next, { w with
        heap
        allocatedMemory := w.allocatedMemory + BitVec.ofNat 32 bytes
        charges := w.charges ++ [⟨site, w.allocatedMemory, bytes, w.heap.next⟩] }) ∧
      heap.live = w.heap.next :: w.heap.live ∧ heap.grant = w.heap.grant := by
  obtain ⟨heap, hmalloc, hlive, hgrants⟩ := malloc_granted hgrant
  refine ⟨heap, ?_, hlive, hgrants⟩
  simp only [allocate, StateT.run_bind, StateT.run_get, pure_bind, hmalloc]
  rfl

theorem at_allocate {w : Wire} (hw : Decoding w) {site : ChargeSite} {bytes : Nat}
    (hbytes : bytes ≤ maxMem)
    (hle : site = .array → (w.allocatedMemory + BitVec.ofNat 32 bytes).toInt ≤ maxMem) :
    charging.At Decoding Fine w (allocate site bytes) fun addr cs =>
      ∃ a, addr = some a ∧ cs.map Charge.owned = [⟨a, bytes⟩] := by
  by_cases hgrant : w.heap.grant w.heap.asked
  · obtain ⟨heap, hrun, hlive, -⟩ := allocate_granted hgrant site bytes
    refine ⟨some w.heap.next, _, [⟨site, w.allocatedMemory, bytes, w.heap.next⟩], hrun,
      ⟨hw.direction, hw.sound⟩, ⟨rfl, rfl, hlive, ?_, rfl, ⟨rfl, trivial⟩, ?_⟩,
      fun hok => ⟨hok, w.heap.next, rfl, rfl⟩⟩
    · simp [chargedBytes]
    · intro c hc
      obtain rfl := List.mem_singleton.mp hc
      exact ⟨hbytes, hle⟩
  · obtain ⟨heap, hmalloc, hlive⟩ := malloc_refused hgrant
    refine ⟨none, { w with heap, status := enomem }, [], ?_, ⟨hw.direction, hw.sound⟩, ?_,
      fun hok => absurd hok (by decide : enomem ≠ 0)⟩
    · simp only [allocate, StateT.run_bind, StateT.run_get, pure_bind, hmalloc]
      rfl
    · have hrefl := Charged.refl w
      exact ⟨rfl, rfl, hlive, hrefl.total, hrefl.charges, trivial, by simp⟩

section Arrays

variable {α : Type} {element : WireCodecFunc α} {holding : α → Holding}

/-- Elements decode one after the other, each charging for what it owns. -/
theorem decodes_elements (helement : ∀ x, Decodes (element.run x) fun y cs => Accounts (holding y) cs)
    (xs : List α) :
    Decodes (transferElements element xs.length xs) fun ys cs =>
      ys.length = xs.length ∧ (∀ y ∈ ys, (holding y).decoded) ∧
        cs.map Charge.owned = ys.flatMap fun y => (holding y).blocks := by
  induction xs with
  | nil => exact .pure ⟨rfl, by simp, rfl⟩
  | cons x xs ih =>
      apply (helement x).bind
      intro y w hw
      apply Graded.At.get_bind
      split_ifs with hst
      · exact .pure hw fun hok => absurd hok hst
      · apply (ih w hw).bind
        intro ys w' ds hw' hys
        apply Graded.At.pure hw'
        intro hok cs hy
        obtain ⟨-, hlength, hdecoded, hblocks⟩ := hys hok
        refine ⟨by simp [hlength], List.forall_mem_cons.mpr ⟨hy.1, hdecoded⟩, ?_⟩
        rw [List.append_nil, List.map_append, hy.2, hblocks, List.flatMap_cons]

/-- An array that was decoded, with the length found on the wire. -/
def DecodedArray (size : Nat) (holding : α → Holding) (p : SaneWord × Ptr (List α))
    (cs : List Charge) : Prop :=
  (p.1 = 0 ∧ p.2 = none ∧ cs = []) ∨
    ∃ block, p.2 = some block ∧ 0 < p.1.toInt ∧ p.1.toInt = block.val.length ∧
      block.val.length ≤ maxMem ∧ (∀ x ∈ block.val, (holding x).decoded) ∧
      cs.map Charge.owned = arrayBlocks size holding (some block)

theorem decodes_word (x : SaneWord) : Decodes (binWWord.run x) (fun _ cs => cs = []) :=
  decodes_scalar _ _ x

theorem decodes_array {zero : α} {size : Nat} (lenPtr : SaneWord) (v : Ptr (List α))
    (helement : ∀ x, Decodes (element.run x) fun y cs => Accounts (holding y) cs) :
    Decodes (saneiWArray binWWord element zero size lenPtr v) (DecodedArray size holding) := by
  intro w hw
  apply Graded.At.get_bind
  simp only [hw.direction]
  apply Graded.At.get_bind
  apply (decodes_word w.stale w hw).bind
  intro len w₁ cs₁ hw₁ hlen
  apply Graded.At.get_bind
  split_ifs with hst hzero
  · exact .pure hw₁ fun hok => absurd hok hst
  · apply Graded.At.pure hw₁
    intro hok
    exact .inl ⟨hzero, rfl, by simp [(hlen hok).2]⟩
  apply Graded.At.get_bind
  split_ifs with hexceeds
  · exact at_setStatus hw₁ (by decide) _ _
  obtain ⟨hle, hbytes, htotal⟩ := le_of_not_exceedsMaxMem hexceeds
  apply (at_allocate hw₁ hbytes fun _ => htotal).bind
  intro addr w₂ cs₂ hw₂ haddr
  cases addr with
  | none =>
      apply Graded.At.pure hw₂
      intro hok
      obtain ⟨-, a, ha, -⟩ := haddr hok
      cases ha
  | some addr =>
      have hint : len.toInt = len.toNat := BitVec.toInt_eq_toNat_of_lt (by
        have hbig : maxMem = 2 ^ 20 := rfl
        omega)
      have hpos : 0 < len.toNat := by
        apply Nat.pos_of_ne_zero
        intro h0
        exact hzero (BitVec.eq_of_toNat_eq h0)
      have helements := decodes_elements helement (List.replicate len.toNat zero)
      rw [List.length_replicate] at helements
      have hcount : len.toInt.toNat = len.toNat := by omega
      rw [hcount]
      apply (helements w₂ hw₂).bind
      intro ys w₃ cs₃ hw₃ hys
      apply Graded.At.pure hw₃
      intro hok
      obtain ⟨hok₂, hlength, hdecoded, hblocks⟩ := hys hok
      obtain ⟨hok₁, a, ha, howned⟩ := haddr hok₂
      cases ha
      have hlen_pos : 0 < len.toInt := by omega
      have hlen_eq : len.toInt = ys.length := by omega
      have hlen_le : ys.length ≤ maxMem := by omega
      refine .inr ⟨⟨addr, ys⟩, rfl, hlen_pos, hlen_eq, hlen_le, hdecoded, ?_⟩
      rw [(hlen hok₁).2, List.nil_append, List.append_nil, List.map_append, howned, hblocks,
        arrayBlocks, hlength]
      rfl

/-- A decoded array of elements that own nothing or what was charged for them. -/
theorem DecodedArray.accounts {size : Nat} {p : SaneWord × Ptr (List α)} {cs : List Charge}
    (h : DecodedArray size holding p cs) (stray : Option Fault) (len : Except Fault SaneWord) :
    Accounts (arrayHolding size holding stray len p.2) cs := by
  rcases h with ⟨-, hnull, rfl⟩ | ⟨block, hblock, hpos, hlen, hle, hdecoded, howned⟩
  · rw [hnull]
    exact ⟨by simp [arrayHolding], rfl⟩
  · rw [hblock]
    refine ⟨?_, howned⟩
    intro b hb
    cases hb
    refine ⟨?_, hle, hdecoded⟩
    rintro hnil
    rw [hnil] at hlen
    simp at hlen
    omega

theorem decodes_ptr {f : α → WireM α} {zero : α} {size : Nat} (v : Ptr α)
    (hf : Decodes (f zero) fun y cs => Accounts (holding y) cs) :
    Decodes (saneiWPtr binWWord f zero size v) fun y cs =>
      Accounts (ptrHolding size holding y) cs := by
  intro w hw
  apply Graded.At.get_bind
  simp only [hw.direction]
  apply Graded.At.get_bind
  apply (decodes_word w.stale w hw).bind
  intro isNull w₁ cs₁ hw₁ hnull
  apply Graded.At.get_bind
  split_ifs with hst hsome hsize
  · exact .pure hw₁ fun hok => absurd hok hst
  · exact at_setStatus hw₁ (by decide) _ _
  · apply (at_allocate hw₁ (Nat.le_of_not_lt hsize) (by simp)).bind
    intro addr w₂ cs₂ hw₂ haddr
    cases addr with
    | none =>
        apply Graded.At.pure hw₂
        intro hok
        obtain ⟨-, a, ha, -⟩ := haddr hok
        cases ha
    | some addr =>
        apply (hf w₂ hw₂).bind
        intro y w₃ cs₃ hw₃ hy
        apply Graded.At.pure hw₃
        intro hok
        obtain ⟨hok₂, hdecoded, hblocks⟩ := hy hok
        obtain ⟨hok₁, a, ha, howned⟩ := haddr hok₂
        cases ha
        refine ⟨hdecoded, ?_⟩
        rw [(hnull hok₁).2, List.nil_append, List.append_nil, List.map_append, howned, hblocks]
        rfl
  · apply Graded.At.pure hw₁
    intro hok
    rw [(hnull hok).2]
    exact .empty

end Arrays

theorem Decoding.not_ne {w : Wire} (hw : Decoding w) : ¬ w.direction ≠ .decode :=
  not_not.mpr hw.direction

theorem decodes_string (s : SaneString) :
    Decodes (binWString.run s) fun y cs => Accounts (stringHolding y) cs := by
  intro w hw
  apply Graded.At.get_bind
  rw [if_neg hw.not_ne]
  apply Graded.At.get_bind
  rw [pure_bind]
  have helement : ∀ x, Decodes (binWByte.run x) fun y cs => Accounts (scalarHolding y) cs :=
    decodes_scalar_accounts _ _
  apply (decodes_array w.stale s helement w hw).bind
  intro p w₁ cs hw₁ harray
  apply Graded.At.get_bind
  rw [if_pos hw₁.direction]
  split_ifs with hzero
  · apply Graded.At.pure hw₁
    intro hok
    rcases (harray hok).2 with ⟨-, -, rfl⟩ | ⟨block, -, hpos, -⟩
    · exact ⟨by simp [stringHolding], rfl⟩
    · rw [hzero] at hpos
      exact absurd hpos (by decide)
  apply Graded.At.get_bind
  split_ifs with hst
  · rcases (harray hst).2 with ⟨hlen, -⟩ | ⟨block, hblock, hpos, hlen, hle, -, howned⟩
    · exact absurd hlen hzero
    · have hterminate : terminate p.1 p.2 =
          .ok (some { block with val := block.val.set (p.1.toInt - 1).toNat 0 }) := by
        rw [hblock]
        exact if_pos ⟨hpos, by omega⟩
      rw [hterminate]
      refine Graded.At.pure hw₁ fun _ => ⟨?_, ?_⟩
      · intro b hb
        cases hb
        refine ⟨List.mem_iff_getElem.mpr ⟨(p.1.toInt - 1).toNat, ?_, ?_⟩, ?_⟩
        · rw [List.length_set]
          omega
        · exact List.getElem_set_self _
        · rw [List.length_set]
          exact hle
      · rw [List.append_nil, howned, arrayBlocks_scalar, stringHolding_blocks, arrayBlocks_scalar,
          List.length_set]
  · exact .pure hw₁ fun hok => absurd hok hst

theorem decodes_enum (v : SaneWord) :
    Decodes (saneiWEnum binCodec v) (fun _ cs => cs = []) := by
  apply (decodes_word v).bind
  intro word w hw
  apply Graded.At.get_bind
  rw [if_pos hw.direction]
  apply Graded.At.pure hw
  rintro - cs rfl
  rfl

theorem decodes_range (v : SaneRange) :
    Decodes (saneiWRange binCodec v) fun y cs => Accounts (scalarHolding y) cs := by
  apply (decodes_word v.min).bind
  intro min
  apply (decodes_word v.max).bind
  intro max
  apply (decodes_word v.quant).bind
  intro quant
  apply Graded.Triple.pure
  rintro _ rfl _ rfl _ rfl
  exact .empty

theorem decodes_device (v : SaneDevice) :
    Decodes (saneiWDevice binCodec v) fun y cs => Accounts (deviceHolding y) cs := by
  apply (decodes_string v.name).bind
  intro name
  apply (decodes_string v.vendor).bind
  intro vendor
  apply (decodes_string v.model).bind
  intro model
  apply (decodes_string v.type).bind
  intro type
  apply Graded.Triple.pure
  intro cs₄ h₄ cs₃ h₃ cs₂ h₂ cs₁ h₁
  have hall := ((h₁.append h₂).append h₃).append h₄
  simpa only [deviceHolding, List.append_nil, List.append_assoc] using hall

theorem decodes_devicePtr (v : Ptr SaneDevice) :
    Decodes ((saneiWDevicePtr binCodec).run v) fun y cs => Accounts (devicePtrHolding y) cs :=
  decodes_ptr v (decodes_device _)

theorem decodes_constraint (constraintType : SaneWord) (v : SaneConstraint) :
    Decodes (saneiWConstraint binCodec constraintType v) fun y cs =>
      Accounts (constraintHolding constraintType y) cs := by
  unfold saneiWConstraint constraintHolding
  split_ifs
  · apply (decodes_ptr v.range (decodes_range _)).bind
    intro range
    apply Graded.Triple.pure
    intro cs hcs
    rw [List.append_nil]
    exact hcs
  · intro w hw
    apply Graded.At.get_bind
    rw [if_neg hw.not_ne]
    apply Graded.At.get_bind
    rw [pure_bind]
    apply (decodes_array w.stale v.wordList (decodes_scalar_accounts _ _) w hw).bind
    intro p w₁ cs hw₁ harray
    apply Graded.At.pure hw₁
    intro hok
    rw [List.append_nil]
    exact (harray hok).2.accounts _ _
  · intro w hw
    apply Graded.At.get_bind
    rw [if_neg hw.not_ne]
    apply Graded.At.get_bind
    rw [pure_bind]
    apply (decodes_array w.stale v.stringList decodes_string w hw).bind
    intro p w₁ cs hw₁ harray
    apply Graded.At.pure hw₁
    intro hok
    rw [List.append_nil]
    exact (harray hok).2.accounts _ _
  · exact .pure .empty

theorem decodes_optionDescriptor (v : SaneOptionDescriptor) :
    Decodes (saneiWOptionDescriptor binCodec v) fun y cs =>
      Accounts (optionDescriptorHolding y) cs := by
  apply (decodes_string v.name).bind
  intro name
  apply (decodes_string v.title).bind
  intro title
  apply (decodes_string v.desc).bind
  intro desc
  apply (decodes_enum v.type).bind
  intro type
  apply (decodes_enum v.unit).bind
  intro unit
  apply (decodes_word v.size).bind
  intro size
  apply (decodes_word v.cap).bind
  intro cap
  apply (decodes_enum v.constraintType).bind
  intro constraintType
  apply (decodes_constraint constraintType v.constraint).bind
  intro constraint
  apply Graded.Triple.pure
  rintro cs₄ h₄ _ rfl _ rfl _ rfl _ rfl _ rfl cs₃ h₃ cs₂ h₂ cs₁ h₁
  have hall := ((h₁.append h₂).append h₃).append h₄
  simpa only [optionDescriptorHolding, List.append_nil, List.nil_append, List.append_assoc] using hall

theorem decodes_optionDescriptorPtr (v : Ptr SaneOptionDescriptor) :
    Decodes ((saneiWOptionDescriptorPtr binCodec).run v) fun y cs =>
      Accounts (optionDescriptorPtrHolding y) cs :=
  decodes_ptr v (decodes_optionDescriptor _)

theorem decodes_void (x : Unit) :
    Decodes (saneiWVoid.run x) fun y cs => Accounts (scalarHolding y) cs :=
  .pure .empty

/-- An option value is an array of scalars at the type of the option. -/
theorem DecodedArray.accounts_cast {α : Type} {size : Nat} {p : SaneWord × Ptr (List α)}
    {cs : List Charge} (h : DecodedArray size scalarHolding p cs) (len : Except Fault SaneWord)
    {f : List α → OptionValue} {g : OptionValue → List α} (hgf : ∀ xs, g (f xs) = xs) :
    Accounts { arrayHolding size scalarHolding none len (Ptr.cast g (Ptr.cast f p.2)) with
      decoded := Ptr.cast f (Ptr.cast g (Ptr.cast f p.2)) = Ptr.cast f p.2 } cs := by
  rw [Ptr.cast_cast hgf]
  exact ⟨rfl, (h.accounts none len).2⟩

theorem decodes_optionValue (type size : SaneWord) (value : Ptr OptionValue) :
    Decodes (wOptionValue binCodec type size value) fun y cs =>
      Accounts (optionValueHolding type size y) cs := by
  unfold wOptionValue optionValueHolding
  split_ifs
  · apply (decodes_array _ _ (decodes_scalar_accounts _ _)).bind
    intro p
    apply Graded.Triple.pure
    intro cs harray
    rw [List.append_nil]
    exact harray.accounts_cast _ fun _ => rfl
  · apply (decodes_array _ _ (decodes_scalar_accounts _ _)).bind
    intro p
    apply Graded.Triple.pure
    intro cs harray
    rw [List.append_nil]
    exact harray.accounts_cast _ fun _ => rfl
  · apply (decodes_array _ _ decodes_void).bind
    intro p
    apply Graded.Triple.pure
    intro cs harray
    rw [List.append_nil]
    exact harray.accounts_cast _ fun _ => rfl
  · exact fun w hw => at_setStatus hw (by decide) _ _

theorem decodes_getDevicesReply (version : Int) (reply : SaneGetDevicesReply) :
    Decodes (saneiWGetDevicesReply binCodec reply) fun y cs =>
      Accounts (messageHolding version (.getDevicesReply y)) cs := by
  intro w hw
  apply Graded.At.get_bind
  rw [if_neg hw.not_ne]
  apply Graded.At.get_bind
  rw [pure_bind]
  apply (decodes_enum reply.status w hw).bind
  intro status w₁ cs₁ hw₁ hstatus
  apply (decodes_array w.stale reply.deviceList decodes_devicePtr w₁
    hw₁).bind
  intro p w₂ cs₂ hw₂ harray
  apply Graded.At.pure hw₂
  intro hok
  obtain ⟨hok₁, hdecoded⟩ := harray hok
  rw [(hstatus hok₁).2, List.nil_append, List.append_nil]
  exact hdecoded.accounts _ _

theorem decodes_optionDescriptorArray (version : Int) (a : SaneOptionDescriptorArray) :
    Decodes (saneiWOptionDescriptorArray binCodec a) fun y cs =>
      Accounts (messageHolding version (.optionDescriptorArray y)) cs := by
  apply (decodes_array a.numOptions a.desc decodes_optionDescriptorPtr).bind
  intro p
  apply Graded.Triple.pure
  intro cs harray
  rw [List.append_nil]
  have haccounts := harray.accounts (some .outOfBounds) (.ok p.1)
  refine ⟨⟨haccounts.1, ?_⟩, haccounts.2⟩
  intro block hblock
  rcases harray with ⟨-, hnull, -⟩ | ⟨b, hb, -, hlen, hle, -⟩
  · rw [hnull] at hblock
    cases hblock
  · rw [hb] at hblock
    cases hblock
    apply BitVec.eq_of_toInt_eq
    have hbig : maxMem = 2 ^ 20 := rfl
    rw [hlen, BitVec.toInt_ofNat']
    exact (toInt32_eq_self (by omega) (by omega)).symm

/-- Decoding under a protocol version. -/
def DecodingAt (version : Int) (w : Wire) : Prop := Decoding w ∧ w.version = version

theorem Decodes.at {α : Type} {m : WireM α} {post : α → List Charge → Prop} (h : Decodes m post)
    (version : Int) : charging.Triple (DecodingAt version) Fine m post := by
  apply h.strengthen fun w hw => hw.1
  intro cs w w' hw hcharged hw'
  exact ⟨hw', hcharged.version.trans hw.2⟩

theorem decodes_controlOptionReq (version : Int) (req : SaneControlOptionReq) :
    charging.Triple (DecodingAt version) Fine (saneiWControlOptionReq binCodec req) fun y cs =>
      Accounts (messageHolding version (.controlOptionReq y)) cs := by
  apply ((decodes_word req.handle).at version).bind
  intro handle
  apply ((decodes_word req.option).at version).bind
  intro option
  apply ((decodes_word req.action).at version).bind
  intro action w hw
  apply Graded.At.get_bind
  split_ifs with hcarries
  · have hcarries' : carriesValue version action := by
      rw [hw.2] at hcarries
      simpa [carriesValue] using hcarries
    apply ((decodes_word req.valueType).at version w hw).bind
    intro valueType w₁ cs₁ hw₁ h₁
    apply ((decodes_word req.valueSize).at version w₁ hw₁).bind
    intro valueSize w₂ cs₂ hw₂ h₂
    apply ((decodes_optionValue valueType valueSize req.value).at version w₂ hw₂).bind
    intro value w₃ cs₃ hw₃ h₃
    apply Graded.At.pure hw₃
    rintro hok _ rfl _ rfl _ rfl
    obtain ⟨hok₂, hvalue⟩ := h₃ hok
    obtain ⟨hok₁, rfl⟩ := h₂ hok₂
    obtain ⟨-, rfl⟩ := h₁ hok₁
    simp only [messageHolding, if_pos hcarries', List.nil_append, List.append_nil]
    exact hvalue
  · have hcarries' : ¬ carriesValue version action := by
      rw [hw.2] at hcarries
      simpa [carriesValue] using hcarries
    apply Graded.At.pure hw
    rintro - _ rfl _ rfl _ rfl
    simp only [messageHolding, if_neg hcarries', List.append_nil]
    exact .empty

theorem decodes_controlOptionReply (version : Int) (reply : SaneControlOptionReply) :
    Decodes (saneiWControlOptionReply binCodec reply) fun y cs =>
      Accounts (messageHolding version (.controlOptionReply y)) cs := by
  apply (decodes_enum reply.status).bind
  intro status
  apply (decodes_word reply.info).bind
  intro info
  apply (decodes_word reply.valueType).bind
  intro valueType
  apply (decodes_word reply.valueSize).bind
  intro valueSize
  apply (decodes_optionValue valueType valueSize reply.value).bind
  intro value
  apply (decodes_string reply.resourceToAuthorize).bind
  intro resource
  apply Graded.Triple.pure
  rintro cs₂ h₂ cs₁ h₁ _ rfl _ rfl _ rfl _ rfl
  simpa only [messageHolding, List.append_nil, List.nil_append] using h₁.append h₂

theorem decodes_parameters (v : SaneParameters) :
    Decodes (saneiWParameters binCodec v) (fun _ cs => cs = []) := by
  apply (decodes_enum v.format).bind
  intro format
  apply (decodes_enum v.lastFrame).bind
  intro lastFrame
  apply (decodes_word v.bytesPerLine).bind
  intro bytesPerLine
  apply (decodes_word v.pixelsPerLine).bind
  intro pixelsPerLine
  apply (decodes_word v.lines).bind
  intro lines
  apply (decodes_word v.depth).bind
  intro depth
  apply Graded.Triple.pure
  rintro _ rfl _ rfl _ rfl _ rfl _ rfl _ rfl
  rfl

theorem decodes_initReq (version : Int) (req : SaneInitReq) :
    Decodes (saneiWInitReq binCodec req) fun y cs =>
      Accounts (messageHolding version (.initReq y)) cs := by
  apply (decodes_word req.versionCode).bind
  intro versionCode
  apply (decodes_string req.username).bind
  intro username
  apply Graded.Triple.pure
  rintro cs hcs _ rfl
  simpa only [messageHolding, List.append_nil, List.nil_append] using hcs

theorem decodes_initReply (version : Int) (reply : SaneInitReply) :
    Decodes (saneiWInitReply binCodec reply) fun y cs =>
      Accounts (messageHolding version (.initReply y)) cs := by
  apply (decodes_enum reply.status).bind
  intro status
  apply (decodes_word reply.versionCode).bind
  intro versionCode
  apply Graded.Triple.pure
  rintro _ rfl _ rfl
  exact .empty

theorem decodes_openReply (version : Int) (reply : SaneOpenReply) :
    Decodes (saneiWOpenReply binCodec reply) fun y cs =>
      Accounts (messageHolding version (.openReply y)) cs := by
  apply (decodes_enum reply.status).bind
  intro status
  apply (decodes_word reply.handle).bind
  intro handle
  apply (decodes_string reply.resourceToAuthorize).bind
  intro resource
  apply Graded.Triple.pure
  rintro cs hcs _ rfl _ rfl
  simpa only [messageHolding, List.append_nil, List.nil_append] using hcs

theorem decodes_getParametersReply (version : Int) (reply : SaneGetParametersReply) :
    Decodes (saneiWGetParametersReply binCodec reply) fun y cs =>
      Accounts (messageHolding version (.getParametersReply y)) cs := by
  apply (decodes_enum reply.status).bind
  intro status
  apply (decodes_parameters reply.params).bind
  intro params
  apply Graded.Triple.pure
  rintro _ rfl _ rfl
  exact .empty

theorem decodes_startReply (version : Int) (reply : SaneStartReply) :
    Decodes (saneiWStartReply binCodec reply) fun y cs =>
      Accounts (messageHolding version (.startReply y)) cs := by
  apply (decodes_enum reply.status).bind
  intro status
  apply (decodes_word reply.port).bind
  intro port
  apply (decodes_word reply.byteOrder).bind
  intro byteOrder
  apply (decodes_string reply.resourceToAuthorize).bind
  intro resource
  apply Graded.Triple.pure
  rintro cs hcs _ rfl _ rfl _ rfl
  simpa only [messageHolding, List.append_nil, List.nil_append] using hcs

theorem decodes_authorizationReq (version : Int) (req : SaneAuthorizationReq) :
    Decodes (saneiWAuthorizationReq binCodec req) fun y cs =>
      Accounts (messageHolding version (.authorizationReq y)) cs := by
  apply (decodes_string req.resource).bind
  intro resource
  apply (decodes_string req.username).bind
  intro username
  apply (decodes_string req.password).bind
  intro password
  apply Graded.Triple.pure
  intro cs₃ h₃ cs₂ h₂ cs₁ h₁
  have hall := (h₁.append h₂).append h₃
  simpa only [messageHolding, List.append_nil, List.append_assoc] using hall

theorem decodes_message (version : Int) (m : NetMessage) :
    charging.Triple (DecodingAt version) Fine (transferMessage binCodec m) fun y cs =>
      Accounts (messageHolding version y) cs := by
  cases m with
  | initReq req => exact ((decodes_initReq version req).at version).map fun _ _ h => h
  | initReply reply => exact ((decodes_initReply version reply).at version).map fun _ _ h => h
  | getDevicesReply reply =>
      exact ((decodes_getDevicesReply version reply).at version).map fun _ _ h => h
  | openReply reply => exact ((decodes_openReply version reply).at version).map fun _ _ h => h
  | optionDescriptorArray a =>
      exact ((decodes_optionDescriptorArray version a).at version).map fun _ _ h => h
  | controlOptionReq req => exact (decodes_controlOptionReq version req).map fun _ _ h => h
  | controlOptionReply reply =>
      exact ((decodes_controlOptionReply version reply).at version).map fun _ _ h => h
  | getParametersReply reply =>
      exact ((decodes_getParametersReply version reply).at version).map fun _ _ h => h
  | startReply reply => exact ((decodes_startReply version reply).at version).map fun _ _ h => h
  | authorizationReq req =>
      exact ((decodes_authorizationReq version req).at version).map fun _ _ h => h

end SaneBackends.Sanei
