import SaneBackends.Sanei.Decoding
import SaneBackends.Sanei.Freeing
/-!
# The memory of a decoded message

The running total while a message is decoded, and what freeing the message leaves.
-/

namespace SaneBackends.Sanei

open SaneBackends.Lib

/-! The cap on `allocated_memory`. -/

theorem Charge.toInt_after {c : Charge} (hbytes : c.bytes ≤ maxMem)
    (hbefore : c.before.toInt ≤ maxMem) : c.after.toInt = c.before.toInt + c.bytes := by
  have hbig : maxMem = 2 ^ 20 := rfl
  have hlo := c.before.le_toInt
  rw [Charge.after, BitVec.toInt_add, BitVec.toInt_ofNat', Int.add_bmod_bmod]
  exact toInt32_eq_self (by omega) (by omega)

/-- While the total is within the cap, only an allocation by `sanei_w_ptr` can take it
over. -/
theorem chained_le_iff {total : BitVec 32} {cs : List Charge} (htotal : total.toInt ≤ maxMem)
    (hchained : Chained total cs)
    (hbounded : ∀ c ∈ cs, c.bytes ≤ maxMem ∧ (c.site = .array → c.after.toInt ≤ maxMem)) :
    (∀ c ∈ cs, c.after.toInt ≤ maxMem) ↔
      ∀ c ∈ cs, c.site = .ptr → c.before.toInt + c.bytes ≤ maxMem := by
  induction cs generalizing total with
  | nil => simp
  | cons c cs ih =>
      obtain ⟨rfl, hrest⟩ := hchained
      obtain ⟨hbytes, harray⟩ := hbounded c List.mem_cons_self
      have hafter := c.toInt_after hbytes htotal
      have htail : c.after.toInt ≤ maxMem → ((∀ d ∈ cs, d.after.toInt ≤ maxMem) ↔
          ∀ d ∈ cs, d.site = .ptr → d.before.toInt + d.bytes ≤ maxMem) :=
        fun hc => ih hc hrest fun d hd => hbounded d (List.mem_cons_of_mem _ hd)
      simp only [List.forall_mem_cons]
      cases hsite : c.site with
      | array =>
          simp only [harray hsite, true_and, reduceCtorEq, false_implies]
          exact htail (harray hsite)
      | ptr =>
          simp only [forall_true_left]
          rw [← hafter]
          exact and_congr_right htail

/-- The charges that decoding adds to the log of the wire. -/
def newCharges (w w' : Wire) : List Charge := w'.charges.drop w.charges.length

/-- Throughout the decoding of a message the total stays within the cap: before the
first charge and after each one. -/
def DecodesWithinCap (m : NetMessage) (w : Wire) : Prop :=
  w.allocatedMemory.toInt ≤ maxMem ∧
    ∀ y w', (transferMessage binCodec m).run w = .ok (y, w') →
      ∀ c ∈ newCharges w w', c.after.toInt ≤ maxMem

/-- Whenever `sanei_w_ptr` allocates, the total before it leaves room for the target. -/
def PtrsFit (m : NetMessage) (w : Wire) : Prop :=
  ∀ y w', (transferMessage binCodec m).run w = .ok (y, w') →
    ∀ c ∈ newCharges w w', c.site = .ptr → c.before.toInt + c.bytes ≤ maxMem

theorem newCharges_eq {cs : List Charge} {w w' : Wire} (h : Charged cs w w') :
    newCharges w w' = cs := by
  rw [newCharges, h.charges, List.drop_left]

/-- A wire set to decode the stream, with nothing in its buffer. -/
def freshWire (version : Int) (incoming : List UInt8) : Wire where
  version
  direction := .decode
  status := 0
  allocatedMemory := 0
  buffer := { size := 8192, curr := 0, endPos := 0, mem := fun _ => 0 }
  io := {
    reads := fun _ => .moved 8191
    writes := fun _ => .moved 8191
    nreads := 0
    nwrites := 0
    incoming
    sent := [] }
  heap := {
    live := []
    next := 0
    asked := 0
    grant := fun _ => true
    nodup := List.nodup_nil
    fresh := Heap.fresh_nil }
  stale := 0
  charges := []

theorem decoding_freshWire (version : Int) (incoming : List UInt8) :
    Decoding (freshWire version incoming) :=
  ⟨rfl, Nat.le_refl 0, Nat.zero_le _, by simp [freshWire], by simp [freshWire, intMax]⟩

/-- Whether a message is decoded to one that passes a check. -/
def decodesTo (m : NetMessage) (w : Wire) (check : NetMessage × Wire → Bool) : Bool :=
  ((transferMessage binCodec m).run w).toOption.any check

/-- The walk that frees a decoded message faults. -/
def freeFaults (p : NetMessage × Wire) : Bool :=
  ((saneiWFree (transferMessage binCodec) p.1).run p.2).toOption.isNone

/-- An array of 131072 pointers, a device list of no entries at all, and one whose only entry
is a device. -/
theorem decodesTo_shortMessages :
    decodesTo (.optionDescriptorArray ⟨0, none⟩) (freshWire 3 [0, 2, 0, 0, 0, 0, 0, 0])
        (fun p => (newCharges (freshWire 3 [0, 2, 0, 0, 0, 0, 0, 0]) p.2).any
          fun c => decide ((maxMem : Int) < c.after.toInt)) = true ∧
      decodesTo (.getDevicesReply ⟨0, none⟩) (freshWire 3 [0, 0, 0, 0, 0, 0, 0, 0])
        (fun p => p.2.status == 0) = true ∧
      decodesTo (.getDevicesReply ⟨0, none⟩)
        (freshWire 3 (List.replicate 7 0 ++ 1 :: List.replicate 20 0))
        (fun p => p.2.status == 0 && freeFaults p) = true := by
  decide +kernel

/-- The bytes of the blocks of a holding. -/
def ownedBytes : List Owned → BitVec 32
  | [] => 0
  | o :: os => BitVec.ofNat 32 o.bytes + ownedBytes os

theorem chargedBytes_eq_ownedBytes (cs : List Charge) :
    chargedBytes cs = ownedBytes (cs.map Charge.owned) := by
  induction cs with
  | nil => rfl
  | cons c cs ih =>
      rw [chargedBytes, ih]
      rfl

/-- `sanei_w_free` of a message decoded from `w` to `w'` runs without a fault, leaves the
blocks that were there before and takes off `allocated_memory` what decoding added. -/
def FreesCleanly (m : NetMessage) (w w' : Wire) : Prop :=
  ∃ w'', (saneiWFree (transferMessage binCodec) m).run w' = .ok ((), w'') ∧
    (∀ a, a ∈ w''.heap.live ↔ a ∈ w.heap.live) ∧ w''.allocatedMemory = w.allocatedMemory

/-- The lengths that freeing computes from the contents of the value fit its arrays: they
can be found inside of them, leave nothing out and add up to what was allocated. -/
def Freeable (h : Holding) : Prop :=
  h.walkable ∧ h.kept ∧ released h.acts = ownedBytes h.blocks

/-- The walk over a value whose blocks were added to those of `base` leaves just these
exactly if the value is freeable. -/
theorem exec_freeAct_iff (w : Wire) (base : List Nat) (total : BitVec 32) {h : Holding}
    (hlawful : h.Lawful) (hown : (h.blocks.map Owned.addr).Nodup)
    (hapart : ∀ a ∈ h.blocks.map Owned.addr, a ∉ base)
    (hlive : ∀ a, a ∈ w.heap.live ↔ a ∈ h.blocks.map Owned.addr ∨ a ∈ base)
    (htotal : w.allocatedMemory = total + ownedBytes h.blocks) :
    (∃ w', exec freeAct h.acts w = .ok w' ∧ (∀ a, a ∈ w'.heap.live ↔ a ∈ base) ∧
      w'.allocatedMemory = total) ↔ Freeable h := by
  constructor
  · rintro ⟨w', hexec, hback, hrestored⟩
    obtain ⟨hnofault, hleft, hreleased⟩ := exec_free hexec
    have hwalkable := hlawful.noFault.mp hnofault
    -- every block of the value is gone, so the walk has freed it
    have hall : h.blocks.map Owned.addr ⊆ freed h.acts := by
      intro a ha
      by_contra hnot
      have hstill := (hback a).mp ((hleft a).mpr ⟨(hlive a).mpr (.inl ha), hnot⟩)
      exact hapart a ha hstill
    have hle := (List.subperm_of_subset hown hall).length_le
    have hge := (hlawful.subperm hwalkable).length_le
    rw [List.length_map] at hle hge
    refine ⟨hwalkable, (hlawful.kept hwalkable).mp (by omega), ?_⟩
    rw [hreleased, htotal] at hrestored
    bv_omega
  · rintro ⟨hwalkable, hkept, hreleased⟩
    have hperm : (freed h.acts).Perm (h.blocks.map Owned.addr) := by
      apply (hlawful.subperm hwalkable).perm_of_length_le
      rw [List.length_map, (hlawful.kept hwalkable).mpr hkept]
    obtain ⟨w', hexec⟩ := exists_exec_free (w := w) (hlawful.noFault.mpr hwalkable)
      (hperm.nodup_iff.mpr hown) fun a ha => (hlive a).mpr (.inl (hperm.subset ha))
    obtain ⟨-, hleft, hrest⟩ := exec_free hexec
    refine ⟨w', hexec, fun a => ?_, ?_⟩
    · rw [hleft, hperm.mem_iff, hlive]
      constructor
      · rintro ⟨hmem, hnot⟩
        exact hmem.resolve_left hnot
      · intro hmem
        exact ⟨.inr hmem, fun hblock => hapart a hblock hmem⟩
    · rw [hrest, hreleased, htotal]
      bv_omega

theorem saneiWFree_run {m : NetMessage} {w : Wire} {version : Int} (hversion : w.version = version)
    (hdecoded : (messageHolding version m).decoded) :
    (saneiWFree (transferMessage binCodec) m).run w =
      (exec freeAct (messageHolding version m).acts { w with direction := .free } >>= fun w' =>
        .ok ((), { w' with direction := w.direction })) := by
  have hfrees := frees_message version m hdecoded { w with direction := .free } ⟨rfl, hversion⟩
  simp only [saneiWFree, StateT.run_bind, StateT.run_get, pure_bind, StateT.run_modify, hfrees]
  cases exec freeAct (messageHolding version m).acts { w with direction := .free } with
  | error f => rfl
  | ok w' => rfl

/-- A message whose blocks are those charged for is freed cleanly if it is freeable, and
only then. -/
theorem freesCleanly_iff_freeable {y : NetMessage} {cs : List Charge} {w w' : Wire}
    (hcharged : Charged cs w w') (haccounts : Accounts (messageHolding w.version y) cs) :
    FreesCleanly y w w' ↔ Freeable (messageHolding w.version y) := by
  obtain ⟨hdecoded, howned⟩ := haccounts
  have haddrs : cs.map Charge.addr = (messageHolding w.version y).blocks.map Owned.addr := by
    rw [← howned, List.map_map]
    rfl
  have hnodup := w'.heap.nodup
  rw [hcharged.live, haddrs, List.nodup_append', List.nodup_reverse] at hnodup
  have hexec := exec_freeAct_iff { w' with direction := .free } w.heap.live w.allocatedMemory
    (lawful_message w.version y) hnodup.1
    (fun a ha => hnodup.2.2 (List.mem_reverse.mpr ha))
    (fun a => by
      change a ∈ w'.heap.live ↔ _
      rw [hcharged.live, haddrs, List.mem_append, List.mem_reverse])
    (by
      change w'.allocatedMemory = _
      rw [hcharged.total, chargedBytes_eq_ownedBytes, howned])
  rw [← hexec, FreesCleanly, saneiWFree_run hcharged.version hdecoded]
  constructor
  · rintro ⟨w'', hrun, hback, htotal⟩
    obtain ⟨w₃, hwalk, hdone⟩ := bind_eq_ok.mp hrun
    cases hdone
    exact ⟨w₃, hwalk, hback, htotal⟩
  · rintro ⟨w₃, hwalk, hback, htotal⟩
    exact ⟨{ w₃ with direction := w'.direction }, by rw [hwalk]; rfl, hback, htotal⟩

end SaneBackends.Sanei
