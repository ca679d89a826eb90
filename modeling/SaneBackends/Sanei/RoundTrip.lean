import SaneBackends.Sanei.DecodeMemory
import SaneBackends.Sanei.Encoding
/-!
# Messages make the round trip

A peer that decodes the bytes of a value gets a value of the same shape, uses up
exactly these bytes, is charged what the sender expects and can free what it got.
-/

namespace SaneBackends.Sanei

open SaneBackends.Lib

/-- A bit of the byte that is stored from a place in a word. -/
theorem getLsbD_wordByte (v : SaneWord) (shift : Nat) {i : Nat} (hi : i < 8) :
    (((v >>> shift) &&& 0xff).setWidth 8).getLsbD i = v.getLsbD (shift + i) := by
  have hmask : (0xff : SaneWord).getLsbD i = true := by interval_cases i <;> rfl
  rw [BitVec.getLsbD_setWidth, BitVec.getLsbD_and, BitVec.getLsbD_ushiftRight, hmask,
    Bool.and_true, decide_eq_true hi, Bool.true_and]

theorem getLsbD_shiftedByte (byte : UInt8) (shift : Nat) {i : Nat} (hi : i < 32) :
    (byte.toBitVec.setWidth 32 <<< shift).getLsbD i =
      (decide (shift ≤ i) && byte.toBitVec.getLsbD (i - shift)) := by
  rw [BitVec.getLsbD_shiftLeft, BitVec.getLsbD_setWidth, decide_eq_true hi,
    decide_eq_true (by omega : i - shift < 32), Bool.true_and, Bool.true_and]
  by_cases hle : shift ≤ i
  · simp [hle, Nat.not_lt.mpr hle]
  · simp [hle, Nat.lt_of_not_le hle]

/-- Each bit of a word lies in one of its four bytes. -/
theorem getLsbD_bytesWord (a b c d : UInt8) {i : Nat} (hi : i < 32) :
    (bytesWord [a, b, c, d]).getLsbD i =
      if i < 8 then d.toBitVec.getLsbD i
      else if i < 16 then c.toBitVec.getLsbD (i - 8)
      else if i < 24 then b.toBitVec.getLsbD (i - 16)
      else a.toBitVec.getLsbD (i - 24) := by
  have hbeyond : ∀ (byte : UInt8) {j : Nat}, 8 ≤ j → byte.toBitVec.getLsbD j = false :=
    fun byte j hj => BitVec.getLsbD_of_ge _ _ hj
  rw [bytesWord, BitVec.getLsbD_or, BitVec.getLsbD_or, BitVec.getLsbD_or,
    getLsbD_shiftedByte a 24 hi, getLsbD_shiftedByte b 16 hi, getLsbD_shiftedByte c 8 hi,
    getLsbD_shiftedByte d 0 hi]
  split_ifs with h8 h16 h24
  · simp [show ¬ 24 ≤ i by omega, show ¬ 16 ≤ i by omega, show ¬ 8 ≤ i by omega]
  · simp [show ¬ 24 ≤ i by omega, show ¬ 16 ≤ i by omega, show 8 ≤ i by omega]
  · simp [show ¬ 24 ≤ i by omega, show 16 ≤ i by omega, hbeyond d (show 8 ≤ i by omega),
      hbeyond c (show 8 ≤ i - 8 by omega)]
  · simp [show 24 ≤ i by omega, hbeyond d (show 8 ≤ i by omega),
      hbeyond c (show 8 ≤ i - 8 by omega), hbeyond b (show 8 ≤ i - 16 by omega)]

theorem bytesWord_wordBytes (v : SaneWord) : bytesWord (wordBytes v) = v := by
  simp only [wordBytes, List.map_cons, List.map_nil]
  apply BitVec.eq_of_getLsbD_eq
  intro i hi
  rw [getLsbD_bytesWord _ _ _ _ hi]
  split_ifs with h8 h16 h24
  · rw [getLsbD_wordByte v 0 h8, Nat.zero_add]
  · rw [getLsbD_wordByte v 8 (by omega), Nat.add_sub_cancel' (by omega)]
  · rw [getLsbD_wordByte v 16 (by omega), Nat.add_sub_cancel' (by omega)]
  · rw [getLsbD_wordByte v 24 (by omega), Nat.add_sub_cancel' (by omega)]

/-- A wire that decodes in a protocol version, whose reads and allocations work. -/
structure Receiving (version : Int) (w : Wire) : Prop where
  decoding : Decoding w
  version : w.version = version
  fine : w.status = 0
  reads : ReadsWork w
  grants : ∀ i, w.heap.grant i
  nonneg : 0 ≤ w.allocatedMemory.toInt

/-- Given `bytes`, decoding ends with status 0 and a result that satisfies `post`, uses
up `bytes` and is charged `cost`. -/
def Absorbs {α : Type} (version : Int) (m : WireM α) (bytes : List UInt8) (cost : Nat)
    (post : α → Prop) : Prop :=
  ∀ w rest, Receiving version w → w.input = bytes ++ rest →
    w.allocatedMemory.toInt + cost ≤ maxMem →
    ∃ x w', m.run w = .ok (x, w') ∧ Receiving version w' ∧ w'.input = rest ∧
      w'.allocatedMemory.toInt = w.allocatedMemory.toInt + cost ∧ post x

variable {version : Int}

namespace Absorbs

variable {α β : Type} {m : WireM α} {k : α → WireM β} {bytes bytes' : List UInt8}
  {cost cost' : Nat} {post : α → Prop} {post' : β → Prop}

theorem pure {a : α} (h : post a) : Absorbs version (Pure.pure a) [] 0 post :=
  fun w _ hw hinput _ => ⟨a, w, rfl, hw, hinput, by simp, h⟩

theorem bind (h : Absorbs version m bytes cost post)
    (hk : ∀ a, post a → Absorbs version (k a) bytes' cost' post') :
    Absorbs version (m >>= k) (bytes ++ bytes') (cost + cost') post' := by
  intro w rest hw hinput hfits
  rw [List.append_assoc] at hinput
  obtain ⟨a, w₁, hrun, hw₁, hinput₁, hcost₁, ha⟩ := h w _ hw hinput (by omega)
  obtain ⟨b, w₂, hrun₂, hw₂, hinput₂, hcost₂, hb⟩ := hk a ha w₁ rest hw₁ hinput₁ (by omega)
  refine ⟨b, w₂, ?_, hw₂, hinput₂, by omega, hb⟩
  rw [run_bind_eq, hrun]
  exact hrun₂

/-- A second computation that decodes nothing. -/
theorem bind_nil (h : Absorbs version m bytes cost post)
    (hk : ∀ a, post a → Absorbs version (k a) [] 0 post') :
    Absorbs version (m >>= k) bytes cost post' := List.append_nil bytes ▸ h.bind hk

theorem get_bind {k : Wire → WireM α}
    (h : ∀ w, Receiving version w → Absorbs version (k w) bytes cost post) :
    Absorbs version (get >>= k) bytes cost post :=
  fun w rest hw => h w hw w rest hw

theorem conseq {post' : α → Prop} (h : Absorbs version m bytes cost post)
    (hpost : ∀ a, post a → post' a) : Absorbs version m bytes cost post' := by
  intro w rest hw hinput hfits
  obtain ⟨a, w', hrun, hw', hrest, hcost, ha⟩ := h w rest hw hinput hfits
  exact ⟨a, w', hrun, hw', hrest, hcost, hpost a ha⟩

theorem map {f : α → β} (h : Absorbs version m bytes cost post)
    (hpost : ∀ a, post a → post' (f a)) : Absorbs version (f <$> m) bytes cost post' := by
  rw [map_eq_pure_bind]
  exact h.bind_nil fun a ha => .pure (hpost a ha)

end Absorbs

theorem Receiving.not_bad {w : Wire} (hw : Receiving version w) : ¬ w.status ≠ 0 :=
  not_not.mpr hw.fine

theorem absorbs_scalar {α : Type} {n : Nat} (put : α → List UInt8) (peek : List UInt8 → α) (x₀ : α)
    {bytes : List UInt8} (hbytes : bytes.length = n) (hn : n ≤ 4) :
    Absorbs version ((binWScalar n put peek).run x₀) bytes 0 (· = peek bytes) := by
  intro w rest hw hinput _
  obtain ⟨hrec, hsound, hdone⟩ := saneiWSpace_decode hw.decoding.direction hw.decoding.sound n
  have hst := saneiWSpace_decode_status hw.decoding.direction hw.decoding.sound hw.fine hw.reads
    (hn.trans hw.decoding.sound.word_le) (by rw [hinput]; simp; omega)
  have hrun := binWScalar_run_decode put peek x₀ hw.decoding.direction hw.decoding.sound hst
  have hle := (hdone hst).2
  have hsplit := input_advance hle
  rw [hrec.input, hinput] at hsplit
  obtain ⟨hslice, hrest⟩ := List.append_inj hsplit (by simp [hbytes])
  rw [hslice] at hrun
  have halloc : (saneiWSpace n w).allocatedMemory = w.allocatedMemory := by
    rw [hrec.eq]
  refine ⟨_, _, hrun, ⟨⟨?_, hsound.advance hle⟩, ?_, hst, fun i => ?_, ?_, ?_⟩, hrest, ?_, rfl⟩
  · change (saneiWSpace n w).direction = _
    rw [hrec.eq]
    exact hw.decoding.direction
  · change (saneiWSpace n w).version = _
    rw [hrec.eq]
    exact hw.version
  · change ∃ k, (saneiWSpace n w).io.reads i = _
    rw [hrec.reads]
    exact hw.reads i
  · change ∀ i, (saneiWSpace n w).heap.grant i
    rw [hrec.eq]
    exact hw.grants
  · change 0 ≤ (saneiWSpace n w).allocatedMemory.toInt
    rw [halloc]
    exact hw.nonneg
  · change (saneiWSpace n w).allocatedMemory.toInt = _
    rw [halloc]
    simp

theorem absorbs_word (x₀ x : SaneWord) :
    Absorbs version (binWWord.run x₀) (wordBytes x) 0 (· = x) :=
  (absorbs_scalar (n := 4) _ _ x₀ rfl (by decide)).conseq fun _ h => h.trans (bytesWord_wordBytes x)

theorem absorbs_byte (x₀ x : UInt8) : Absorbs version (binWByte.run x₀) [x] 0 (· = x) :=
  absorbs_scalar _ _ x₀ rfl (by decide)

theorem absorbs_allocate (site : ChargeSite) {bytes : Nat} :
    Absorbs version (allocate site bytes) [] bytes fun addr => ∃ a, addr = some a := by
  intro w rest hw hinput hfits
  obtain ⟨heap, hrun, -, hgrant⟩ := allocate_granted (hw.grants _) site bytes
  have hsum : (w.allocatedMemory + BitVec.ofNat 32 bytes).toInt =
      w.allocatedMemory.toInt + bytes := by
    have hbig : maxMem = 2 ^ 20 := rfl
    have hpos := hw.nonneg
    rw [BitVec.toInt_add, BitVec.toInt_ofNat', Int.add_bmod_bmod]
    exact toInt32_eq_self (by omega) (by omega)
  refine ⟨_, _, hrun, ⟨⟨hw.decoding.direction, hw.decoding.sound⟩, hw.version, hw.fine, hw.reads,
    ?_, ?_⟩, hinput, hsum, _, rfl⟩
  · change ∀ i, heap.grant i
    rw [hgrant]
    exact hw.grants
  · change 0 ≤ (w.allocatedMemory + BitVec.ofNat 32 bytes).toInt
    rw [hsum]
    have hpos := hw.nonneg
    omega

/-- The transfer function `f` decodes the bytes of a value to one that is the `same`. -/
abbrev Receives {α : Type} (version : Int) (f : α → WireM α) (sending : α → Sending)
    (same : α → α → Prop) : Prop :=
  ∀ x, (sending x).Fit → ∀ x₀,
    Absorbs version (f x₀) (sending x).bytes (sending x).cost (same x)

section Arrays

variable {α : Type} {element : WireCodecFunc α} {sending : α → Sending} {same : α → α → Prop}

theorem absorbs_elements (helement : Receives version element.run sending same) {xs : List α}
    (hfit : ∀ x ∈ xs, (sending x).Fit) {zs : List α} (hlen : zs.length = xs.length) :
    Absorbs version (transferElements element xs.length zs)
      (xs.flatMap fun x => (sending x).bytes) (xs.map fun x => (sending x).cost).sum
      (List.Forall₂ same xs) := by
  induction xs generalizing zs with
  | nil =>
      obtain rfl := List.length_eq_zero_iff.mp hlen
      exact .pure .nil
  | cons x xs ih =>
      cases zs with
      | nil => cases hlen
      | cons z zs =>
          simp only [List.flatMap_cons, List.map_cons, List.sum_cons]
          apply (helement x (hfit x List.mem_cons_self) z).bind
          intro y hy
          apply Absorbs.get_bind
          intro w hw
          rw [if_neg hw.not_bad]
          have hrest := ih (fun u hu => hfit u (List.mem_cons_of_mem _ hu))
            (Nat.succ.inj hlen)
          exact hrest.bind_nil fun ys hys => .pure (.cons hy hys)

/-- The array that a peer gets for the elements `xs`. -/
def ReceivedArray (same : α → α → Prop) (xs : List α) : Ptr (List α) → Prop
  | none => xs = []
  | some block => xs ≠ [] ∧ List.Forall₂ same xs block.val

theorem not_exceedsMaxMem {w : Wire} (hnonneg : 0 ≤ w.allocatedMemory.toInt) {n size : Nat}
    (hsize : 0 < size) (hfits : w.allocatedMemory.toInt + (n * size : Nat) ≤ maxMem) :
    ¬ exceedsMaxMem w (BitVec.ofNat 32 n) size := by
  have hbig : maxMem = 2 ^ 20 := rfl
  have hmul := Nat.le_mul_of_pos_right n hsize
  have hn : n ≤ maxMem := by omega
  have hnat : (BitVec.ofNat 32 n).toNat = n := by
    rw [BitVec.toNat_ofNat]
    omega
  have htotal : toSize (w.allocatedMemory.toInt + (BitVec.ofNat 32 n).toInt * size) ≤ maxMem := by
    rw [toInt_ofNat_of_le hn, ← Nat.cast_mul, toSize]
    omega
  simp only [exceedsMaxMem, hnat, decide_eq_true_eq, not_or, not_lt]
  exact ⟨hn, by omega, htotal⟩

theorem absorbs_array {zero : α} {size n : Nat} {xs : List α} (lenPtr : SaneWord) (v : Ptr (List α))
    (helement : Receives version element.run sending same)
    (hfit : (elementsSending size sending n xs).Fit) (hsize : 0 < size ∨ n = 0) :
    Absorbs version (saneiWArray binWWord element zero size lenPtr v)
      (elementsSending size sending n xs).bytes (elementsSending size sending n xs).cost
      fun p => p.1 = BitVec.ofNat 32 n ∧ ReceivedArray same (xs.take n) p.2 := by
  obtain ⟨hle, hbytes, helements⟩ := elementsSending_fit hfit
  have hbig : maxMem = 2 ^ 20 := rfl
  have hn : n ≤ maxMem := by
    rcases hsize with hsize | rfl
    · exact (Nat.le_mul_of_pos_right n hsize).trans hbytes
    · exact Nat.zero_le _
  have hint := toInt_ofNat_of_le hn
  have hnat : (BitVec.ofNat 32 n).toNat = n := by
    rw [BitVec.toNat_ofNat]
    omega
  have hcost : (elementsSending size sending n xs).cost =
      0 + (n * size + ((xs.take n).map fun x => (sending x).cost).sum) := by
    simp [elementsSending]
  apply Absorbs.get_bind
  intro w hw
  simp only [hw.decoding.direction]
  apply Absorbs.get_bind
  intro _ _
  rw [hcost]
  apply (absorbs_word _ _).bind
  rintro _ rfl
  apply Absorbs.get_bind
  intro w₁ hw₁
  rw [if_neg hw₁.not_bad]
  by_cases hzero : n = 0
  · subst hzero
    rw [if_pos (show 0#32 = 0 from rfl)]
    simp only [Nat.zero_mul, List.take_zero, List.flatMap_nil, List.map_nil, List.sum_nil,
      Nat.add_zero]
    exact .pure ⟨rfl, rfl⟩
  · have hlen : ¬ BitVec.ofNat 32 n = 0 := by
      intro h0
      rw [h0] at hnat
      exact hzero hnat.symm
    rw [if_neg hlen]
    have hsize : 0 < size := hsize.resolve_right hzero
    intro w₂ rest hw₂ hinput hfits
    have hexceeds := not_exceedsMaxMem (n := n) hw₂.nonneg hsize (by omega)
    rw [run_bind_eq, StateT.run_get, pure_bind, if_neg hexceeds]
    refine (show Absorbs version _ _ _ _ from ?_) w₂ rest hw₂ hinput hfits
    rw [hnat, hint, Int.toNat_natCast]
    apply (absorbs_allocate .array).bind
    rintro _ ⟨addr, rfl⟩
    have hcount : (xs.take n).length = n := List.length_take_of_le hle
    have hzeros : (List.replicate n zero).length = (xs.take n).length := by
      rw [List.length_replicate, hcount]
    have hall := absorbs_elements helement helements hzeros
    rw [hcount] at hall
    apply hall.bind_nil
    intro ys hys
    refine .pure ⟨rfl, ?_, hys⟩
    intro hnil
    rw [hnil] at hcount
    exact hzero hcount.symm

theorem absorbs_ptr {f : α → WireM α} {zero : α} {size : Nat} (hsize : size ≤ maxMem)
    (hf : Receives version f sending same) :
    Receives version (saneiWPtr binWWord f zero size) (ptrSending size sending)
      fun v v' => (v = none ∧ v' = none) ∨
        ∃ b b', v = some b ∧ v' = some b' ∧ same b.val b'.val := by
  intro v hfit v₀
  apply Absorbs.get_bind
  intro w hw
  simp only [hw.decoding.direction]
  apply Absorbs.get_bind
  intro _ _
  cases v with
  | none =>
      apply (absorbs_word _ _).bind_nil
      rintro _ rfl
      apply Absorbs.get_bind
      intro w₁ hw₁
      rw [if_neg hw₁.not_bad, if_neg (by decide)]
      exact .pure (.inl ⟨rfl, rfl⟩)
  | some block =>
      have htarget : (sending block.val).Fit := ⟨hfit.1, (Nat.le_add_left ..).trans hfit.2⟩
      have hcost : (ptrSending size sending (some block)).cost =
          0 + (size + (sending block.val).cost) := (Nat.zero_add _).symm
      rw [hcost]
      apply (absorbs_word _ _).bind
      rintro _ rfl
      apply Absorbs.get_bind
      intro w₁ hw₁
      rw [if_neg hw₁.not_bad, if_pos rfl, if_neg (Nat.not_lt.mpr hsize)]
      apply (absorbs_allocate .ptr).bind
      rintro _ ⟨addr, rfl⟩
      apply (hf block.val htarget zero).bind_nil
      intro y hy
      exact .pure (.inr ⟨block, ⟨addr, y⟩, rfl, rfl, hy⟩)

end Arrays

/-! What a peer gets can be freed. -/

theorem released_append (as bs : List FreeAct) :
    released (as ++ bs) = released as + released bs := by
  induction as with
  | nil => simp [released]
  | cons a as ih =>
      cases a with
      | release addr bytes =>
          simp only [List.cons_append, released, ih]
          bv_omega
      | fault f => simp only [List.cons_append, released, ih]

theorem ownedBytes_append (os ps : List Owned) :
    ownedBytes (os ++ ps) = ownedBytes os + ownedBytes ps := by
  induction os with
  | nil => simp [ownedBytes]
  | cons o os ih =>
      simp only [List.cons_append, ownedBytes, ih]
      bv_omega

theorem freeable_empty : Freeable .empty := ⟨trivial, trivial, rfl⟩

theorem Freeable.append {g h : Holding} (hg : Freeable g) (hh : Freeable h) : Freeable (g ++ h) := by
  refine ⟨⟨hg.1, hh.1⟩, ⟨hg.2.1, hh.2.1⟩, ?_⟩
  rw [Holding.append_acts, Holding.append_blocks, released_append, ownedBytes_append, hg.2.2,
    hh.2.2]

section Arrays

variable {α : Type} {holding : α → Holding} {same : α → α → Prop}

theorem freeable_ptr {size : Nat} {block : Block α} (h : Freeable (holding block.val)) :
    Freeable (ptrHolding size holding (some block)) := by
  refine ⟨h.1, h.2.1, ?_⟩
  simp only [ptrHolding, released_append, h.2.2, released, ownedBytes]
  bv_omega

theorem freeable_elements {xs : List α} (h : ∀ x ∈ xs, Freeable (holding x)) :
    released (xs.flatMap fun x => (holding x).acts) =
      ownedBytes (xs.flatMap fun x => (holding x).blocks) := by
  induction xs with
  | nil => rfl
  | cons x xs ih =>
      rw [List.forall_mem_cons] at h
      simp only [List.flatMap_cons, released_append, ownedBytes_append, h.1.2.2, ih h.2]

/-- An array is freeable if the length computed from its contents is its own. -/
theorem freeable_array {size n : Nat} {stray : Option Fault} {v : Ptr (List α)}
    {len : Except Fault SaneWord} (hlen : len = .ok (BitVec.ofNat 32 n)) (hn : n ≤ maxMem)
    (hv : ∀ block ∈ v, n ≠ 0 ∧ block.val.length = n ∧ ∀ x ∈ block.val, Freeable (holding x)) :
    Freeable (arrayHolding size holding stray len v) := by
  have hint := toInt_ofNat_of_le hn
  subst hlen
  cases v with
  | none => exact ⟨⟨_, rfl, by simp⟩, by simp [arrayHolding], rfl⟩
  | some block =>
      obtain ⟨hzero, hlength, helements⟩ := hv block rfl
      have hne : BitVec.ofNat 32 n ≠ 0 := by
        intro h0
        rw [h0] at hint
        exact hzero (by simpa using hint.symm)
      have htake : block.val.take n = block.val := List.take_of_length_le (by omega)
      have hdrop : block.val.drop n = [] := List.drop_eq_nil_of_le (by omega)
      have hcount : (BitVec.ofNat 32 n).toInt.toNat = n := by omega
      refine ⟨⟨_, rfl, ?_⟩, ?_, ?_⟩
      · intro b hb _
        cases hb
        refine ⟨.inr (by omega), fun x hx => (helements x ?_).1⟩
        rwa [hcount, htake] at hx
      · intro n' hn' b hb
        cases hn'
        cases hb
        rw [hcount, htake, hdrop]
        exact ⟨hne, fun x hx => (helements x hx).2.1, by simp⟩
      · have hstray : strayActs stray n block.val.length = [] := by
          cases stray with
          | none => rfl
          | some f => exact if_neg (by omega)
        have hbytes : BitVec.ofInt 32 ((n : Int) * size) = BitVec.ofNat 32 (n * size) := by
          rw [← Nat.cast_mul, BitVec.ofInt_natCast]
        have hacts : arrayActs size holding stray (.ok (BitVec.ofNat 32 n)) (some block) =
            (block.val.flatMap fun x => (holding x).acts) ++
              [FreeAct.release block.addr (BitVec.ofNat 32 (n * size))] := by
          rw [arrayActs, if_neg hne, elementActs, hcount, htake, hstray, List.append_nil, hint,
            hbytes]
        simp only [arrayHolding, hacts, arrayBlocks, released_append, freeable_elements helements,
          released, ownedBytes, hlength]
        bv_omega

theorem ReceivedArray.cells_length {xs : List α} {v : Ptr (List α)} (h : ReceivedArray same xs v) :
    (Ptr.cells v).length = xs.length := by
  cases v with
  | none =>
      obtain rfl : xs = [] := h
      rfl
  | some block => exact h.2.length_eq.symm

theorem ReceivedArray.forall₂ {xs : List α} {v : Ptr (List α)} (h : ReceivedArray same xs v) :
    List.Forall₂ same xs (Ptr.cells v) := by
  cases v with
  | none =>
      obtain rfl : xs = [] := h
      exact .nil
  | some block => exact h.2

/-- What was received for the first `n` of the elements has their shape. -/
theorem ReceivedArray.shape_eq {shape : α → α} {n : Nat} {xs : List α} {v : Ptr (List α)}
    (h : ReceivedArray same (xs.take n) v) (hn : n ≤ xs.length)
    (hsame : ∀ x y, same x y → shape y = shape x) :
    elementsShape shape n (Ptr.cells v) = elementsShape shape n xs := by
  have hlength := h.cells_length
  rw [List.length_take_of_le hn] at hlength
  have hmap : ∀ {xs ys : List α}, List.Forall₂ same xs ys → ys.map shape = xs.map shape := by
    intro xs ys hall
    induction hall with
    | nil => rfl
    | cons hxy _ ih => rw [List.map_cons, List.map_cons, hsame _ _ hxy, ih]
  unfold elementsShape
  rw [List.take_of_length_le (by omega), hmap h.forall₂]

/-- What was received for the first `n` of the elements is freeable. -/
theorem ReceivedArray.freeable {size n : Nat} {stray : Option Fault} {xs : List α}
    {v : Ptr (List α)} {len : Except Fault SaneWord} (h : ReceivedArray same (xs.take n) v)
    (hn : n ≤ xs.length) (hmax : n ≤ maxMem) (hlen : len = .ok (BitVec.ofNat 32 n))
    (hsame : ∀ x y, same x y → Freeable (holding y)) :
    Freeable (arrayHolding size holding stray len v) := by
  have hlength := h.cells_length
  rw [List.length_take_of_le hn] at hlength
  apply freeable_array hlen hmax
  intro block hblock
  cases hblock
  refine ⟨?_, hlength, fun y hy => ?_⟩
  · rintro rfl
    exact h.1 rfl
  · have hall := h.2
    obtain ⟨x, -, hxy⟩ : ∃ x ∈ xs.take n, same x y := by
      rw [List.forall₂_iff_get] at hall
      obtain ⟨i, hi⟩ := List.mem_iff_get.mp hy
      have hi' : i.1 < (xs.take n).length := by
        rw [hall.1]
        exact i.2
      exact ⟨(xs.take n).get ⟨i, hi'⟩, List.get_mem .., by rw [← hi]; exact hall.2 i hi' i.2⟩
    exact hsame x y hxy

end Arrays

/-! The structures of `sane.h`. -/

/-- The value a peer gets: of the same shape, and freeable. -/
def Copy {α : Type} (shape : α → α) (holding : α → Holding) (x y : α) : Prop :=
  shape y = shape x ∧ Freeable (holding y)

theorem Receiving.not_ne {w : Wire} (hw : Receiving version w) : ¬ w.direction ≠ .decode :=
  not_not.mpr hw.decoding.direction

/-- A string up to its first NUL. -/
theorem strlen_take {s : List UInt8} {k : Nat} (h : strlen s = .ok k) :
    k < s.length ∧ strlen (s.take (k + 1)) = .ok k ∧ (s.take (k + 1)).set k 0 = s.take (k + 1) := by
  unfold strlen at h
  split_ifs at h with hmem
  cases h
  obtain ⟨before, after, rfl, hfirst⟩ := List.eq_append_cons_of_mem hmem
  have hidx : (before ++ 0 :: after).idxOf 0 = before.length := by
    rw [List.idxOf_append_of_notMem hfirst]
    simp
  have htake : (before ++ 0 :: after).take (before.length + 1) = before ++ [0] := by
    simp [List.take_append]
  have hidx' : (before ++ [0]).idxOf 0 = before.length := by
    rw [List.idxOf_append_of_notMem hfirst]
    simp
  rw [hidx, htake]
  refine ⟨by simp, ?_, by simp⟩
  rw [strlen, if_pos (by simp), hidx']

/-- The elements of a string are received as they are. -/
theorem ReceivedArray.eq_some {α : Type} {xs : List α} {v : Ptr (List α)}
    (h : ReceivedArray (fun x y => y = x) xs v) (hne : xs ≠ []) : ∃ a, v = some ⟨a, xs⟩ := by
  cases v with
  | none => exact absurd h hne
  | some block =>
      have hall : List.Forall₂ (fun x y => x = y) xs block.val :=
        h.2.imp fun _ _ hxy => hxy.symm
      rw [List.forall₂_eq_eq_eq] at hall
      obtain rfl := hall
      exact ⟨block.addr, rfl⟩

theorem receives_byte : Receives version binWByte.run byteSending fun x y => y = x :=
  fun x _ x₀ => absorbs_byte x₀ x

theorem receives_word : Receives version binWWord.run wordSending fun x y => y = x :=
  fun x _ x₀ => absorbs_word x₀ x

/-- A string is received as a copy, and as `NULL` exactly if it was `NULL`. -/
def CopyString (x y : SaneString) : Prop :=
  Copy stringShape stringHolding x y ∧ (y = none ↔ x = none)

theorem receives_string : Receives version binWString.run stringSending CopyString := by
  intro s hfit s₀
  obtain ⟨n, hcount, helements, hsome, hbytes, hcost⟩ := arraySending_fit hfit
  obtain ⟨hle, hmax, -⟩ := elementsSending_fit helements
  rw [stringSending, hbytes, hcost]
  apply Absorbs.get_bind
  intro w hw
  rw [if_neg hw.not_ne]
  apply Absorbs.get_bind
  intro _ _
  rw [pure_bind]
  apply (absorbs_array _ s₀ receives_byte helements (.inl Nat.one_pos)).bind_nil
  rintro ⟨len, s'⟩ ⟨rfl, hreceived⟩
  apply Absorbs.get_bind
  intro w' hw'
  rw [if_pos hw'.decoding.direction]
  have hint : (BitVec.ofNat 32 n).toInt = n := toInt_ofNat_of_le (by omega)
  cases s with
  | none =>
      cases hcount
      rw [if_pos (show 0#32 = 0 from rfl)]
      have hfree : Freeable (stringHolding none) :=
        ⟨⟨0, rfl, by simp⟩, (fun _ _ _ hblock => by cases hblock), rfl⟩
      exact .pure ⟨⟨rfl, hfree⟩, Iff.rfl⟩
  | some block =>
      obtain ⟨k, hk, hn⟩ := bind_eq_ok.mp hcount
      cases hn
      obtain ⟨hlt, hstrlen, hset⟩ := strlen_take hk
      have hne : ¬ BitVec.ofNat 32 (k + 1) = 0 := by
        intro h0
        rw [h0] at hint
        simp at hint
        omega
      rw [if_neg hne]
      apply Absorbs.get_bind
      intro w'' hw''
      rw [if_pos hw''.fine]
      have hlength : (block.val.take (k + 1)).length = k + 1 := List.length_take_of_le hlt
      obtain ⟨a, rfl⟩ := hreceived.eq_some (by
        intro hnil
        change block.val.take (k + 1) = [] at hnil
        rw [hnil] at hlength
        cases hlength)
      have hterminate : terminate (BitVec.ofNat 32 (k + 1)) (some ⟨a, block.val.take (k + 1)⟩) =
          .ok (some ⟨a, block.val.take (k + 1)⟩) := by
        have hpos : ((BitVec.ofNat 32 (k + 1)).toInt - 1).toNat = k := by omega
        rw [terminate, if_pos ⟨by omega, by rw [hlength]; omega⟩]
        dsimp only
        rw [hpos, hset]
      have hcount' : stringCount (some ⟨a, block.val.take (k + 1)⟩) = .ok (k + 1) := by
        simp only [stringCount, hstrlen, ok_bind]
      change Absorbs version (liftM (terminate _ (some ⟨a, block.val.take (k + 1)⟩))) _ _ _
      rw [hterminate]
      refine .pure ⟨⟨?_, ?_⟩, by simp⟩
      · rw [stringShape, stringShape, hcount', hcount]
        exact hreceived.shape_eq hle fun _ _ h => h
      · have hfree : Freeable (arrayHolding 1 scalarHolding none (stringLen (some
            ⟨a, block.val.take (k + 1)⟩)) (some ⟨a, block.val.take (k + 1)⟩)) := hreceived.freeable
          hle (by omega) (stringLen_eq hcount') fun _ _ _ => freeable_empty
        exact hfree

theorem absorbs_enum (v₀ v : SaneWord) :
    Absorbs version (saneiWEnum binCodec v₀) (wordBytes v) 0 (· = v) := by
  apply (absorbs_word v₀ v).bind_nil
  rintro _ rfl
  apply Absorbs.get_bind
  intro w hw
  rw [if_pos hw.decoding.direction]
  exact .pure rfl

theorem receives_range :
    Receives version (saneiWRange binCodec) rangeSending (Copy id scalarHolding) := by
  intro v _ v₀
  apply (absorbs_word v₀.min v.min).bind
  rintro _ rfl
  apply (absorbs_word v₀.max v.max).bind
  rintro _ rfl
  apply (absorbs_word v₀.quant v.quant).bind_nil
  rintro _ rfl
  exact .pure ⟨rfl, freeable_empty⟩

theorem receives_device :
    Receives version (saneiWDevice binCodec) deviceSending (Copy deviceShape deviceHolding) := by
  intro v hfit v₀
  obtain ⟨hname, hfit⟩ := hfit.append
  obtain ⟨hvendor, hfit⟩ := hfit.append
  obtain ⟨hmodel, htype⟩ := hfit.append
  apply (receives_string v.name hname v₀.name).bind
  intro name hname
  apply (receives_string v.vendor hvendor v₀.vendor).bind
  intro vendor hvendor
  apply (receives_string v.model hmodel v₀.model).bind
  intro model hmodel
  apply (receives_string v.type htype v₀.type).bind_nil
  intro type htype
  refine .pure ⟨?_, ?_⟩
  · simp only [deviceShape, hname.1.1, hvendor.1.1, hmodel.1.1, htype.1.1]
  · exact ((hname.1.2.append hvendor.1.2).append hmodel.1.2).append htype.1.2

section Pointers

variable {α : Type} {shape : α → α} {holding : α → Holding}

/-- A pointer is received as a copy, and as `NULL` exactly if it was `NULL`. -/
def CopyPtr (size : Nat) (shape : α → α) (holding : α → Holding) (x y : Ptr α) : Prop :=
  Copy (ptrShape shape) (ptrHolding size holding) x y ∧ (y = none ↔ x = none)

theorem receives_ptr {f : α → WireM α} {zero : α} {size : Nat} {sending : α → Sending}
    (hsize : size ≤ maxMem) (hf : Receives version f sending (Copy shape holding)) :
    Receives version (saneiWPtr binWWord f zero size) (ptrSending size sending)
      (CopyPtr size shape holding) := by
  intro v hfit v₀
  apply (absorbs_ptr hsize hf v hfit v₀).conseq
  rintro v' (⟨rfl, rfl⟩ | ⟨b, b', rfl, rfl, hcopy⟩)
  · exact ⟨⟨rfl, freeable_empty⟩, Iff.rfl⟩
  · refine ⟨⟨?_, freeable_ptr hcopy.2⟩, by simp⟩
    simp only [ptrShape, hcopy.1]

/-- Lists of pointers that agree in where they are `NULL` have the same length. -/
theorem nullScan_take {same : Ptr α → Ptr α → Prop} (hsame : ∀ x y, same x y → (y = none ↔ x = none))
    {xs ys : List (Ptr α)} {k : Nat} (hk : nullScan xs = .ok k)
    (hall : List.Forall₂ same (xs.take (k + 1)) ys) : k < xs.length ∧ nullScan ys = .ok k := by
  induction xs generalizing ys k with
  | nil => cases hk
  | cons x xs ih =>
      cases x with
      | none =>
          cases hk
          simp only [List.take_succ_cons, List.take_zero] at hall
          obtain ⟨y, ys, hxy, hrest, rfl⟩ := List.forall₂_cons_left_iff.mp hall
          obtain rfl := (hsame _ _ hxy).mpr rfl
          exact ⟨by simp, rfl⟩
      | some block =>
          obtain ⟨j, hj, hjk⟩ := bind_eq_ok.mp hk
          cases hjk
          rw [List.take_succ_cons] at hall
          obtain ⟨y, ys, hxy, hrest, rfl⟩ := List.forall₂_cons_left_iff.mp hall
          obtain ⟨hlt, hscan⟩ := ih hj hrest
          cases y with
          | none => exact absurd ((hsame _ _ hxy).mp rfl) (by simp)
          | some b =>
              refine ⟨by simp; omega, ?_⟩
              simp only [nullScan, hscan, ok_bind]

end Pointers

theorem receives_devicePtr :
    Receives version (saneiWDevicePtr binCodec).run devicePtrSending
      (CopyPtr sizeofDevice deviceShape deviceHolding) :=
  receives_ptr (by decide) receives_device

theorem receives_wordList {v : Ptr (List SaneWord)}
    (hfit : (arraySending sizeofWord wordSending (wordListCount v) v).Fit) (lenPtr : SaneWord)
    (v₀ : Ptr (List SaneWord)) :
    Absorbs version (saneiWArray binWWord binWWord 0 sizeofWord lenPtr v₀)
      (arraySending sizeofWord wordSending (wordListCount v) v).bytes
      (arraySending sizeofWord wordSending (wordListCount v) v).cost fun p =>
        arrayShape id (wordListCount p.2) p.2 = arrayShape id (wordListCount v) v ∧
          Freeable (arrayHolding sizeofWord scalarHolding none (wordListLen p.2) p.2) := by
  obtain ⟨n, hcount, helements, -, hbytes, hcost⟩ := arraySending_fit hfit
  obtain ⟨hle, hmax, -⟩ := elementsSending_fit helements
  have hn : n ≤ maxMem := (Nat.le_mul_of_pos_right n (by decide)).trans hmax
  rw [hbytes, hcost]
  apply (absorbs_array lenPtr v₀ receives_word helements (.inl (by decide))).conseq
  rintro ⟨len, v'⟩ ⟨-, hreceived⟩
  rcases v with _ | ⟨addr, _ | ⟨count, ws⟩⟩
  · cases hcount
  · cases hcount
  · cases hcount
    obtain ⟨a, rfl⟩ := hreceived.eq_some (by simp [Ptr.cells])
    have hcount' : wordListCount (some ⟨a, (count :: ws).take (count.toNat + 1)⟩) =
        .ok (count.toNat + 1) := rfl
    refine ⟨?_, ?_⟩
    · change arrayShape id (wordListCount (some ⟨a, (count :: ws).take (count.toNat + 1)⟩)) _ = _
      rw [hcount']
      exact hreceived.shape_eq hle fun _ _ h => h
    · exact hreceived.freeable hle hn (wordListLen_eq hcount') fun _ _ _ => freeable_empty

theorem receives_stringList {v : Ptr (List SaneString)}
    (hfit : (arraySending sizeofPointer stringSending (stringListCount v) v).Fit)
    (lenPtr : SaneWord) (v₀ : Ptr (List SaneString)) :
    Absorbs version (saneiWArray binWWord binWString none sizeofPointer lenPtr v₀)
      (arraySending sizeofPointer stringSending (stringListCount v) v).bytes
      (arraySending sizeofPointer stringSending (stringListCount v) v).cost fun p =>
        arrayShape stringShape (stringListCount p.2) p.2 =
            arrayShape stringShape (stringListCount v) v ∧
          Freeable (arrayHolding sizeofPointer stringHolding (some .outOfBounds)
            (stringListLen p.2) p.2) := by
  obtain ⟨n, hcount, helements, -, hbytes, hcost⟩ := arraySending_fit hfit
  obtain ⟨hle, hmax, -⟩ := elementsSending_fit helements
  have hn : n ≤ maxMem := (Nat.le_mul_of_pos_right n (by decide)).trans hmax
  rw [hbytes, hcost]
  apply (absorbs_array lenPtr v₀ receives_string helements (.inl (by decide))).conseq
  rintro ⟨len, v'⟩ ⟨-, hreceived⟩
  cases v with
  | none => cases hcount
  | some block =>
      obtain ⟨k, hk, hn'⟩ := bind_eq_ok.mp hcount
      cases hn'
      have hscan := (nullScan_take (fun _ _ h => h.2) hk hreceived.forall₂).2
      have hcount' : stringListCount v' = .ok (k + 1) := by
        cases v' with
        | none =>
            have hlength := hreceived.cells_length
            rw [List.length_take_of_le hle] at hlength
            cases hlength
        | some block' =>
            change nullScan block'.val = _ at hscan
            simp only [stringListCount, hscan, ok_bind]
      refine ⟨?_, ?_⟩
      · change arrayShape stringShape (stringListCount v') v' = _
        rw [hcount', hcount]
        exact hreceived.shape_eq hle fun _ _ h => h.1.1
      · exact hreceived.freeable hle hn (stringListLen_eq hcount') fun _ _ h => h.1.2

theorem receives_constraint (constraintType : SaneWord) {v : SaneConstraint}
    (hfit : (constraintSending constraintType v).Fit) (v₀ : SaneConstraint) :
    Absorbs version (saneiWConstraint binCodec constraintType v₀)
      (constraintSending constraintType v).bytes (constraintSending constraintType v).cost
      (Copy (constraintShape constraintType) (constraintHolding constraintType) v) := by
  unfold constraintSending at hfit
  unfold saneiWConstraint constraintSending Copy constraintShape constraintHolding
  split_ifs at hfit ⊢
  · apply (receives_ptr (by decide) receives_range v.range hfit v₀.range).bind_nil
    intro range hrange
    refine .pure ⟨?_, hrange.1.2⟩
    rw [hrange.1.1]
  · apply Absorbs.get_bind
    intro w hw
    rw [if_neg hw.not_ne]
    apply Absorbs.get_bind
    intro _ _
    rw [pure_bind]
    apply (receives_wordList hfit _ v₀.wordList).bind_nil
    rintro ⟨len, wordList⟩ ⟨hshape, hfree⟩
    refine .pure ⟨?_, hfree⟩
    rw [hshape]
  · apply Absorbs.get_bind
    intro w hw
    rw [if_neg hw.not_ne]
    apply Absorbs.get_bind
    intro _ _
    rw [pure_bind]
    apply (receives_stringList hfit _ v₀.stringList).bind_nil
    rintro ⟨len, stringList⟩ ⟨hshape, hfree⟩
    refine .pure ⟨?_, hfree⟩
    rw [hshape]
  · exact .pure ⟨rfl, freeable_empty⟩

theorem receives_optionDescriptor :
    Receives version (saneiWOptionDescriptor binCodec) optionDescriptorSending
      (Copy optionDescriptorShape optionDescriptorHolding) := by
  intro v hfit v₀
  obtain ⟨hname, hfit⟩ := hfit.append
  obtain ⟨htitle, hfit⟩ := hfit.append
  obtain ⟨hdesc, hfit⟩ := hfit.append
  have hconstraint := hfit.append.2.append.2.append.2.append.2.append.2
  apply (receives_string v.name hname v₀.name).bind
  intro name hname
  apply (receives_string v.title htitle v₀.title).bind
  intro title htitle
  apply (receives_string v.desc hdesc v₀.desc).bind
  intro desc hdesc
  apply (absorbs_enum v₀.type v.type).bind
  rintro _ rfl
  apply (absorbs_enum v₀.unit v.unit).bind
  rintro _ rfl
  apply (absorbs_word v₀.size v.size).bind
  rintro _ rfl
  apply (absorbs_word v₀.cap v.cap).bind
  rintro _ rfl
  apply (absorbs_enum v₀.constraintType v.constraintType).bind
  rintro _ rfl
  apply (receives_constraint v.constraintType hconstraint v₀.constraint).bind_nil
  intro constraint hconstraint
  refine .pure ⟨?_, ?_⟩
  · simp only [optionDescriptorShape, hname.1.1, htitle.1.1, hdesc.1.1, hconstraint.1]
  · exact ((hname.1.2.append htitle.1.2).append hdesc.1.2).append hconstraint.2

theorem receives_optionDescriptorPtr :
    Receives version (saneiWOptionDescriptorPtr binCodec).run optionDescriptorPtrSending
      (CopyPtr sizeofOptionDescriptor optionDescriptorShape optionDescriptorHolding) :=
  receives_ptr (by decide) receives_optionDescriptor

/-- What decoding ensures has no part in whether an array is freeable. -/
theorem freeable_cast {α : Type} {size : Nat} {len : Except Fault SaneWord} {v : Ptr (List α)}
    {f : List α → OptionValue} {g : OptionValue → List α} (hgf : ∀ xs, g (f xs) = xs)
    (h : Freeable (arrayHolding size scalarHolding none len v)) (decoded : Prop) :
    Freeable { arrayHolding size scalarHolding none len (Ptr.cast g (Ptr.cast f v)) with
      decoded } := by
  rw [Ptr.cast_cast hgf]
  exact h

theorem receives_optionValue (type size : SaneWord) :
    Receives version (wOptionValue binCodec type size) (optionValueSending type size)
      (Copy (optionValueShape type size) (optionValueHolding type size)) := by
  intro value hfit value₀
  unfold optionValueSending at hfit
  unfold wOptionValue optionValueSending Copy optionValueShape optionValueHolding
  split_ifs at hfit ⊢
  · obtain ⟨hlen, -, helements⟩ := countedSending_fit hfit
    obtain ⟨hle, hmax, -⟩ := elementsSending_fit helements
    have hn := (Nat.le_mul_of_pos_right _ (by decide : 0 < sizeofWord)).trans hmax
    apply (absorbs_array _ _ receives_word helements (.inl (by decide))).bind_nil
    rintro ⟨len, v⟩ ⟨-, hreceived⟩
    refine .pure ⟨?_, freeable_cast (fun _ => rfl) ?_ _⟩
    · rw [Ptr.cast_cast fun _ => rfl, hreceived.shape_eq hle fun _ _ h => congrArg id h]
    · exact hreceived.freeable hle hn (congrArg Except.ok hlen) fun _ _ _ => freeable_empty
  · obtain ⟨hlen, -, helements⟩ := countedSending_fit hfit
    obtain ⟨hle, hmax, -⟩ := elementsSending_fit helements
    have hn := (Nat.le_mul_of_pos_right _ (by decide : 0 < sizeofChar)).trans hmax
    apply (absorbs_array _ _ receives_byte helements (.inl (by decide))).bind_nil
    rintro ⟨len, v⟩ ⟨-, hreceived⟩
    refine .pure ⟨?_, freeable_cast (fun _ => rfl) ?_ _⟩
    · rw [Ptr.cast_cast fun _ => rfl, hreceived.shape_eq hle fun _ _ h => congrArg id h]
    · exact hreceived.freeable hle hn (congrArg Except.ok hlen) fun _ _ _ => freeable_empty
  · obtain ⟨-, -, helements⟩ := countedSending_fit hfit
    have hvoid : Receives version saneiWVoid.run (fun _ => ⟨[], 0, True⟩) fun x y => y = x :=
      fun _ _ _ => .pure rfl
    apply (absorbs_array _ _ hvoid helements (.inr rfl)).bind_nil
    rintro ⟨len, v⟩ ⟨-, hreceived⟩
    refine .pure ⟨rfl, freeable_cast (fun _ => rfl) ?_ _⟩
    cases v with
    | none => exact ⟨⟨0, rfl, by simp⟩, (fun _ _ _ hblock => by cases hblock), rfl⟩
    | some block => exact absurd rfl hreceived.1
  · exact hfit.1.elim

/-! The messages. -/

/-- The message a peer gets for another one. -/
abbrev CopyMessage (version : Int) : NetMessage → NetMessage → Prop :=
  Copy (messageShape version) (messageHolding version)

/-- Two messages of one type. -/
inductive SameType : NetMessage → NetMessage → Prop
  | initReq (m m₀ : SaneInitReq) : SameType (.initReq m) (.initReq m₀)
  | initReply (m m₀ : SaneInitReply) : SameType (.initReply m) (.initReply m₀)
  | getDevicesReply (m m₀ : SaneGetDevicesReply) :
      SameType (.getDevicesReply m) (.getDevicesReply m₀)
  | openReply (m m₀ : SaneOpenReply) : SameType (.openReply m) (.openReply m₀)
  | optionDescriptorArray (m m₀ : SaneOptionDescriptorArray) :
      SameType (.optionDescriptorArray m) (.optionDescriptorArray m₀)
  | controlOptionReq (m m₀ : SaneControlOptionReq) :
      SameType (.controlOptionReq m) (.controlOptionReq m₀)
  | controlOptionReply (m m₀ : SaneControlOptionReply) :
      SameType (.controlOptionReply m) (.controlOptionReply m₀)
  | getParametersReply (m m₀ : SaneGetParametersReply) :
      SameType (.getParametersReply m) (.getParametersReply m₀)
  | startReply (m m₀ : SaneStartReply) : SameType (.startReply m) (.startReply m₀)
  | authorizationReq (m m₀ : SaneAuthorizationReq) :
      SameType (.authorizationReq m) (.authorizationReq m₀)

theorem receives_getDevicesReply {reply : SaneGetDevicesReply}
    (hfit : (messageSending version (.getDevicesReply reply)).Fit) (reply₀ : SaneGetDevicesReply) :
    Absorbs version (saneiWGetDevicesReply binCodec reply₀)
      (messageSending version (.getDevicesReply reply)).bytes
      (messageSending version (.getDevicesReply reply)).cost
      fun y => CopyMessage version (.getDevicesReply reply) (.getDevicesReply y) := by
  obtain ⟨n, hcount, helements, -, hbytes, hcost⟩ := arraySending_fit hfit.append.2
  obtain ⟨hle, hmax, -⟩ := elementsSending_fit helements
  have hn : n ≤ maxMem := (Nat.le_mul_of_pos_right n (by decide)).trans hmax
  simp only [messageSending, Sending.append_bytes, Sending.append_cost, hbytes, hcost]
  apply Absorbs.get_bind
  intro w hw
  rw [if_neg hw.not_ne]
  apply Absorbs.get_bind
  intro _ _
  rw [pure_bind]
  apply (absorbs_enum reply₀.status reply.status).bind
  rintro _ rfl
  apply (absorbs_array _ reply₀.deviceList receives_devicePtr helements (.inl (by decide))).bind_nil
  rintro ⟨len, v⟩ ⟨-, hreceived⟩
  have hlength := hreceived.cells_length
  rw [List.length_take_of_le hle] at hlength
  have hcount' : deviceListCount v = .ok n := by
    cases hlist : reply.deviceList with
    | none =>
        rw [hlist] at hcount
        cases hcount
        cases v with
        | none => rfl
        | some block => exact absurd rfl hreceived.1
    | some block =>
        rw [hlist] at hcount hreceived
        obtain ⟨k, hk, hn'⟩ := bind_eq_ok.mp hcount
        cases hn'
        have hscan := (nullScan_take (fun _ _ h => h.2) hk hreceived.forall₂).2
        cases v with
        | none => cases hlength
        | some block' =>
            change nullScan block'.val = _ at hscan
            simp only [deviceListCount, hscan, ok_bind]
  refine .pure ⟨?_, ?_⟩
  · have hshape := hreceived.shape_eq hle fun _ _ h => h.1.1
    simp only [messageShape, hcount, hcount', arrayShape]
    rw [hshape]
  · exact hreceived.freeable hle hn (deviceListLen_eq hcount') fun _ _ h => h.1.2

theorem receives_optionDescriptorArray {a : SaneOptionDescriptorArray}
    (hfit : (messageSending version (.optionDescriptorArray a)).Fit)
    (a₀ : SaneOptionDescriptorArray) :
    Absorbs version (saneiWOptionDescriptorArray binCodec a₀)
      (messageSending version (.optionDescriptorArray a)).bytes
      (messageSending version (.optionDescriptorArray a)).cost
      fun y => CopyMessage version (.optionDescriptorArray a) (.optionDescriptorArray y) := by
  obtain ⟨hlen, -, helements⟩ := countedSending_fit hfit
  obtain ⟨hle, hmax, -⟩ := elementsSending_fit helements
  have hn := (Nat.le_mul_of_pos_right _ (by decide : 0 < sizeofPointer)).trans hmax
  apply (absorbs_array a₀.numOptions a₀.desc receives_optionDescriptorPtr helements
    (.inl (by decide))).bind_nil
  rintro ⟨len, v⟩ ⟨hlen', hreceived⟩
  have hnum : len = a.numOptions := hlen'.trans hlen.symm
  refine .pure ⟨?_, ?_⟩
  · have hshape := hreceived.shape_eq hle fun _ _ h => h.1.1
    simp only [messageShape, hnum]
    rw [hshape]
  · exact hreceived.freeable hle hn (congrArg Except.ok hlen') fun _ _ h => h.1.2

theorem receives_controlOptionReq {req : SaneControlOptionReq}
    (hfit : (messageSending version (.controlOptionReq req)).Fit) (req₀ : SaneControlOptionReq) :
    Absorbs version (saneiWControlOptionReq binCodec req₀)
      (messageSending version (.controlOptionReq req)).bytes
      (messageSending version (.controlOptionReq req)).cost
      fun y => CopyMessage version (.controlOptionReq req) (.controlOptionReq y) := by
  have hvalue := hfit.append.2.append.2.append.2
  apply (absorbs_word req₀.handle req.handle).bind
  rintro _ rfl
  apply (absorbs_word req₀.option req.option).bind
  rintro _ rfl
  apply (absorbs_word req₀.action req.action).bind
  rintro _ rfl
  apply Absorbs.get_bind
  intro w hw
  have hcarries : (w.version < 3 ∨ req.action ≠ actionSetAuto) ↔
      carriesValue version req.action := by
    rw [hw.version]
    simp [carriesValue]
  simp only [hcarries]
  split_ifs at hvalue ⊢ with hc
  · apply (absorbs_word req₀.valueType req.valueType).bind
    rintro _ rfl
    apply (absorbs_word req₀.valueSize req.valueSize).bind
    rintro _ rfl
    apply (receives_optionValue _ _ req.value hvalue.append.2.append.2 req₀.value).bind_nil
    rintro value ⟨hshape, hfree⟩
    refine .pure ⟨?_, ?_⟩
    · simp only [messageShape, if_pos hc, hshape]
    · simpa only [messageHolding, if_pos hc] using hfree
  · refine .pure ⟨?_, ?_⟩
    · simp only [messageShape, if_neg hc]
    · simpa only [messageHolding, if_neg hc] using freeable_empty

theorem receives_controlOptionReply {reply : SaneControlOptionReply}
    (hfit : (messageSending version (.controlOptionReply reply)).Fit)
    (reply₀ : SaneControlOptionReply) :
    Absorbs version (saneiWControlOptionReply binCodec reply₀)
      (messageSending version (.controlOptionReply reply)).bytes
      (messageSending version (.controlOptionReply reply)).cost
      fun y => CopyMessage version (.controlOptionReply reply) (.controlOptionReply y) := by
  obtain ⟨hvalue, hresource⟩ := hfit.append.2.append.2.append.2.append.2.append
  apply (absorbs_enum reply₀.status reply.status).bind
  rintro _ rfl
  apply (absorbs_word reply₀.info reply.info).bind
  rintro _ rfl
  apply (absorbs_word reply₀.valueType reply.valueType).bind
  rintro _ rfl
  apply (absorbs_word reply₀.valueSize reply.valueSize).bind
  rintro _ rfl
  apply (receives_optionValue _ _ reply.value hvalue reply₀.value).bind
  rintro value ⟨hshape, hfree⟩
  apply (receives_string reply.resourceToAuthorize hresource reply₀.resourceToAuthorize).bind_nil
  rintro resource ⟨⟨hshape', hfree'⟩, -⟩
  refine .pure ⟨?_, hfree.append hfree'⟩
  simp only [messageShape, hshape, hshape']

theorem receives_parameters (v v₀ : SaneParameters) :
    Absorbs version (saneiWParameters binCodec v₀) (parametersSending v).bytes
      (parametersSending v).cost (· = v) := by
  apply (absorbs_enum v₀.format v.format).bind
  rintro _ rfl
  apply (absorbs_enum v₀.lastFrame v.lastFrame).bind
  rintro _ rfl
  apply (absorbs_word v₀.bytesPerLine v.bytesPerLine).bind
  rintro _ rfl
  apply (absorbs_word v₀.pixelsPerLine v.pixelsPerLine).bind
  rintro _ rfl
  apply (absorbs_word v₀.lines v.lines).bind
  rintro _ rfl
  apply (absorbs_word v₀.depth v.depth).bind_nil
  rintro _ rfl
  exact .pure rfl

theorem receives_initReq {req : SaneInitReq}
    (hfit : (messageSending version (.initReq req)).Fit) (req₀ : SaneInitReq) :
    Absorbs version (saneiWInitReq binCodec req₀) (messageSending version (.initReq req)).bytes
      (messageSending version (.initReq req)).cost
      fun y => CopyMessage version (.initReq req) (.initReq y) := by
  apply (absorbs_word req₀.versionCode req.versionCode).bind
  rintro _ rfl
  apply (receives_string req.username hfit.append.2 req₀.username).bind_nil
  rintro username ⟨⟨hshape, hfree⟩, -⟩
  refine .pure ⟨?_, hfree⟩
  simp only [messageShape, hshape]

theorem receives_initReply (reply reply₀ : SaneInitReply) :
    Absorbs version (saneiWInitReply binCodec reply₀)
      (messageSending version (.initReply reply)).bytes
      (messageSending version (.initReply reply)).cost
      fun y => CopyMessage version (.initReply reply) (.initReply y) := by
  apply (absorbs_enum reply₀.status reply.status).bind
  rintro _ rfl
  apply (absorbs_word reply₀.versionCode reply.versionCode).bind_nil
  rintro _ rfl
  exact .pure ⟨rfl, freeable_empty⟩

theorem receives_openReply {reply : SaneOpenReply}
    (hfit : (messageSending version (.openReply reply)).Fit) (reply₀ : SaneOpenReply) :
    Absorbs version (saneiWOpenReply binCodec reply₀)
      (messageSending version (.openReply reply)).bytes
      (messageSending version (.openReply reply)).cost
      fun y => CopyMessage version (.openReply reply) (.openReply y) := by
  apply (absorbs_enum reply₀.status reply.status).bind
  rintro _ rfl
  apply (absorbs_word reply₀.handle reply.handle).bind
  rintro _ rfl
  apply (receives_string reply.resourceToAuthorize hfit.append.2.append.2
    reply₀.resourceToAuthorize).bind_nil
  rintro resource ⟨⟨hshape, hfree⟩, -⟩
  refine .pure ⟨?_, hfree⟩
  simp only [messageShape, hshape]

theorem receives_getParametersReply (reply reply₀ : SaneGetParametersReply) :
    Absorbs version (saneiWGetParametersReply binCodec reply₀)
      (messageSending version (.getParametersReply reply)).bytes
      (messageSending version (.getParametersReply reply)).cost
      fun y => CopyMessage version (.getParametersReply reply) (.getParametersReply y) := by
  apply (absorbs_enum reply₀.status reply.status).bind
  rintro _ rfl
  apply (receives_parameters reply.params reply₀.params).bind_nil
  rintro _ rfl
  exact .pure ⟨rfl, freeable_empty⟩

theorem receives_startReply {reply : SaneStartReply}
    (hfit : (messageSending version (.startReply reply)).Fit) (reply₀ : SaneStartReply) :
    Absorbs version (saneiWStartReply binCodec reply₀)
      (messageSending version (.startReply reply)).bytes
      (messageSending version (.startReply reply)).cost
      fun y => CopyMessage version (.startReply reply) (.startReply y) := by
  apply (absorbs_enum reply₀.status reply.status).bind
  rintro _ rfl
  apply (absorbs_word reply₀.port reply.port).bind
  rintro _ rfl
  apply (absorbs_word reply₀.byteOrder reply.byteOrder).bind
  rintro _ rfl
  apply (receives_string reply.resourceToAuthorize hfit.append.2.append.2.append.2
    reply₀.resourceToAuthorize).bind_nil
  rintro resource ⟨⟨hshape, hfree⟩, -⟩
  refine .pure ⟨?_, hfree⟩
  simp only [messageShape, hshape]

theorem receives_authorizationReq {req : SaneAuthorizationReq}
    (hfit : (messageSending version (.authorizationReq req)).Fit) (req₀ : SaneAuthorizationReq) :
    Absorbs version (saneiWAuthorizationReq binCodec req₀)
      (messageSending version (.authorizationReq req)).bytes
      (messageSending version (.authorizationReq req)).cost
      fun y => CopyMessage version (.authorizationReq req) (.authorizationReq y) := by
  apply (receives_string req.resource hfit.append.1 req₀.resource).bind
  rintro resource ⟨⟨hshape, hfree⟩, -⟩
  apply (receives_string req.username hfit.append.2.append.1 req₀.username).bind
  rintro username ⟨⟨hshape', hfree'⟩, -⟩
  apply (receives_string req.password hfit.append.2.append.2 req₀.password).bind_nil
  rintro password ⟨⟨hshape'', hfree''⟩, -⟩
  refine .pure ⟨?_, (hfree.append hfree').append hfree''⟩
  simp only [messageShape, hshape, hshape', hshape'']

/-- Decoding the bytes of a message gives a copy of it. -/
theorem receives_message {m m₀ : NetMessage} (htype : SameType m m₀)
    (hfit : (messageSending version m).Fit) :
    Absorbs version (transferMessage binCodec m₀) (messageSending version m).bytes
      (messageSending version m).cost (CopyMessage version m) := by
  cases htype with
  | initReq req req₀ => exact (receives_initReq hfit req₀).map fun _ h => h
  | initReply reply reply₀ => exact (receives_initReply reply reply₀).map fun _ h => h
  | getDevicesReply reply reply₀ => exact (receives_getDevicesReply hfit reply₀).map fun _ h => h
  | openReply reply reply₀ => exact (receives_openReply hfit reply₀).map fun _ h => h
  | optionDescriptorArray a a₀ => exact (receives_optionDescriptorArray hfit a₀).map fun _ h => h
  | controlOptionReq req req₀ => exact (receives_controlOptionReq hfit req₀).map fun _ h => h
  | controlOptionReply reply reply₀ =>
      exact (receives_controlOptionReply hfit reply₀).map fun _ h => h
  | getParametersReply reply reply₀ =>
      exact (receives_getParametersReply reply reply₀).map fun _ h => h
  | startReply reply reply₀ => exact (receives_startReply hfit reply₀).map fun _ h => h
  | authorizationReq req req₀ => exact (receives_authorizationReq hfit req₀).map fun _ h => h

/-- Encoding a message and flushing it, decoding it at the peer and freeing it there. The
sender writes the bytes of the message after those it had encoded before; for a peer that
is to read them next, decoding succeeds, gives the message as far as it is transmitted,
takes exactly these bytes, and freeing it undoes the allocations. -/
theorem message_roundTrip {m m₀ : NetMessage} (htype : SameType m m₀) {w r : Wire}
    (hw : Encoding version w) (hr : Receiving version r) (hheld : (messageSending version m).held)
    (hfits : r.allocatedMemory.toInt + (messageSending version m).cost ≤ maxMem) :
    ∃ x w' sent, (transferMessage binCodec m).run w = .ok (x, w') ∧ (flush w').status = 0 ∧
      (flush w').io.sent = w.output ++ sent ∧
      ∀ rest, r.input = sent ++ rest →
        ∃ y r', (transferMessage binCodec m₀).run r = .ok (y, r') ∧ r'.status = 0 ∧
          messageShape version y = messageShape version m ∧ r'.input = rest ∧
          FreesCleanly y r r' := by
  have hfit : (messageSending version m).Fit := by
    have hpos := hr.nonneg
    exact ⟨hheld, by omega⟩
  obtain ⟨x, w', bytes, hrun, hw', hpoured, hpost⟩ := sends_message m hheld w hw.toStreaming
  obtain ⟨-, rfl, -⟩ := hpost trivial
  have hfine := hpoured.works hw.fine hw.writes
  have hwrites : WritesWork w' := fun i => by
    rw [hpoured.writes_eq]
    exact hw.writes i
  obtain ⟨hst, hsent⟩ := flush_sent hw' hfine hwrites
  refine ⟨x, w', (messageSending version m).bytes, hrun, hst, hsent.trans (hpoured.done hfine), ?_⟩
  intro rest hinput
  obtain ⟨y, r', hdecode, hr', hrest, -, hshape, hfree⟩ :=
    receives_message htype hfit r rest hr hinput hfits
  obtain ⟨y₂, r₂, cs, hdecode₂, -, hcharged, haccounts⟩ :=
    decodes_message r.version m₀ r ⟨hr.decoding, rfl⟩
  rw [hdecode] at hdecode₂
  cases hdecode₂
  refine ⟨y, r', hdecode, hr'.fine, hshape, hrest, ?_⟩
  apply (freesCleanly_iff_freeable hcharged (haccounts hr'.fine).2).mpr
  rw [hr.version]
  exact hfree

/-- A wire set to encode, with nothing in its buffer. -/
def freshSender (version : Int) : Wire :=
  { freshWire version [] with
    direction := .encode
    buffer := { (freshWire version []).buffer with endPos := 8192 } }

theorem encoding_freshSender (version : Int) : Encoding version (freshSender version) where
  version := rfl
  direction := rfl
  sound := ⟨Nat.zero_le _, Nat.le_refl _, by simp [freshSender, freshWire],
    by simp [freshSender, freshWire, intMax]⟩
  room := rfl
  fine := rfl
  writes := fun _ => ⟨8191, rfl⟩

theorem receiving_freshWire (version : Int) (incoming : List UInt8) :
    Receiving version (freshWire version incoming) where
  decoding := decoding_freshWire version incoming
  version := rfl
  fine := rfl
  reads := fun _ => ⟨8191, rfl⟩
  grants := fun _ => rfl
  nonneg := Int.le_refl 0

theorem message_roundTrip_initReply :
    ∃ x w' sent, (transferMessage binCodec (.initReply ⟨0, 3⟩)).run (freshSender 3) = .ok (x, w') ∧
      (flush w').status = 0 ∧ (flush w').io.sent = (freshSender 3).output ++ sent ∧
      ∀ rest, (freshWire 3 [0, 0, 0, 0, 0, 0, 0, 3, 9]).input = sent ++ rest →
        ∃ y r', (transferMessage binCodec (.initReply ⟨0, 0⟩)).run
            (freshWire 3 [0, 0, 0, 0, 0, 0, 0, 3, 9]) = .ok (y, r') ∧ r'.status = 0 ∧
          messageShape 3 y = messageShape 3 (.initReply ⟨0, 3⟩) ∧ r'.input = rest ∧
          FreesCleanly y (freshWire 3 [0, 0, 0, 0, 0, 0, 0, 3, 9]) r' :=
  message_roundTrip (.initReply _ _) (encoding_freshSender 3) (receiving_freshWire 3 _)
    ⟨trivial, trivial⟩ (by decide)

/-- The value of a `SET_AUTO` request is not transmitted in protocol version 3: a
peer gets none. -/
theorem not_message_roundTrip_setAuto :
    let req : SaneControlOptionReq := ⟨0, 1, actionSetAuto, typeInt, 4, some ⟨1, .words [7]⟩⟩
    ∃ p q, (transferMessage binCodec (.controlOptionReq req)).run (freshSender 3) = .ok p ∧
      (flush p.2).status = 0 ∧
      (transferMessage binCodec (.controlOptionReq ⟨0, 0, 0, 0, 0, none⟩)).run
        (freshWire 3 (flush p.2).io.sent) = .ok q ∧ q.2.status = 0 ∧
      q.1 = .controlOptionReq { req with valueType := 0, valueSize := 0, value := none } := by
  have hrun : ((transferMessage binCodec (.controlOptionReq
      ⟨0, 1, actionSetAuto, typeInt, 4, some ⟨1, .words [7]⟩⟩)).run (freshSender 3)).toOption.any
        (fun p => (flush p.2).status == 0 &&
          decodesTo (.controlOptionReq ⟨0, 0, 0, 0, 0, none⟩) (freshWire 3 (flush p.2).io.sent)
            fun q => q.2.status == 0 &&
              q.1 == .controlOptionReq ⟨0, 1, actionSetAuto, 0, 0, none⟩) = true := by
    decide +kernel
  obtain ⟨p, hsend, hrun⟩ := exists_of_any_toOption hrun
  rw [Bool.and_eq_true] at hrun
  obtain ⟨q, hreceive, hanswer⟩ := exists_of_any_toOption hrun.2
  rw [Bool.and_eq_true] at hanswer
  exact ⟨p, q, hsend, eq_of_beq hrun.1, hreceive, eq_of_beq hanswer.1, eq_of_beq hanswer.2⟩

end SaneBackends.Sanei
