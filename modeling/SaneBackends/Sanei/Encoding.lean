import SaneBackends.Lib.Graded
import SaneBackends.Sanei.Sending
import SaneBackends.Sanei.WireBuffer
/-!
# Encoding what a sender holds

Encoding appends the bytes of the value to the output of the wire, wherever the buffer
is flushed in between. Once a write fails nothing more is encoded.
-/

namespace SaneBackends.Sanei

open SaneBackends.Lib

/-- A wire that encodes in a protocol version. -/
structure Streaming (version : Int) (w : Wire) : Prop where
  version : w.version = version
  direction : w.direction = .encode
  sound : w.buffer.Sound
  room : w.buffer.endPos = w.buffer.size

/-- A wire that encodes in a protocol version and whose writes work. -/
structure Encoding (version : Int) (w : Wire) : Prop extends Streaming version w where
  fine : w.status = 0
  writes : WritesWork w

/-- Wires related by the bytes encoded in between. -/
def emitting : Graded Wire UInt8 := ⟨Poured, Poured.refl, Poured.trans⟩

/-- Encoding ends with a result that satisfies `post` and with `bytes` encoded, or cut off
at a write that failed. -/
abbrev Emits {α : Type} (version : Int) (m : WireM α) (bytes : List UInt8) (post : α → Prop) :
    Prop :=
  emitting.Triple (Streaming version) (fun _ => True) m fun x bs => bs = bytes ∧ post x

variable {version : Int}

namespace Emits

variable {α β : Type} {m : WireM α} {k : α → WireM β} {bytes bytes' : List UInt8}
  {post : α → Prop} {post' : β → Prop}

theorem pure {a : α} (h : post a) : Emits version (Pure.pure a) [] post := Graded.Triple.pure ⟨rfl, h⟩

theorem bind (h : Emits version m bytes post) (hk : ∀ a, post a → Emits version (k a) bytes' post') :
    Emits version (m >>= k) (bytes ++ bytes') post' := by
  intro w hw
  apply (h w hw).bind
  intro a w' bs hw' hpost
  obtain ⟨-, rfl, ha⟩ := hpost trivial
  apply (hk a ha w' hw').conseq
  rintro - b bs' ⟨rfl, hb⟩
  exact ⟨rfl, hb⟩

/-- A second computation that encodes nothing. -/
theorem bind_nil (h : Emits version m bytes post) (hk : ∀ a, post a → Emits version (k a) [] post') :
    Emits version (m >>= k) bytes post' := List.append_nil bytes ▸ h.bind hk

theorem get_bind {k : Wire → WireM α} (h : ∀ w, Streaming version w → Emits version (k w) bytes post) :
    Emits version (get >>= k) bytes post := fun w hw => Graded.At.get_bind (h w hw w hw)

/-- The test of the status that ends a transfer early. -/
theorem unless_bad {a : α} {m : WireM α} (ha : post a) (h : Emits version m bytes post) :
    Emits version (do if (← get).status ≠ 0 then Pure.pure a else m) bytes post := by
  intro w hw
  apply Graded.At.get_bind
  split_ifs with hbad
  · exact ⟨a, w, bytes, rfl, hw, .of_bad hbad, fun _ => ⟨trivial, rfl, ha⟩⟩
  · exact h w hw

theorem conseq {post' : α → Prop} (h : Emits version m bytes post) (hpost : ∀ a, post a → post' a) :
    Emits version m bytes post' :=
  Graded.Triple.conseq h fun _ _ h => ⟨h.1, hpost _ h.2⟩

end Emits

theorem putBytes_run {w : Wire} {bytes : List UInt8}
    (hroom : w.buffer.curr + bytes.length ≤ w.buffer.size) :
    (putBytes bytes).run w = .ok ((), { w with
      buffer := { w.buffer with
        mem := storeBlock w.buffer.mem w.buffer.curr bytes
        curr := w.buffer.curr + bytes.length } }) := by
  simp only [putBytes, StateT.run_bind, StateT.run_get, pure_bind, if_neg (Nat.not_lt.mpr hroom)]
  rfl

theorem emits_scalar {α : Type} {n : Nat} {put : α → List UInt8} (peek : List UInt8 → α) (x : α)
    (hput : (put x).length = n) (hn : n ≤ 4) :
    Emits version ((binWScalar n put peek).run x) (put x) (· = x) := by
  intro w hw
  obtain ⟨hpoured, hsound, hroom, hhelds⟩ := saneiWSpace_encode hw.direction hw.sound hw.room n
  have hversion : (saneiWSpace n w).version = version := by
    rw [hpoured.eq]
    exact hw.version
  have hdir : (saneiWSpace n w).direction = .encode := by
    rw [hpoured.eq]
    exact hw.direction
  have hend : (saneiWSpace n w).buffer.endPos = (saneiWSpace n w).buffer.size := by
    rw [hroom, hpoured.size]
  by_cases hst : (saneiWSpace n w).status = 0
  · have hfree : (saneiWSpace n w).buffer.curr + (put x).length ≤
        (saneiWSpace n w).buffer.size := by
      rw [hput, hpoured.size]
      exact (hhelds hst).2 (hn.trans hw.sound.word_le)
    have hok := hpoured.fine hst
    refine ⟨x, { saneiWSpace n w with
        buffer := { (saneiWSpace n w).buffer with
          mem := storeBlock (saneiWSpace n w).buffer.mem (saneiWSpace n w).buffer.curr (put x)
          curr := (saneiWSpace n w).buffer.curr + (put x).length } }, put x, ?_, ?_, ?_,
        fun _ => ⟨trivial, rfl, rfl⟩⟩
    · simp [binWScalar, hst, hdir, putBytes_run hfree]
    · exact ⟨hversion, hdir, ⟨hend ▸ hfree, hsound.end_le, hsound.word_le, hsound.size_le⟩, hend⟩
    · refine ⟨?_, hpoured.size, hpoured.io, hpoured.nwrites, hpoured.idle, fun hbad => absurd hok hbad,
        fun _ => ?_, fun _ hbad => absurd hst hbad, fun _ hbad => absurd hst hbad,
        fun _ hbad => absurd hst hbad⟩
      · conv_lhs => rw [hpoured.eq]
      · have happend := slice_storeBlock_append (saneiWSpace n w).buffer.mem 0
          (saneiWSpace n w).buffer.curr (put x)
        have hout := hpoured.done hst
        rw [Nat.zero_add] at happend
        rw [List.append_nil] at hout
        rw [← hout, Wire.output, Wire.output, List.append_assoc, ← happend]
  · refine ⟨x, saneiWSpace n w, put x, ?_, ⟨hversion, hdir, hsound, hend⟩, ?_,
      fun _ => ⟨trivial, rfl, rfl⟩⟩
    · simp [binWScalar, hst]
      rfl
    · exact hpoured.trans (.of_bad hst)

theorem emits_word (x : SaneWord) : Emits version (binWWord.run x) (wordBytes x) (· = x) :=
  emits_scalar bytesWord x rfl (Nat.le_refl 4)

theorem emits_byte (x : UInt8) : Emits version (binWByte.run x) [x] (· = x) :=
  emits_scalar _ x rfl (by decide)

/-- The transfer function `f` encodes a value that a sender holds as its bytes. -/
abbrev Sends {α : Type} (version : Int) (f : α → WireM α) (sending : α → Sending) : Prop :=
  ∀ x, (sending x).held → Emits version (f x) (sending x).bytes fun _ => True

theorem sends_word : Sends version binWWord.run wordSending := fun x _ =>
  (emits_word x).conseq fun _ _ => trivial

theorem sends_byte : Sends version binWByte.run byteSending := fun x _ =>
  (emits_byte x).conseq fun _ _ => trivial

section Arrays

variable {α : Type} {element : WireCodecFunc α} {sending : α → Sending}

theorem emits_elements (helement : Sends version element.run sending) {xs : List α} {n : Nat}
    (hlen : n ≤ xs.length) (hheld : ∀ x ∈ xs.take n, (sending x).held) :
    Emits version (transferElements element n xs) ((xs.take n).flatMap fun x => (sending x).bytes)
      fun _ => True := by
  induction n generalizing xs with
  | zero => exact .pure trivial
  | succ n ih =>
      cases xs with
      | nil => simp at hlen
      | cons x xs =>
          simp only [List.take_succ_cons, List.flatMap_cons] at hheld ⊢
          apply (helement x (hheld x List.mem_cons_self)).bind
          intro y _
          apply Emits.unless_bad trivial
          have hrest := ih (Nat.le_of_succ_le_succ hlen)
            fun z hz => hheld z (List.mem_cons_of_mem _ hz)
          exact hrest.bind_nil fun ys _ => .pure trivial

theorem emits_array {zero : α} {size n : Nat} {len : SaneWord} {v : Ptr (List α)}
    (helement : Sends version element.run sending) (hlen : len = BitVec.ofNat 32 n)
    (hn : len.toInt = n) (hheld : (elementsSending size sending n (Ptr.cells v)).held) :
    Emits version (saneiWArray binWWord element zero size len v)
      (elementsSending size sending n (Ptr.cells v)).bytes fun _ => True := by
  obtain ⟨-, hle, helements⟩ := hheld
  have hcount : len.toInt.toNat = n := by omega
  have hcells := emits_elements helement hle helements
  apply Emits.get_bind
  intro w hw
  simp only [hw.direction]
  have hword : Emits version (binWWord.run len) (wordBytes (BitVec.ofNat 32 n)) (· = len) := by
    rw [← hlen]
    exact emits_word len
  apply hword.bind
  rintro _ rfl
  apply Emits.unless_bad trivial
  rw [hcount]
  cases v with
  | none => exact hcells.bind_nil fun _ _ => .pure trivial
  | some block => exact hcells.bind_nil fun _ _ => .pure trivial

theorem emits_ptr {f : α → WireM α} {zero : α} {size : Nat} (hf : Sends version f sending) :
    Sends version (saneiWPtr binWWord f zero size) (ptrSending size sending) := by
  intro v hheld
  apply Emits.get_bind
  intro w hw
  simp only [hw.direction]
  cases v with
  | none =>
      apply (emits_word 1).bind_nil
      rintro _ rfl
      apply Emits.unless_bad trivial
      rw [if_neg (by decide)]
      exact .pure trivial
  | some block =>
      rw [if_neg (by simp)]
      apply (emits_word 0).bind
      rintro _ rfl
      apply Emits.unless_bad trivial
      rw [if_pos rfl]
      exact (hf block.val hheld).bind_nil fun _ _ => .pure trivial

end Arrays

theorem Streaming.not_decode {w : Wire} (hw : Streaming version w) : w.direction ≠ .decode := by
  rw [hw.direction]
  decide

theorem emits_liftM {α β : Type} {x : Except Fault α} {a : α} (h : x = .ok a) {k : α → WireM β}
    {bytes : List UInt8} {post : β → Prop} (hk : Emits version (k a) bytes post) :
    Emits version (liftM x >>= k) bytes post := by
  rw [h]
  exact hk

/-- An array whose elements are counted first. -/
theorem emits_countedArray {α : Type} {element : WireCodecFunc α} {sending : α → Sending} {zero : α}
    {size : Nat} {count : Except Fault Nat} {len : Except Fault SaneWord} {v : Ptr (List α)}
    {β : Type} {k : SaneWord × Ptr (List α) → WireM β}
    (helement : Sends version element.run sending)
    (hlen : ∀ n, count = .ok n → len = .ok (BitVec.ofNat 32 n))
    (hheld : (arraySending size sending count v).held)
    (hk : ∀ p, Emits version (k p) [] fun _ => True) :
    Emits version (liftM len >>= fun n => saneiWArray binWWord element zero size n v >>= k)
      (arraySending size sending count v).bytes fun _ => True := by
  obtain ⟨n, hcount, helements, -, hbytes, -⟩ := arraySending_held hheld
  rw [hbytes]
  apply emits_liftM (hlen n hcount)
  exact (emits_array helement rfl (toInt_ofNat_of_le_intMax helements.1) helements).bind_nil fun p _ => hk p

theorem sends_string : Sends version binWString.run stringSending := by
  intro s hheld
  apply Emits.get_bind
  intro w hw
  rw [if_pos hw.not_decode]
  apply emits_countedArray sends_byte (fun n => stringLen_eq) hheld
  intro p
  apply Emits.get_bind
  intro w' hw'
  rw [if_neg hw'.not_decode]
  exact .pure trivial

theorem emits_enum (v : SaneWord) : Emits version (saneiWEnum binCodec v) (wordBytes v) (· = v) := by
  apply (emits_word v).bind_nil
  intro word _
  apply Emits.get_bind
  intro w hw
  rw [if_neg hw.not_decode]
  exact .pure rfl

theorem sends_range : Sends version (saneiWRange binCodec) rangeSending := by
  intro v _
  apply (emits_word v.min).bind
  intro min _
  apply (emits_word v.max).bind
  intro max _
  apply (emits_word v.quant).bind_nil
  intro quant _
  exact .pure trivial

theorem sends_device : Sends version (saneiWDevice binCodec) deviceSending := by
  intro v hheld
  obtain ⟨hname, hheld⟩ := hheld
  obtain ⟨hvendor, hheld⟩ := hheld
  obtain ⟨hmodel, htype⟩ := hheld
  apply (sends_string v.name hname).bind
  intro name _
  apply (sends_string v.vendor hvendor).bind
  intro vendor _
  apply (sends_string v.model hmodel).bind
  intro model _
  apply (sends_string v.type htype).bind_nil
  intro type _
  exact .pure trivial

theorem sends_devicePtr : Sends version (saneiWDevicePtr binCodec).run devicePtrSending :=
  emits_ptr sends_device

theorem sends_constraint (constraintType : SaneWord) :
    Sends version (saneiWConstraint binCodec constraintType) (constraintSending constraintType) := by
  intro v hheld
  unfold constraintSending at hheld
  unfold saneiWConstraint constraintSending
  split_ifs at hheld ⊢
  · exact (emits_ptr sends_range v.range hheld).bind_nil fun _ _ => .pure trivial
  · apply Emits.get_bind
    intro w hw
    rw [if_pos hw.not_decode]
    exact emits_countedArray sends_word (fun n => wordListLen_eq) hheld
      fun _ => .pure trivial
  · apply Emits.get_bind
    intro w hw
    rw [if_pos hw.not_decode]
    exact emits_countedArray sends_string (fun n => stringListLen_eq) hheld
      fun _ => .pure trivial
  · exact .pure trivial

theorem sends_optionDescriptor : Sends version (saneiWOptionDescriptor binCodec) optionDescriptorSending := by
  intro v hheld
  obtain ⟨hname, hheld⟩ := hheld
  obtain ⟨htitle, hheld⟩ := hheld
  obtain ⟨hdesc, hheld⟩ := hheld
  have hconstraint := hheld.2.2.2.2.2
  apply (sends_string v.name hname).bind
  intro name _
  apply (sends_string v.title htitle).bind
  intro title _
  apply (sends_string v.desc hdesc).bind
  intro desc _
  apply (emits_enum v.type).bind
  intro type _
  apply (emits_enum v.unit).bind
  intro unit _
  apply (emits_word v.size).bind
  intro size _
  apply (emits_word v.cap).bind
  intro cap _
  apply (emits_enum v.constraintType).bind
  rintro _ rfl
  apply (sends_constraint v.constraintType v.constraint hconstraint).bind_nil
  intro constraint _
  exact .pure trivial

theorem sends_optionDescriptorPtr :
    Sends version (saneiWOptionDescriptorPtr binCodec).run optionDescriptorPtrSending :=
  emits_ptr sends_optionDescriptor

theorem sends_optionValue (type size : SaneWord) :
    Sends version (wOptionValue binCodec type size) (optionValueSending type size) := by
  intro value hheld
  unfold optionValueSending at hheld
  unfold wOptionValue optionValueSending
  split_ifs at hheld ⊢
  · obtain ⟨hlen, hn, helements⟩ := countedSending_held hheld
    exact (emits_array sends_word hlen hn helements).bind_nil fun _ _ => .pure trivial
  · obtain ⟨hlen, hn, helements⟩ := countedSending_held hheld
    exact (emits_array sends_byte hlen hn helements).bind_nil fun _ _ => .pure trivial
  · obtain ⟨hlen, hn, helements⟩ := countedSending_held hheld
    have hvoid : Sends version saneiWVoid.run fun _ => ⟨[], 0, True⟩ := fun _ _ => .pure trivial
    exact (emits_array hvoid hlen hn helements).bind_nil fun _ _ => .pure trivial
  · exact hheld.elim

theorem sends_parameters : Sends version (saneiWParameters binCodec) parametersSending := by
  intro v _
  apply (emits_enum v.format).bind
  intro format _
  apply (emits_enum v.lastFrame).bind
  intro lastFrame _
  apply (emits_word v.bytesPerLine).bind
  intro bytesPerLine _
  apply (emits_word v.pixelsPerLine).bind
  intro pixelsPerLine _
  apply (emits_word v.lines).bind
  intro lines _
  apply (emits_word v.depth).bind_nil
  intro depth _
  exact .pure trivial

theorem sends_controlOptionReq (req : SaneControlOptionReq)
    (hheld : (messageSending version (.controlOptionReq req)).held) :
    Emits version (saneiWControlOptionReq binCodec req)
      (messageSending version (.controlOptionReq req)).bytes fun _ => True := by
  apply (emits_word req.handle).bind
  intro handle _
  apply (emits_word req.option).bind
  intro option _
  apply (emits_word req.action).bind
  rintro _ rfl
  apply Emits.get_bind
  intro w hw
  have hcarries : (w.version < 3 ∨ req.action ≠ actionSetAuto) ↔
      carriesValue version req.action := by
    rw [hw.version]
    simp [carriesValue]
  have hvalue := hheld.2.2.2
  simp only [hcarries]
  split_ifs at hvalue ⊢
  · apply (emits_word req.valueType).bind
    rintro _ rfl
    apply (emits_word req.valueSize).bind
    rintro _ rfl
    exact (sends_optionValue _ _ req.value hvalue.2.2).bind_nil fun _ _ => .pure trivial
  · exact .pure trivial

theorem sends_controlOptionReply (reply : SaneControlOptionReply)
    (hheld : (messageSending version (.controlOptionReply reply)).held) :
    Emits version (saneiWControlOptionReply binCodec reply)
      (messageSending version (.controlOptionReply reply)).bytes fun _ => True := by
  obtain ⟨hvalue, hresource⟩ := hheld.2.2.2.2
  apply (emits_enum reply.status).bind
  intro status _
  apply (emits_word reply.info).bind
  intro info _
  apply (emits_word reply.valueType).bind
  rintro _ rfl
  apply (emits_word reply.valueSize).bind
  rintro _ rfl
  apply (sends_optionValue _ _ reply.value hvalue).bind
  intro value _
  exact (sends_string reply.resourceToAuthorize hresource).bind_nil fun _ _ => .pure trivial

theorem sends_getDevicesReply (reply : SaneGetDevicesReply)
    (hheld : (messageSending version (.getDevicesReply reply)).held) :
    Emits version (saneiWGetDevicesReply binCodec reply)
      (messageSending version (.getDevicesReply reply)).bytes fun _ => True := by
  obtain ⟨n, hcount, helements, -, hbytes, -⟩ := arraySending_held hheld.2
  apply Emits.get_bind
  intro w hw
  rw [if_pos hw.not_decode]
  apply emits_liftM (deviceListLen_eq hcount)
  apply (emits_enum reply.status).bind
  intro status _
  rw [hbytes]
  exact (emits_array sends_devicePtr rfl (toInt_ofNat_of_le_intMax helements.1) helements).bind_nil
    fun _ _ => .pure trivial

/-- Encoding a message that a sender holds. -/
theorem sends_message (m : NetMessage) (hheld : (messageSending version m).held) :
    Emits version (transferMessage binCodec m) (messageSending version m).bytes fun _ => True := by
  have hmap : ∀ {α : Type} {f : α → NetMessage} {x : WireM α} {bytes : List UInt8},
      Emits version x bytes (fun _ => True) → Emits version (f <$> x) bytes fun _ => True := by
    intro α f x bytes h
    exact Graded.Triple.map h fun _ _ h => h
  cases m with
  | initReq req =>
      apply hmap
      apply (emits_word req.versionCode).bind
      intro versionCode _
      exact (sends_string req.username hheld.2).bind_nil fun _ _ => .pure trivial
  | initReply reply =>
      apply hmap
      apply (emits_enum reply.status).bind
      intro status _
      exact (emits_word reply.versionCode).bind_nil fun _ _ => .pure trivial
  | getDevicesReply reply => exact hmap (sends_getDevicesReply reply hheld)
  | openReply reply =>
      apply hmap
      apply (emits_enum reply.status).bind
      intro status _
      apply (emits_word reply.handle).bind
      intro handle _
      exact (sends_string reply.resourceToAuthorize hheld.2.2).bind_nil fun _ _ => .pure trivial
  | optionDescriptorArray a =>
      apply hmap
      obtain ⟨hlen, hn, helements⟩ := countedSending_held hheld
      exact (emits_array sends_optionDescriptorPtr hlen hn helements).bind_nil
        fun _ _ => .pure trivial
  | controlOptionReq req => exact hmap (sends_controlOptionReq req hheld)
  | controlOptionReply reply => exact hmap (sends_controlOptionReply reply hheld)
  | getParametersReply reply =>
      apply hmap
      apply (emits_enum reply.status).bind
      intro status _
      exact (sends_parameters reply.params hheld.2).bind_nil fun _ _ => .pure trivial
  | startReply reply =>
      apply hmap
      apply (emits_enum reply.status).bind
      intro status _
      apply (emits_word reply.port).bind
      intro port _
      apply (emits_word reply.byteOrder).bind
      intro byteOrder _
      exact (sends_string reply.resourceToAuthorize
        hheld.2.2.2).bind_nil fun _ _ => .pure trivial
  | authorizationReq req =>
      apply hmap
      apply (sends_string req.resource hheld.1).bind
      intro resource _
      apply (sends_string req.username hheld.2.1).bind
      intro username _
      exact (sends_string req.password hheld.2.2).bind_nil fun _ _ => .pure trivial

theorem flush_encode {w : Wire} (hw : Streaming version w) :
    Poured [] w (flush w) ∧ Streaming version (flush w) ∧
      ((flush w).status = 0 → (flush w).buffer.curr = 0) := by
  have hflush : flush w = saneiWSpace (w.buffer.size + 1) w := by
    rw [flush, hw.direction]
  obtain ⟨hpoured, hsound, hroom, hdone⟩ :=
    saneiWSpace_encode hw.direction hw.sound hw.room (w.buffer.size + 1)
  rw [hflush]
  refine ⟨hpoured, ⟨?_, ?_, hsound, ?_⟩, fun hst => (hdone hst).1 (Nat.lt_succ_self _)⟩
  · rw [hpoured.eq]
    exact hw.version
  · rw [hpoured.eq]
    exact hw.direction
  · rw [hroom, hpoured.size]

/-- What was poured without a failure and stays in no buffer is sent. -/
theorem Poured.sent {bytes : List UInt8} {w w' : Wire} (h : Poured bytes w w') (hok : w'.status = 0)
    (hcurr : w'.buffer.curr = 0) : w'.io.sent = w.output ++ bytes := by
  rw [← h.done hok, Wire.output, hcurr, slice_zero, List.append_nil]

/-- Flushing sends everything that was encoded. -/
theorem flush_sent {w : Wire} (hw : Streaming version w) (hok : w.status = 0)
    (hwrites : WritesWork w) : (flush w).status = 0 ∧ (flush w).io.sent = w.output := by
  obtain ⟨hpoured, -, hcurr⟩ := flush_encode hw
  have hst := hpoured.works hok hwrites
  exact ⟨hst, (hpoured.sent hst (hcurr hst)).trans (List.append_nil _)⟩

end SaneBackends.Sanei
