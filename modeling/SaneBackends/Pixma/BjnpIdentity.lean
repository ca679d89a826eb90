import SaneBackends.Lib.Result
import SaneBackends.Lib.TextBlock
import SaneBackends.Pixma.Bjnp
/-!
# `pixma_bjnp.c`: the identity of a scanner

`get_scanner_id`, which takes the identity string out of a response, and the search for the model
in it. Reads outside of what was received and writes outside of the buffers are faults.
-/

namespace SaneBackends.Bjnp

open SaneBackends.Lib

inductive Protocol where
  | bjnp
  | mfnp
  deriving DecidableEq, Repr

/-- `BJNP_RESP_MAX`. -/
def respMax : Nat := 2048

/-- `BJNP_IEEE1284_MAX`. -/
def ieee1284Max : Nat := 1024

/-- `BJNP_MODEL_MAX`. -/
def modelMax : Nat := 64

/-- `Unidentified scanner` -/
def unidentified : List UInt8 :=
  ['U', 'n', 'i', 'd', 'e', 'n', 't', 'i', 'f', 'i', 'e', 'd', ' ', 's', 'c', 'a', 'n', 'n', 'e',
    'r'].map fun c => UInt8.ofNat c.toNat

/-- `MDL:` -/
def modelKey : List UInt8 := ['M', 'D', 'L', ':'].map fun c => UInt8.ofNat c.toNat

/-! ## The model -/

/-- The tokens that `strtok` finds between semicolons. -/
def tokens (s : List UInt8) : List (List UInt8) :=
  (s.splitOnP fun c => c == 59).filter fun token => !token.isEmpty

/-- `parse_IEEE1284_to_model`, with the buffer `s` as it is on the stack. -/
def parseIeee1284ToModel (s scannerId model : List UInt8) :
    Except TextFault (Int × List UInt8) := do
  let s ← strncpy s scannerId ieee1284Max
  let s ← setByte s (ieee1284Max - 1) 0
  let model ← setByte model 0 0
  let text ← stringAt s 0
  match (tokens text).find? fun token => modelKey.isPrefixOf token with
  | some token =>
      -- the token is terminated in `s`
      let model ← strncpy model (token.drop 4 ++ [0]) modelMax
      let model ← setByte model (modelMax - 1) 0
      .ok (1, model)
  | none => .ok (0, model)

/-! ## The identity -/

/-- `id_len`, with the difference as a `size_t`. -/
def idLen : Protocol → List UInt8 → Nat
  | .bjnp, response => min ((payloadLen response + (2 ^ 64 - 2)) % 2 ^ 64) ieee1284Max
  | .mfnp, response => min (payloadLen response) ieee1284Max

/-- Where the identity begins. -/
def idOffset : Protocol → Nat
  | .bjnp => headerSize + 2
  | .mfnp => headerSize

/-- What `get_scanner_id` returns, with its buffer and the caller's. -/
structure ScannerId where
  result : Int
  scannerId : List UInt8
  model : List UInt8
  deriving DecidableEq, Repr

/-- The arrays `s`, `scanner_id` and `makemodel`, with what they hold at first. -/
structure IdBuffers where
  s : List UInt8
  scannerId : List UInt8
  model : List UInt8
  s_length : s.length = ieee1284Max
  scannerId_length : scannerId.length = ieee1284Max
  model_length : model.length = modelMax

/-- The bytes of a datagram that are received. -/
def received (datagram : List UInt8) : List UInt8 := datagram.take respMax

/-- `get_scanner_id`, with the datagram that is received, if there is one. -/
def getScannerId (protocol : Protocol) (datagram : Option (List UInt8)) (b : IdBuffers) :
    Except TextFault ScannerId := do
  let model ← setBytes b.model 0 (unidentified ++ [0])
  match datagram.map received with
  | none => .ok ⟨-1, b.scannerId, model⟩
  | some response =>
      if response.length < headerSize then .ok ⟨-1, b.scannerId, model⟩
      else
        let scannerId ← strncpy b.scannerId (response.drop (idOffset protocol))
          (idLen protocol response)
        let scannerId ← setByte scannerId (idLen protocol response) 0
        let found ← parseIeee1284ToModel b.s scannerId model
        .ok ⟨0, scannerId, found.2⟩

/-- Nothing outside of the response is read and nothing outside of the buffers is written, and the
strings are terminated. -/
def IdentityRead (protocol : Protocol) (datagram : Option (List UInt8)) (b : IdBuffers) : Prop :=
  ∃ read, getScannerId protocol datagram b = .ok read ∧
    read.model.length = modelMax ∧ 0 ∈ read.model ∧
    (read.result = 0 → read.scannerId.length = ieee1284Max ∧ 0 ∈ read.scannerId)

/-- The identity has a length for which the terminator fits in behind it. -/
def IdLengthFits : Protocol → List UInt8 → Prop
  | .bjnp, response => 2 ≤ payloadLen response ∧ payloadLen response < ieee1284Max + 2
  | .mfnp, response => payloadLen response < ieee1284Max

/-- As long as it is said to be, or up to a terminator, it was received. -/
def IdReceived (protocol : Protocol) (response : List UInt8) : Prop :=
  0 ∈ (response.drop (idOffset protocol)).take (idLen protocol response) ∨
    idLen protocol response ≤ (response.drop (idOffset protocol)).length

/-! ## Lengths -/

theorem ntoh_lt (bytes : List UInt8) : ntoh bytes < 256 ^ bytes.length := by
  have hfold : ∀ n, bytes.foldl (fun n b => 256 * n + b.toNat) n < (n + 1) * 256 ^ bytes.length := by
    induction bytes with
    | nil => intro n; rw [List.length_nil, Nat.pow_zero, Nat.mul_one]; exact Nat.lt_succ_self n
    | cons b bytes ih =>
        intro n
        have hb := b.toNat_lt
        calc (b :: bytes).foldl (fun n b => 256 * n + b.toNat) n
            < (256 * n + b.toNat + 1) * 256 ^ bytes.length := ih _
          _ ≤ (n + 1) * 256 * 256 ^ bytes.length := Nat.mul_le_mul_right _ (by omega)
          _ = (n + 1) * 256 ^ (b :: bytes).length := by
              rw [List.length_cons, Nat.pow_succ', Nat.mul_assoc]
  have h := hfold 0
  rw [Nat.zero_add, Nat.one_mul] at h
  exact h

theorem payloadLen_lt (response : List UInt8) : payloadLen response < 2 ^ 32 :=
  calc payloadLen response < 256 ^ ((response.drop 12).take 4).length := ntoh_lt _
    _ ≤ 256 ^ 4 := Nat.pow_le_pow_right (by decide) (List.length_take_le 4 _)
    _ = 2 ^ 32 := by decide

/-- Where the length does not fit, it is taken for the size of the buffer. -/
theorem idLen_lt_iff (protocol : Protocol) (response : List UInt8) :
    idLen protocol response < ieee1284Max ↔ IdLengthFits protocol response := by
  have hlt := payloadLen_lt response
  cases protocol with
  | bjnp =>
      change min ((payloadLen response + (2 ^ 64 - 2)) % 2 ^ 64) ieee1284Max < ieee1284Max ↔
        2 ≤ payloadLen response ∧ payloadLen response < ieee1284Max + 2
      rw [ieee1284Max]
      omega
  | mfnp =>
      change min (payloadLen response) ieee1284Max < ieee1284Max ↔
        payloadLen response < ieee1284Max
      omega

theorem idLen_le (protocol : Protocol) (response : List UInt8) :
    idLen protocol response ≤ ieee1284Max := by
  cases protocol <;> exact Nat.min_le_right _ _

/-! ## Both parts -/

/-- The search for the model never fails, and the model is terminated. -/
theorem parseIeee1284ToModel_ok {s scannerId model : List UInt8} (hs : s.length = ieee1284Max)
    (hscannerId : scannerId.length = ieee1284Max) (hmodel : model.length = modelMax) :
    ∃ found, parseIeee1284ToModel s scannerId model = .ok found ∧
      found.2.length = modelMax ∧ 0 ∈ found.2 := by
  obtain ⟨copied, hcopy, hcopied⟩ := exists_strncpy hs.ge (.inr hscannerId.ge)
  rw [hs] at hcopied
  have hend : ieee1284Max - 1 < copied.length := by
    rw [hcopied]
    decide
  have hfirst : 0 < model.length := by
    rw [hmodel]
    decide
  have hzero : (0 : UInt8) ∈ (copied.set (ieee1284Max - 1) 0).drop 0 := List.mem_set hend 0
  have hempty : (model.set 0 0).length = modelMax := by rw [List.length_set, hmodel]
  rw [parseIeee1284ToModel, hcopy, ok_bind, setByte_ok hend, ok_bind, setByte_ok hfirst, ok_bind,
    stringAt, if_pos hzero, ok_bind]
  cases (tokens _).find? fun token => modelKey.isPrefixOf token with
  | none => exact ⟨_, rfl, hempty, List.mem_set hfirst 0⟩
  | some token =>
      obtain ⟨named, hname, hnamed⟩ :=
        exists_strncpy hempty.ge (terminated_readable (token.drop 4) modelMax)
      rw [hempty] at hnamed
      have hlast : modelMax - 1 < named.length := by
        rw [hnamed]
        decide
      dsimp only
      rw [hname, ok_bind, setByte_ok hlast, ok_bind]
      exact ⟨_, rfl, by rw [List.length_set, hnamed], List.mem_set hlast 0⟩

theorem setBytes_unidentified (b : IdBuffers) :
    ∃ model, setBytes b.model 0 (unidentified ++ [0]) = .ok model ∧
      model.length = modelMax ∧ 0 ∈ model := by
  have hle : 0 + (unidentified ++ [0]).length ≤ b.model.length := by
    rw [b.model_length]
    decide
  refine ⟨_, if_pos hle, ?_, ?_⟩
  · rw [List.length_append, List.length_append, List.length_take, List.length_drop,
      b.model_length]
    decide
  · exact List.mem_append_left _ (List.mem_append_right _
      (List.mem_append_right _ List.mem_cons_self))

/-- From a response that is long enough for a header. -/
theorem getScannerId_response {protocol : Protocol} {datagram : List UInt8} {b : IdBuffers}
    {model : List UInt8} (hmodel : setBytes b.model 0 (unidentified ++ [0]) = .ok model)
    (hlength : headerSize ≤ (received datagram).length) :
    getScannerId protocol (some datagram) b =
      strncpy b.scannerId ((received datagram).drop (idOffset protocol))
          (idLen protocol (received datagram)) >>= fun scannerId =>
        setByte scannerId (idLen protocol (received datagram)) 0 >>= fun scannerId =>
          parseIeee1284ToModel b.s scannerId model >>= fun found =>
            .ok ⟨0, scannerId, found.2⟩ := by
  rw [getScannerId, hmodel, ok_bind, Option.map_some]
  exact if_neg (Nat.not_lt.mpr hlength)

/-- The identity is read within the bounds just if its length fits and it was received. -/
theorem identityRead_iff (protocol : Protocol) (datagram : Option (List UInt8)) (b : IdBuffers) :
    IdentityRead protocol datagram b ↔
      ∀ response ∈ datagram.map received, headerSize ≤ response.length →
        IdLengthFits protocol response ∧ IdReceived protocol response := by
  obtain ⟨model, hmodel, hlength, hzero⟩ := setBytes_unidentified b
  constructor
  · rintro ⟨read, hrun, -⟩ response hresponse hheader
    obtain ⟨bytes, rfl, rfl⟩ := Option.map_eq_some_iff.mp hresponse
    rw [getScannerId_response hmodel hheader] at hrun
    obtain ⟨copied, hcopy, hrun⟩ := bind_eq_ok.mp hrun
    obtain ⟨scannerId, hend, -⟩ := bind_eq_ok.mp hrun
    have hreceived : IdReceived protocol (received bytes) := by
      by_contra hnot
      rw [strncpy_error hnot] at hcopy
      cases hcopy
    refine ⟨(idLen_lt_iff _ _).mp ?_, hreceived⟩
    obtain ⟨copied', hcopy', hcopied⟩ :=
      exists_strncpy (b.scannerId_length ▸ idLen_le protocol (received bytes)) hreceived
    obtain rfl := Except.ok.inj (hcopy.symm.trans hcopy')
    rw [b.scannerId_length] at hcopied
    rw [setByte, hcopied] at hend
    split_ifs at hend with hlt
    exact hlt
  · intro h
    cases datagram with
    | none =>
        refine ⟨⟨-1, b.scannerId, model⟩, ?_, hlength, hzero, fun hresult => by cases hresult⟩
        rw [getScannerId, hmodel, ok_bind]
        rfl
    | some bytes =>
        by_cases hheader : headerSize ≤ (received bytes).length
        · obtain ⟨hfits, hreceived⟩ := h (received bytes) rfl hheader
          obtain ⟨copied, hcopy, hcopied⟩ :=
            exists_strncpy (b.scannerId_length ▸ idLen_le protocol (received bytes)) hreceived
          rw [b.scannerId_length] at hcopied
          have hend : idLen protocol (received bytes) < copied.length := by
            rw [hcopied]
            exact (idLen_lt_iff _ _).mpr hfits
          have hid : (copied.set (idLen protocol (received bytes)) 0).length = ieee1284Max := by
            rw [List.length_set, hcopied]
          obtain ⟨found, hfound, hmodel', hzero'⟩ :=
            parseIeee1284ToModel_ok b.s_length hid hlength
          refine ⟨⟨0, _, found.2⟩, ?_, hmodel', hzero', fun _ => ⟨hid, List.mem_set hend 0⟩⟩
          rw [getScannerId_response hmodel hheader, hcopy, ok_bind, setByte_ok hend, ok_bind,
            hfound, ok_bind]
        · refine ⟨⟨-1, b.scannerId, model⟩, ?_, hlength, hzero, fun hresult => by cases hresult⟩
          rw [getScannerId, hmodel, ok_bind, Option.map_some]
          exact if_pos (Nat.lt_of_not_le hheader)

/-- A response that announces no payload. -/
def emptyIdentity : List UInt8 := [66, 74, 78, 80, 130, 48, 0, 0, 0, 1, 0, 0, 0, 0, 0, 0]

theorem not_identityRead_empty :
    ¬ ∀ protocol datagram b, IdentityRead protocol datagram b := by
  intro h
  have hread := h .bjnp (some emptyIdentity)
    ⟨List.replicate 1024 0, List.replicate 1024 0, List.replicate 64 0, List.length_replicate,
      List.length_replicate, List.length_replicate⟩
  obtain ⟨hfits, -⟩ := (identityRead_iff _ _ _).mp hread (received emptyIdentity) rfl (by decide)
  exact absurd hfits.1 (by decide)

end SaneBackends.Bjnp
