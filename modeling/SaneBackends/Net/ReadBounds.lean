import SaneBackends.Net.ByteOrder
/-!
# How much `sane_read` reads

The length of a record is chosen by the server. A length of `2 ^ 31` or more is negative
as a `SANE_Int`, wins the comparison with `max_length` and becomes the size of the read.
-/

namespace SaneBackends.Net

open SaneBackends.Lib

/-- What is left of the record when a call comes to read its data. -/
def NetScanner.recordRemaining (s : NetScanner) (header : ReadResult) : Nat :=
  if s.bytesRemaining = 0 then
    match header.cut (4 - s.reclenBuf.length) with
    | .bytes bs => reclenValue (s.reclenBuf ++ bs)
    | _ => 0
  else s.bytesRemaining

/-- A call reads data for at most `max_length` bytes and for no more than is left of the
record, and returns no more than `max_length` bytes. -/
def Call.Bounded (s : NetScanner) (c : Call) : Prop :=
  let (_, reply, log) := saneRead s c.maxLength c.header c.answer
  (∀ call ∈ log, call.kind = .payload →
    (call.request : Int) ≤ c.maxLength ∧ call.request ≤ s.recordRemaining c.header) ∧
    (∀ bs ∈ payloads log, (bs.length : Int) ≤ c.maxLength) ∧
    (reply.data.length : Int) ≤ c.maxLength

/-- Each call of a run is bounded. -/
def EachBounded : NetScanner → List Call → Prop
  | _, [] => True
  | s, c :: cs => c.Bounded s ∧ EachBounded (saneRead s c.maxLength c.header c.answer).1 cs

/-- The record length a call puts together, if its header read completes one. -/
def NetScanner.announced (s : NetScanner) (c : Call) : Option Nat :=
  if s.data ∧ ¬ (s.swaps ∧ s.leftOver.isSome) ∧ s.bytesRemaining = 0 then
    match c.header.cut (4 - s.reclenBuf.length) with
    | .bytes bs =>
        if (s.reclenBuf ++ bs).length < 4 then none else some (reclenValue (s.reclenBuf ++ bs))
    | _ => none
  else none

/-- The record lengths a server announces in a run. -/
def announcements : NetScanner → List Call → List Nat
  | _, [] => []
  | s, c :: cs =>
      (s.announced c).toList ++ announcements (saneRead s c.maxLength c.header c.answer).1 cs

/-- A length that is positive as a `SANE_Int`, or the mark of the trailer. -/
def ShortRecord (n : Nat) : Prop := n ≤ intMax ∨ n = 0xffffffff

theorem length_swapBytes (data : List UInt8) (endCnt : Nat) :
    (swapBytes data endCnt).length = data.length := by
  induction data, endCnt using swapBytes.induct with
  | case1 a b rest endCnt h ih =>
      rw [swapBytes, if_pos h, List.length_cons, List.length_cons, ih, List.length_cons,
        List.length_cons]
  | case2 a b rest endCnt h => rw [swapBytes, if_neg h]
  | case3 data endCnt h =>
      cases data with
      | nil => rfl
      | cons a rest =>
          cases rest with
          | nil => rfl
          | cons b rest => exact absurd rfl (h a b rest)

/-- The conversion returns no more bytes than it is given. -/
theorem length_convert_le (s : NetScanner) (bs : List UInt8) :
    (convert s bs).2.length ≤ bs.length := by
  unfold convert
  dsimp only
  split
  · exact Nat.le_refl _
  · cases s.hangOver with
    | some hang =>
        dsimp only
        split_ifs with hone hmore heven
        · exact Nat.le_refl _
        · simp only [length_swapBytes, List.length_append, List.length_dropLast, List.length_cons,
            List.length_nil]
          omega
        · simp only [length_swapBytes, List.length_dropLast, List.length_cons]
          omega
        · exact Nat.le_refl _
    | none =>
        dsimp only
        split_ifs with heven
        · rw [length_swapBytes]
        · rw [length_swapBytes, List.length_dropLast]
          omega

theorem convert_bytesRemaining (s : NetScanner) (bs : List UInt8) :
    (convert s bs).1.bytesRemaining = s.bytesRemaining := by
  unfold convert
  dsimp only
  split
  · rfl
  · cases s.hangOver with
    | some hang =>
        dsimp only
        split_ifs <;> rfl
    | none =>
        dsimp only
        split_ifs <;> rfl

/-- The size of the read inside a record. -/
def payloadRequest (remaining : Nat) (maxLength : Int) : Nat :=
  toSize (if toInt32 remaining < maxLength then toInt32 remaining else maxLength)

theorem payloadRequest_le {remaining : Nat} {maxLength : Int} (hmax : 0 < maxLength)
    (hint : maxLength ≤ intMax) (hshort : remaining ≤ intMax) :
    (payloadRequest remaining maxLength : Int) ≤ maxLength ∧
      payloadRequest remaining maxLength ≤ remaining := by
  rw [payloadRequest, toInt32_of_le hshort]
  unfold toSize
  unfold intMax at hshort hint
  split_ifs <;> omega

/-- A record of `2 ^ 31` bytes or more is read with a size beyond every `max_length`. -/
theorem payloadRequest_gt {remaining : Nat} {maxLength : Int} (hmax : 0 < maxLength)
    (hint : maxLength ≤ intMax) (hlong : intMax < remaining) (hword : remaining < 2 ^ 32) :
    maxLength < payloadRequest remaining maxLength := by
  have hneg : toInt32 remaining = remaining - 2 ^ 32 := by
    apply toInt32_eq_of_emod <;> unfold intMax at hlong <;> omega
  rw [payloadRequest, hneg]
  unfold toSize
  unfold intMax at hlong hint
  split_ifs <;> omega

/-- What a read inside a record asks for, returns and leaves. -/
theorem readRecord_request (s : NetScanner) (maxLength : Int) (answer : ReadResult) :
    let request := payloadRequest s.bytesRemaining maxLength
    let out := readRecord s maxLength answer
    out.2.2 = [⟨.payload, request, answer.cut request⟩] ∧
      out.2.1.data.length ≤ request ∧ (∀ bs ∈ payloads out.2.2, bs.length ≤ request) ∧
      ∃ nread ≤ request, out.1.bytesRemaining = s.bytesRemaining ∨
        out.1.bytesRemaining = toSize (s.bytesRemaining - nread) := by
  cases answer with
  | again =>
      refine ⟨rfl, Nat.zero_le _, ?_, 0, Nat.zero_le _, .inl rfl⟩
      simp [payloads, readRecord, ReadResult.cut]
  | failed =>
      refine ⟨rfl, Nat.zero_le _, ?_, 0, Nat.zero_le _, .inl rfl⟩
      simp [payloads, readRecord, ReadResult.cut]
  | bytes bs =>
      have hnread : (bs.take (payloadRequest s.bytesRemaining maxLength)).length ≤
          payloadRequest s.bytesRemaining maxLength := by
        rw [List.length_take]
        omega
      refine ⟨rfl, (length_convert_le _ _).trans hnread, ?_, _, hnread,
        .inr (convert_bytesRemaining _ _)⟩
      intro taken htaken
      obtain rfl := List.mem_singleton.mp htaken
      exact hnread

/-- A call reads no data, or it reads data once, of the record announced to it or of the one
it is in. -/
inductive CallShape (s : NetScanner) (c : Call) :
    NetScanner × ReadReply × List ReadCall → Prop where
  | quiet {s' : NetScanner} {reply : ReadReply} {log : List ReadCall}
      (hlog : ∀ call ∈ log, call.kind ≠ .payload) (hdata : reply.data.length ≤ 1)
      (hlength : ∀ n ∈ s.announced c, n = 0xffffffff)
      (hremaining : s'.data = true → s.data = true ∧ s'.bytesRemaining = s.bytesRemaining) :
      CallShape s c (s', reply, log)
  | record {s₁ : NetScanner} {header : List ReadCall} (hopen : s.data = true)
      (hheader : ∀ call ∈ header, call.kind = .header)
      (hremaining : s₁.bytesRemaining = s.recordRemaining c.header)
      (hlength : s.announced c = some s₁.bytesRemaining ∧ s₁.bytesRemaining ≠ 0xffffffff ∨
        s.announced c = none ∧ s₁.bytesRemaining = s.bytesRemaining) :
      CallShape s c ((readRecord s₁ c.maxLength c.answer).1,
        (readRecord s₁ c.maxLength c.answer).2.1,
        header ++ (readRecord s₁ c.maxLength c.answer).2.2)

theorem readPipe_shape {s : NetScanner} {c : Call} (hleft : ¬ (s.swaps ∧ s.leftOver.isSome)) :
    CallShape s c (readPipe s c.maxLength c.header c.answer) := by
  unfold readPipe
  by_cases hdata : s.data = true
  · rw [if_neg (by simp [hdata])]
    by_cases hnew : s.bytesRemaining = 0
    · have hwhen : s.data ∧ ¬ (s.swaps ∧ s.leftOver.isSome) ∧ s.bytesRemaining = 0 :=
        ⟨hdata, hleft, hnew⟩
      have hannounced : s.announced c = match c.header.cut (4 - s.reclenBuf.length) with
          | .bytes bs =>
              if (s.reclenBuf ++ bs).length < 4 then none
              else some (reclenValue (s.reclenBuf ++ bs))
          | _ => none := if_pos hwhen
      have hrest : s.recordRemaining c.header = match c.header.cut (4 - s.reclenBuf.length) with
          | .bytes bs => reclenValue (s.reclenBuf ++ bs)
          | _ => 0 := if_pos hnew
      rw [if_pos hnew]
      dsimp only
      generalize c.header.cut (4 - s.reclenBuf.length) = taken at *
      cases taken with
      | again => exact .quiet (by simp) (Nat.zero_le _) (by simp [hannounced]) fun _ => ⟨hdata, rfl⟩
      | failed => exact .quiet (by simp) (Nat.zero_le _) (by simp [hannounced]) (by simp [doCancel])
      | bytes bs =>
          dsimp only at hannounced hrest ⊢
          by_cases hpart : (s.reclenBuf ++ bs).length < 4
          · rw [if_pos hpart] at hannounced ⊢
            exact .quiet (by simp) (Nat.zero_le _) (by simp [hannounced]) fun _ => ⟨hdata, rfl⟩
          · rw [if_neg hpart] at hannounced ⊢
            by_cases htrailer : reclenValue (s.reclenBuf ++ bs) = 0xffffffff
            · rw [if_pos htrailer]
              refine .quiet (by simp [readStatus]) (Nat.zero_le _) ?_ (by simp [readStatus, doCancel])
              simp [hannounced, htrailer]
            · rw [if_neg htrailer]
              exact @CallShape.record s c
                { s with reclenBuf := [], bytesRemaining := reclenValue (s.reclenBuf ++ bs) }
                [⟨.header, 4 - s.reclenBuf.length, .bytes bs⟩] hdata (by simp) hrest.symm
                (.inl ⟨hannounced, htrailer⟩)
    · rw [if_neg hnew]
      refine @CallShape.record s c s [] hdata (by simp) ?_ (.inr ⟨?_, rfl⟩)
      · rw [NetScanner.recordRemaining, if_neg hnew]
      · rw [NetScanner.announced, if_neg fun h => hnew h.2.2]
  · rw [if_pos (by simpa using hdata)]
    refine .quiet (by simp) (Nat.zero_le _) ?_ fun h => absurd h hdata
    rw [NetScanner.announced, if_neg fun h => hdata h.1]
    simp

theorem saneRead_shape (s : NetScanner) (c : Call) :
    CallShape s c (saneRead s c.maxLength c.header c.answer) := by
  unfold saneRead
  by_cases hswaps : s.swaps = true
  · rw [if_pos hswaps]
    cases hleft : s.leftOver with
    | some b =>
        refine .quiet (by simp) (Nat.le_refl _) ?_ fun h => ⟨h, rfl⟩
        rw [NetScanner.announced, if_neg fun h => h.2.1 ⟨hswaps, by rw [hleft]; rfl⟩]
        simp
    | none => exact readPipe_shape fun h => by simp [hleft] at h
  · rw [if_neg hswaps]
    exact readPipe_shape fun h => hswaps h.1

/-- An open scan is inside a record of positive length. -/
def NetScanner.InShort (s : NetScanner) : Prop := s.data = true → s.bytesRemaining ≤ intMax

theorem reclenValue_lt (bs : List UInt8) : reclenValue bs < 2 ^ 32 := by
  unfold reclenValue
  split
  · next a b c d =>
      have ha := a.toNat_lt
      have hb := b.toNat_lt
      have hc := c.toNat_lt
      have hd := d.toNat_lt
      apply Nat.or_lt_two_pow (Nat.or_lt_two_pow (Nat.or_lt_two_pow _ _) _) _ <;>
        simp only [Nat.shiftLeft_eq] <;> omega
  · decide

theorem bounded_record {s : NetScanner} {c : Call} (hmax : 0 < c.maxLength)
    (hint : c.maxLength ≤ intMax) {s₁ : NetScanner} {header : List ReadCall}
    (hheader : ∀ call ∈ header, call.kind = .header)
    (hremaining : s₁.bytesRemaining = s.recordRemaining c.header)
    (hrun : saneRead s c.maxLength c.header c.answer =
      ((readRecord s₁ c.maxLength c.answer).1, (readRecord s₁ c.maxLength c.answer).2.1,
        header ++ (readRecord s₁ c.maxLength c.answer).2.2)) (hshort : s₁.bytesRemaining < 2 ^ 32) :
    c.Bounded s ↔ s₁.bytesRemaining ≤ intMax := by
  obtain ⟨hlog, hdata, hpayloads, -⟩ := readRecord_request s₁ c.maxLength c.answer
  have hquiet : payloads header = [] := by
    apply List.filterMap_eq_nil_iff.mpr
    intro call hcall
    rw [hheader call hcall]
  constructor
  · intro h
    by_contra hlong
    unfold Call.Bounded at h
    rw [hrun, hlog] at h
    have hrequest := (h.1 _ (List.mem_append_right _ (List.mem_singleton_self _)) rfl).1
    exact absurd hrequest (not_le.mpr (payloadRequest_gt hmax hint (by omega) hshort))
  · intro hle
    obtain ⟨hrequest, hrest⟩ := payloadRequest_le hmax hint hle
    unfold Call.Bounded
    rw [hrun]
    refine ⟨?_, ?_, ?_⟩
    · intro call hcall hkind
      rw [hlog] at hcall
      cases List.mem_append.mp hcall with
      | inl hcall =>
          rw [hheader call hcall] at hkind
          exact nomatch hkind
      | inr hcall =>
          obtain rfl := List.mem_singleton.mp hcall
          exact ⟨hrequest, hremaining ▸ hrest⟩
    · intro bs hbs
      rw [payloads_append, hquiet, List.nil_append] at hbs
      have hle := hpayloads bs hbs
      omega
    · omega

/-- One call: it is bounded if the length it is told, if any, is short, and then leaves the
scan in a short record. -/
theorem bounded_call {s : NetScanner} (hs : s.InShort) {c : Call} (hmax : 0 < c.maxLength)
    (hint : c.maxLength ≤ intMax) :
    (c.Bounded s ↔ ∀ n ∈ s.announced c, ShortRecord n) ∧
      (c.Bounded s → (saneRead s c.maxLength c.header c.answer).1.InShort) := by
  have hshape := saneRead_shape s c
  generalize hrun : saneRead s c.maxLength c.header c.answer = out at hshape
  cases hshape with
  | quiet hlog hdata hlength hremaining =>
      have hbounded : c.Bounded s := by
        unfold Call.Bounded
        rw [hrun]
        refine ⟨fun call hcall hkind => absurd hkind (hlog call hcall), ?_, ?_⟩
        · intro bs hbs
          obtain ⟨call, hcall, htaken⟩ := List.mem_filterMap.mp hbs
          have hkind := hlog call hcall
          split at htaken
          · next hpayload _ => exact absurd hpayload hkind
          · cases htaken
        · omega
      refine ⟨iff_of_true hbounded fun n hn => .inr (hlength n hn), fun _ hopen => ?_⟩
      obtain ⟨hdata, hsame⟩ := hremaining hopen
      rw [hsame]
      exact hs hdata
  | @record s₁ header hopen hheader hremaining hlength =>
      have hword : s₁.bytesRemaining < 2 ^ 32 := by
        rw [hremaining]
        unfold NetScanner.recordRemaining
        split_ifs
        · split
          · exact reclenValue_lt _
          · decide
        · have hle := hs hopen
          unfold intMax at hle
          omega
      have hiff := bounded_record hmax hint hheader hremaining hrun hword
      refine ⟨hiff.trans ?_, fun hbounded hopen' => ?_⟩
      · cases hlength with
        | inl hnew =>
            rw [hnew.1]
            simp [ShortRecord, hnew.2]
        | inr hold =>
            rw [hold.1, hold.2]
            simp [hs hopen]
      · have hle := hiff.mp hbounded
        obtain ⟨-, -, -, nread, hnread, hleft⟩ := readRecord_request s₁ c.maxLength c.answer
        have hrest := (payloadRequest_le hmax hint hle).2
        cases hleft with
        | inl hleft => exact hleft ▸ hle
        | inr hleft =>
            rw [hleft]
            unfold toSize
            unfold intMax at hle ⊢
            omega

/-- Every call of a scan is bounded if and only if no record has a length that is negative
as a `SANE_Int`, the mark of the trailer apart. -/
theorem eachBounded_iff (depth : Nat) (server client : Bool) (calls : List Call)
    (hmax : ∀ c ∈ calls, 0 < c.maxLength ∧ c.maxLength ≤ intMax) :
    EachBounded (.start depth server client) calls ↔
      ∀ n ∈ announcements (.start depth server client) calls, ShortRecord n := by
  have hstart : (NetScanner.start depth server client).InShort := fun _ => Nat.zero_le _
  generalize NetScanner.start depth server client = s at hstart
  induction calls generalizing s with
  | nil => simp [EachBounded, announcements]
  | cons c cs ih =>
      obtain ⟨hpos, hint⟩ := hmax c (.head _)
      obtain ⟨hiff, hnext⟩ := bounded_call hstart hpos hint
      have hrest := fun h => ih (fun c hc => hmax c (.tail _ hc)) _ (hnext h)
      simp only [EachBounded, announcements, List.forall_mem_append, Option.mem_toList]
      constructor
      · rintro ⟨hc, hcs⟩
        exact ⟨hiff.mp hc, (hrest hc).mp hcs⟩
      · rintro ⟨hc, hcs⟩
        exact ⟨hiff.mpr hc, (hrest (hiff.mpr hc)).mpr hcs⟩

/-- Two bytes are read of a record of three. -/
theorem eachBounded_iff_threeBytes :
    EachBounded (.start 8 false false) [⟨2, .bytes [0, 0, 0, 3], .bytes [1, 2]⟩] ↔
      ∀ n ∈ announcements (.start 8 false false) [⟨2, .bytes [0, 0, 0, 3], .bytes [1, 2]⟩],
        ShortRecord n :=
  eachBounded_iff 8 false false _ (by decide)

/-- A record of `0x80000000` bytes is read with a size of `2 ^ 64 - 2 ^ 31`, into room for
one byte. -/
theorem not_eachBounded_twoGiB :
    ¬ EachBounded (.start 8 false false) [⟨1, .bytes [0x80, 0, 0, 0], .bytes [1, 2, 3]⟩] := by
  intro h
  have hlength := h.1.2.2
  revert hlength
  decide

end SaneBackends.Net
