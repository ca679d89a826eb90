import SaneBackends.Net.SaneRead
/-!
# Byte order conversion across calls

Which ways of cutting a stream of 16-bit samples into reads come out of
`sane_read` with the two bytes of every sample exchanged.
-/

namespace SaneBackends.Net

/-- The stream with the two bytes of every sample exchanged. -/
def swapPairs : List UInt8 → List UInt8
  | a :: b :: rest => b :: a :: swapPairs rest
  | data => data

theorem swapPairs_append {xs : List UInt8} (ys : List UInt8) (heven : xs.length % 2 = 0) :
    swapPairs (xs ++ ys) = swapPairs xs ++ swapPairs ys := by
  induction xs using swapPairs.induct with
  | case1 a b rest ih =>
      simp only [List.length_cons] at heven
      simp [swapPairs, ih (by omega)]
  | case2 data hshort =>
      cases data with
      | nil => simp [swapPairs]
      | cons a rest =>
          cases rest with
          | nil => simp at heven
          | cons b rest => exact absurd rfl (hshort a b rest)

theorem swapBytes_eq_swapPairs {data : List UInt8} {endCnt : Nat} (h : data.length ≤ endCnt) :
    swapBytes data endCnt = swapPairs data := by
  induction data using swapPairs.induct generalizing endCnt with
  | case1 a b rest ih =>
      simp only [List.length_cons] at h
      rw [swapBytes, if_pos (by omega), ih (by omega), swapPairs]
  | case2 data hshort =>
      cases data with
      | nil => simp [swapPairs, swapBytes]
      | cons a rest =>
          cases rest with
          | nil => simp [swapPairs, swapBytes]
          | cons b rest => exact absurd rfl (hshort a b rest)

theorem swapBytes_replicate (n endCnt : Nat) (b : UInt8) :
    swapBytes (List.replicate n b) endCnt = List.replicate n b := by
  induction n using Nat.twoStepInduction generalizing endCnt with
  | zero => rfl
  | one => rfl
  | more n ih _ =>
      rw [List.replicate_succ, List.replicate_succ, swapBytes, ih, ite_self]

theorem swapPairs_replicate (n : Nat) (b : UInt8) :
    swapPairs (List.replicate n b) = List.replicate n b := by
  rw [← swapBytes_eq_swapPairs (Nat.le_refl _), swapBytes_replicate]

/-- A call of `sane_read` with the answers its reads get. -/
structure Call where
  maxLength : Int
  header : ReadResult
  answer : ReadResult

/-- Successive calls: the state after them, the bytes they returned, their reads. -/
structure ReadRun where
  scanner : NetScanner
  returned : List UInt8
  log : List ReadCall

def runCalls : NetScanner → List Call → ReadRun
  | s, [] => ⟨s, [], []⟩
  | s, c :: cs =>
      let (s, reply, log) := saneRead s c.maxLength c.header c.answer
      let run := runCalls s cs
      ⟨run.scanner, reply.data ++ run.returned, log ++ run.log⟩

/-- The data a log's reads have taken off the socket, read by read. -/
def payloads (log : List ReadCall) : List (List UInt8) :=
  log.filterMap fun call =>
    match call.kind, call.answer with
    | .payload, .bytes bs => some bs
    | _, _ => none

@[simp] theorem payloads_nil : payloads [] = [] := rfl

@[simp] theorem payloads_append (xs ys : List ReadCall) :
    payloads (xs ++ ys) = payloads xs ++ payloads ys := by
  simp [payloads]

@[simp] theorem payloads_header (request : Nat) (answer : ReadResult) (log : List ReadCall) :
    payloads (⟨.header, request, answer⟩ :: log) = payloads log := rfl

@[simp] theorem payloads_status (request : Nat) (answer : ReadResult) (log : List ReadCall) :
    payloads (⟨.status, request, answer⟩ :: log) = payloads log := rfl

/-- The data stream a run has received. -/
def ReadRun.stream (run : ReadRun) : List UInt8 := (payloads run.log).flatten

/-- The `nread` sequence of a run. -/
def ReadRun.nreads (run : ReadRun) : List Nat := (payloads run.log).map List.length

/-- The bytes returned, followed by `left_over`, are the stream converted. -/
def ReadRun.Converted (run : ReadRun) : Prop :=
  run.returned ++ run.scanner.leftOver.toList = swapPairs run.stream

/-- After `k` bytes, a sample cut in two is always completed by a read of one byte. -/
def AlignedFrom (k : Nat) (nreads : List Nat) : Prop :=
  ∀ pre n post, nreads = pre ++ n :: post → (k + pre.sum) % 2 = 1 → n ≤ 1

instance : DecidablePred ReadRun.Converted := fun run =>
  inferInstanceAs (Decidable (_ = swapPairs run.stream))

theorem alignedFrom_nil (k : Nat) : AlignedFrom k [] := by
  intro pre n post h
  simp at h

theorem alignedFrom_cons {k n : Nat} {ns : List Nat} :
    AlignedFrom k (n :: ns) ↔ (k % 2 = 1 → n ≤ 1) ∧ AlignedFrom (k + n) ns := by
  constructor
  · intro h
    refine ⟨fun hk => h [] n ns rfl (by simpa using hk), fun pre m post hns hodd => ?_⟩
    exact h (n :: pre) m post (by rw [hns, List.cons_append])
      (by rw [List.sum_cons, ← Nat.add_assoc]; exact hodd)
  · rintro ⟨hn, hns⟩ pre m post heq hodd
    cases pre with
    | nil =>
        simp only [List.nil_append, List.cons.injEq] at heq
        rw [← heq.1]
        exact hn (by simpa using hodd)
    | cons p pre =>
        simp only [List.cons_append, List.cons.injEq] at heq
        obtain ⟨rfl, heq⟩ := heq
        exact hns pre m post heq (by rw [List.sum_cons, ← Nat.add_assoc] at hodd; exact hodd)

/-- What a call does, in terms of the two carry bytes: it returns the byte left
over, or takes no data, or converts the data of one read. -/
inductive CallEffect (s : NetScanner) : NetScanner → List UInt8 → List (List UInt8) → Prop where
  | flush {b : UInt8} (hleft : s.leftOver = some b) :
      CallEffect s { s with leftOver := none } [b] []
  | quiet {s' : NetScanner} (hleft : s.leftOver = none) (hswaps : s'.swaps = s.swaps)
      (hhang : s'.hangOver = s.hangOver) (hleft' : s'.leftOver = none) : CallEffect s s' [] []
  | data {s₁ : NetScanner} {bs : List UInt8} (hleft : s.leftOver = none)
      (hswaps : s₁.swaps = s.swaps) (hhang : s₁.hangOver = s.hangOver)
      (hleft' : s₁.leftOver = none) :
      CallEffect s (convert s₁ bs).1 (convert s₁ bs).2 [bs]

theorem readRecord_effect {s₀ s : NetScanner} (hleft₀ : s₀.leftOver = none)
    (hswaps : s.swaps = s₀.swaps) (hhang : s.hangOver = s₀.hangOver) (hleft : s.leftOver = none)
    (maxLength : Int) (answer : ReadResult) :
    CallEffect s₀ (readRecord s maxLength answer).1 (readRecord s maxLength answer).2.1.data
      (payloads (readRecord s maxLength answer).2.2) := by
  unfold readRecord
  dsimp only
  generalize answer.cut _ = taken
  cases taken with
  | again => exact .quiet hleft₀ hswaps hhang hleft
  | failed => exact .quiet hleft₀ hswaps hhang hleft
  | bytes bs => exact .data hleft₀ hswaps hhang hleft

theorem saneRead_effect {s : NetScanner} (hswaps : s.swaps = true) (maxLength : Int)
    (header answer : ReadResult) :
    CallEffect s (saneRead s maxLength header answer).1
      (saneRead s maxLength header answer).2.1.data
      (payloads (saneRead s maxLength header answer).2.2) := by
  obtain hleft | ⟨b, hleft⟩ := Option.eq_none_or_eq_some s.leftOver
  · have hread : ∀ s' : NetScanner, s'.swaps = s.swaps → s'.hangOver = s.hangOver →
        s'.leftOver = s.leftOver → CallEffect s (readRecord s' maxLength answer).1
          (readRecord s' maxLength answer).2.1.data
          (payloads (readRecord s' maxLength answer).2.2) := by
      intro s' hswaps' hhang' hleft'
      exact readRecord_effect hleft hswaps' hhang' (hleft'.trans hleft) maxLength answer
    unfold saneRead readPipe
    simp only [hswaps, hleft, if_true]
    split_ifs with hdata hremaining
    · exact .quiet hleft rfl rfl hleft
    · generalize header.cut _ = taken
      cases taken with
      | again => exact .quiet hleft rfl rfl hleft
      | failed => exact .quiet hleft rfl rfl hleft
      | bytes bs =>
          dsimp only
          split_ifs with hshort htrailer
          · exact .quiet hleft rfl rfl rfl
          · exact .quiet hleft rfl rfl rfl
          · simp only [payloads_header]
            exact hread _ rfl rfl hleft.symm
    · exact hread s rfl rfl rfl
  · unfold saneRead
    simp only [hleft, hswaps, if_true]
    exact .flush hleft

section Convert

variable {s : NetScanner} (hswaps : s.swaps = true)

include hswaps in
theorem convert_even (hhang : s.hangOver = none) {bs : List UInt8} (heven : bs.length % 2 = 0) :
    convert s bs = (s, swapPairs bs) := by
  simp [convert, hswaps, hhang, heven, swapBytes_eq_swapPairs]

include hswaps in
theorem convert_odd (hhang : s.hangOver = none) {init : List UInt8} {last : UInt8}
    (heven : init.length % 2 = 0) :
    convert s (init ++ [last]) = ({ s with hangOver := some last }, swapPairs init) := by
  have hodd : (init.length + 1) % 2 = 1 := by omega
  simp [convert, hswaps, hhang, hodd, swapBytes_eq_swapPairs]

include hswaps in
theorem convert_pending_one {hang : UInt8} (hhang : s.hangOver = some hang) (b : UInt8) :
    convert s [b] = ({ s with leftOver := some hang, hangOver := none }, [b]) := by
  simp [convert, hswaps, hhang]

include hswaps in
theorem convert_nil : convert s [] = (s, []) := by
  cases hhang : s.hangOver <;> simp [convert, hswaps, hhang, swapBytes]

/-- A read of `n` bytes, `n > 1`, whose last sample but one byte differs from the
pending byte: the answer repeats the pending byte instead. -/
def revealing (hang : UInt8) (n : Nat) : List UInt8 :=
  if n % 2 = 0 then List.replicate (n - 2) hang ++ [hang + 1, hang]
  else List.replicate (n - 1) hang ++ [hang + 1]

theorem length_revealing (hang : UInt8) {n : Nat} (hn : 1 < n) :
    (revealing hang n).length = n := by
  unfold revealing
  split_ifs <;> simp <;> omega

include hswaps in
theorem convert_revealing {hang : UInt8} (hhang : s.hangOver = some hang) {n : Nat} (hn : 1 < n) :
    (convert s (revealing hang n)).2 = List.replicate n hang := by
  have hlen := length_revealing hang hn
  have hne : ¬ (revealing hang n).length = 1 := by omega
  have hgt : 1 < (revealing hang n).length := by omega
  unfold convert
  simp only [hswaps, hhang, Bool.not_true, Bool.false_eq_true, if_false, hne, hgt, if_true]
  rw [hlen]
  obtain hpar | hpar := Nat.mod_two_eq_zero_or_one n
  · have hlist : revealing hang n = (List.replicate (n - 2) hang ++ [hang + 1]) ++ [hang] := by
      simp [revealing, hpar]
    have hrest : (hang :: (List.replicate (n - 2) hang ++ [hang + 1])).dropLast =
        hang :: List.replicate (n - 2) hang := by
      rw [← List.cons_append, List.dropLast_concat]
    rw [if_pos hpar, hlist, List.dropLast_concat, List.getLastD_concat]
    dsimp only
    rw [hrest, ← List.replicate_succ, ← List.replicate_succ', swapBytes_replicate,
      show n - 2 + 1 + 1 = n by omega]
  · have hlist : revealing hang n = List.replicate (n - 1) hang ++ [hang + 1] := by
      simp [revealing, hpar]
    rw [if_neg (by omega), hlist, List.dropLast_concat]
    dsimp only
    rw [← List.replicate_succ, swapBytes_replicate, show n - 1 + 1 = n by omega]

end Convert

theorem cons_revealing (hang : UInt8) {n : Nat} (hn : 1 < n) (ys : List UInt8) :
    ∃ m zs, m % 2 = 0 ∧ m < n ∧
      hang :: (revealing hang n ++ ys) = List.replicate m hang ++ hang :: (hang + 1) :: zs := by
  unfold revealing
  split_ifs with hpar
  · refine ⟨n - 2, hang :: ys, by omega, by omega, ?_⟩
    rw [List.append_assoc, ← List.cons_append, ← List.replicate_succ, List.replicate_succ',
      List.append_assoc]
    rfl
  · refine ⟨n - 1, ys, by omega, by omega, ?_⟩
    rw [List.append_assoc, ← List.cons_append, ← List.replicate_succ, List.replicate_succ',
      List.append_assoc]
    rfl

/-- The repeated pending byte is not how the samples of such a read go on. -/
theorem replicate_append_ne_swapPairs {hang : UInt8} {n : Nat} (hn : 1 < n) (xs ys : List UInt8) :
    List.replicate n hang ++ xs ≠ swapPairs (hang :: (revealing hang n ++ ys)) := by
  obtain ⟨m, zs, hm, hmn, hlist⟩ := cons_revealing hang hn ys
  rw [hlist, swapPairs_append _ (by simpa using hm), swapPairs_replicate, swapPairs]
  obtain ⟨k, rfl⟩ : ∃ k, n = m + (k + 1) := ⟨n - m - 1, by omega⟩
  rw [List.replicate_add, List.append_assoc, List.replicate_succ, List.cons_append]
  intro h
  have hhead := List.append_cancel_left h
  simp only [List.cons.injEq] at hhead
  simpa using hhead.1

/-- The carry bytes after `stream` was received and `returned` handed out, as long
as no sample was completed by a longer read. -/
structure Carries (s : NetScanner) (stream returned : List UInt8) : Prop where
  swaps : s.swaps = true
  even : stream.length % 2 = 0 →
    s.hangOver = none ∧ returned ++ s.leftOver.toList = swapPairs stream
  odd : stream.length % 2 = 1 →
    s.leftOver = none ∧ ∃ init last, stream = init ++ [last] ∧ s.hangOver = some last ∧
      returned = swapPairs init

theorem Carries.congr {s s' : NetScanner} {stream returned : List UInt8}
    (h : Carries s stream returned) (hswaps : s'.swaps = s.swaps)
    (hhang : s'.hangOver = s.hangOver) (hleft : s'.leftOver = s.leftOver) :
    Carries s' stream returned := by
  refine ⟨hswaps.trans h.swaps, ?_, ?_⟩
  · rw [hhang, hleft]
    exact h.even
  · rw [hhang, hleft]
    exact h.odd

theorem Carries.start {depth : Nat} {server client : Bool}
    (hswaps : (NetScanner.start depth server client).swaps = true) :
    Carries (.start depth server client) [] [] where
  swaps := hswaps
  even := fun _ => ⟨rfl, rfl⟩
  odd := fun h => by simp at h

/-- One read of data in step with the samples. -/
theorem Carries.convert {s : NetScanner} {stream returned : List UInt8}
    (h : Carries s stream returned) (hleft : s.leftOver = none) {bs : List UInt8}
    (haligned : stream.length % 2 = 1 → bs.length ≤ 1) :
    Carries (Net.convert s bs).1 (stream ++ bs) (returned ++ (Net.convert s bs).2) := by
  obtain hpar | hpar := Nat.mod_two_eq_zero_or_one stream.length
  · obtain ⟨hhang, hreturned⟩ := h.even hpar
    rw [hleft, Option.toList_none, List.append_nil] at hreturned
    obtain hbs | hbs := Nat.mod_two_eq_zero_or_one bs.length
    · rw [convert_even h.swaps hhang hbs]
      refine ⟨h.swaps, fun _ => ⟨hhang, ?_⟩, fun hodd => ?_⟩
      · rw [hleft, Option.toList_none, List.append_nil, hreturned, swapPairs_append bs hpar]
      · rw [List.length_append] at hodd
        omega
    · obtain ⟨init, last, rfl⟩ : ∃ init last, bs = init ++ [last] := by
        refine ⟨bs.dropLast, bs.getLast (by rintro rfl; simp at hbs), ?_⟩
        rw [List.dropLast_append_getLast]
      have hinit : init.length % 2 = 0 := by
        rw [List.length_append, List.length_singleton] at hbs
        omega
      rw [convert_odd h.swaps hhang hinit]
      refine ⟨h.swaps, fun heven => ?_, fun _ => ⟨hleft, stream ++ init, last, ?_, rfl, ?_⟩⟩
      · rw [List.length_append] at heven
        omega
      · rw [List.append_assoc]
      · rw [hreturned, swapPairs_append init hpar]
  · obtain ⟨-, init, last, rfl, hhang, rfl⟩ := h.odd hpar
    have hlen := haligned hpar
    have hinit : init.length % 2 = 0 := by
      rw [List.length_append, List.length_singleton] at hpar
      omega
    match bs, hlen with
    | [], _ =>
        rw [convert_nil h.swaps, List.append_nil, List.append_nil]
        exact h
    | [b], _ =>
        rw [convert_pending_one h.swaps hhang]
        refine ⟨h.swaps, fun _ => ⟨rfl, ?_⟩, fun hodd => ?_⟩
        · rw [List.append_assoc, List.append_assoc, swapPairs_append _ hinit]
          rfl
        · simp only [List.length_append, List.length_singleton] at hodd
          omega

/-- One call in step with the samples. -/
theorem Carries.effect {s s' : NetScanner} {stream returned out : List UInt8}
    {pays : List (List UInt8)} (h : Carries s stream returned) (heffect : CallEffect s s' out pays)
    (haligned : AlignedFrom stream.length (pays.map List.length)) :
    Carries s' (stream ++ pays.flatten) (returned ++ out) := by
  cases heffect with
  | flush hleft =>
      rw [List.flatten_nil, List.append_nil]
      refine ⟨h.swaps, fun heven => ⟨(h.even heven).1, ?_⟩, fun hodd => ?_⟩
      · have hreturned := (h.even heven).2
        rw [hleft] at hreturned
        rw [← hreturned]
        simp
      · rw [(h.odd hodd).1] at hleft
        cases hleft
  | quiet hleft hswaps hhang hleft' =>
      rw [List.flatten_nil, List.append_nil, List.append_nil]
      exact h.congr hswaps hhang (hleft'.trans hleft.symm)
  | data hleft hswaps hhang hleft' =>
      rename_i s₁ bs
      rw [List.flatten_singleton]
      exact (h.congr hswaps hhang (hleft'.trans hleft.symm)).convert hleft'
        fun hodd => haligned [] bs.length [] rfl (by simpa using hodd)

/-- Inside a record, answers of one length are read and converted alike. -/
theorem readRecord_bytes (s : NetScanner) (maxLength : Int) (full : List UInt8) :
    ∃ s₁ n, n ≤ full.length ∧ s₁.swaps = s.swaps ∧ s₁.hangOver = s.hangOver ∧
      ∀ full', full'.length = full.length →
        (readRecord s maxLength (.bytes full')).2.1.data = (convert s₁ (full'.take n)).2 ∧
          payloads (readRecord s maxLength (.bytes full')).2.2 = [full'.take n] := by
  unfold readRecord
  dsimp only [ReadResult.cut]
  generalize Lib.toSize (if Lib.toInt32 s.bytesRemaining < maxLength then
    Lib.toInt32 s.bytesRemaining else maxLength) = request
  refine ⟨{ s with bytesRemaining := Lib.toSize ((s.bytesRemaining : Int) -
    (full.take request).length) }, min request full.length, by omega, rfl, rfl, ?_⟩
  intro full' hlen
  have htake : full'.take (min request full.length) = full'.take request := by
    rw [← hlen, List.take_eq_take_iff]
    omega
  have hcount : (full'.take request).length = (full.take request).length := by
    rw [List.length_take, List.length_take, hlen]
  rw [htake, hcount]
  exact ⟨rfl, rfl⟩

/-- A call that took data would have read any other data in the same way. -/
theorem saneRead_of_payload {s : NetScanner} (hswaps : s.swaps = true) {maxLength : Int}
    {header answer : ReadResult} (hpay : payloads (saneRead s maxLength header answer).2.2 ≠ []) :
    s.leftOver = none ∧ ∃ s₀, s₀.swaps = s.swaps ∧ s₀.hangOver = s.hangOver ∧ ∀ answer',
      (saneRead s maxLength header answer').2.1 = (readRecord s₀ maxLength answer').2.1 ∧
        payloads (saneRead s maxLength header answer').2.2 =
          payloads (readRecord s₀ maxLength answer').2.2 := by
  unfold saneRead readPipe at hpay ⊢
  simp only [hswaps, if_true] at hpay ⊢
  cases hleft : s.leftOver with
  | some b => simp [hleft] at hpay
  | none =>
      refine ⟨rfl, ?_⟩
      simp only [hleft] at hpay ⊢
      split_ifs at hpay ⊢ with hclosed hnew
      · simp at hpay
      · generalize header.cut _ = taken at hpay ⊢
        cases taken with
        | again => simp at hpay
        | failed => simp at hpay
        | bytes bs =>
            dsimp only at hpay ⊢
            split_ifs at hpay ⊢ with hshort htrailer
            · simp at hpay
            · simp [readStatus] at hpay
            · refine ⟨{ s with reclenBuf := [], bytesRemaining := reclenValue (s.reclenBuf ++ bs) },
                hswaps, rfl, fun answer' => ⟨?_, ?_⟩⟩
              · simp only [hleft]
              · simp only [payloads_header, hleft]
      · exact ⟨s, hswaps, rfl, fun answer' => ⟨rfl, rfl⟩⟩

/-- The answer with its data blanked out: how much is read, not what. -/
def ReadResult.erase : ReadResult → ReadResult
  | .bytes bs => .bytes (bs.map fun _ => 0)
  | r => r

def Call.erase (c : Call) : Call := { c with answer := c.answer.erase }

def NetScanner.erase (s : NetScanner) : NetScanner :=
  { s with
    hangOver := s.hangOver.map fun _ => 0
    leftOver := s.leftOver.map fun _ => 0 }

theorem ReadResult.cut_erase (request : Nat) (r : ReadResult) :
    r.erase.cut request = (r.cut request).erase := by
  cases r with
  | bytes bs => simp [ReadResult.cut, ReadResult.erase, List.map_take]
  | again => rfl
  | failed => rfl

theorem getLastD_map_zero (bs : List UInt8) :
    (bs.map fun _ => (0 : UInt8)).getLastD 0 = 0 := by
  rw [List.map_const', List.getLastD_eq_getLast?, List.getLast?_replicate]
  split_ifs <;> rfl

theorem convert_erase (s : NetScanner) (bs : List UInt8) :
    (convert s.erase (bs.map fun _ => 0)).1 = (convert s bs).1.erase := by
  have hmoved : ((0 : UInt8) :: (bs.map fun _ => (0 : UInt8)).dropLast).getLastD 0 = 0 := by
    rw [List.map_const', List.dropLast_replicate, ← List.replicate_succ,
      List.getLastD_eq_getLast?, List.getLast?_replicate]
    rfl
  have hswaps : s.erase.swaps = s.swaps := rfl
  unfold convert
  dsimp only
  rw [hswaps, List.length_map]
  cases hhang : s.hangOver with
  | none =>
      have herased : s.erase.hangOver = none := by simp [NetScanner.erase, hhang]
      simp only [herased, getLastD_map_zero]
      split_ifs <;> simp [NetScanner.erase, hhang]
  | some hang =>
      have herased : s.erase.hangOver = some 0 := by simp [NetScanner.erase, hhang]
      simp only [herased, getLastD_map_zero, hmoved]
      split_ifs <;> simp [NetScanner.erase, hhang]
theorem readRecord_erase (s : NetScanner) (maxLength : Int) (answer : ReadResult) :
    (readRecord s.erase maxLength answer.erase).1 = (readRecord s maxLength answer).1.erase ∧
      (payloads (readRecord s.erase maxLength answer.erase).2.2).map List.length =
        (payloads (readRecord s maxLength answer).2.2).map List.length := by
  have hremaining : s.erase.bytesRemaining = s.bytesRemaining := rfl
  unfold readRecord
  dsimp only
  rw [hremaining, ReadResult.cut_erase]
  generalize answer.cut _ = taken
  cases taken with
  | again => exact ⟨rfl, rfl⟩
  | failed => exact ⟨rfl, rfl⟩
  | bytes bs =>
      dsimp only [ReadResult.erase]
      rw [List.length_map]
      refine ⟨?_, by simp [payloads]⟩
      exact convert_erase { s with
        bytesRemaining := Lib.toSize ((s.bytesRemaining : Int) - bs.length) } bs

theorem readPipe_erase (s : NetScanner) (maxLength : Int) (header answer : ReadResult) :
    (readPipe s.erase maxLength header answer.erase).1 =
        (readPipe s maxLength header answer).1.erase ∧
      (payloads (readPipe s.erase maxLength header answer.erase).2.2).map List.length =
        (payloads (readPipe s maxLength header answer).2.2).map List.length := by
  have hdata : s.erase.data = s.data := rfl
  have hremaining : s.erase.bytesRemaining = s.bytesRemaining := rfl
  have hbuf : s.erase.reclenBuf = s.reclenBuf := rfl
  unfold readPipe
  dsimp only
  rw [hdata, hremaining, hbuf]
  split_ifs with hclosed hnew
  · exact ⟨rfl, rfl⟩
  · generalize header.cut _ = taken
    cases taken with
    | again => exact ⟨rfl, rfl⟩
    | failed => exact ⟨rfl, rfl⟩
    | bytes bs =>
        dsimp only
        split_ifs with hshort htrailer
        · exact ⟨rfl, rfl⟩
        · exact ⟨rfl, rfl⟩
        · simp only [payloads_header]
          exact readRecord_erase
            { s with reclenBuf := [], bytesRemaining := reclenValue (s.reclenBuf ++ bs) } maxLength
            answer
  · exact readRecord_erase s maxLength answer

/-- How much a call reads, and what carry it leaves, does not depend on the data. -/
theorem saneRead_erase (s : NetScanner) (maxLength : Int) (header answer : ReadResult) :
    (saneRead s.erase maxLength header answer.erase).1 =
        (saneRead s maxLength header answer).1.erase ∧
      (payloads (saneRead s.erase maxLength header answer.erase).2.2).map List.length =
        (payloads (saneRead s maxLength header answer).2.2).map List.length := by
  have hswaps : s.erase.swaps = s.swaps := rfl
  unfold saneRead
  rw [hswaps]
  split_ifs with hs
  · cases hleft : s.leftOver with
    | some b =>
        have herased : s.erase.leftOver = some 0 := by simp [NetScanner.erase, hleft]
        rw [herased]
        exact ⟨rfl, rfl⟩
    | none =>
        have herased : s.erase.leftOver = none := by simp [NetScanner.erase, hleft]
        rw [herased]
        exact readPipe_erase s maxLength header answer
  · exact readPipe_erase s maxLength header answer

theorem nreads_cons (s : NetScanner) (c : Call) (cs : List Call) :
    (runCalls s (c :: cs)).nreads =
      (payloads (saneRead s c.maxLength c.header c.answer).2.2).map List.length ++
        (runCalls (saneRead s c.maxLength c.header c.answer).1 cs).nreads := by
  simp [runCalls, ReadRun.nreads]

theorem nreads_erase (calls : List Call) :
    ∀ s : NetScanner,
      (runCalls s.erase (calls.map Call.erase)).nreads = (runCalls s calls).nreads := by
  induction calls with
  | nil => intro s; rfl
  | cons c cs ih =>
      intro s
      obtain ⟨hstate, hlengths⟩ := saneRead_erase s c.maxLength c.header c.answer
      rw [List.map_cons, nreads_cons, nreads_cons]
      dsimp only [Call.erase] at hlengths ⊢
      rw [hlengths, hstate, ih]

/-- Runs that are cut alike read the same lengths. -/
theorem nreads_eq_of_erase_eq {s : NetScanner} {calls calls' : List Call}
    (h : calls'.map Call.erase = calls.map Call.erase) :
    (runCalls s calls').nreads = (runCalls s calls).nreads := by
  rw [← nreads_erase calls', h, nreads_erase]

instance decidableAlignedFrom : ∀ k ns, Decidable (AlignedFrom k ns)
  | k, [] => .isTrue (alignedFrom_nil k)
  | k, n :: ns =>
      have := decidableAlignedFrom (k + n) ns
      decidable_of_iff _ alignedFrom_cons.symm

theorem alignedFrom_append {k : Nat} {ms ns : List Nat} :
    AlignedFrom k (ms ++ ns) ↔ AlignedFrom k ms ∧ AlignedFrom (k + ms.sum) ns := by
  induction ms generalizing k with
  | nil => simp [alignedFrom_nil]
  | cons m ms ih =>
      rw [List.cons_append, alignedFrom_cons, alignedFrom_cons, ih, and_assoc, List.sum_cons,
        Nat.add_assoc]

theorem length_flatten_payloads (pays : List (List UInt8)) :
    pays.flatten.length = (pays.map List.length).sum := by
  rw [List.length_flatten]

theorem runCalls_cons (s : NetScanner) (c : Call) (cs : List Call) :
    let result := saneRead s c.maxLength c.header c.answer
    let run := runCalls result.1 cs
    (runCalls s (c :: cs)).scanner = run.scanner ∧
      (runCalls s (c :: cs)).returned = result.2.1.data ++ run.returned ∧
      (runCalls s (c :: cs)).stream = (payloads result.2.2).flatten ++ run.stream := by
  simp [runCalls, ReadRun.stream]

/-- Calls in step with the samples leave the carry bytes in step. -/
theorem Carries.runCalls {calls : List Call} :
    ∀ {s : NetScanner} {stream returned : List UInt8}, Carries s stream returned →
      AlignedFrom stream.length (Net.runCalls s calls).nreads →
      Carries (Net.runCalls s calls).scanner (stream ++ (Net.runCalls s calls).stream)
        (returned ++ (Net.runCalls s calls).returned) := by
  induction calls with
  | nil =>
      intro s stream returned h _
      simpa [Net.runCalls, ReadRun.stream] using h
  | cons c cs ih =>
      intro s stream returned h haligned
      rw [nreads_cons, alignedFrom_append] at haligned
      obtain ⟨hscanner, hreturned, hstream⟩ := runCalls_cons s c cs
      have hcall := h.effect (saneRead_effect h.swaps c.maxLength c.header c.answer) haligned.1
      rw [hscanner, hreturned, hstream, ← List.append_assoc, ← List.append_assoc]
      apply ih hcall
      rw [List.length_append, length_flatten_payloads]
      exact haligned.2

/-- A longer read over a cut sample is revealed by some data cut the same way. -/
theorem Carries.aligned_call {s : NetScanner} {stream returned : List UInt8} {c : Call}
    {cs : List Call} (h : Carries s stream returned)
    (hconverted : ∀ calls', calls'.map Call.erase = (c :: cs).map Call.erase →
      returned ++ (Net.runCalls s calls').returned ++
          (Net.runCalls s calls').scanner.leftOver.toList =
        swapPairs (stream ++ (Net.runCalls s calls').stream)) :
    AlignedFrom stream.length
      ((payloads (saneRead s c.maxLength c.header c.answer).2.2).map List.length) := by
  intro pre n post heq hodd
  by_contra hlong
  have hn : 1 < n := by omega
  have hpay : payloads (saneRead s c.maxLength c.header c.answer).2.2 ≠ [] := by
    intro hnil
    simp [hnil] at heq
  obtain ⟨-, s₀, hswaps₀, hhang₀, hsame⟩ := saneRead_of_payload h.swaps hpay
  obtain ⟨full, hanswer⟩ : ∃ full, c.answer = .bytes full := by
    rw [(hsame _).2] at hpay
    cases hanswer : c.answer with
    | again => rw [hanswer] at hpay; exact absurd rfl hpay
    | failed => rw [hanswer] at hpay; exact absurd rfl hpay
    | bytes full => exact ⟨full, rfl⟩
  obtain ⟨s₁, k, hk, hswaps₁, hhang₁, hread⟩ := readRecord_bytes s₀ c.maxLength full
  rw [hanswer, (hsame _).2, (hread full rfl).2, List.map_singleton, List.length_take,
    Nat.min_eq_left hk] at heq
  obtain ⟨rfl, rfl⟩ : pre = [] ∧ n = k := by
    cases pre with
    | nil =>
        simp only [List.nil_append, List.cons.injEq] at heq
        exact ⟨rfl, heq.1.symm⟩
    | cons p pre => simp at heq
  obtain ⟨-, init, last, rfl, hhang, rfl⟩ := h.odd (by simpa using hodd)
  have hinit : init.length % 2 = 0 := by
    simp only [List.length_append, List.length_singleton, List.sum_nil] at hodd
    omega
  -- the same call with data that differs from the pending byte where it matters
  have hlen := length_revealing last hn
  have hlen' : (revealing last n ++ full.drop n).length = full.length := by
    rw [List.length_append, hlen, List.length_drop]
    omega
  have htake : (revealing last n ++ full.drop n).take n = revealing last n :=
    List.take_left' hlen
  have hwhole := hconverted
    ({ c with answer := .bytes (revealing last n ++ full.drop n) } :: cs) (by
      simp only [List.map_cons, Call.erase, hanswer, ReadResult.erase, List.map_const', hlen'])
  obtain ⟨-, hreturned, hstream⟩ := runCalls_cons s
    { c with answer := .bytes (revealing last n ++ full.drop n) } cs
  obtain ⟨hdata, hpays⟩ := hread _ hlen'
  rw [htake, convert_revealing (hswaps₁.trans (hswaps₀.trans h.swaps))
    (hhang₁.trans (hhang₀.trans hhang)) hn] at hdata
  rw [htake] at hpays
  rw [hreturned, hstream, (hsame _).1, (hsame _).2, hdata, hpays, List.flatten_singleton,
    List.append_assoc init, swapPairs_append _ hinit, List.append_assoc,
    List.append_assoc] at hwhole
  exact replicate_append_ne_swapPairs hn _ _ (List.append_cancel_left hwhole)

theorem Carries.aligned_of_converted {calls : List Call} :
    ∀ {s : NetScanner} {stream returned : List UInt8}, Carries s stream returned →
      (∀ calls', calls'.map Call.erase = calls.map Call.erase →
        returned ++ (Net.runCalls s calls').returned ++
            (Net.runCalls s calls').scanner.leftOver.toList =
          swapPairs (stream ++ (Net.runCalls s calls').stream)) →
      AlignedFrom stream.length (Net.runCalls s calls).nreads := by
  induction calls with
  | nil => intro s stream returned _ _; exact alignedFrom_nil _
  | cons c cs ih =>
      intro s stream returned h hconverted
      have hfirst := h.aligned_call hconverted
      have hcall := h.effect (saneRead_effect h.swaps c.maxLength c.header c.answer) hfirst
      rw [nreads_cons, alignedFrom_append]
      refine ⟨hfirst, ?_⟩
      rw [← length_flatten_payloads, ← List.length_append]
      apply ih hcall
      intro calls' hcalls'
      have hwhole := hconverted (c :: calls') (by rw [List.map_cons, hcalls', List.map_cons])
      obtain ⟨hscanner, hreturned, hstream⟩ := runCalls_cons s c calls'
      rw [hscanner, hreturned, hstream, ← List.append_assoc, ← List.append_assoc] at hwhole
      exact hwhole

/-- With an even number of bytes received, the data comes out converted, whatever
it is, exactly if a cut sample is always completed by a read of one byte. -/
theorem converted_iff_aligned {server client : Bool} (hne : server ≠ client) (calls : List Call)
    (heven : (runCalls (.start 16 server client) calls).stream.length % 2 = 0) :
    (∀ calls', calls'.map Call.erase = calls.map Call.erase →
        (runCalls (.start 16 server client) calls').Converted) ↔
      AlignedFrom 0 (runCalls (.start 16 server client) calls).nreads := by
  have hstart : Carries (.start 16 server client) [] [] := by
    apply Carries.start
    simpa [NetScanner.swaps, NetScanner.start] using hne
  constructor
  · intro hconverted
    exact hstart.aligned_of_converted hconverted
  · intro haligned calls' hcalls'
    have hlengths := nreads_eq_of_erase_eq (s := .start 16 server client) hcalls'
    rw [← hlengths] at haligned
    have hend := hstart.runCalls haligned
    apply (hend.even ?_).2
    rw [List.nil_append, ReadRun.stream, length_flatten_payloads]
    rw [ReadRun.stream, length_flatten_payloads] at heven
    rw [ReadRun.nreads, ReadRun.nreads] at hlengths
    rw [hlengths]
    exact heven

/-- A record of four bytes, one sample in the header's call and one in the next. -/
theorem converted_iff_aligned_twoReads :
    AlignedFrom 0 (runCalls (.start 16 true false)
        [⟨4, .bytes [0, 0, 0, 4], .bytes [1, 2]⟩, ⟨4, .again, .bytes [3, 4]⟩]).nreads ∧
      ∀ calls', calls'.map Call.erase =
          [(⟨4, .bytes [0, 0, 0, 4], .bytes [1, 2]⟩ : Call), ⟨4, .again, .bytes [3, 4]⟩].map
            Call.erase →
        (runCalls (.start 16 true false) calls').Converted :=
  ⟨by decide, (converted_iff_aligned (by decide) _ (by decide)).2 (by decide)⟩

/-- A sample cut after its first byte and completed by a read of three: the last
byte of the stream stays behind as `hang_over`. -/
theorem not_converted_oneThenThree :
    let run := runCalls (.start 16 true false)
      [⟨4, .bytes [0, 0, 0, 4], .bytes [1]⟩, ⟨4, .again, .bytes [2, 3, 4]⟩]
    run.stream = [1, 2, 3, 4] ∧ run.returned = [2, 1, 3] ∧ ¬ run.Converted := by
  decide

end SaneBackends.Net
