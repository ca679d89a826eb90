import Mathlib.Data.List.GetD
import SaneBackends.Escl.Transfer
/-!
# What the retries of an eSCL page leave for the decoder

The busy answers that `escl_scan` meets leave nothing in its file. The workers of the streams
put the body of every answer into the same pipe or file; they give the body of the last answer
if the busy ones have none.
-/

namespace SaneBackends.Escl

/-- A callback that stores its argument up to some point. -/
def StoresPrefix (write : List Nat → List UInt8 → List UInt8) : Prop :=
  ∀ counts chunk, write counts chunk <+: chunk

theorem fileWrite_prefix : StoresPrefix fileWrite := fun _ _ => List.take_prefix _ _

theorem pipeWrite_prefix : StoresPrefix pipeWrite := by
  intro counts
  induction counts with
  | nil => exact fun chunk => List.nil_prefix
  | cons count counts ih =>
      intro chunk
      rw [pipeWrite]
      split
      · exact List.nil_prefix
      · have hrest : chunk.take count ++ pipeWrite counts (chunk.drop count) <+:
            chunk.take count ++ chunk.drop count :=
          List.prefix_append_right_inj (chunk.take count) |>.mpr (ih (chunk.drop count))
        rwa [List.take_append_drop] at hrest

theorem Kind.write_prefix (kind : Kind) : StoresPrefix kind.write := by
  cases kind with
  | scan | tiff => exact fileWrite_prefix
  | jpeg | png => exact pipeWrite_prefix

section Deliver

variable {write : List Nat → List UInt8 → List UInt8} (hwrite : StoresPrefix write)
include hwrite

/-- What stays in the sink is the body, up to the point where the callback failed. -/
theorem deliver_prefix (chunks : List (List UInt8 × List Nat)) :
    (deliver write chunks).1 <+: (chunks.map Prod.fst).flatten := by
  induction chunks with
  | nil => exact List.prefix_rfl
  | cons head chunks ih =>
      obtain ⟨chunk, counts⟩ := head
      have htaken := hwrite counts chunk
      simp only [deliver, List.map_cons, List.flatten_cons]
      split
      · exact htaken.trans (List.prefix_append _ _)
      · have hwhole : write counts chunk = chunk := htaken.eq_of_length_le (by omega)
        rw [hwhole]
        exact (List.prefix_append_right_inj chunk).mpr ih

/-- A body that was taken to its end is in the sink. -/
theorem deliver_all (chunks : List (List UInt8 × List Nat)) (hall : (deliver write chunks).2 = true) :
    (deliver write chunks).1 = (chunks.map Prod.fst).flatten := by
  induction chunks with
  | nil => rfl
  | cons head chunks ih =>
      obtain ⟨chunk, counts⟩ := head
      have htaken := hwrite counts chunk
      simp only [deliver, List.map_cons, List.flatten_cons] at hall ⊢
      split at hall
      · cases hall
      · next hlength =>
          rw [if_neg hlength, htaken.eq_of_length_le (by omega), ih hall]

end Deliver

/-- What an attempt leaves in the sink. -/
def Attempt.left (write : List Nat → List UInt8 → List UInt8) (a : Attempt) : List UInt8 :=
  (deliver write a.chunks).1

/-- The status of the last attempt, if it is not a good one without a body. -/
def verdict (status : SaneStatus) (sink : List UInt8) : SaneStatus :=
  if status = .good ∧ sink = [] then .noDocs else status

section Transfer

variable {write : List Nat → List UInt8 → List UInt8} {a : Attempt}

theorem left_eq_body (hwrite : StoresPrefix write) (hall : (deliver write a.chunks).2 = true) :
    a.left write = a.body := deliver_all hwrite a.chunks hall

theorem left_eq_nil (hwrite : StoresPrefix write) (hbody : a.body = []) : a.left write = [] := by
  have hprefix : a.left write <+: a.body := deliver_prefix hwrite a.chunks
  rwa [hbody, List.prefix_nil] at hprefix

/-- Only a response with a code has a status other than an error of the transport. -/
theorem answered_of_ne_ioError (h : attemptStatus write a ≠ .ioError) :
    ∃ code, Answered write a code ∧ attemptStatus write a = httpStatus code := by
  unfold attemptStatus curlStatus at h ⊢
  split at h
  · next hok =>
      rw [Bool.and_eq_true] at hok
      cases hresponse : a.response with
      | none =>
          rw [hresponse] at h
          exact absurd rfl h
      | some code => exact ⟨code, ⟨hok.1, hok.2, hresponse⟩, by simp [hok]⟩
  · exact absurd rfl h

theorem attemptStatus_of_answered {code : Int} (h : Answered write a code) :
    attemptStatus write a = httpStatus code := by
  obtain ⟨hall, hok, hresponse⟩ := h
  rw [attemptStatus, hall, hok, hresponse]
  rfl

theorem attemptStatus_eq_iff {status : SaneStatus} (hstatus : status ≠ .ioError) :
    attemptStatus write a = status ↔ ∃ code, Answered write a code ∧ httpStatus code = status := by
  constructor
  · intro h
    obtain ⟨code, hcode, heq⟩ := answered_of_ne_ioError (h ▸ hstatus)
    exact ⟨code, hcode, heq ▸ h⟩
  · rintro ⟨code, hcode, heq⟩
    rw [attemptStatus_of_answered hcode, heq]

theorem httpStatus_eq_good (code : Int) : httpStatus code = .good ↔ 200 ≤ code ∧ code < 300 := by
  unfold httpStatus
  split_ifs with h <;> simp_all

theorem httpStatus_eq_noDocs (code : Int) : httpStatus code = .noDocs ↔ code = 404 ∨ code = 409 := by
  unfold httpStatus
  split_ifs <;> simp_all <;> omega

/-- The answers are met one after the other. -/
theorem Answers.attempts_busy (r : Answers write) {i : Nat} (hi : i < r.busy.length) :
    curlRetry (attemptStatus write (r.attempts i)) i maxRetries = true := by
  have hbusy : attemptStatus write (r.attempts i) = .deviceBusy := by
    rw [attempts, List.getD_eq_getElem _ _ hi]
    exact r.status_busy _ (List.getElem_mem hi)
  have hlength := r.length_busy
  rw [hbusy, curlRetry, decide_eq_true_iff]
  exact ⟨rfl, by omega⟩

theorem Answers.attempts_last (r : Answers write) : r.attempts r.busy.length = r.last := by
  rw [attempts, List.getD_eq_default _ _ (Nat.le_refl _)]

theorem Answers.last_done (r : Answers write) :
    curlRetry (attemptStatus write r.last) r.busy.length maxRetries = false := by
  rw [curlRetry, decide_eq_false_iff_not]
  rintro ⟨hstatus, hlength⟩
  cases r.final with
  | inl h => omega
  | inr h => exact h hstatus

/-- A worker ends with the last attempt; its sink has what all attempts left. The induction is
on the answers still to come. -/
theorem workerLoop_answers (r : Answers write) {turns i : Nat} (hturns : turns + i = maxRetries)
    (hi : i ≤ r.busy.length) (sink : List UInt8) :
    workerLoop write r.attempts turns i sink =
      let all := sink ++ ((r.busy.drop i).flatMap (Attempt.left write) ++ r.last.left write)
      (verdict (attemptStatus write r.last) all, all) := by
  have hlength := r.length_busy
  induction hrest : r.busy.length - i generalizing turns i sink with
  | zero =>
      obtain rfl : i = r.busy.length := by omega
      obtain ⟨turns, rfl⟩ : ∃ n, turns = n + 1 := ⟨turns - 1, by omega⟩
      rw [List.drop_length, List.flatMap_nil, List.nil_append, workerLoop, r.attempts_last,
        r.last_done]
      simp only [Bool.false_eq_true, if_false, verdict, Attempt.left, List.length_eq_zero_iff]
      split_ifs <;> simp_all
  | succ rest ih =>
      obtain ⟨turns, rfl⟩ : ∃ n, turns = n + 1 := ⟨turns - 1, by omega⟩
      have hlt : i < r.busy.length := by omega
      have hhead : r.attempts i = r.busy[i] := by rw [Answers.attempts, List.getD_eq_getElem _ _ hlt]
      rw [workerLoop]
      simp only [r.attempts_busy hlt, if_true]
      rw [ih (by omega) (by omega) _ (by omega), List.drop_eq_getElem_cons hlt, List.flatMap_cons,
        hhead]
      simp only [Attempt.left, List.append_assoc]

/-- `escl_scan` starts over for each attempt. -/
theorem scanLoop_answers (r : Answers fileWrite) {turns i : Nat} (hturns : turns + i = maxRetries)
    (hi : i ≤ r.busy.length) (status : SaneStatus) :
    (scanLoop (fun _ => true) r.attempts turns i status).1 =
        verdict (attemptStatus fileWrite r.last) (r.last.left fileWrite) ∧
      ((scanLoop (fun _ => true) r.attempts turns i status).1 = .good →
        (scanLoop (fun _ => true) r.attempts turns i status).2 = r.last.left fileWrite) := by
  have hlength := r.length_busy
  induction hrest : r.busy.length - i generalizing turns i status with
  | zero =>
      obtain rfl : i = r.busy.length := by omega
      obtain ⟨turns, rfl⟩ : ∃ n, turns = n + 1 := ⟨turns - 1, by omega⟩
      rw [scanLoop, r.attempts_last]
      simp only [r.last_done, Bool.false_eq_true, if_false, if_true, verdict, Attempt.left,
        List.length_pos_iff]
      split_ifs <;> simp_all
  | succ rest ih =>
      obtain ⟨turns, rfl⟩ : ∃ n, turns = n + 1 := ⟨turns - 1, by omega⟩
      have hlt : i < r.busy.length := by omega
      rw [scanLoop]
      simp only [if_true, r.attempts_busy hlt]
      exact ih (by omega) (by omega) _ (by omega)

end Transfer

/-- What the sink holds behind the last attempt. -/
def Kind.sink (kind : Kind) (r : Answers kind.write) : List UInt8 :=
  match kind with
  | .scan => r.last.left fileWrite
  | kind => r.busy.flatMap (Attempt.left kind.write) ++ r.last.left kind.write

theorem Kind.transfer_answers (kind : Kind) (r : Answers kind.write) :
    (kind.transfer r.attempts).1 = verdict (attemptStatus kind.write r.last) (kind.sink r) ∧
      ((kind.transfer r.attempts).1 = .good →
        (kind.transfer r.attempts).2 = kind.sink r) := by
  have hworker (write : List Nat → List UInt8 → List UInt8) (r : Answers write) :
      streamWorker write true r.attempts =
        let all := r.busy.flatMap (Attempt.left write) ++ r.last.left write
        (verdict (attemptStatus write r.last) all, all) := by
    have hloop := workerLoop_answers r (Nat.add_zero maxRetries) (Nat.zero_le _) []
    simpa only [streamWorker, if_true, List.nil_append, List.drop_zero] using hloop
  cases kind with
  | scan => exact scanLoop_answers r rfl (Nat.zero_le _) .good
  | jpeg | png =>
      have h := hworker pipeWrite r
      exact ⟨congrArg Prod.fst h, fun _ => congrArg Prod.snd h⟩
  | tiff =>
      have h := hworker fileWrite r
      exact ⟨congrArg Prod.fst h, fun _ => congrArg Prod.snd h⟩

/-- Busy answers without a body leave nothing behind. -/
theorem Kind.sink_eq (kind : Kind) (r : Answers kind.write)
    (hbusy : kind = .scan ∨ ∀ a ∈ r.busy, a.body = []) : kind.sink r = r.last.left kind.write := by
  have hempty (hbodies : ∀ a ∈ r.busy, a.body = []) :
      r.busy.flatMap (Attempt.left kind.write) = [] :=
    List.flatMap_eq_nil_iff.mpr fun a ha => left_eq_nil kind.write_prefix (hbodies a ha)
  cases kind with
  | scan => rfl
  | jpeg | png | tiff =>
      obtain h | h := hbusy
      · cases h
      · exact (congrArg (· ++ _) (hempty h)).trans (List.nil_append _)

theorem verdict_eq_good {status : SaneStatus} {sink : List UInt8} (h : verdict status sink = .good) :
    status = .good := by
  unfold verdict at h
  split at h
  · cases h
  · exact h

theorem verdict_eq_noDocs {status : SaneStatus} {sink : List UInt8} :
    verdict status sink = .noDocs ↔ (status = .good ∧ sink = []) ∨ status = .noDocs := by
  unfold verdict
  split
  · next h => simp only [h, and_self, true_or]
  · next h => simp only [h, false_or]

/-- A busy answer without a body, and a page. -/
def busyThenPage : Answers Kind.png.write where
  busy := [⟨[], true, some 503⟩]
  last := ⟨[([0x89, 0x50, 0x4e], [2, 1])], true, some 200⟩
  status_busy := by decide
  length_busy := by decide
  final := .inr (by decide)

/-- A busy answer with a text, and a page. -/
def busyTextThenPage : Answers Kind.jpeg.write where
  busy := [⟨[([0x62, 0x75, 0x73, 0x79], [4])], true, some 503⟩]
  last := ⟨[([0xff, 0xd8], [2])], true, some 200⟩
  status_busy := by decide
  length_busy := by decide
  final := .inr (by decide)

end SaneBackends.Escl
