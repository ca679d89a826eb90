import SaneBackends.Lib.Result
import SaneBackends.Lib.TextBlock
import SaneBackends.Sanei.Config
import SaneBackends.Sanei.ConstrainValue
/-!
# The address of a new job

The end of `escl_newjob`: the request is sent until the scanner is not busy, the header text of
the answer is searched for the job's address, and that is cut in place. The request can be built,
and memory is never short.
-/

namespace SaneBackends.Escl

open SaneBackends.Lib SaneBackends.Sanei

/-! ## Answers -/

/-- `escl_http_status`. -/
def esclHttpStatus (response : Int) : SaneStatus :=
  if 200 ≤ response ∧ response < 300 then .good
  else if response = 401 ∨ response = 403 then .accessDenied
  else if response = 404 ∨ response = 409 then .noDocs
  else if response = 423 ∨ response = 429 ∨ response = 503 then .deviceBusy
  else if response = 400 ∨ response = 405 ∨ response = 415 then .unsupported
  else .ioError

/-- An answer: its code if the transfer was no failure, and the pieces of header text. -/
structure HttpAnswer where
  response : Option Int
  lines : List (List UInt8)
  deriving DecidableEq, Repr

namespace HttpAnswer

/-- `escl_curl_status`. -/
def status (a : HttpAnswer) : SaneStatus := (a.response.map esclHttpStatus).getD .ioError

/-- All of the header text. -/
def text (a : HttpAnswer) : List UInt8 := a.lines.flatten

end HttpAnswer

/-- `struct downloading`; the byte that is allocated at first is not set and counts as not
there. -/
structure Downloading where
  memory : List UInt8
  size : Nat

def downloadCallback (download : Downloading) (str : List UInt8) : Downloading where
  memory := download.memory.take download.size ++ str ++ [0]
  size := download.size + str.length

def HttpAnswer.memory (a : HttpAnswer) : List UInt8 :=
  (a.lines.foldl downloadCallback ⟨[], 0⟩).memory

/-- `escl_curl_retry`. -/
def esclCurlRetry (status : SaneStatus) (attempt maxAttempts : Nat) : Bool :=
  decide (status = .deviceBusy) && decide (attempt + 1 < maxAttempts)

/-! ## The search -/

/-- `Location:`, in small letters. -/
def locationField : List UInt8 := ascii ['l', 'o', 'c', 'a', 't', 'i', 'o', 'n', ':']

/-- `ScanJobs` -/
def scanJobs : List UInt8 := ascii ['S', 'c', 'a', 'n', 'J', 'o', 'b', 's']

/-- A text that begins with `Location:`, in whatever letters. -/
def BeginsLocation (text : List UInt8) : Prop :=
  (text.take locationField.length).map lowerCase = locationField

instance (text : List UInt8) : Decidable (BeginsLocation text) := by
  unfold BeginsLocation
  infer_instance

/-- `strcasestr` for `Location:`, as an offset. -/
def findLocation : List UInt8 → Option Nat
  | [] => none
  | b :: text => if BeginsLocation (b :: text) then some 0 else (findLocation text).map (· + 1)

/-- What is made of the header text of an answer. -/
inductive Located where
  | missing
  | unusable
  | found (result scanJob : List UInt8)
  deriving DecidableEq, Repr

/-- From the slash that is found last in the line. -/
def cutLocation (memory : List UInt8) (tmpLocation temporary location : Nat) :
    Except TextFault Located := do
  let result ← stringAt memory location
  let memory ← setByte memory temporary 10
  let memory ← setByte memory location 0
  let front ← stringAt memory tmpLocation
  match lastIndex 47 front with
  | some n =>
      let location := tmpLocation + n + 1
      let scanJob ← stringAt memory location
      let _ ← setByte memory location 47
      .ok (.found result scanJob)
  -- `ScanJobs` is copied, and then a slash is written through the pointer that is `NULL`
  | none => .error .nullPointer

def locate (memory : List UInt8) : Except TextFault Located := do
  let text ← stringAt memory 0
  match findLocation text with
  | none => .ok .missing
  | some tmpLocation =>
      let rest ← stringAt memory tmpLocation
      match (firstIndex 13 rest).or (firstIndex 10 rest) with
      | none => .ok .unusable
      | some n =>
          let memory ← setByte memory (tmpLocation + n) 0
          let line ← stringAt memory tmpLocation
          match lastIndex 47 line with
          | none => .ok .unusable
          | some m => cutLocation memory tmpLocation (tmpLocation + n) (tmpLocation + m)

/-! ## The requests -/

/-- What `escl_newjob` leaves: `*status`, the result, and `scanner->scanJob`. -/
structure NewJob where
  status : SaneStatus
  result : Option (List UInt8)
  scanJob : Option (List UInt8)
  deriving DecidableEq, Repr

/-- One request, from `wake_up_device` on, with `wakup_count`. -/
def newJobRequest (job : NewJob) (wakupCount : Nat) (answer : HttpAnswer) :
    Except TextFault (NewJob × Nat) :=
  if answer.status ≠ .good then
    .ok ({ job with status := answer.status },
      if answer.status = .deviceBusy then wakupCount + 1 else wakupCount)
  else do
    match ← locate answer.memory with
    | .missing => .ok ({ job with status := .ioError }, wakupCount)
    | .unusable =>
        .ok ({ job with status := if job.result = none then .inval else .good }, wakupCount)
    | .found result scanJob => .ok (⟨.good, some result, some scanJob⟩, 0)

/-- The requests, as long as there is an answer for each; `none` if there is not. -/
def newJobRequests (job : NewJob) (wakupCount : Nat) :
    List HttpAnswer → Except TextFault (Option NewJob)
  | [] => .ok none
  | answer :: answers => do
      let (job, wakupCount) ← newJobRequest job wakupCount answer
      if 0 < wakupCount ∧ wakupCount < 4 ∧ esclCurlRetry job.status (wakupCount - 1) 4 then
        newJobRequests { job with status := .good } wakupCount answers
      else .ok (some job)

def esclNewjob (scanJob : Option (List UInt8)) (answers : List HttpAnswer) :
    Except TextFault (Option NewJob) :=
  newJobRequests ⟨.good, none, scanJob⟩ 0 answers

/-! ## What the header says -/

/-- The result and the segment in front of it, of a line with a slash. -/
def jobParts (line : List UInt8) : Option (List UInt8 × List UInt8) :=
  (splitLast 47 line).map fun cut =>
    (47 :: cut.2, ((splitLast 47 cut.1).map Prod.snd).getD scanJobs)

/-- The line of the first `Location` field, if it has an end. -/
def locationLine (text : List UInt8) : Option (List UInt8) :=
  (text.splitOnP fun b => b == 13 || b == 10).dropLast.find? fun line =>
    decide (BeginsLocation line)

/-- What the code takes for that line: from the first `location:` anywhere up to the first carriage
return, or to the first line feed if there is none. -/
def searched (text : List UInt8) : Option (List UInt8) :=
  (findLocation (text.takeWhile (· ≠ 0))).bind fun i =>
    let rest := (text.takeWhile (· ≠ 0)).drop i
    ((firstIndex 13 rest).or (firstIndex 10 rest)).map fun n => rest.take n

def HttpAnswer.Succeeds (a : HttpAnswer) : Prop := ∃ code ∈ a.response, 200 ≤ code ∧ code < 300

/-- Busy answers within the limit, and a final one. -/
structure AnswerSequence where
  busy : List HttpAnswer
  final : HttpAnswer
  busy_status : ∀ a ∈ busy, a.status = .deviceBusy
  busy_length : busy.length ≤ 3
  final_status : final.status = .deviceBusy → busy.length = 3

def AnswerSequence.all (s : AnswerSequence) : List HttpAnswer := s.busy ++ [s.final]

/-- The call returns, with a good status just if the final answer is one of success and its
`Location` line has a slash, and then with the parts of that line. -/
def JobLocated (s : AnswerSequence) (scanJob : Option (List UInt8)) : Prop :=
  ∃ job, esclNewjob scanJob s.all = .ok (some job) ∧
    (job.status = .good ↔
      s.final.Succeeds ∧ (locationLine s.final.text).bind jobParts ≠ none) ∧
    ∀ parts, s.final.Succeeds → (locationLine s.final.text).bind jobParts = some parts →
      job.result = some parts.1 ∧ job.scanJob = some parts.2

/-! ## The header text -/

theorem downloadCallback_memory (lines : List (List UInt8)) (before : List UInt8) :
    lines.foldl downloadCallback ⟨before ++ [0], before.length⟩ =
      ⟨before ++ lines.flatten ++ [0], (before ++ lines.flatten).length⟩ := by
  induction lines generalizing before with
  | nil => rw [List.foldl_nil, List.flatten_nil, List.append_nil]
  | cons line lines ih =>
      have hstep : downloadCallback ⟨before ++ [0], before.length⟩ line =
          ⟨before ++ line ++ [0], (before ++ line).length⟩ := by
        rw [downloadCallback, List.take_left, List.length_append]
      rw [List.foldl_cons, hstep, ih, List.flatten_cons, List.append_assoc before]

/-- The memory holds the text with a terminator, if a piece was received. -/
theorem memory_eq {a : HttpAnswer} (h : a.lines ≠ []) : a.memory = a.text ++ [0] := by
  obtain ⟨response, lines⟩ := a
  cases lines with
  | nil => exact absurd rfl h
  | cons line lines =>
      have hstep : downloadCallback ⟨[], 0⟩ line = ⟨line ++ [0], line.length⟩ := by
        rw [downloadCallback, List.take_nil, List.nil_append, Nat.zero_add]
      rw [HttpAnswer.memory, List.foldl_cons, hstep, downloadCallback_memory]
      rfl

/-- The memory from its first terminator on. -/
theorem memory_split (text : List UInt8) :
    ∃ junk, text ++ [0] = text.takeWhile (· ≠ 0) ++ 0 :: junk := by
  by_cases h : (0 : UInt8) ∈ text
  · obtain ⟨before, behind, rfl, hbefore⟩ := List.eq_append_cons_of_mem h
    exact ⟨behind ++ [0], by rw [takeWhile_ne hbefore, List.append_assoc, List.cons_append]⟩
  · exact ⟨[], by rw [List.takeWhile_eq_self_iff.mpr (forall_ne h)]⟩

theorem zero_not_mem_takeWhile (text : List UInt8) : (0 : UInt8) ∉ text.takeWhile (· ≠ 0) := by
  intro h
  have hne := List.mem_takeWhile_imp h
  exact absurd rfl (of_decide_eq_true hne)

theorem findLocation_lt {text : List UInt8} {i : Nat} (h : findLocation text = some i) :
    i < text.length := by
  induction text generalizing i with
  | nil => cases h
  | cons b text ih =>
      rw [findLocation] at h
      split_ifs at h with hbegins
      · rw [← Option.some.inj h]
        exact Nat.succ_pos _
      · obtain ⟨j, hj, rfl⟩ := Option.map_eq_some_iff.mp h
        exact Nat.succ_lt_succ (ih hj)

theorem firstIndex_lt {c : UInt8} {text : List UInt8} {n : Nat} (h : firstIndex c text = some n) :
    n < text.length := by
  by_cases hmem : c ∈ text
  · obtain ⟨before, behind, rfl, hbefore⟩ := List.eq_append_cons_of_mem hmem
    rw [firstIndex_append hbefore] at h
    rw [← Option.some.inj h, List.length_append, List.length_cons]
    omega
  · rw [firstIndex_of_not_mem hmem] at h
    cases h

/-! ## The cut -/

section Cut

variable {head line front seg tail s junk : List UInt8} {e : UInt8}

theorem stringAt_drop (hs : 0 ∉ s) (junk : List UInt8) {i : Nat} (hi : i ≤ s.length) :
    stringAt (s ++ 0 :: junk) i = .ok (s.drop i) := by
  have hdrop : (0 : UInt8) ∉ s.drop i := fun h => hs (List.mem_of_mem_drop h)
  have hstring := stringAt_append hdrop (s.take i) junk
  rw [List.length_take_of_le hi, ← List.append_assoc, List.take_append_drop] at hstring
  exact hstring

/-- The line with its end overwritten, and from the last slash on the result. -/
theorem cutLocation_eq (hline : 0 ∉ front ++ 47 :: seg) :
    cutLocation (head ++ (front ++ 47 :: seg ++ 0 :: tail)) head.length
        (head.length + (front ++ 47 :: seg).length) (head.length + front.length) =
      (lastIndex 47 front).elim (.error .nullPointer) fun n =>
        stringAt (head ++ (front ++ 0 :: (seg ++ 10 :: tail))) (head.length + n + 1) >>=
          fun scanJob =>
            setByte (head ++ (front ++ 0 :: (seg ++ 10 :: tail))) (head.length + n + 1) 47 >>=
              fun _ => .ok (.found (47 :: seg) scanJob) := by
  have hseg : (0 : UInt8) ∉ 47 :: seg := fun h => hline (List.mem_append_right _ h)
  have hfront : (0 : UInt8) ∉ front := fun h => hline (List.mem_append_left _ h)
  have hresult : stringAt (head ++ (front ++ 47 :: seg ++ 0 :: tail))
      (head.length + front.length) = .ok (47 :: seg) := by
    have h := stringAt_append hseg (head ++ front) tail
    rw [List.length_append] at h
    rw [← h]
    simp only [List.append_assoc, List.cons_append]
  have hend : setByte (head ++ (front ++ 47 :: seg ++ 0 :: tail))
      (head.length + (front ++ 47 :: seg).length) 10 =
        .ok (head ++ (front ++ 47 :: (seg ++ 10 :: tail))) := by
    have h := setByte_append (head ++ (front ++ 47 :: seg)) tail 0 10
    rw [List.length_append] at h
    simp only [List.append_assoc, List.cons_append] at h ⊢
    exact h
  have hslash : setByte (head ++ (front ++ 47 :: (seg ++ 10 :: tail)))
      (head.length + front.length) 0 = .ok (head ++ (front ++ 0 :: (seg ++ 10 :: tail))) := by
    have h := setByte_append (head ++ front) (seg ++ 10 :: tail) 47 0
    rw [List.length_append] at h
    simp only [List.append_assoc] at h ⊢
    exact h
  rw [cutLocation, hresult, ok_bind, hend, ok_bind, hslash, ok_bind,
    stringAt_append hfront, ok_bind]
  cases lastIndex 47 front <;> rfl

/-- With another slash in the line, the segment between the two is found. -/
theorem cutLocation_found {mid : List UInt8} (hmid : 47 ∉ mid)
    (hline : 0 ∉ front ++ 47 :: mid ++ 47 :: seg) :
    cutLocation (head ++ (front ++ 47 :: mid ++ 47 :: seg ++ 0 :: tail)) head.length
        (head.length + (front ++ 47 :: mid ++ 47 :: seg).length)
        (head.length + (front ++ 47 :: mid).length) = .ok (.found (47 :: seg) mid) := by
  have hzero : (0 : UInt8) ∉ mid := fun h =>
    hline (List.mem_append_left _ (List.mem_append_right _ (List.mem_cons_of_mem _ h)))
  have hlast : lastIndex 47 (front ++ 47 :: mid) = some front.length := by
    rw [lastIndex, splitLast_append front hmid, Option.map_some]
  have hscanJob : stringAt (head ++ (front ++ 47 :: mid ++ 0 :: (seg ++ 10 :: tail)))
      (head.length + front.length + 1) = .ok mid := by
    have h := stringAt_append hzero (head ++ (front ++ [47])) (seg ++ 10 :: tail)
    simp only [List.length_append, List.length_singleton, ← Nat.add_assoc] at h
    rw [← h]
    simp only [List.append_assoc, List.cons_append, List.nil_append]
  have hinside : head.length + front.length + 1 <
      (head ++ (front ++ 47 :: mid ++ 0 :: (seg ++ 10 :: tail))).length := by
    simp only [List.length_append, List.length_cons]
    omega
  rw [cutLocation_eq hline, hlast, Option.elim_some, hscanJob, ok_bind, setByte_ok hinside, ok_bind]

/-- With no other slash, the pointer that is written through is `NULL`. -/
theorem cutLocation_fault (hfront : 47 ∉ front) (hline : 0 ∉ front ++ 47 :: seg) :
    cutLocation (head ++ (front ++ 47 :: seg ++ 0 :: tail)) head.length
        (head.length + (front ++ 47 :: seg).length) (head.length + front.length) =
      .error .nullPointer := by
  rw [cutLocation_eq hline, lastIndex, splitLast_of_not_mem hfront]
  rfl

/-- What is left of the search when the line is cut out. -/
theorem locate_line (hs : 0 ∉ head ++ (line ++ e :: tail))
    (hfind : findLocation (head ++ (line ++ e :: tail)) = some head.length)
    (hend : (firstIndex 13 (line ++ e :: tail)).or (firstIndex 10 (line ++ e :: tail)) =
      some line.length) (junk : List UInt8) :
    locate (head ++ (line ++ e :: tail) ++ 0 :: junk) =
      (lastIndex 47 line).elim (.ok .unusable) fun m =>
        cutLocation (head ++ (line ++ 0 :: (tail ++ 0 :: junk))) head.length
          (head.length + line.length) (head.length + m) := by
  have hline : (0 : UInt8) ∉ line := fun h =>
    hs (List.mem_append_right _ (List.mem_append_left _ h))
  have hrest : stringAt (head ++ (line ++ e :: tail) ++ 0 :: junk) head.length =
      .ok (line ++ e :: tail) := by
    rw [stringAt_drop hs junk (by rw [List.length_append]; omega), List.drop_left]
  have hset : setByte (head ++ (line ++ e :: tail) ++ 0 :: junk) (head.length + line.length) 0 =
      .ok (head ++ (line ++ 0 :: (tail ++ 0 :: junk))) := by
    have h := setByte_append (head ++ line) (tail ++ 0 :: junk) e 0
    rw [List.length_append] at h
    simp only [List.append_assoc, List.cons_append] at h ⊢
    exact h
  rw [locate, stringAt_drop hs junk (Nat.zero_le _), ok_bind, List.drop_zero, hfind]
  dsimp only
  rw [hrest, ok_bind, hend]
  dsimp only
  rw [hset, ok_bind, stringAt_append hline, ok_bind]
  cases lastIndex 47 line <;> rfl

end Cut

/-! ## The search -/

section Search

variable {text junk : List UInt8}

/-- What is searched is cut out of the text at these places. -/
theorem exists_of_searched {line : List UInt8} (h : searched text = some line) :
    ∃ head e tail, text.takeWhile (· ≠ 0) = head ++ (line ++ e :: tail) ∧
      findLocation (head ++ (line ++ e :: tail)) = some head.length ∧
      (firstIndex 13 (line ++ e :: tail)).or (firstIndex 10 (line ++ e :: tail)) =
        some line.length := by
  obtain ⟨i, hfind, hline⟩ := Option.bind_eq_some_iff.mp h
  obtain ⟨n, hn, hline⟩ := Option.map_eq_some_iff.mp hline
  have hi := findLocation_lt hfind
  generalize text.takeWhile (· ≠ 0) = s at hi hfind hn hline
  have hlt : n < (s.drop i).length := by
    rcases Option.or_eq_some_iff.mp hn with h13 | ⟨-, h10⟩
    · exact firstIndex_lt h13
    · exact firstIndex_lt h10
  have hrest : s.drop i = line ++ (s.drop i)[n] :: (s.drop i).drop (n + 1) := by
    rw [← hline, ← List.drop_eq_getElem_cons hlt, List.take_append_drop]
  have hs : s = s.take i ++ (line ++ (s.drop i)[n] :: (s.drop i).drop (n + 1)) := by
    rw [← hrest, List.take_append_drop]
  refine ⟨s.take i, (s.drop i)[n], (s.drop i).drop (n + 1), hs, ?_, ?_⟩
  · rw [← hs, List.length_take_of_le hi.le]
    exact hfind
  · rw [← hrest, ← hline, List.length_take_of_le hlt.le]
    exact hn

/-- A line that is found and has not just one slash gives its parts. -/
theorem locate_parts {line : List UInt8} (h : searched text = some line)
    (hcount : line.count 47 ≠ 1) (hjunk : text ++ [0] = text.takeWhile (· ≠ 0) ++ 0 :: junk) :
    locate (text ++ [0]) = .ok
      ((jobParts line).elim .unusable fun parts => .found parts.1 parts.2) := by
  obtain ⟨head, e, tail, hs, hfind, hend⟩ := exists_of_searched h
  have hzero := zero_not_mem_takeWhile text
  rw [hs] at hzero
  have hline : (0 : UInt8) ∉ line := fun hmem =>
    hzero (List.mem_append_right _ (List.mem_append_left _ hmem))
  rw [hjunk, hs, locate_line hzero hfind hend, lastIndex, jobParts]
  rcases splitLast_cases 47 line with ⟨-, hnone⟩ | ⟨front, seg, hseg, rfl, hcut⟩
  · rw [hnone]
    rfl
  rw [hcut]
  dsimp only [Option.map_some, Option.elim_some]
  rcases splitLast_cases 47 front with ⟨hfront, -⟩ | ⟨front, mid, hmid, rfl, hcut'⟩
  · rw [List.count_append, List.count_eq_zero_of_not_mem hfront, List.count_cons_self,
      List.count_eq_zero_of_not_mem hseg] at hcount
    exact absurd rfl hcount
  · rw [cutLocation_found hmid hline, hcut']
    rfl

theorem locate_fault {line : List UInt8} (h : searched text = some line)
    (hcount : line.count 47 = 1) (hjunk : text ++ [0] = text.takeWhile (· ≠ 0) ++ 0 :: junk) :
    locate (text ++ [0]) = .error .nullPointer := by
  obtain ⟨head, e, tail, hs, hfind, hend⟩ := exists_of_searched h
  have hzero := zero_not_mem_takeWhile text
  rw [hs] at hzero
  have hline : (0 : UInt8) ∉ line := fun hmem =>
    hzero (List.mem_append_right _ (List.mem_append_left _ hmem))
  rw [hjunk, hs, locate_line hzero hfind hend, lastIndex]
  rcases splitLast_cases 47 line with ⟨hnone, -⟩ | ⟨front, seg, hseg, rfl, hcut⟩
  · rw [List.count_eq_zero_of_not_mem hnone] at hcount
    cases hcount
  rw [hcut]
  rw [Option.map_some, Option.elim_some]
  have hfront : (47 : UInt8) ∉ front := by
    rw [List.count_append, List.count_cons_self, List.count_eq_zero_of_not_mem hseg] at hcount
    exact List.count_eq_zero.mp (by omega)
  exact cutLocation_fault hfront hline

theorem locate_not_found (h : searched text = none)
    (hjunk : text ++ [0] = text.takeWhile (· ≠ 0) ++ 0 :: junk) :
    locate (text ++ [0]) = .ok .missing ∨ locate (text ++ [0]) = .ok .unusable := by
  have hzero := zero_not_mem_takeWhile text
  rw [searched] at h
  rw [hjunk, locate, stringAt_drop hzero junk (Nat.zero_le _), ok_bind, List.drop_zero]
  cases hfind : findLocation (text.takeWhile (· ≠ 0)) with
  | none => exact .inl rfl
  | some i =>
      rw [hfind, Option.bind_some, Option.map_eq_none_iff] at h
      dsimp only
      rw [stringAt_drop hzero junk (findLocation_lt hfind).le, ok_bind, h]
      exact .inr rfl

/-- The parts that are found. -/
def Located.parts : Located → Option (List UInt8 × List UInt8)
  | missing => none
  | unusable => none
  | found result scanJob => some (result, scanJob)

/-- The search ends without a fault just if there is header text and what is taken for the line has
not just one slash. -/
theorem locate_memory {a : HttpAnswer} (hlines : a.lines ≠ [])
    (hcount : ∀ line ∈ searched a.text, line.count 47 ≠ 1) :
    ∃ located, locate a.memory = .ok located ∧
      located.parts = (searched a.text).bind jobParts := by
  obtain ⟨junk, hjunk⟩ := memory_split a.text
  rw [memory_eq hlines]
  cases hsearch : searched a.text with
  | none =>
      rcases locate_not_found hsearch hjunk with hlocate | hlocate
      · exact ⟨_, hlocate, rfl⟩
      · exact ⟨_, hlocate, rfl⟩
  | some line =>
      refine ⟨_, locate_parts hsearch (hcount line hsearch) hjunk, ?_⟩
      rw [Option.bind_some]
      cases jobParts line <;> rfl

theorem locate_memory_fault {a : HttpAnswer}
    (h : a.lines = [] ∨ ∃ line ∈ searched a.text, line.count 47 = 1) :
    ∃ fault, locate a.memory = .error fault := by
  rcases h with hnone | ⟨line, hsearch, hcount⟩
  · refine ⟨.outOfBounds, ?_⟩
    rw [HttpAnswer.memory, hnone]
    rfl
  · obtain ⟨junk, hjunk⟩ := memory_split a.text
    refine ⟨.nullPointer, ?_⟩
    have hlines : a.lines ≠ [] := by
      intro hnone
      rw [HttpAnswer.text, hnone] at hsearch
      cases hsearch
    rw [memory_eq hlines]
    exact locate_fault hsearch hcount hjunk

end Search

/-! ## The sequence of requests -/

theorem status_good_iff (a : HttpAnswer) : a.status = .good ↔ a.Succeeds := by
  obtain ⟨response, lines⟩ := a
  cases response with
  | none =>
      refine iff_of_false (fun h => by cases h) fun h => ?_
      obtain ⟨code, hcode, -⟩ := h
      cases hcode
  | some code =>
      have hiff : esclHttpStatus code = .good ↔ 200 ≤ code ∧ code < 300 := by
        rw [esclHttpStatus]
        split_ifs with hgood
        all_goals first | exact iff_of_true rfl hgood | exact iff_of_false (by decide) hgood
      refine hiff.trans ⟨fun h => ⟨code, rfl, h⟩, fun h => ?_⟩
      obtain ⟨code', hcode, h⟩ := h
      rw [Option.some.inj hcode]
      exact h

/-- What the final request leaves, with or without busy answers before it. -/
def finalJob (scanJob : Option (List UInt8)) : Located → NewJob
  | .missing => ⟨.ioError, none, scanJob⟩
  | .unusable => ⟨.inval, none, scanJob⟩
  | .found result scanJob => ⟨.good, some result, some scanJob⟩

theorem newJobRequest_busy (job : NewJob) (wakup : Nat) {a : HttpAnswer}
    (h : a.status = .deviceBusy) :
    newJobRequest job wakup a = .ok ({ job with status := .deviceBusy }, wakup + 1) := by
  rw [newJobRequest, h, if_pos (by decide), if_pos rfl]

/-- Busy answers are waited out. -/
theorem newJobRequests_busy {busy : List HttpAnswer} (hbusy : ∀ a ∈ busy, a.status = .deviceBusy)
    (scanJob : Option (List UInt8)) {wakup : Nat} (hle : wakup + busy.length ≤ 3)
    (answers : List HttpAnswer) :
    newJobRequests ⟨.good, none, scanJob⟩ wakup (busy ++ answers) =
      newJobRequests ⟨.good, none, scanJob⟩ (wakup + busy.length) answers := by
  induction busy generalizing wakup with
  | nil => rfl
  | cons a busy ih =>
      rw [List.length_cons] at hle
      have hretry : 0 < wakup + 1 ∧ wakup + 1 < 4 ∧
          esclCurlRetry .deviceBusy (wakup + 1 - 1) 4 = true := by
        refine ⟨Nat.succ_pos _, by omega, ?_⟩
        rw [esclCurlRetry, decide_eq_true rfl, Bool.true_and, decide_eq_true_eq]
        omega
      rw [List.cons_append, newJobRequests, newJobRequest_busy _ _ (hbusy a List.mem_cons_self),
        ok_bind]
      dsimp only
      rw [if_pos hretry, ih (fun b hb => hbusy b (List.mem_cons_of_mem _ hb)) (by omega),
        List.length_cons]
      congr 1
      omega

/-- No request follows one whose status is not busy. -/
theorem newJobRequests_ends {job job' : NewJob} {wakup wakup' : Nat} {a : HttpAnswer}
    (hrequest : newJobRequest job wakup a = .ok (job', wakup'))
    (hends : job'.status = .deviceBusy → 4 ≤ wakup') :
    newJobRequests job wakup [a] = .ok (some job') := by
  have hstop : ¬ (0 < wakup' ∧ wakup' < 4 ∧
      esclCurlRetry job'.status (wakup' - 1) 4 = true) := by
    rintro ⟨-, hlt, hretry⟩
    rw [esclCurlRetry, Bool.and_eq_true, decide_eq_true_eq] at hretry
    have := hends hretry.1
    omega
  rw [newJobRequests, hrequest, ok_bind]
  exact if_neg hstop

section Sequence

variable (s : AnswerSequence) (scanJob : Option (List UInt8))

theorem esclNewjob_final :
    esclNewjob scanJob s.all =
      newJobRequests ⟨.good, none, scanJob⟩ s.busy.length [s.final] := by
  have hle : 0 + s.busy.length ≤ 3 := by
    rw [Nat.zero_add]
    exact s.busy_length
  rw [esclNewjob, AnswerSequence.all, newJobRequests_busy s.busy_status scanJob hle, Nat.zero_add]

/-- A final answer that is no success. -/
theorem esclNewjob_fails (h : s.final.status ≠ .good) :
    esclNewjob scanJob s.all = .ok (some ⟨s.final.status, none, scanJob⟩) := by
  rw [esclNewjob_final]
  refine newJobRequests_ends (if_pos h) fun hbusy => ?_
  dsimp only at hbusy
  rw [if_pos hbusy, s.final_status hbusy]

theorem esclNewjob_located (h : s.final.status = .good) {located : Located}
    (hlocate : locate s.final.memory = .ok located) :
    esclNewjob scanJob s.all = .ok (some (finalJob scanJob located)) := by
  rw [esclNewjob_final]
  have hrequest : ∃ wakup, newJobRequest ⟨.good, none, scanJob⟩ s.busy.length s.final =
      .ok (finalJob scanJob located, wakup) := by
    rw [newJobRequest, if_neg (fun hne => hne h), hlocate]
    cases located with
    | missing => exact ⟨s.busy.length, rfl⟩
    | unusable => exact ⟨s.busy.length, rfl⟩
    | found result scanJob => exact ⟨0, rfl⟩
  obtain ⟨wakup, hrequest⟩ := hrequest
  refine newJobRequests_ends hrequest fun hbusy => ?_
  cases located <;> cases hbusy

theorem esclNewjob_fault (h : s.final.status = .good) {fault : TextFault}
    (hlocate : locate s.final.memory = .error fault) :
    esclNewjob scanJob s.all = .error fault := by
  rw [esclNewjob_final, newJobRequests, newJobRequest, if_neg (fun hne => hne h), hlocate]
  rfl

end Sequence

theorem finalJob_spec (scanJob : Option (List UInt8)) (located : Located) :
    ((finalJob scanJob located).status = .good ↔ located.parts ≠ none) ∧
      ∀ parts, located.parts = some parts →
        (finalJob scanJob located).result = some parts.1 ∧
          (finalJob scanJob located).scanJob = some parts.2 := by
  cases located with
  | missing => exact ⟨iff_of_false nofun fun h => h rfl, nofun⟩
  | unusable => exact ⟨iff_of_false nofun fun h => h rfl, nofun⟩
  | found result scanJob =>
      refine ⟨iff_of_true rfl nofun, fun parts hparts => ?_⟩
      rw [← Option.some.inj hparts]
      exact ⟨rfl, rfl⟩

/-- The job is located just if, where the final answer is one of success, it has header text, what
is taken for its `Location` line has not just one slash, and it has the parts of that line. -/
theorem jobLocated_iff (s : AnswerSequence) (scanJob : Option (List UInt8)) :
    JobLocated s scanJob ↔
      (s.final.Succeeds → s.final.lines ≠ [] ∧
        (∀ line ∈ searched s.final.text, line.count 47 ≠ 1) ∧
        (searched s.final.text).bind jobParts = (locationLine s.final.text).bind jobParts) := by
  constructor
  · rintro ⟨job, hrun, hstatus, hparts⟩ hsucceeds
    have hgood := (status_good_iff s.final).mpr hsucceeds
    have hfine : ¬ (s.final.lines = [] ∨
        ∃ line ∈ searched s.final.text, line.count 47 = 1) := by
      intro hbad
      obtain ⟨fault, hlocate⟩ := locate_memory_fault hbad
      cases hrun.symm.trans (esclNewjob_fault s scanJob hgood hlocate)
    have hlines : s.final.lines ≠ [] := fun h => hfine (.inl h)
    have hcount : ∀ line ∈ searched s.final.text, line.count 47 ≠ 1 := fun line hline h =>
      hfine (.inr ⟨line, hline, h⟩)
    refine ⟨hlines, hcount, ?_⟩
    obtain ⟨located, hlocate, hfound⟩ := locate_memory hlines hcount
    have hjob : job = finalJob scanJob located :=
      Option.some.inj (Except.ok.inj (hrun.symm.trans (esclNewjob_located s scanJob hgood hlocate)))
    obtain ⟨hfinal, hvalues⟩ := finalJob_spec scanJob located
    rw [← hjob] at hfinal hvalues
    rw [← hfound]
    cases hline : (locationLine s.final.text).bind jobParts with
    | none =>
        by_contra hne
        exact (hstatus.mp (hfinal.mpr hne)).2 hline
    | some parts =>
        have hsome : located.parts ≠ none := hfinal.mp (hstatus.mpr ⟨hsucceeds, by
          rw [hline]
          exact nofun⟩)
        obtain ⟨found, hfoundParts⟩ := Option.ne_none_iff_exists'.mp hsome
        obtain ⟨hresult, hscanJob⟩ := hparts parts hsucceeds hline
        obtain ⟨hresult', hscanJob'⟩ := hvalues found hfoundParts
        rw [hfoundParts]
        exact congrArg some (Prod.ext (Option.some.inj (hresult'.symm.trans hresult))
          (Option.some.inj (hscanJob'.symm.trans hscanJob)))
  · intro h
    by_cases hgood : s.final.status = .good
    · have hsucceeds := (status_good_iff s.final).mp hgood
      obtain ⟨hlines, hcount, hsame⟩ := h hsucceeds
      obtain ⟨located, hlocate, hfound⟩ := locate_memory hlines hcount
      obtain ⟨hfinal, hvalues⟩ := finalJob_spec scanJob located
      rw [hfound, hsame] at hfinal hvalues
      exact ⟨_, esclNewjob_located s scanJob hgood hlocate,
        hfinal.trans (and_iff_right hsucceeds).symm, fun parts _ => hvalues parts⟩
    · have hfails : ¬ s.final.Succeeds := fun hs => hgood ((status_good_iff s.final).mpr hs)
      exact ⟨_, esclNewjob_fails s scanJob hgood,
        iff_of_false hgood fun hs => hfails hs.1, fun _ hs => absurd hs hfails⟩

/-- An answer of success whose `Location` has one slash. -/
def oneSlash : HttpAnswer where
  response := some 201
  lines := [ascii ['L', 'o', 'c', 'a', 't', 'i', 'o', 'n', ':', ' ', '/', '1'] ++ [13, 10]]

theorem oneSlash_status : oneSlash.status = .good := by decide

def oneSlashSequence : AnswerSequence where
  busy := []
  final := oneSlash
  busy_status _ h := absurd h List.not_mem_nil
  busy_length := Nat.zero_le 3
  final_status h := absurd (oneSlash_status.symm.trans h) SaneStatus.noConfusion

theorem not_jobLocated_oneSlash : ¬ ∀ s scanJob, JobLocated s scanJob := by
  intro h
  obtain ⟨job, hrun, -⟩ := h oneSlashSequence none
  have hfault : esclNewjob none oneSlashSequence.all = .error .nullPointer := by decide
  cases hrun.symm.trans hfault

end SaneBackends.Escl
