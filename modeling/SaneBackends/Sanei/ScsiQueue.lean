import SaneBackends.Sanei.Scsi
import Mathlib.Data.List.TakeWhile
/-!
# The queue of the Linux SCSI layer

What `issue` keeps of the requests in the queue, the kernel's count of them and the requests
it accepted. A request whose submission failed is submitted again by the next `issue`, and a
wait counts its request as accepted even if the kernel refused it for the time being: runs are
followed in which the kernel lets neither of the two do harm.
-/

namespace SaneBackends.Scsi

open SaneBackends.Lib

def Answer.isOk : Answer → Bool
  | .ok _ => true
  | _ => false

/-- The kernel accepts nothing. -/
def Quiet (answers : List Answer) : Prop := ∀ a ∈ answers, a.isOk = false

instance (answers : List Answer) : Decidable (Quiet answers) :=
  inferInstanceAs (Decidable (∀ a ∈ answers, a.isOk = false))

/-- The kernel accepts nothing behind a failure that is final. `ENOMEM` is final for the first
request in the queue, which is submitted first if it was not yet. -/
def Steady : Bool → List Answer → Prop
  | _, [] => True
  | _, .ok _ :: answers => Steady false answers
  | head, .again :: answers => Steady head answers
  | head, .noMem :: answers => if head then Quiet answers else Steady false answers
  | _, .error :: answers => Quiet answers

instance decidableSteady : ∀ head answers, Decidable (Steady head answers)
  | _, [] => .isTrue trivial
  | _, .ok _ :: answers => decidableSteady false answers
  | head, .again :: answers => decidableSteady head answers
  | true, .noMem :: answers => inferInstanceAs (Decidable (Quiet answers))
  | false, .noMem :: answers => decidableSteady false answers
  | _, .error :: answers => inferInstanceAs (Decidable (Quiet answers))

/-- A request whose submission has failed waits to be submitted again. -/
def HoldsFailed (q : List Nat) (f : Fdparms) : Prop :=
  ∃ id ∈ q, (f.reqs id).done = true ∧ (f.reqs id).running = false

instance (q : List Nat) (f : Fdparms) : Decidable (HoldsFailed q f) :=
  inferInstanceAs (Decidable (∃ id ∈ q, _))

/-- The first request in the queue is still to be submitted, or will be as it is entered. -/
def headWaits (f : Fdparms) : Bool :=
  match f.queue with
  | [] => true
  | id :: _ => !(f.reqs id).running

/-- With `SG_IO` the kernel accepts no request that it has failed before. -/
structure Calm (version : Int) (q : List Nat) (f : Fdparms) (answers : List Answer) : Prop where
  quiet : 30000 ≤ version → HoldsFailed q f → Quiet answers
  steady : 30000 ≤ version → Steady (headWaits f) answers

instance (version : Int) (q : List Nat) (f : Fdparms) (answers : List Answer) :
    Decidable (Calm version q f answers) :=
  decidable_of_iff ((30000 ≤ version → HoldsFailed q f → Quiet answers) ∧
      (30000 ≤ version → Steady (headWaits f) answers))
    ⟨fun h => ⟨h.1, h.2⟩, fun h => ⟨h.quiet, h.steady⟩⟩

/-- Whether a request is one the kernel accepted and whose completion was not collected. -/
def inKernel (f : Fdparms) (id : Nat) : Bool := (f.reqs id).running && !(f.reqs id).done

/-- The requests the kernel accepted, in that order. -/
def Fdparms.acceptedIds (f : Fdparms) : List Nat := f.accepted.map Prod.fst

/-- What holds of the requests in the queue, or in its end. Those that are running come first;
one whose submission has failed comes before all others that are not running, and is not
running itself with `SG_IO`. -/
structure Inv (version : Int) (q : List Nat) (f : Fdparms) : Prop where
  sorted : q.Pairwise (· < ·)
  bound : ∀ id ∈ q, id < f.packId
  ordered : q.Pairwise fun a b =>
    (f.reqs b).running = true ∨ (f.reqs b).done = true → (f.reqs a).running = true
  failedOld : version < 30000 → ∀ id ∈ q, (f.reqs id).done = true → (f.reqs id).running = true
  failedNew : 30000 ≤ version → ∀ id ∈ q, (f.reqs id).running = true → (f.reqs id).done = false
  status : ∀ id ∈ q, (f.reqs id).done = true → (f.reqs id).status ≠ .good
  accepted : ∀ id ∈ q, id ∈ f.acceptedIds ↔ inKernel f id = true
  hdr : ∀ id ∈ q, inKernel f id = true → (id, (f.reqs id).hdr) ∈ f.accepted
  used : f.sgQueueUsed = q.countP (inKernel f)
  room : f.sgQueueUsed ≤ f.sgQueueMax
  acceptedSorted : f.acceptedIds.Pairwise (· < ·)
  acceptedBefore : ∀ id ∈ q, (f.reqs id).running = false → ∀ a ∈ f.acceptedIds, a < id
  acceptedBound : ∀ a ∈ f.acceptedIds, a < f.packId

section Submit

variable {head : Bool} {retries : Nat} {answers rest : List Answer} {a : Answer}

theorem quiet_tail (h : Quiet (a :: answers)) : Quiet answers :=
  fun b hb => h b (List.mem_cons_of_mem a hb)

theorem steady_of_quiet (h : Quiet answers) : Steady head answers := by
  induction answers generalizing head with
  | nil => trivial
  | cons a answers ih =>
      have htail := quiet_tail h
      cases a with
      | ok hdr => exact absurd (h _ List.mem_cons_self) (by simp [Answer.isOk])
      | again => exact ih htail
      | noMem =>
          unfold Steady
          split_ifs
          · exact htail
          · exact ih htail
      | error => exact htail

theorem submit_quiet (h : Quiet answers) (hrun : submit head retries answers = (a, rest)) :
    a.isOk = false ∧ Quiet rest := by
  induction retries generalizing answers with
  | zero =>
      cases hrun
      exact ⟨rfl, h⟩
  | succ retries ih =>
      match answers, hrun with
      | [], hrun =>
          cases hrun
          exact ⟨rfl, h⟩
      | .again :: answers, hrun =>
          unfold submit at hrun
          split_ifs at hrun
          · exact ih (quiet_tail h) hrun
          · cases hrun
            exact ⟨rfl, quiet_tail h⟩
      | .ok hdr :: answers, hrun => exact absurd (h _ List.mem_cons_self) (by simp [Answer.isOk])
      | .noMem :: answers, hrun =>
          cases hrun
          exact ⟨rfl, quiet_tail h⟩
      | .error :: answers, hrun =>
          cases hrun
          exact ⟨rfl, quiet_tail h⟩

/-- What is still to come behind the last answer of a submission. -/
def SteadyAfter (head : Bool) : Answer → List Answer → Prop
  | .ok _, rest => Steady false rest
  | .again, rest => Steady head rest
  | .noMem, rest => if head then Quiet rest else Steady false rest
  | .error, rest => Quiet rest

theorem submit_steady (h : Steady head answers)
    (hrun : submit head retries answers = (a, rest)) : SteadyAfter head a rest := by
  induction retries generalizing answers with
  | zero =>
      cases hrun
      exact h
  | succ retries ih =>
      match answers, hrun with
      | [], hrun =>
          cases hrun
          intro b hb
          cases hb
      | .again :: answers, hrun =>
          have hrest : Steady head answers := h
          unfold submit at hrun
          split_ifs at hrun
          · exact ih hrest hrun
          · cases hrun
            exact hrest
      | .ok hdr :: answers, hrun =>
          cases hrun
          exact h
      | .noMem :: answers, hrun =>
          cases hrun
          exact h
      | .error :: answers, hrun =>
          cases hrun
          exact h

/-- The first request is given up for the time being only when no retry is left. -/
theorem submit_again (hrun : submit true retries answers = (.again, rest)) :
    answers.take retries = List.replicate retries .again := by
  induction retries generalizing answers with
  | zero => rfl
  | succ retries ih =>
      match answers, hrun with
      | .again :: answers, hrun =>
          rw [List.take_succ_cons, List.replicate_succ, ih hrun]

end Submit

section Issue

variable {version : Int} {req rp id : Nat} {pre before rest q : List Nat} {f f' : Fdparms}
  {answers answers' : List Answer}

theorem update_reqs_ne {id' : Nat} (change : Req → Req) (h : id' ≠ id) :
    (f.update id change).reqs id' = f.reqs id' := by
  simp [Fdparms.update, h]

/-- What `issue` leaves alone: all but the status of requests it does not submit. -/
structure Issued (rest : List Nat) (f f' : Fdparms) : Prop where
  queue : f'.queue = f.queue
  packId : f'.packId = f.packId
  freeList : f'.freeList = f.freeList
  queueMax : f'.sgQueueMax = f.sgQueueMax
  running : ∀ id ∉ rest, (f'.reqs id).running = (f.reqs id).running
  done : ∀ id ∉ rest, (f'.reqs id).done = (f.reqs id).done
  hdr : ∀ id ∉ rest, (f'.reqs id).hdr = (f.reqs id).hdr
  stays : ∀ id, (f.reqs id).done = true → (f'.reqs id).done = true
  accepted : ∃ more, f'.accepted = f.accepted ++ more ∧ ∀ a ∈ more, a.1 ∈ rest

theorem Issued.refl (rest : List Nat) (f : Fdparms) : Issued rest f f :=
  ⟨rfl, rfl, rfl, rfl, fun _ _ => rfl, fun _ _ => rfl, fun _ _ => rfl, fun _ h => h, [], by simp,
    by simp⟩

theorem Issued.mono {rest' : List Nat} (h : Issued rest f f') (hsub : rest ⊆ rest') :
    Issued rest' f f' where
  queue := h.queue
  packId := h.packId
  freeList := h.freeList
  queueMax := h.queueMax
  running := fun id hid => h.running id fun hmem => hid (hsub hmem)
  done := fun id hid => h.done id fun hmem => hid (hsub hmem)
  hdr := fun id hid => h.hdr id fun hmem => hid (hsub hmem)
  stays := h.stays
  accepted := by
    obtain ⟨more, hmore, hrest⟩ := h.accepted
    exact ⟨more, hmore, fun a ha => hsub (hrest a ha)⟩

theorem Issued.trans {f'' : Fdparms} (h : Issued rest f f') (h' : Issued rest f' f'') :
    Issued rest f f'' where
  queue := h'.queue.trans h.queue
  packId := h'.packId.trans h.packId
  freeList := h'.freeList.trans h.freeList
  queueMax := h'.queueMax.trans h.queueMax
  running := fun id hid => (h'.running id hid).trans (h.running id hid)
  done := fun id hid => (h'.done id hid).trans (h.done id hid)
  hdr := fun id hid => (h'.hdr id hid).trans (h.hdr id hid)
  stays := fun id hid => h'.stays id (h.stays id hid)
  accepted := by
    obtain ⟨more, hmore, hrest⟩ := h.accepted
    obtain ⟨more', hmore', hrest'⟩ := h'.accepted
    refine ⟨more ++ more', ?_, ?_⟩
    · rw [hmore', hmore, List.append_assoc]
    · intro a ha
      rcases List.mem_append.mp ha with ha | ha
      · exact hrest a ha
      · exact hrest' a ha

/-- The state behind a submission that was accepted. -/
def accepting (version : Int) (req rp : Nat) (hdr : SgIoHdr) (f : Fdparms) : Fdparms :=
  { (f.accept rp hdr).update req fun r => { r with status := issuedStatus version r.status } with
    sgQueueUsed := f.sgQueueUsed + 1 }

theorem accepting_reqs (hdr : SgIoHdr) (id : Nat) :
    (accepting version req rp hdr f).reqs id = {
      running := if id = rp then true else (f.reqs id).running
      done := (f.reqs id).done
      status := if id = req then issuedStatus version (f.reqs id).status else (f.reqs id).status
      hdr := if id = rp then hdr else (f.reqs id).hdr } := by
  unfold accepting Fdparms.accept
  dsimp only
  rcases eq_or_ne id req with rfl | hreq
  · rcases eq_or_ne id rp with rfl | hrp
    · simp [Fdparms.update]
    · simp [Fdparms.update, hrp]
  · rcases eq_or_ne id rp with rfl | hrp
    · simp [Fdparms.update, hreq]
    · simp [Fdparms.update, hreq, hrp]

theorem accepting_acceptedIds (hdr : SgIoHdr) :
    (accepting version req rp hdr f).acceptedIds = f.acceptedIds ++ [rp] := by
  simp [accepting, Fdparms.accept, Fdparms.update, Fdparms.acceptedIds]

theorem accepting_issued (hdr : SgIoHdr) : Issued [rp] f (accepting version req rp hdr f) where
  queue := rfl
  packId := rfl
  freeList := rfl
  queueMax := rfl
  running := by
    intro id hid
    rw [accepting_reqs, if_neg (by simpa using hid)]
  done := by
    intro id _
    rw [accepting_reqs]
  hdr := by
    intro id hid
    rw [accepting_reqs]
    exact if_neg (by simpa using hid)
  stays := by
    intro id hid
    rw [accepting_reqs]
    exact hid
  accepted := ⟨[(rp, hdr)], rfl, by simp⟩

/-- Behind the running requests none is done, but for one that has failed. -/
theorem Inv.idle (h : Inv version (before ++ rest) f)
    (hrest : ∀ id ∈ rest, (f.reqs id).running = false)
    (hfailed : 30000 ≤ version → ¬ HoldsFailed (before ++ rest) f) :
    ∀ id ∈ rest, (f.reqs id).done = false := by
  intro id hid
  by_contra hdone
  have hdone := Bool.eq_true_of_not_eq_false hdone
  have hmem : id ∈ before ++ rest := List.mem_append_right _ hid
  rcases lt_or_ge version 30000 with hold | hnew
  · have hrunning := h.failedOld hold id hmem hdone
    rw [hrest id hid] at hrunning
    cases hrunning
  · exact hfailed hnew ⟨id, hmem, hdone, hrest id hid⟩

theorem Inv.sorted_rest (h : Inv version (before ++ rp :: rest) f) : ∀ id ∈ rest, rp < id :=
  (List.pairwise_cons.mp (List.pairwise_append.mp h.sorted).2.1).1

theorem Inv.ne_rp (h : Inv version (before ++ rp :: rest) f) {id : Nat} (hid : id ∈ before) :
    id ≠ rp :=
  ne_of_lt ((List.pairwise_append.mp h.sorted).2.2 id hid rp List.mem_cons_self)

/-- Running requests in front of one and idle ones behind it are in order. -/
theorem ordered_of_idle {g : Fdparms} (hbefore : ∀ id ∈ before, (g.reqs id).running = true)
    (hidle : ∀ id ∈ rest, (g.reqs id).running = false ∧ (g.reqs id).done = false) :
    (before ++ rp :: rest).Pairwise fun a b =>
      (g.reqs b).running = true ∨ (g.reqs b).done = true → (g.reqs a).running = true := by
  have hno : ∀ id ∈ rest, ¬((g.reqs id).running = true ∨ (g.reqs id).done = true) := by
    intro id hid
    rw [(hidle id hid).1, (hidle id hid).2]
    decide
  rw [List.pairwise_append, List.pairwise_cons]
  refine ⟨?_, ⟨?_, ?_⟩, ?_⟩
  · exact List.pairwise_of_forall_mem_list fun a ha _ _ _ => hbefore a ha
  · exact fun b hb hb' => absurd hb' (hno b hb)
  · exact List.pairwise_of_forall_mem_list fun _ _ b hb hb' => absurd hb' (hno b hb)
  · exact fun a ha _ _ _ => hbefore a ha

theorem accepting_done (hdr : SgIoHdr) (id : Nat) :
    ((accepting version req rp hdr f).reqs id).done = (f.reqs id).done := by
  rw [accepting_reqs]

theorem accepting_running (hdr : SgIoHdr) (id : Nat) :
    ((accepting version req rp hdr f).reqs id).running =
      if id = rp then true else (f.reqs id).running := by
  rw [accepting_reqs]

theorem accepting_inKernel (hdr : SgIoHdr) (id : Nat) :
    inKernel (accepting version req rp hdr f) id =
      if id = rp then !(f.reqs id).done else inKernel f id := by
  unfold inKernel
  rw [accepting_running, accepting_done]
  split_ifs
  · rw [Bool.true_and]
  · rfl

/-- The request accepted is one more in the kernel. -/
theorem Inv.used_accepting (hdr : SgIoHdr) (h : Inv version (before ++ rp :: rest) f)
    (hrunning : (f.reqs rp).running = false) (hdone : (f.reqs rp).done = false) :
    (accepting version req rp hdr f).sgQueueUsed =
      (before ++ rp :: rest).countP (inKernel (accepting version req rp hdr f)) := by
  have hbefore : before.countP (inKernel (Scsi.accepting version req rp hdr f)) =
      before.countP (inKernel f) :=
    List.countP_congr fun id hid => by rw [accepting_inKernel, if_neg (h.ne_rp hid)]
  have hrest : rest.countP (inKernel (Scsi.accepting version req rp hdr f)) =
      rest.countP (inKernel f) :=
    List.countP_congr fun id hid => by
      rw [accepting_inKernel, if_neg (ne_of_gt (h.sorted_rest id hid))]
  have hrp : inKernel f rp = false := by
    unfold inKernel
    rw [hrunning, Bool.false_and]
  have hused := h.used
  rw [List.countP_append, List.countP_cons, hrp] at hused
  rw [List.countP_append, List.countP_cons, hbefore, hrest, accepting_inKernel, if_pos rfl, hdone]
  change f.sgQueueUsed + 1 = _
  rw [hused]
  simp
  omega

/-- What has been accepted stands in the queue in front of what waits. -/
theorem Inv.acceptedBefore_accepting (hdr : SgIoHdr) (h : Inv version (before ++ rp :: rest) f)
    (hbefore : ∀ id ∈ before, (f.reqs id).running = true)
    (hrest : ∀ id ∈ rest, (f.reqs id).running = false) :
    ∀ id ∈ before ++ rp :: rest, ((accepting version req rp hdr f).reqs id).running = false →
      ∀ a ∈ (accepting version req rp hdr f).acceptedIds, a < id := by
  intro id hid hr a ha
  rw [accepting_running] at hr
  rw [accepting_acceptedIds] at ha
  rcases List.mem_append.mp hid with hid' | hid'
  · rw [if_neg (h.ne_rp hid'), hbefore id hid'] at hr
    cases hr
  · rcases List.mem_cons.mp hid' with rfl | hid'
    · rw [if_pos rfl] at hr
      cases hr
    · rcases List.mem_append.mp ha with ha | ha
      · exact h.acceptedBefore id hid (hrest id hid') a ha
      · rw [List.mem_singleton.mp ha]
        exact h.sorted_rest id hid'

/-- The first request that is not running is accepted. -/
theorem Inv.accepting (hdr : SgIoHdr) (h : Inv version (before ++ rp :: rest) f)
    (hbefore : ∀ id ∈ before, (f.reqs id).running = true)
    (hrest : ∀ id ∈ rp :: rest, (f.reqs id).running = false)
    (hfailed : 30000 ≤ version → ¬ HoldsFailed (before ++ rp :: rest) f)
    (hroom : f.sgQueueUsed < f.sgQueueMax) :
    Inv version (before ++ rp :: rest) (accepting version req rp hdr f) := by
  have hidle := h.idle hrest hfailed
  have hrp : (f.reqs rp).done = false := hidle rp List.mem_cons_self
  have hmem : rp ∈ before ++ rp :: rest := List.mem_append_right _ List.mem_cons_self
  have hnone : 30000 ≤ version → ∀ id ∈ before ++ rp :: rest, (f.reqs id).done = false := by
    intro hnew id hid
    rcases List.mem_append.mp hid with hid' | hid'
    · exact h.failedNew hnew id hid (hbefore id hid')
    · exact hidle id hid'
  refine {
    sorted := h.sorted
    bound := h.bound
    ordered := ordered_of_idle ?_ ?_
    failedOld := ?_
    failedNew := ?_
    status := ?_
    accepted := ?_
    hdr := ?_
    used := h.used_accepting hdr (hrest rp List.mem_cons_self) hrp
    room := hroom
    acceptedSorted := ?_
    acceptedBefore := h.acceptedBefore_accepting hdr hbefore fun id hid =>
      hrest id (List.mem_cons_of_mem rp hid)
    acceptedBound := ?_ }
  · intro id hid
    rw [accepting_running, if_neg (h.ne_rp hid)]
    exact hbefore id hid
  · intro id hid
    have hid' := List.mem_cons_of_mem rp hid
    rw [accepting_running, if_neg (ne_of_gt (h.sorted_rest id hid)), accepting_done]
    exact ⟨hrest id hid', hidle id hid'⟩
  · intro hold id hid hd
    rw [accepting_done] at hd
    rw [accepting_running]
    split_ifs
    · rfl
    · exact h.failedOld hold id hid hd
  · intro hnew id hid hr
    rw [accepting_running] at hr
    rw [accepting_done]
    split_ifs at hr with hid'
    · rw [hid', hrp]
    · exact h.failedNew hnew id hid hr
  · intro id hid hd
    rw [accepting_done] at hd
    have hstatus := h.status id hid hd
    rw [accepting_reqs]
    dsimp only
    split_ifs
    · unfold issuedStatus
      split_ifs with hold hnew
      · decide
      · exact absurd hd (Bool.not_eq_true _ ▸ hnone (by omega) id hid)
      · exact hstatus
    · exact hstatus
  · intro id hid
    rw [accepting_acceptedIds, accepting_inKernel, List.mem_append, List.mem_singleton,
      h.accepted id hid]
    split_ifs with hid'
    · simp [hid', hrp]
    · simp [hid']
  · intro id hid hk
    rw [accepting_inKernel] at hk
    rw [accepting_reqs]
    dsimp only
    change _ ∈ f.accepted ++ [(rp, hdr)]
    split_ifs at hk ⊢ with hid'
    · rw [hid']
      exact List.mem_append_right _ List.mem_cons_self
    · exact List.mem_append_left _ (h.hdr id hid hk)
  · rw [accepting_acceptedIds, List.pairwise_append]
    refine ⟨h.acceptedSorted, List.pairwise_singleton _ _, ?_⟩
    intro a ha b hb
    rw [List.mem_singleton.mp hb]
    exact h.acceptedBefore rp hmem (hrest rp List.mem_cons_self) a ha
  · intro a ha
    rw [accepting_acceptedIds] at ha
    rcases List.mem_append.mp ha with ha | ha
    · exact h.acceptedBound a ha
    · rw [List.mem_singleton.mp ha]
      exact h.bound rp hmem

theorem update_reqs (change : Req → Req) (id' : Nat) :
    (f.update id change).reqs id' = if id' = id then change (f.reqs id) else f.reqs id' := by
  rcases eq_or_ne id' id with rfl | hne
  · simp [Fdparms.update]
  · simp [Fdparms.update, hne]

/-- The first request that is not running has failed for good. -/
theorem Inv.failed {status : SaneStatus} (hstatus : status ≠ .good)
    (h : Inv version (before ++ rp :: rest) f)
    (hbefore : ∀ id ∈ before, (f.reqs id).running = true)
    (hrest : ∀ id ∈ rp :: rest, (f.reqs id).running = false) :
    Inv version (before ++ rp :: rest) (f.update rp (failed version status)) := by
  have hrp := hrest rp List.mem_cons_self
  have hmem : rp ∈ before ++ rp :: rest := List.mem_append_right _ List.mem_cons_self
  have hkernel : ∀ id, inKernel (f.update rp (Scsi.failed version status)) id = inKernel f id := by
    intro id
    unfold inKernel
    rw [update_reqs]
    split_ifs with hid
    · rw [hid, hrp, Scsi.failed, Bool.not_true, Bool.and_false, Bool.false_and]
    · rfl
  refine {
    sorted := h.sorted
    bound := h.bound
    ordered := ?_
    failedOld := ?_
    failedNew := ?_
    status := ?_
    accepted := ?_
    hdr := ?_
    used := ?_
    room := h.room
    acceptedSorted := h.acceptedSorted
    acceptedBefore := ?_
    acceptedBound := h.acceptedBound }
  · refine ordered_of_idle ?_ ?_
    · intro id hid
      rw [update_reqs, if_neg (h.ne_rp hid)]
      exact hbefore id hid
    · intro id hid
      rw [update_reqs, if_neg (ne_of_gt (h.sorted_rest id hid))]
      refine ⟨hrest id (List.mem_cons_of_mem rp hid), ?_⟩
      by_contra hdone
      have hrunning := (List.pairwise_cons.mp (List.pairwise_append.mp h.ordered).2.1).1 id hid
        (.inr (Bool.eq_true_of_not_eq_false hdone))
      rw [hrp] at hrunning
      cases hrunning
  · intro hold id hid hd
    rw [update_reqs] at hd ⊢
    split_ifs at hd ⊢
    · exact decide_eq_true hold
    · exact h.failedOld hold id hid hd
  · intro hnew id hid hr
    rw [update_reqs] at hr ⊢
    split_ifs at hr ⊢
    · exact absurd (of_decide_eq_true hr) (by omega)
    · exact h.failedNew hnew id hid hr
  · intro id hid hd
    rw [update_reqs] at hd ⊢
    split_ifs at hd ⊢
    · unfold Scsi.failed
      dsimp only
      split_ifs
      · exact hstatus
      · decide
    · exact h.status id hid hd
  · intro id hid
    rw [hkernel]
    exact h.accepted id hid
  · intro id hid hk
    rw [hkernel] at hk
    have hne : id ≠ rp := by
      rintro rfl
      rw [inKernel, hrp, Bool.false_and] at hk
      cases hk
    rw [update_reqs, if_neg hne]
    exact h.hdr id hid hk
  · have hcount : (before ++ rp :: rest).countP (inKernel (f.update rp (Scsi.failed version status))) =
        (before ++ rp :: rest).countP (inKernel f) :=
      List.countP_congr fun id _ => by rw [hkernel]
    rw [hcount]
    exact h.used
  · intro id hid hr a ha
    rcases eq_or_ne id rp with rfl | hne
    · exact h.acceptedBefore id hmem hrp a ha
    · rw [update_reqs, if_neg hne] at hr
      exact h.acceptedBefore id hid hr a ha

theorem failed_issued (status : SaneStatus) :
    Issued [rp] f (f.update rp (failed version status)) where
  queue := rfl
  packId := rfl
  freeList := rfl
  queueMax := rfl
  running := by
    intro id hid
    rw [update_reqs_ne _ (by simpa using hid)]
  done := by
    intro id hid
    rw [update_reqs_ne _ (by simpa using hid)]
  hdr := by
    intro id hid
    rw [update_reqs_ne _ (by simpa using hid)]
  stays := by
    intro id hid
    rw [update_reqs]
    split_ifs
    · rfl
    · exact hid
  accepted := ⟨[], (List.append_nil _).symm, by simp⟩

theorem update_running_false (h : (f.reqs rp).running = false) :
    (f.update rp fun r => { r with running := false }) = f := by
  have hreq : (fun r : Req => { r with running := false }) (f.reqs rp) = f.reqs rp := by
    dsimp only
    rw [← h]
  unfold Fdparms.update
  rw [hreq, Function.update_eq_self]

/-- What `issue` has to find in the queue: the requests up to some are running, and no other. -/
structure Ready (version : Int) (pre before rest : List Nat) (f : Fdparms)
    (answers : List Answer) : Prop where
  queue : f.queue = pre ++ (before ++ rest)
  running : ∀ id ∈ pre ++ before, (f.reqs id).running = true
  waiting : ∀ id ∈ rest, (f.reqs id).running = false
  inv : Inv version (before ++ rest) f
  calm : Calm version (before ++ rest) f answers

/-- The first request that waits is the first in the queue if that waits. -/
theorem Ready.head (h : Ready version pre before (rp :: rest) f answers) :
    (f.queue.head? == some rp) = headWaits f := by
  have hrp := h.waiting rp List.mem_cons_self
  have hqueue : f.queue = (pre ++ before) ++ rp :: rest := by rw [h.queue, List.append_assoc]
  unfold headWaits
  cases hpre : pre ++ before with
  | nil =>
      rw [hpre, List.nil_append] at hqueue
      rw [hqueue]
      simp [hrp]
  | cons id others =>
      rw [hpre, List.cons_append] at hqueue
      have hid : (f.reqs id).running = true := h.running id (by rw [hpre]; exact List.mem_cons_self)
      have hne : id ≠ rp := by
        rintro rfl
        rw [hid] at hrp
        cases hrp
      rw [hqueue]
      simp [hid, hne]

/-- A submission that failed for good is the last one of a calm kernel. -/
theorem Ready.failed {status : SaneStatus} (hstatus : status ≠ .good)
    (h : Ready version pre before (rp :: rest) f answers)
    (hquiet : 30000 ≤ version → Quiet answers') :
    let f' := f.update rp (Scsi.failed version status)
    Inv version (before ++ rp :: rest) f' ∧ Calm version (before ++ rp :: rest) f' answers' ∧
      Issued (rp :: rest) f f' := by
  have hbefore : ∀ id ∈ before, (f.reqs id).running = true :=
    fun id hid => h.running id (List.mem_append_right _ hid)
  refine ⟨h.inv.failed hstatus hbefore h.waiting, ⟨fun hnew _ => hquiet hnew,
    fun hnew => steady_of_quiet (hquiet hnew)⟩, ?_⟩
  exact (failed_issued status).mono (by simp)

/-- A request that was accepted is one more that is running. -/
theorem Ready.accepting {hdr : SgIoHdr} (h : Ready version pre before (rp :: rest) f answers)
    (hfailed : 30000 ≤ version → ¬ HoldsFailed (before ++ rp :: rest) f)
    (hroom : f.sgQueueUsed < f.sgQueueMax) (hsteady : 30000 ≤ version → Steady false answers') :
    Ready version pre (before ++ [rp]) rest (accepting version req rp hdr f) answers' := by
  have hbefore : ∀ id ∈ before, (f.reqs id).running = true :=
    fun id hid => h.running id (List.mem_append_right _ hid)
  have hrunning : ∀ id ∈ (pre ++ before) ++ [rp],
      ((Scsi.accepting version req rp hdr f).reqs id).running = true := by
    intro id hid
    rw [accepting_reqs]
    dsimp only
    split_ifs with hrp
    · rfl
    · rcases List.mem_append.mp hid with hid | hid
      · exact h.running id hid
      · exact absurd (List.mem_singleton.mp hid) hrp
  have hqueue : (Scsi.accepting version req rp hdr f).queue = ((pre ++ before) ++ [rp]) ++ rest := by
    change f.queue = _
    rw [h.queue]
    simp
  refine ⟨?_, ?_, ?_, ?_, ⟨?_, ?_⟩⟩
  · rw [hqueue]
    simp
  · rwa [List.append_assoc] at hrunning
  · intro id hid
    rw [accepting_reqs, if_neg (ne_of_gt (h.inv.sorted_rest id hid))]
    exact h.waiting id (List.mem_cons_of_mem rp hid)
  · rw [List.append_assoc]
    exact h.inv.accepting hdr hbefore h.waiting hfailed hroom
  · rintro hnew ⟨id, hid, hdone, hwaits⟩
    rw [accepting_reqs] at hdone hwaits
    dsimp only at hwaits
    split_ifs at hwaits with hrp
    rw [List.append_assoc] at hid
    exact absurd ⟨id, hid, hdone, hwaits⟩ (hfailed hnew)
  · intro hnew
    have hhead : headWaits (Scsi.accepting version req rp hdr f) = false := by
      unfold headWaits
      rw [hqueue]
      cases hpre : pre ++ before with
      | nil =>
          dsimp only [List.nil_append, List.cons_append]
          rw [hrunning rp (by simp), Bool.not_true]
      | cons id others =>
          dsimp only [List.cons_append]
          rw [hrunning id (by rw [hpre]; simp), Bool.not_true]
    rw [hhead]
    exact hsteady hnew

/-- `issue` keeps what is known of the queue, and leaves the running requests alone. -/
theorem issueLoop_spec (h : Ready version pre before rest f answers)
    (hrun : issueLoop version req rest f answers = (f', answers')) :
    Inv version (before ++ rest) f' ∧ Calm version (before ++ rest) f' answers' ∧
      Issued rest f f' := by
  induction rest generalizing before f answers with
  | nil =>
      cases hrun
      exact ⟨h.inv, h.calm, .refl _ _⟩
  | cons rp rest ih =>
      unfold issueLoop at hrun
      split_ifs at hrun with hroom
      · dsimp only at hrun
        rw [h.head] at hrun
        generalize hsubmit : submit (headWaits f) maxRetries answers = result at hrun
        obtain ⟨a, answers₁⟩ := result
        have hsteady : 30000 ≤ version → SteadyAfter (headWaits f) a answers₁ :=
          fun hnew => submit_steady (h.calm.steady hnew) hsubmit
        have hquiet : 30000 ≤ version → HoldsFailed (before ++ rp :: rest) f →
            a.isOk = false ∧ Quiet answers₁ :=
          fun hnew hholds => submit_quiet (h.calm.quiet hnew hholds) hsubmit
        have hwaits := h.waiting rp List.mem_cons_self
        cases a with
        | ok hdr =>
            have hfailed : 30000 ≤ version → ¬ HoldsFailed (before ++ rp :: rest) f := by
              intro hnew hholds
              cases (hquiet hnew hholds).1
            have hready : Ready version pre (before ++ [rp]) rest
                (Scsi.accepting version req rp hdr f) answers₁ :=
              h.accepting hfailed hroom hsteady
            obtain ⟨hinv, hcalm, hissued⟩ := ih hready hrun
            rw [List.append_assoc, List.singleton_append] at hinv hcalm
            refine ⟨hinv, hcalm, ?_⟩
            exact ((accepting_issued hdr).mono (by simp)).trans (hissued.mono (by simp))
        | again =>
            dsimp only at hrun
            rw [update_running_false hwaits] at hrun
            cases hrun
            exact ⟨h.inv, ⟨fun hnew hholds => (hquiet hnew hholds).2, hsteady⟩, .refl _ _⟩
        | noMem =>
            dsimp only at hrun
            split_ifs at hrun with hhead
            · cases hrun
              refine h.failed (by decide) ?_
              intro hnew
              have := hsteady hnew
              rwa [hhead] at this
            · rw [update_running_false hwaits] at hrun
              cases hrun
              refine ⟨h.inv, ⟨fun hnew hholds => (hquiet hnew hholds).2, ?_⟩, .refl _ _⟩
              intro hnew
              have := hsteady hnew
              rw [Bool.not_eq_true] at hhead
              rw [hhead] at this ⊢
              exact this
        | error =>
            cases hrun
            exact h.failed (by decide) hsteady
      · cases hrun
        exact ⟨h.inv, h.calm, .refl _ _⟩

/-- The requests of a queue that are not running. -/
def idle (q : List Nat) (f : Fdparms) : List Nat := q.filter fun id => !(f.reqs id).running

theorem not_mem_idle (h : (f.reqs id).running = true) : id ∉ idle q f := by
  simp [idle, h]

/-- Requests in order are running up to some, and then are not. -/
theorem Inv.waiting (h : Inv version q f) :
    ∀ id ∈ q.dropWhile fun id => (f.reqs id).running, (f.reqs id).running = false := by
  have hordered := h.ordered
  clear h
  induction q with
  | nil => simp
  | cons id q ih =>
      intro id' hid'
      rw [List.pairwise_cons] at hordered
      by_cases hrunning : (f.reqs id).running = true
      · rw [List.dropWhile_cons, if_pos hrunning] at hid'
        exact ih hordered.2 id' hid'
      · rw [List.dropWhile_cons, if_neg hrunning] at hid'
        rcases List.mem_cons.mp hid' with rfl | hid'
        · exact Bool.eq_false_of_not_eq_true hrunning
        · exact Bool.eq_false_of_not_eq_true fun h' => hrunning (hordered.1 id' hid' (.inl h'))

/-- `issue` on a queue that starts with requests that are running and perhaps collected. -/
theorem issue_spec (pre : List Nat) {arg : Option Nat} (hqueue : f.queue = pre ++ q)
    (hpre : ∀ id ∈ pre, (f.reqs id).running = true) (h : Inv version q f)
    (hcalm : Calm version q f answers) (hrun : issue version arg f answers = (f', answers')) :
    Inv version q f' ∧ Calm version q f' answers' ∧ Issued (idle q f) f f' := by
  cases arg with
  | none =>
      cases hrun
      exact ⟨h, hcalm, .refl _ _⟩
  | some req =>
      have hsplit : (q.takeWhile fun id => (f.reqs id).running) ++
          (q.dropWhile fun id => (f.reqs id).running) = q := List.takeWhile_append_dropWhile
      have hdrop : (f.queue.dropWhile fun id => (f.reqs id).running) =
          q.dropWhile fun id => (f.reqs id).running := by
        rw [hqueue, List.dropWhile_append_of_pos hpre]
      have hready : Ready version pre (q.takeWhile fun id => (f.reqs id).running)
          (q.dropWhile fun id => (f.reqs id).running) f answers := by
        refine ⟨by rw [hsplit, hqueue], ?_, h.waiting, by rwa [hsplit], by rwa [hsplit]⟩
        intro id hid
        rcases List.mem_append.mp hid with hid | hid
        · exact hpre id hid
        · have hmem := List.mem_takeWhile_imp hid
          exact hmem
      rw [issue, hdrop] at hrun
      obtain ⟨hinv, hcalm', hissued⟩ := issueLoop_spec hready hrun
      rw [hsplit] at hinv hcalm'
      refine ⟨hinv, hcalm', hissued.mono ?_⟩
      intro id hid
      have hmem : id ∈ q := List.dropWhile_subset _ hid
      exact List.mem_filter.mpr ⟨hmem, by rw [h.waiting id hid, Bool.not_false]⟩

theorem Inv.tail (h : Inv version (id :: q) f) (hid : inKernel f id = false) :
    Inv version q f where
  sorted := (List.pairwise_cons.mp h.sorted).2
  bound := fun id' hid' => h.bound id' (List.mem_cons_of_mem id hid')
  ordered := (List.pairwise_cons.mp h.ordered).2
  failedOld := fun hold id' hid' => h.failedOld hold id' (List.mem_cons_of_mem id hid')
  failedNew := fun hnew id' hid' => h.failedNew hnew id' (List.mem_cons_of_mem id hid')
  status := fun id' hid' => h.status id' (List.mem_cons_of_mem id hid')
  accepted := fun id' hid' => h.accepted id' (List.mem_cons_of_mem id hid')
  hdr := fun id' hid' => h.hdr id' (List.mem_cons_of_mem id hid')
  used := by
    have hused := h.used
    rw [List.countP_cons, hid] at hused
    exact hused
  room := h.room
  acceptedSorted := h.acceptedSorted
  acceptedBefore := fun id' hid' => h.acceptedBefore id' (List.mem_cons_of_mem id hid')
  acceptedBound := h.acceptedBound

/-- The completion of the first request is collected. -/
def collecting (req : Nat) (f : Fdparms) : Fdparms :=
  { f.update req fun r => { r with done := true } with sgQueueUsed := f.sgQueueUsed - 1 }

theorem collecting_reqs_ne (h : id ≠ req) : (collecting req f).reqs id = f.reqs id := by
  simp [collecting, Fdparms.update, h]

theorem collecting_running : ((collecting req f).reqs id).running = (f.reqs id).running := by
  rcases eq_or_ne id req with rfl | hne
  · simp [collecting, Fdparms.update]
  · rw [collecting_reqs_ne hne]

theorem Inv.collecting (h : Inv version (req :: q) f) (hreq : inKernel f req = true) :
    Inv version q (collecting req f) := by
  have hlater := (List.pairwise_cons.mp h.sorted).1
  have hsame : ∀ id ∈ q, (Scsi.collecting req f).reqs id = f.reqs id :=
    fun id hid => collecting_reqs_ne (ne_of_gt (hlater id hid))
  have hkernel : ∀ id ∈ q, inKernel (Scsi.collecting req f) id = inKernel f id := by
    intro id hid
    unfold inKernel
    rw [hsame id hid]
  have hmem : ∀ {id}, id ∈ q → id ∈ req :: q := fun hid => List.mem_cons_of_mem req hid
  refine {
    sorted := (List.pairwise_cons.mp h.sorted).2
    bound := fun id hid => h.bound id (hmem hid)
    ordered := ?_
    failedOld := ?_
    failedNew := ?_
    status := ?_
    accepted := ?_
    hdr := ?_
    used := ?_
    room := ?_
    acceptedSorted := h.acceptedSorted
    acceptedBefore := ?_
    acceptedBound := h.acceptedBound }
  · refine (List.pairwise_cons.mp h.ordered).2.imp_of_mem ?_
    intro a b ha hb hab
    rw [hsame a ha, hsame b hb]
    exact hab
  · intro hold id hid
    rw [hsame id hid]
    exact h.failedOld hold id (hmem hid)
  · intro hnew id hid
    rw [hsame id hid]
    exact h.failedNew hnew id (hmem hid)
  · intro id hid
    rw [hsame id hid]
    exact h.status id (hmem hid)
  · intro id hid
    rw [hkernel id hid]
    exact h.accepted id (hmem hid)
  · intro id hid
    rw [hkernel id hid, hsame id hid]
    exact h.hdr id (hmem hid)
  · have hused := h.used
    rw [List.countP_cons, hreq] at hused
    rw [List.countP_congr fun id hid => by rw [hkernel id hid]]
    change f.sgQueueUsed - 1 = _
    rw [hused]
    simp
  · have hroom := h.room
    change f.sgQueueUsed - 1 ≤ f.sgQueueMax
    omega
  · intro id hid
    rw [hsame id hid]
    exact h.acceptedBefore id (hmem hid)

theorem Calm.collecting (h : Calm version (req :: q) f answers)
    (hsorted : (req :: q).Pairwise (· < ·)) :
    Calm version q (collecting req f) answers where
  quiet := by
    rintro hnew ⟨id, hid, hdone, hwaits⟩
    have hne : id ≠ req := ne_of_gt ((List.pairwise_cons.mp hsorted).1 id hid)
    rw [collecting_reqs_ne hne] at hdone hwaits
    exact h.quiet hnew ⟨id, List.mem_cons_of_mem req hid, hdone, hwaits⟩
  steady := by
    have hhead : headWaits (Scsi.collecting req f) = headWaits f := by
      unfold headWaits
      change (match f.queue with | [] => true | id :: _ => !((Scsi.collecting req f).reqs id).running) = _
      simp only [collecting_running]
    rw [hhead]
    exact h.steady

/-- The request that is waited for is refused for the time being. -/
def Stuck (f : Fdparms) (req : Nat) (answers : List Answer) : Prop :=
  (f.reqs req).running = false ∧ (f.reqs req).done = false ∧
    answers.take maxRetries = List.replicate maxRetries .again

instance (f : Fdparms) (req : Nat) (answers : List Answer) : Decidable (Stuck f req answers) :=
  inferInstanceAs (Decidable (_ ∧ _ ∧ _))

/-- The first request is running or has failed after `issue`. -/
theorem settled_of_not_stuck {arg : Nat} (hqueue : f.queue = req :: q)
    (h : Inv version (req :: q) f) (hmax : 0 < f.sgQueueMax)
    (hcalm : Calm version (req :: q) f answers) (hstuck : ¬ Stuck f req answers)
    (hrun : issue version (some arg) f answers = (f', answers')) :
    (f'.reqs req).running = true ∨ (f'.reqs req).done = true := by
  obtain ⟨-, -, hissued⟩ := issue_spec [] hqueue (by simp) h hcalm hrun
  by_cases hrunning : (f.reqs req).running = true
  · exact .inl ((hissued.running req (not_mem_idle hrunning)).trans hrunning)
  by_cases hdone : (f.reqs req).done = true
  · exact .inr (hissued.stays req hdone)
  have hwaits := Bool.eq_false_of_not_eq_true hrunning
  have hdrop : ((req :: q).dropWhile fun id => (f.reqs id).running) = req :: q := by
    rw [List.dropWhile_cons, if_neg hrunning]
  have hwaiting := hdrop ▸ h.waiting
  have hready : Ready version [] [] (req :: q) f answers :=
    ⟨hqueue, by simp, hwaiting, h, hcalm⟩
  have hroom : f.sgQueueUsed < f.sgQueueMax := by
    have hzero : (req :: q).countP (inKernel f) = 0 := by
      refine List.countP_eq_zero.mpr ?_
      intro id hid
      rw [inKernel, hwaiting id hid, Bool.false_and]
      exact Bool.false_ne_true
    rw [h.used, hzero]
    exact hmax
  have hhead : headWaits f = true := by
    unfold headWaits
    rw [hqueue]
    dsimp only
    rw [hwaits, Bool.not_false]
  rw [issue, hqueue, hdrop, issueLoop, if_pos hroom] at hrun
  dsimp only at hrun
  rw [hready.head, hhead] at hrun
  generalize hsubmit : submit true maxRetries answers = result at hrun
  obtain ⟨a, answers₁⟩ := result
  cases a with
  | ok hdr =>
      have hfailed : 30000 ≤ version → ¬ HoldsFailed (req :: q) f := by
        intro hnew hholds
        cases (submit_quiet (hcalm.quiet hnew hholds) hsubmit).1
      have hsteady : 30000 ≤ version → Steady false answers₁ :=
        fun hnew => submit_steady (hhead ▸ hcalm.steady hnew) hsubmit
      have hready' : Ready version [] [req] q (accepting version arg req hdr f) answers₁ :=
        hready.accepting hfailed hroom hsteady
      obtain ⟨-, -, hissued'⟩ := issueLoop_spec hready' hrun
      have hreq : req ∉ q := fun hmem => lt_irrefl _ ((List.pairwise_cons.mp h.sorted).1 req hmem)
      refine .inl ((hissued'.running req hreq).trans ?_)
      rw [accepting_reqs]
      exact if_pos rfl
  | again => exact absurd ⟨hwaits, Bool.eq_false_of_not_eq_true hdone, submit_again hsubmit⟩ hstuck
  | noMem =>
      dsimp only at hrun
      rw [if_pos rfl] at hrun
      cases hrun
      refine .inr ?_
      rw [update_reqs, if_pos rfl]
      rfl
  | error =>
      cases hrun
      refine .inr ?_
      rw [update_reqs, if_pos rfl]
      rfl

end Issue

end SaneBackends.Scsi
