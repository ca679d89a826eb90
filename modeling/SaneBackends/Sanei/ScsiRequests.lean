import SaneBackends.Sanei.ScsiQueue
/-!
# Requests of the Linux SCSI layer

The calls of a user of one file descriptor. In runs in which the kernel accepts no request it
has failed and no request that is waited for is left refused, the count of the requests in the
kernel is exact, and each wait returns the status of the completion of its own request.
-/

namespace SaneBackends.Scsi

open SaneBackends.Lib

section Calls

variable {version : Int} {req : Nat} {f f' : Fdparms} {answers : List Answer}

/-- The fields of `fdparms` as a request enters the queue. -/
def entering (f : Fdparms) : Fdparms :=
  { f with
    freeList := f.freeList - 1, packId := f.packId + 1, queue := f.queue ++ [f.packId],
    reqs := Function.update f.reqs f.packId .entered }

theorem entering_reqs_ne {id : Nat} (h : id ≠ f.packId) : (entering f).reqs id = f.reqs id := by
  simp [entering, h]

theorem entering_reqs_self : (entering f).reqs f.packId = .entered := by
  simp [entering]

theorem Inv.entering (h : Inv version f.queue f) : Inv version (entering f).queue (entering f) := by
  have hne : ∀ id ∈ f.queue, id ≠ f.packId := fun id hid => ne_of_lt (h.bound id hid)
  have hsame : ∀ id ∈ f.queue, (Scsi.entering f).reqs id = f.reqs id :=
    fun id hid => entering_reqs_ne (hne id hid)
  have hkernel : ∀ id ∈ f.queue, inKernel (Scsi.entering f) id = inKernel f id := by
    intro id hid
    unfold inKernel
    rw [hsame id hid]
  have hnew : inKernel (Scsi.entering f) f.packId = false := by
    unfold inKernel
    rw [entering_reqs_self]
    rfl
  have hcases : ∀ {p : Nat → Prop}, (∀ id ∈ f.queue, p id) → p f.packId →
      ∀ id ∈ (Scsi.entering f).queue, p id := by
    intro p hold hlast id hid
    rcases List.mem_append.mp hid with hid | hid
    · exact hold id hid
    · rw [List.mem_singleton.mp hid]
      exact hlast
  refine {
    sorted := ?_
    bound := hcases (fun id hid => Nat.lt_succ_of_lt (h.bound id hid)) (Nat.lt_succ_self _)
    ordered := ?_
    failedOld := fun hold => hcases ?_ ?_
    failedNew := fun hnew => hcases ?_ ?_
    status := hcases ?_ ?_
    accepted := hcases ?_ ?_
    hdr := hcases ?_ ?_
    used := ?_
    room := h.room
    acceptedSorted := h.acceptedSorted
    acceptedBefore := hcases ?_ ?_
    acceptedBound := fun a ha => Nat.lt_succ_of_lt (h.acceptedBound a ha) }
  · refine List.pairwise_append.mpr ⟨h.sorted, List.pairwise_singleton _ _, ?_⟩
    intro a ha b hb
    rw [List.mem_singleton.mp hb]
    exact h.bound a ha
  · refine List.pairwise_append.mpr ⟨?_, List.pairwise_singleton _ _, ?_⟩
    · refine h.ordered.imp_of_mem ?_
      intro a b ha hb hab
      rw [hsame a ha, hsame b hb]
      exact hab
    · intro a ha b hb hrunning
      rw [List.mem_singleton.mp hb, entering_reqs_self] at hrunning
      simp [Req.entered] at hrunning
  · intro id hid
    rw [hsame id hid]
    exact h.failedOld hold id hid
  · rw [entering_reqs_self]
    exact fun hd => nomatch hd
  · intro id hid
    rw [hsame id hid]
    exact h.failedNew hnew id hid
  · rw [entering_reqs_self]
    exact fun hr => nomatch hr
  · intro id hid
    rw [hsame id hid]
    exact h.status id hid
  · rw [entering_reqs_self]
    exact fun hd => nomatch hd
  · intro id hid
    rw [hkernel id hid]
    exact h.accepted id hid
  · rw [hnew]
    constructor
    · intro hmem
      exact absurd (h.acceptedBound _ hmem) (lt_irrefl _)
    · exact fun heq => nomatch heq
  · intro id hid
    rw [hkernel id hid, hsame id hid]
    exact h.hdr id hid
  · rw [hnew]
    exact fun heq => nomatch heq
  · change f.sgQueueUsed = _
    rw [show (Scsi.entering f).queue = f.queue ++ [f.packId] from rfl, List.countP_append,
      List.countP_congr fun id hid => by rw [hkernel id hid], List.countP_singleton, hnew, h.used]
    simp
  · intro id hid
    rw [hsame id hid]
    exact h.acceptedBefore id hid
  · exact fun _ => h.acceptedBound

theorem Calm.entering (h : Calm version f.queue f answers) (hinv : Inv version f.queue f) :
    Calm version (entering f).queue (entering f) answers := by
  have hne : ∀ id ∈ f.queue, id ≠ f.packId := fun id hid => ne_of_lt (hinv.bound id hid)
  refine ⟨?_, ?_⟩
  · rintro hnew ⟨id, hid, hdone, hwaits⟩
    rcases List.mem_append.mp hid with hid | hid
    · rw [entering_reqs_ne (hne id hid)] at hdone hwaits
      exact h.quiet hnew ⟨id, hid, hdone, hwaits⟩
    · rw [List.mem_singleton.mp hid, entering_reqs_self] at hdone
      cases hdone
  · have hhead : headWaits (Scsi.entering f) = headWaits f := by
      unfold headWaits
      rw [show (Scsi.entering f).queue = f.queue ++ [f.packId] from rfl]
      cases hqueue : f.queue with
      | nil =>
          dsimp only [List.nil_append]
          rw [entering_reqs_self]
          rfl
      | cons id q =>
          dsimp only [List.cons_append]
          rw [entering_reqs_ne (hne id (by rw [hqueue]; exact List.mem_cons_self))]
    rw [hhead]
    exact h.steady

/-- What a call keeps for the requests that left the queue. -/
structure Kept (f f' : Fdparms) : Prop where
  queueMax : f'.sgQueueMax = f.sgQueueMax
  packId : f.packId ≤ f'.packId
  queue : ∀ id ∈ f'.queue, id ∈ f.queue ∨ f.packId ≤ id
  accepted : ∃ more, f'.accepted = f.accepted ++ more ∧
    ∀ a ∈ more, a.1 ∈ f.queue ∨ f.packId ≤ a.1

theorem reqEnter2_spec (malloc : Bool) {status : SaneStatus} (h : Inv version f.queue f)
    (hcalm : Calm version f.queue f answers)
    (hrun : reqEnter2 version malloc answers f = (status, f')) :
    Inv version f'.queue f' ∧ Kept f f' := by
  unfold reqEnter2 at hrun
  split_ifs at hrun
  · cases hrun
    exact ⟨h, rfl, le_rfl, fun _ hid => .inl hid, [], (List.append_nil _).symm, by simp⟩
  · dsimp only at hrun
    generalize hissue : issue version (some f.packId) _ answers = result at hrun
    obtain ⟨f₁, answers₁⟩ := result
    cases hrun
    obtain ⟨hinv, -, hissued⟩ := issue_spec (f := entering f) [] rfl (by simp) h.entering
      (hcalm.entering h) hissue
    have hqueue : f₁.queue = f.queue ++ [f.packId] := hissued.queue
    have hnew : ∀ id ∈ f.queue ++ [f.packId], id ∈ f.queue ∨ f.packId ≤ id := by
      intro id hid
      rcases List.mem_append.mp hid with hid | hid
      · exact .inl hid
      · exact .inr (List.mem_singleton.mp hid).ge
    obtain ⟨more, hmore, hidle⟩ := hissued.accepted
    refine ⟨by rwa [hqueue], hissued.queueMax, ?_, by rwa [hqueue], more, hmore, ?_⟩
    · exact hissued.packId ▸ Nat.le_succ _
    · intro a ha
      exact hnew a.1 (List.mem_filter.mp (hidle a ha)).1

/-- What a wait says of its request. -/
structure Answered (version : Int) (read : Option SgHeader) (handler : Option SaneStatus)
    (req : Nat) (status : SaneStatus) (f' : Fdparms) : Prop where
  accepted : ∀ hdr, (req, hdr) ∈ f'.accepted →
    status = completionStatus version handler read hdr
  refused : req ∉ f'.acceptedIds → status ≠ .good

theorem Inv.dequeue {q : List Nat} (h : Inv version q f) : Inv version q f.dequeue where
  sorted := h.sorted
  bound := h.bound
  ordered := h.ordered
  failedOld := h.failedOld
  failedNew := h.failedNew
  status := h.status
  accepted := h.accepted
  hdr := h.hdr
  used := h.used
  room := h.room
  acceptedSorted := h.acceptedSorted
  acceptedBefore := h.acceptedBefore
  acceptedBound := h.acceptedBound

/-- A request was accepted with one header. -/
theorem Inv.accepted_unique {q : List Nat} {hdr hdr' : SgIoHdr} (h : Inv version q f)
    (hmem : (req, hdr) ∈ f.accepted) (hmem' : (req, hdr') ∈ f.accepted) : hdr = hdr' := by
  have hnodup : (f.accepted.map Prod.fst).Nodup := h.acceptedSorted.imp ne_of_lt
  have heq := List.inj_on_of_nodup_map hnodup hmem hmem' rfl
  cases heq
  rfl

/-- Two calls of `issue` on a queue and on what is left of it, and the end of a wait. -/
theorem Kept.wait {f₁ g f₂ : Fdparms} {rest q : List Nat} (hqueue : f.queue = req :: rest)
    (h₁ : Issued (idle (req :: rest) f) f f₁) (hqueueMax : g.sgQueueMax = f₁.sgQueueMax)
    (hpackId : g.packId = f₁.packId) (haccepted : g.accepted = f₁.accepted)
    (h₂ : Issued (idle q g) g f₂) (hq : q ⊆ req :: rest) (hrest : f₂.dequeue.queue = rest) :
    Kept f f₂.dequeue := by
  obtain ⟨more₁, hmore₁, hidle₁⟩ := h₁.accepted
  obtain ⟨more₂, hmore₂, hidle₂⟩ := h₂.accepted
  refine ⟨?_, ?_, ?_, more₁ ++ more₂, ?_, ?_⟩
  · exact h₂.queueMax.trans (hqueueMax.trans h₁.queueMax)
  · exact (h₂.packId.trans (hpackId.trans h₁.packId)).ge
  · intro id hid
    rw [hrest] at hid
    rw [hqueue]
    exact .inl (List.mem_cons_of_mem req hid)
  · change f₂.accepted = _
    rw [hmore₂, haccepted, hmore₁, List.append_assoc]
  · intro a ha
    rw [hqueue]
    rcases List.mem_append.mp ha with ha | ha
    · exact .inl (List.mem_filter.mp (hidle₁ a ha)).1
    · exact .inl (hq (List.mem_filter.mp (hidle₂ a ha)).1)

/-- A wait keeps the queue, and says of its request what the kernel said. -/
theorem reqWait_spec {read : Option SgHeader} {handler : Option SaneStatus} {status : SaneStatus}
    (h : Inv version f.queue f) (hmax : 0 < f.sgQueueMax)
    (hcalm : Calm version f.queue f answers) (hstuck : ¬ Stuck f req answers)
    (hrun : reqWait version req answers read handler f = some (status, f')) :
    Inv version f'.queue f' ∧ Kept f f' ∧ f.queue = req :: f'.queue ∧
      Answered version read handler req status f' := by
  unfold reqWait at hrun
  cases hqueue : f.queue with
  | nil =>
      rw [hqueue] at hrun
      cases hrun
  | cons qhead rest =>
      rw [hqueue] at hrun h hcalm
      dsimp only at hrun
      rw [Option.ite_none_left_eq_some] at hrun
      obtain ⟨hhead, hrun⟩ := hrun
      obtain rfl : qhead = req := not_not.mp hhead
      generalize hissue : issue version (some qhead) f answers = result at hrun
      obtain ⟨f₁, answers₁⟩ := result
      obtain ⟨hinv₁, hcalm₁, hissued₁⟩ := issue_spec [] hqueue (by simp) h hcalm hissue
      have hsettled := settled_of_not_stuck hqueue h hmax hcalm hstuck hissue
      have hqueue₁ : f₁.queue = qhead :: rest := hissued₁.queue.trans hqueue
      dsimp only at hrun
      split_ifs at hrun with hdone
      · -- the request has failed, and fails again if it is submitted again
        generalize hissue₂ : issue version rest.head? f₁ answers₁ = result at hrun
        obtain ⟨f₂, answers₂⟩ := result
        obtain ⟨hinv₂, -, hissued₂⟩ := issue_spec [] hqueue₁ (by simp) hinv₁ hcalm₁ hissue₂
        cases hrun
        have hqueue₂ : f₂.dequeue.queue = rest := by
          change f₂.queue.tail = rest
          rw [hissued₂.queue, hqueue₁, List.tail_cons]
        have hdone₂ : (f₂.reqs qhead).done = true := hissued₂.stays qhead hdone
        have hkernel : inKernel f₂ qhead = false := by
          rw [inKernel, hdone₂, Bool.not_true, Bool.and_false]
        have hnot : qhead ∉ f₂.acceptedIds := by
          rw [hinv₂.accepted qhead List.mem_cons_self, hkernel]
          exact Bool.false_ne_true
        rw [hqueue₂]
        refine ⟨(hinv₂.tail hkernel).dequeue, ?_, rfl, ?_, ?_⟩
        · exact .wait hqueue hissued₁ rfl rfl rfl hissued₂ (List.Subset.refl _) hqueue₂
        · intro hdr hmem
          exact absurd (List.mem_map_of_mem (f := Prod.fst) hmem) hnot
        · intro _
          exact hinv₂.status qhead List.mem_cons_self hdone₂
      · -- the kernel has the request; its completion is collected before the next is issued
        have hrunning : (f₁.reqs qhead).running = true := hsettled.resolve_right hdone
        have hkernel : inKernel f₁ qhead = true := by
          rw [inKernel, hrunning, Bool.eq_false_of_not_eq_true hdone]
          rfl
        generalize hissue₂ : issue version rest.head? _ answers₁ = result at hrun
        obtain ⟨f₂, answers₂⟩ := result
        have hrunning' : ((collecting qhead f₁).reqs qhead).running = true :=
          collecting_running.trans hrunning
        obtain ⟨hinv₂, -, hissued₂⟩ := issue_spec (f := collecting qhead f₁) [qhead] hqueue₁
          (by simpa using hrunning') (hinv₁.collecting hkernel) (hcalm₁.collecting hinv₁.sorted)
          hissue₂
        cases hrun
        have hqueue₂ : f₂.dequeue.queue = rest := by
          change f₂.queue.tail = rest
          rw [hissued₂.queue, show (collecting qhead f₁).queue = qhead :: rest from hqueue₁,
            List.tail_cons]
        have hhdr : (f₂.reqs qhead).hdr = (f₁.reqs qhead).hdr := by
          rw [hissued₂.hdr qhead (not_mem_idle hrunning')]
          simp [collecting, Fdparms.update]
        have hmem : (qhead, (f₁.reqs qhead).hdr) ∈ f₂.accepted := by
          obtain ⟨more, hmore, -⟩ := hissued₂.accepted
          rw [hmore]
          exact List.mem_append_left _ (hinv₁.hdr qhead List.mem_cons_self hkernel)
        rw [hqueue₂]
        refine ⟨hinv₂.dequeue, ?_, rfl, ?_, ?_⟩
        · exact Kept.wait (g := collecting qhead f₁) hqueue hissued₁ rfl rfl rfl hissued₂
            (List.subset_cons_self _ _) hqueue₂
        · intro hdr hmem'
          rw [hhdr, hinv₂.accepted_unique hmem' hmem]
        · intro hnot
          exact absurd (List.mem_map_of_mem (f := Prod.fst) hmem) hnot

theorem reqFlush_spec (h : Inv version f.queue f) :
    Inv version (reqFlush f).queue (reqFlush f) ∧ Kept f (reqFlush f) := by
  have hcount : ∀ (q : List Nat) (used : Int), q.foldl (fun used id =>
      if (f.reqs id).running ∧ ¬(f.reqs id).done then used - 1 else used) used =
        used - q.countP (inKernel f) := by
    intro q
    induction q with
    | nil => simp
    | cons id q ih =>
        intro used
        rw [List.foldl_cons, ih, List.countP_cons]
        by_cases hid : inKernel f id = true
        · have : (f.reqs id).running = true ∧ ¬(f.reqs id).done = true := by
            simpa [inKernel] using hid
          rw [if_pos this, if_pos hid]
          push_cast
          omega
        · have : ¬((f.reqs id).running = true ∧ ¬(f.reqs id).done = true) := by
            simpa [inKernel] using hid
          rw [if_neg this, if_neg hid]
          simp
  have hused : (reqFlush f).sgQueueUsed = 0 := by
    change List.foldl _ _ _ = _
    rw [hcount, h.used]
    omega
  constructor
  · refine {
      sorted := List.Pairwise.nil
      bound := fun _ hid => by cases hid
      ordered := List.Pairwise.nil
      failedOld := fun _ _ hid => by cases hid
      failedNew := fun _ _ hid => by cases hid
      status := fun _ hid => by cases hid
      accepted := fun _ hid => by cases hid
      hdr := fun _ hid => by cases hid
      used := hused
      room := ?_
      acceptedSorted := h.acceptedSorted
      acceptedBefore := fun _ hid => by cases hid
      acceptedBound := h.acceptedBound }
    have hroom := h.room
    rw [h.used] at hroom
    rw [hused]
    exact le_trans (Int.natCast_nonneg _) hroom
  · exact ⟨rfl, le_rfl, fun _ hid => (by cases hid), [], (List.append_nil _).symm, by simp⟩

end Calls

section Sessions

variable {version : Int} {s s' : Session} {c : Call}

/-- The kernel accepts no request that it has failed before, and a request that is waited for
is accepted or fails. -/
def Safe (version : Int) (s : Session) : Call → Prop
  | .enter2 _ answers => Calm version s.fd.queue s.fd answers
  | .wait req answers _ _ =>
      Calm version s.fd.queue s.fd answers ∧ ¬ Stuck s.fd req answers
  | .flush => True

instance (version : Int) (s : Session) : ∀ c, Decidable (Safe version s c)
  | .enter2 _ answers => inferInstanceAs (Decidable (Calm version s.fd.queue s.fd answers))
  | .wait req answers _ _ =>
      inferInstanceAs (Decidable (Calm version s.fd.queue s.fd answers ∧ ¬ Stuck s.fd req answers))
  | .flush => .isTrue trivial

/-- The count is that of the requests in the queue that the kernel accepted. -/
structure Accounted (f : Fdparms) : Prop where
  used : f.sgQueueUsed = (f.queue.filter (· ∈ f.acceptedIds)).length
  nonneg : 0 ≤ f.sgQueueUsed
  room : f.sgQueueUsed ≤ f.sgQueueMax

/-- Requests were accepted once, in the order they were entered, and each wait says of its
request what the kernel said. -/
structure Executed (version : Int) (s : Session) : Prop where
  inOrder : s.fd.acceptedIds.Pairwise (· < ·)
  entered : ∀ id ∈ s.fd.acceptedIds, id < s.fd.packId
  waited : ∀ w ∈ s.waited, Answered version w.read w.handler w.req w.status s.fd

theorem Inv.accounted {q : List Nat} {f : Fdparms} (h : Inv version q f) (hq : q = f.queue) :
    Accounted f := by
  subst hq
  have hcount : f.queue.countP (inKernel f) = (f.queue.filter (· ∈ f.acceptedIds)).length := by
    rw [List.countP_eq_length_filter]
    congr 1
    refine List.filter_congr ?_
    intro id hid
    rw [Bool.eq_iff_iff, decide_eq_true_iff]
    exact (h.accepted id hid).symm
  refine ⟨?_, ?_, h.room⟩
  · rw [h.used, hcount]
  · rw [h.used]
    exact Int.natCast_nonneg _

/-- The queue is in order, and what was waited for has left it for good. -/
structure Sound (version : Int) (s : Session) : Prop where
  inv : Inv version s.fd.queue s.fd
  max : 0 < s.fd.sgQueueMax
  gone : ∀ w ∈ s.waited, w.req < s.fd.packId ∧ ∀ id ∈ s.fd.queue, w.req < id
  waited : ∀ w ∈ s.waited, Answered version w.read w.handler w.req w.status s.fd

/-- What is accepted later is not what was waited for. -/
theorem Answered.kept {f f' : Fdparms} {w : Waited}
    (h : Answered version w.read w.handler w.req w.status f)
    (hgone : w.req < f.packId ∧ ∀ id ∈ f.queue, w.req < id) (hkept : Kept f f') :
    Answered version w.read w.handler w.req w.status f' := by
  obtain ⟨more, hmore, hlater⟩ := hkept.accepted
  have hnot : ∀ a ∈ more, a.1 ≠ w.req := by
    intro a ha
    rcases hlater a ha with hq | hnew
    · exact ne_of_gt (hgone.2 a.1 hq)
    · exact ne_of_gt (hgone.1.trans_le hnew)
  constructor
  · intro hdr hmem
    rw [hmore] at hmem
    rcases List.mem_append.mp hmem with hold | hnew
    · exact h.accepted hdr hold
    · exact absurd rfl (hnot _ hnew)
  · intro hrefused
    refine h.refused ?_
    intro hmem
    refine hrefused ?_
    rw [Fdparms.acceptedIds, hmore, List.map_append]
    exact List.mem_append_left _ hmem

theorem Kept.gone {f f' : Fdparms} {req : Nat} (h : Kept f f')
    (hgone : req < f.packId ∧ ∀ id ∈ f.queue, req < id) :
    req < f'.packId ∧ ∀ id ∈ f'.queue, req < id := by
  refine ⟨hgone.1.trans_le h.packId, ?_⟩
  intro id hid
  rcases h.queue id hid with hq | hnew
  · exact hgone.2 id hq
  · exact hgone.1.trans_le hnew

theorem Sound.kept {f' : Fdparms} (h : Sound version s) (hinv : Inv version f'.queue f')
    (hkept : Kept s.fd f') : Sound version { s with fd := f' } where
  inv := hinv
  max := hkept.queueMax ▸ h.max
  gone := fun w hw => hkept.gone (h.gone w hw)
  waited := fun w hw => (h.waited w hw).kept (h.gone w hw) hkept

theorem Session.call_wait {req : Nat} {answers : List Answer} {read : Option SgHeader}
    {handler : Option SaneStatus}
    (h : s.call version (.wait req answers read handler) = some s') :
    ∃ status f, reqWait version req answers read handler s.fd = some (status, f) ∧
      s' = { fd := f, waited := s.waited ++ [⟨req, read, handler, status⟩] } := by
  unfold Session.call at h
  dsimp only at h
  cases hwait : reqWait version req answers read handler s.fd with
  | none =>
      rw [hwait] at h
      cases h
  | some result =>
      rw [hwait] at h
      exact ⟨result.1, result.2, rfl, (Option.some.inj h).symm⟩

theorem Sound.call (h : Sound version s) (hsafe : Safe version s c)
    (hcall : s.call version c = some s') : Sound version s' := by
  cases c with
  | enter2 malloc answers =>
      cases hcall
      obtain ⟨hinv, hkept⟩ := reqEnter2_spec malloc h.inv hsafe rfl
      exact h.kept hinv hkept
  | wait req answers read handler =>
      obtain ⟨status, f, hwait, rfl⟩ := Session.call_wait hcall
      obtain ⟨hinv, hkept, hqueue, hanswered⟩ :=
        reqWait_spec h.inv h.max hsafe.1 hsafe.2 hwait
      have hsound := h.kept hinv hkept
      refine ⟨hinv, hsound.max, ?_, ?_⟩
      · intro w hw
        rcases List.mem_append.mp hw with hw | hw
        · exact hsound.gone w hw
        · rw [List.mem_singleton.mp hw]
          have hsorted := h.inv.sorted
          have hbound := h.inv.bound req
          rw [hqueue] at hsorted hbound
          refine ⟨(hbound List.mem_cons_self).trans_le hkept.packId, ?_⟩
          exact (List.pairwise_cons.mp hsorted).1
      · intro w hw
        rcases List.mem_append.mp hw with hw | hw
        · exact hsound.waited w hw
        · rw [List.mem_singleton.mp hw]
          exact hanswered
  | flush =>
      cases hcall
      obtain ⟨hinv, hkept⟩ := reqFlush_spec h.inv
      exact h.kept hinv hkept

theorem sound_of_reach (h : (scsi version).Reach (Safe version) s) : Sound version s := by
  refine h.invariant ?_ ?_
  · rintro s ⟨queueMax, packId, hmax, rfl⟩
    refine ⟨?_, hmax, fun _ hw => (nomatch hw), fun _ hw => (nomatch hw)⟩
    exact {
      sorted := .nil, bound := fun _ hid => (nomatch hid), ordered := .nil
      failedOld := fun _ _ hid => (nomatch hid), failedNew := fun _ _ hid => (nomatch hid)
      status := fun _ hid => (nomatch hid), accepted := fun _ hid => (nomatch hid)
      hdr := fun _ hid => (nomatch hid), used := rfl, room := hmax.le, acceptedSorted := .nil
      acceptedBefore := fun _ hid => (nomatch hid), acceptedBound := fun _ ha => (nomatch ha) }
  · intro s c s' _ hsound hsafe hcall
    exact hsound.call hsafe hcall

/-- In a safe run the count of requests in the kernel is exact at every return. -/
theorem accounted_of_reach (h : (scsi version).Reach (Safe version) s) : Accounted s.fd :=
  (sound_of_reach h).inv.accounted rfl

/-- In a safe run requests are executed once, in order, and failures are reported. -/
theorem executed_of_reach (h : (scsi version).Reach (Safe version) s) : Executed version s where
  inOrder := (sound_of_reach h).inv.acceptedSorted
  entered := (sound_of_reach h).inv.acceptedBound
  waited := (sound_of_reach h).waited

end Sessions

theorem scsi_step {version : Int} (s : Session) (c : Call) (s' : Session)
    (h : s.call version c = some s') : (scsi version).step s c s' := h

theorem scsi_init (version : Int) (packId : Nat) :
    (scsi version).init (Session.opened 2 packId) := ⟨2, packId, by decide, rfl⟩

/-- The header of a command that ended with a check condition and no sense data. -/
def checkCondition : SgIoHdr := { SgIoHdr.zero with info := 1, status := 2, maskedStatus := 1 }

/-- Two requests, the second of which the kernel takes only when the first was waited for. -/
def twoRequests : List Call := [
  .enter2 true [.ok .zero], .enter2 true [.noMem], .wait 7 [.ok checkCondition] none none,
  .wait 8 [] none (some .good)]

theorem accounted_of_reach_twoRequests : ∃ s,
    (scsi 30534).Reach (Safe 30534) s ∧ Accounted s.fd := by
  obtain ⟨s, hreach, -⟩ := System.exists_reach_runSteps (C := Safe 30534) (Q := fun _ => True)
    scsi_step (scsi_init 30534 7) twoRequests (by decide)
  exact ⟨s, hreach, accounted_of_reach hreach⟩

theorem executed_of_reach_twoRequests : ∃ s,
    (scsi 30534).Reach (Safe 30534) s ∧ Executed 30534 s := by
  obtain ⟨s, hreach, -⟩ := System.exists_reach_runSteps (C := Safe 30534) (Q := fun _ => True)
    scsi_step (scsi_init 30534 7) twoRequests (by decide)
  exact ⟨s, hreach, executed_of_reach hreach⟩

/-- The kernel refuses a request for the time being until its wait gives up. -/
theorem not_accounted_again :
    ¬ ∀ version s, (scsi version).Reachable s → Accounted s.fd := by
  intro h
  obtain ⟨s, hreach, hused⟩ := System.exists_reach_runSteps (C := fun _ _ => True)
    (Q := fun s : Session => s.fd.sgQueueUsed = -1) scsi_step (scsi_init 30534 0)
    [.enter2 true (List.replicate 20 .again), .wait 0 (List.replicate 20 .again) none none]
    (by decide)
  have hnonneg := (h 30534 s hreach).nonneg
  rw [hused] at hnonneg
  exact absurd hnonneg (by decide)

/-- A request fails for lack of memory, and is accepted as it is submitted again for its wait.
The wait returns without a look at the completion. -/
theorem not_executed_resubmitted :
    ¬ ∀ version s, (scsi version).Reachable s → Executed version s := by
  intro h
  obtain ⟨s, hreach, hwaited, haccepted⟩ := System.exists_reach_runSteps (C := fun _ _ => True)
    (Q := fun s : Session =>
      (⟨0, none, none, .good⟩ : Waited) ∈ s.waited ∧ (0, checkCondition) ∈ s.fd.accepted)
    scsi_step (scsi_init 30534 0)
    [.enter2 true [.noMem], .wait 0 [.ok checkCondition] none none] (by decide)
  have hstatus := ((h 30534 s hreach).waited _ hwaited).accepted checkCondition haccepted
  exact absurd hstatus (by decide)

end SaneBackends.Scsi
