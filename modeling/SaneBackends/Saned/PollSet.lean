import SaneBackends.Lib.Result
import SaneBackends.Lib.Transition
import SaneBackends.Saned.Standalone
/-!
# The poll set mirrors the list of descriptors

A turn that changes the list marks the poll set as invalid, but for one kind: reaping on
account of a child without a pidfd takes any exited child, and the entry of its pidfd
goes without notice. In runs without such a turn the poll set is the list whenever
`poll` is called, and every exited child is removed with its entry.
-/

namespace SaneBackends.Saned

open SaneBackends.Lib

/-- The processes forked and not yet waited for. -/
structure Kernel where
  live : List Nat
  zombies : List Nat

def Kernel.exit (pids : List Nat) (k : Kernel) : Kernel :=
  ⟨k.live.filter (· ∉ pids), k.zombies ++ pids⟩

def Kernel.fork (pids : List Nat) (k : Kernel) : Kernel := ⟨k.live ++ pids, k.zombies⟩

/-- A turn of the loop, the children that exit before its `poll` returns, and those that do
before it has reaped. -/
structure Iteration where
  exitsBefore : List Nat
  turn : Turn
  exitsAfter : List Nat

def AcceptAnswer.fork : AcceptAnswer → Option (Nat × ChildAnswer)
  | .accepted fork => fork
  | .failed => none

/-- The children that are forked. -/
def Turn.forks (t : Turn) : List (Nat × ChildAnswer) := t.accept.filterMap (·.fork)

/-- The processes when `poll` returns, and when no exited one is left to wait for. -/
def Iteration.polled (it : Iteration) (k : Kernel) : Kernel := k.exit it.exitsBefore

def Iteration.reaped (it : Iteration) (k : Kernel) : Kernel :=
  ((it.polled k).fork (it.turn.forks.map (·.1))).exit it.exitsAfter

/-- The pidfds that forked children are given. -/
def pidfdsOf (forks : List (Nat × ChildAnswer)) : List Int :=
  (forks.map (·.2.pidfd)).filter (· ≠ -1)

/-- What the kernel does in a turn. `poll` reports a pidfd as readable exactly if its process
has exited; new processes and descriptors are none of those in use; `waitpid` returns the
exited children. -/
structure Iteration.Possible (s : Standalone) (k : Kernel) (it : Iteration) : Prop where
  exitsBefore : it.exitsBefore ⊆ k.live
  revents : ∀ revents, it.turn.poll = .events revents →
    ∀ s', preparePollSet it.turn.memory s = .ok s' → revents.length = s'.numSanedFds ∧
      ∀ (i : Nat) (p : Pollfd) (r : Revents), s'.pollSet[i]? = some p → revents[i]? = some r →
        ∀ c ∈ s.children, c.pidfd = p.fd → (r.pollin = true ↔ c.pid ∈ (it.polled k).zombies)
  accepts : ∀ (i : Nat) fork, it.turn.accept[i]? = some (.accepted fork) →
    ∃ revents f, it.turn.poll = .events revents ∧ revents[i]? = some ⟨true, false⟩ ∧
      s.sanedFds[i]? = some f ∧ f.type = .listener
  forkPids : (it.turn.forks.map (·.1)).Nodup ∧
    ∀ pid ∈ it.turn.forks.map (·.1), pid ∉ (it.polled k).live ++ (it.polled k).zombies
  forkPidfds : (pidfdsOf it.turn.forks).Nodup ∧
    ∀ fd ∈ pidfdsOf it.turn.forks, 0 ≤ fd ∧ fd ∉ s.sanedFds.map (·.fd)
  bindings : ∀ fds, it.turn.bindings = some fds → (fds.map (·.1)).Nodup ∧
    ∀ fd ∈ fds.map (·.1), 0 ≤ fd ∧ fd ∉ pidfdsOf it.turn.forks ∧
      ∀ f ∈ s.sanedFds, f.type = .process → f.fd ≠ fd
  exitsAfter : it.exitsAfter ⊆ ((it.polled k).fork (it.turn.forks.map (·.1))).live
  waits : it.turn.waits.Perm (it.reaped k).zombies

/-- The exited children that were waited for are gone. -/
def Kernel.waited (reaped : Bool) (k : Kernel) : Kernel := if reaped then ⟨k.live, []⟩ else k

/-- Each pidfd that is opened gets an entry. -/
def Watched (forks : List (Nat × ChildAnswer)) : Prop :=
  ∀ fork ∈ forks, fork.2.memory = true → fork.2.pidfd ≠ -1 → fork.2.fdMemory = true

section System

variable (runOnce : Bool)

/-- The listeners and the child the loop starts with. -/
structure Starts (listeners : List (Int × Bool)) (avahi : Option (Nat × ChildAnswer)) : Prop where
  nodup : (listeners.map (·.1)).Nodup
  nonneg : ∀ fd ∈ listeners.map (·.1), 0 ≤ fd
  fresh : ∀ fd ∈ pidfdsOf avahi.toList, 0 ≤ fd ∧ fd ∉ listeners.map (·.1)
  watched : Watched avahi.toList

def standaloneSystem : System (Standalone × Kernel) Iteration where
  init p := ∃ listeners avahi, Starts listeners avahi ∧
    p = (startStandalone listeners avahi, ⟨avahi.toList.map (·.1), []⟩)
  step p it p' := p.1.running = true ∧ it.Possible p.1 p.2 ∧
    ∃ reaped, turn runOnce it.turn p.1 = .ok (p'.1, reaped) ∧
      p'.2 = (it.reaped p.2).waited reaped

end System

/-- An event marks the poll set as invalid: a process has exited, a listener is broken, or
a connection is accepted. -/
def Noticed (accept : AcceptAnswer) (f : SanedFd) (r : Revents) : Prop :=
  match f.type with
  | .process => r.pollin = true
  | .listener => r.error = true ∨ r.pollin = true ∧ accept ≠ .failed

/-- An entry of the list with an event of some kind. -/
def AnyEvent (p : AcceptAnswer → SanedFd → Revents → Prop) (accept : List AcceptAnswer)
    (revents : List Revents) (sfds : List SanedFd) : Prop :=
  ∃ (i : Nat) (f : SanedFd) (r : Revents), sfds[i]? = some f ∧ revents[i]? = some r ∧
    p ((accept[i]?).getD .failed) f r

/-- Some event of the turn is noticed. -/
def Turn.Notices (t : Turn) (s : Standalone) : Prop :=
  ∃ revents, t.poll = .events revents ∧ AnyEvent Noticed t.accept revents s.sanedFds

/-- A turn reaps for the sake of a child without a pidfd, no event of it invalidates the
poll set, and a child with a pidfd exits behind its `poll`. -/
structure Iteration.ReapsUnnoticed (s : Standalone) (it : Iteration) : Prop where
  events : ∃ revents, it.turn.poll = .events revents
  timeout : timeoutNeeded s = true
  unnoticed : ¬ it.turn.Notices s
  reaped : ∃ c ∈ s.children, c.pidfd ≠ -1 ∧ c.pid ∈ it.exitsAfter

/-- The descriptors and children that are kept: no number is used twice, a child with a
pidfd has its entry, and no such entry is without its child. -/
structure Kept (fds : List SanedFd) (children : List SanedChild) : Prop where
  nodupFds : (fds.map (·.fd)).Nodup
  nonneg : ∀ f ∈ fds, 0 ≤ f.fd
  nodupPids : (children.map (·.pid)).Nodup
  watched : ∀ c ∈ children, c.pidfd ≠ -1 → ⟨.process, c.pidfd, pollin⟩ ∈ fds
  owned : ∀ f ∈ fds, f.type = .process → ∃ c ∈ children, c.pidfd = f.fd
  nodupPidfds : children.Pairwise fun c c' => c.pidfd = c'.pidfd → c.pidfd = -1

/-- A poll set that is taken for valid is the list. -/
def Standalone.Exact (s : Standalone) : Prop :=
  s.pollSetValid = true → s.pollSet = s.sanedFds.map SanedFd.toPollfd

def Standalone.Counted (s : Standalone) : Prop := s.numSanedFds = s.sanedFds.length

namespace Kept

variable {fds : List SanedFd} {children : List SanedChild}

theorem pidfd_unique (h : Kept fds children) {c c' : SanedChild} (hc : c ∈ children)
    (hc' : c' ∈ children) (heq : c.pidfd = c'.pidfd) (hpidfd : c.pidfd ≠ -1) : c = c' := by
  by_contra hne
  have hsymm : Std.Symm fun c c' : SanedChild => c.pidfd = c'.pidfd → c.pidfd = -1 :=
    ⟨fun c c' h heq => heq.trans (h heq.symm)⟩
  exact hpidfd (h.nodupPidfds.forall hc hc' hne heq)

theorem pid_unique (h : Kept fds children) {c c' : SanedChild} (hc : c ∈ children)
    (hc' : c' ∈ children) (heq : c.pid = c'.pid) : c = c' :=
  List.inj_on_of_nodup_map h.nodupPids hc hc' heq

theorem addListener (h : Kept fds children) {fd : Int} (hnonneg : 0 ≤ fd)
    (hfresh : fd ∉ fds.map (·.fd)) : Kept (⟨.listener, fd, pollin⟩ :: fds) children where
  nodupFds := List.nodup_cons.mpr ⟨hfresh, h.nodupFds⟩
  nonneg := List.forall_mem_cons.mpr ⟨hnonneg, h.nonneg⟩
  nodupPids := h.nodupPids
  watched c hc hpidfd := List.mem_cons_of_mem _ (h.watched c hc hpidfd)
  owned := List.forall_mem_cons.mpr ⟨nofun, h.owned⟩
  nodupPidfds := h.nodupPidfds

theorem addChild (h : Kept fds children) {c : SanedChild} (hpid : c.pid ∉ children.map (·.pid))
    (hpidfd : c.pidfd = -1) : Kept fds (c :: children) where
  nodupFds := h.nodupFds
  nonneg := h.nonneg
  nodupPids := List.nodup_cons.mpr ⟨hpid, h.nodupPids⟩
  watched := List.forall_mem_cons.mpr ⟨fun hne => absurd hpidfd hne, h.watched⟩
  owned f hf htype :=
    let ⟨c', hc', hfd⟩ := h.owned f hf htype
    ⟨c', List.mem_cons_of_mem _ hc', hfd⟩
  nodupPidfds := List.pairwise_cons.mpr ⟨fun _ _ _ => hpidfd, h.nodupPidfds⟩

theorem addWatchedChild (h : Kept fds children) {c : SanedChild}
    (hpid : c.pid ∉ children.map (·.pid)) (hnonneg : 0 ≤ c.pidfd)
    (hfresh : c.pidfd ∉ fds.map (·.fd)) :
    Kept (⟨.process, c.pidfd, pollin⟩ :: fds) (c :: children) where
  nodupFds := List.nodup_cons.mpr ⟨hfresh, h.nodupFds⟩
  nonneg := List.forall_mem_cons.mpr ⟨hnonneg, h.nonneg⟩
  nodupPids := List.nodup_cons.mpr ⟨hpid, h.nodupPids⟩
  watched := List.forall_mem_cons.mpr ⟨fun _ => List.mem_cons_self,
    fun c' hc' hne => List.mem_cons_of_mem _ (h.watched c' hc' hne)⟩
  owned := List.forall_mem_cons.mpr ⟨fun _ => ⟨c, List.mem_cons_self, rfl⟩, fun f hf htype =>
    let ⟨c', hc', hfd⟩ := h.owned f hf htype
    ⟨c', List.mem_cons_of_mem _ hc', hfd⟩⟩
  nodupPidfds := by
    refine List.pairwise_cons.mpr ⟨fun c' hc' heq => ?_, h.nodupPidfds⟩
    by_contra hne
    exact hfresh (List.mem_map.mpr ⟨_, h.watched c' hc' (heq ▸ hne), heq.symm⟩)

/-- Entries and children may go, if neither a child nor its entry stays behind alone. -/
theorem filter (h : Kept fds children) (p : SanedFd → Bool) (q : SanedChild → Bool)
    (hwatched : ∀ c ∈ children, q c = true → c.pidfd ≠ -1 → p ⟨.process, c.pidfd, pollin⟩ = true)
    (howned : ∀ f ∈ fds, p f = true → ∀ c ∈ children, c.pidfd = f.fd → q c = true) :
    Kept (fds.filter p) (children.filter q) where
  nodupFds := h.nodupFds.sublist (List.filter_sublist.map _)
  nonneg f hf := h.nonneg f (List.mem_of_mem_filter hf)
  nodupPids := h.nodupPids.sublist (List.filter_sublist.map _)
  watched c hc hpidfd := by
    obtain ⟨hc, hq⟩ := List.mem_filter.mp hc
    exact List.mem_filter.mpr ⟨h.watched c hc hpidfd, hwatched c hc hq hpidfd⟩
  owned f hf htype := by
    obtain ⟨hf, hp⟩ := List.mem_filter.mp hf
    obtain ⟨c, hc, hfd⟩ := h.owned f hf htype
    exact ⟨c, List.mem_filter.mpr ⟨hc, howned f hf hp c hc hfd⟩, hfd⟩
  nodupPidfds := h.nodupPidfds.sublist List.filter_sublist

end Kept

section Lists

theorem length_sub_countP {α : Type} (p : α → Bool) (l : List α) :
    l.length - l.countP p = (l.filter fun x => !p x).length := by
  have hsplit := l.length_eq_countP_add_countP p
  have hrest : l.countP (fun x => decide ¬p x = true) = (l.filter fun x => !p x).length := by
    rw [List.countP_eq_length_filter]
    congr 2
    funext x
    cases p x <;> rfl
  omega

theorem counted_addFd {s : Standalone} (h : s.Counted) (memory : Bool) (fd : Int)
    (type : SanedFdType) (events : Nat) : (addFd memory fd type events s).Counted := by
  cases memory with
  | false => exact h
  | true => exact congrArg (· + 1) h

theorem counted_closeFds {s : Standalone} (h : s.Counted) (mask : SanedFdType → Bool) (fd : Int) :
    (closeFds mask fd s).Counted := by
  rw [Standalone.Counted] at h
  rw [Standalone.Counted, closeFds, h]
  exact length_sub_countP _ _

theorem counted_waitChild {s : Standalone} (h : s.Counted) (ret : Nat) :
    (waitChild ret s).Counted := by
  unfold waitChild
  split
  · exact h
  · refine counted_closeFds ?_ _ _
    exact h

/-- `close_fds` for one descriptor. -/
theorem closeFds_fd (fd : Int) (s : Standalone) :
    (closeFds (fun _ => false) fd s).sanedFds = s.sanedFds.filter fun f => fd ≠ f.fd := by
  simp only [closeFds, Bool.false_or]
  congr 1
  funext f
  by_cases hfd : fd = f.fd <;> simp [hfd]

theorem eraseP_pid {children : List SanedChild} (h : (children.map (·.pid)).Nodup) (ret : Nat) :
    children.eraseP (·.pid = ret) = children.filter (·.pid ∉ [ret]) := by
  induction children with
  | nil => rfl
  | cons c children ih =>
      rw [List.map_cons, List.nodup_cons] at h
      by_cases hpid : c.pid = ret
      · have hrest : children.filter (·.pid ∉ [ret]) = children := by
          rw [List.filter_eq_self]
          intro c' hc'
          rw [decide_eq_true_eq, List.mem_singleton]
          rintro heq
          exact h.1 (List.mem_map.mpr ⟨c', hc', heq.trans hpid.symm⟩)
        rw [List.eraseP_cons_of_pos (by simpa using hpid), List.filter_cons_of_neg (by simpa using hpid),
          hrest]
      · rw [List.eraseP_cons_of_neg (by simpa using hpid), List.filter_cons_of_pos (by simpa using hpid),
          ih h.2]

/-- The entries of exited children. -/
def Closed (waits : List Nat) (children : List SanedChild) (f : SanedFd) : Prop :=
  ∃ c ∈ children, c.pid ∈ waits ∧ c.pidfd = f.fd

instance (waits : List Nat) (children : List SanedChild) (f : SanedFd) :
    Decidable (Closed waits children f) :=
  inferInstanceAs (Decidable (∃ c ∈ children, c.pid ∈ waits ∧ c.pidfd = f.fd))

/-- Waiting for a child removes it and the entry of its pidfd. -/
theorem waitChild_spec {s : Standalone} (h : Kept s.sanedFds s.children) (ret : Nat) :
    (waitChild ret s).children = s.children.filter (·.pid ∉ [ret]) ∧
      (waitChild ret s).sanedFds = s.sanedFds.filter fun f => ¬ Closed [ret] s.children f := by
  unfold waitChild
  cases hfind : s.children.find? (·.pid = ret) with
  | none =>
      have hnone : ∀ c ∈ s.children, c.pid ≠ ret := by
        intro c hc
        simpa using List.find?_eq_none.mp hfind c hc
      constructor
      · exact (List.filter_eq_self.mpr fun c hc => by simpa using hnone c hc).symm
      · refine (List.filter_eq_self.mpr fun f _ => ?_).symm
        rw [decide_eq_true_eq]
        rintro ⟨c, hc, hpid, -⟩
        exact hnone c hc (List.mem_singleton.mp hpid)
  | some c =>
      have hc := List.mem_of_find?_eq_some hfind
      have hpid : c.pid = ret := by simpa using List.find?_some hfind
      refine ⟨eraseP_pid h.nodupPids ret, ?_⟩
      rw [closeFds_fd]
      congr 1
      funext f
      rw [decide_eq_decide]
      constructor
      · rintro hne ⟨c', hc', hpid', heq⟩
        obtain rfl := h.pid_unique hc' hc ((List.mem_singleton.mp hpid').trans hpid.symm)
        exact hne heq
      · rintro hnot heq
        exact hnot ⟨c, hc, List.mem_singleton.mpr hpid, heq⟩

theorem Kept.filter_waits {fds : List SanedFd} {children : List SanedChild}
    (h : Kept fds children) (waits : List Nat) :
    Kept (fds.filter fun f => ¬ Closed waits children f) (children.filter (·.pid ∉ waits)) := by
  refine h.filter _ _ (fun c hc hq hpidfd => ?_) fun f _ hp c hc hfd => ?_
  · rw [decide_eq_true_eq] at hq ⊢
    rintro ⟨c', hc', hmem, heq⟩
    obtain rfl := h.pidfd_unique hc' hc heq (heq ▸ hpidfd)
    exact hq hmem
  · rw [decide_eq_true_eq] at hp ⊢
    exact fun hmem => hp ⟨c, hc, hmem, hfd⟩

theorem reap_spec {s : Standalone} (h : Kept s.sanedFds s.children) (waits : List Nat) :
    (reap waits s).children = s.children.filter (·.pid ∉ waits) ∧
      (reap waits s).sanedFds = s.sanedFds.filter fun f => ¬ Closed waits s.children f := by
  induction waits generalizing s with
  | nil =>
      refine ⟨(List.filter_eq_self.mpr fun c _ => by simp).symm,
        (List.filter_eq_self.mpr fun f _ => ?_).symm⟩
      rw [decide_eq_true_eq]
      rintro ⟨c, -, hmem, -⟩
      cases hmem
  | cons ret waits ih =>
      obtain ⟨hchildren, hfds⟩ := waitChild_spec h ret
      have hkept : Kept (waitChild ret s).sanedFds (waitChild ret s).children := by
        rw [hchildren, hfds]
        exact h.filter_waits [ret]
      obtain ⟨hchildren', hfds'⟩ := ih hkept
      change (reap waits (waitChild ret s)).children = _ ∧
        (reap waits (waitChild ret s)).sanedFds = _
      rw [hchildren', hfds', hchildren, hfds, List.filter_filter, List.filter_filter]
      constructor
      · congr 1
        funext c
        simp only [List.mem_cons, List.not_mem_nil, or_false, not_or]
        rw [← Bool.decide_and, Bool.decide_congr and_comm]
      · congr 1
        funext f
        rw [← Bool.decide_and]
        refine Bool.decide_congr ⟨?_, ?_⟩
        · rintro ⟨hrest, hone⟩ ⟨c, hc, hmem, heq⟩
          rcases List.mem_cons.mp hmem with hret | hmem
          · exact hone ⟨c, hc, List.mem_singleton.mpr hret, heq⟩
          · by_cases hret : c.pid = ret
            · exact hone ⟨c, hc, List.mem_singleton.mpr hret, heq⟩
            · refine hrest ⟨c, List.mem_filter.mpr ⟨hc, ?_⟩, hmem, heq⟩
              simpa using hret
        · refine fun hnot => ⟨fun ⟨c, hc, hmem, heq⟩ => ?_, fun ⟨c, hc, hmem, heq⟩ => ?_⟩
          · exact hnot ⟨c, (List.mem_filter.mp hc).1, List.mem_cons_of_mem _ hmem, heq⟩
          · exact hnot ⟨c, hc, List.mem_cons.mpr (.inl (List.mem_singleton.mp hmem)), heq⟩

theorem waitChild_flags (ret : Nat) (s : Standalone) :
    (waitChild ret s).pollSet = s.pollSet ∧ (waitChild ret s).pollSetValid = s.pollSetValid := by
  unfold waitChild
  split <;> exact ⟨rfl, rfl⟩

theorem reap_flags (waits : List Nat) (s : Standalone) :
    (reap waits s).pollSet = s.pollSet ∧ (reap waits s).pollSetValid = s.pollSetValid := by
  induction waits generalizing s with
  | nil => exact ⟨rfl, rfl⟩
  | cons ret waits ih =>
      obtain ⟨hset, hvalid⟩ := ih (waitChild ret s)
      obtain ⟨hset', hvalid'⟩ := waitChild_flags ret s
      exact ⟨hset.trans hset', hvalid.trans hvalid'⟩

theorem counted_reap {s : Standalone} (h : s.Counted) (waits : List Nat) :
    (reap waits s).Counted := by
  induction waits generalizing s with
  | nil => exact h
  | cons ret waits ih => exact ih (counted_waitChild h ret)

/-- The listeners that `do_bindings` manages to enter. -/
theorem addListeners_spec {fds : List (Int × Bool)} {s : Standalone}
    (h : Kept s.sanedFds s.children) (hcounted : s.Counted) (hnodup : (fds.map (·.1)).Nodup)
    (hfresh : ∀ fd ∈ fds.map (·.1), 0 ≤ fd ∧ fd ∉ s.sanedFds.map (·.fd)) :
    ∃ listeners, (listeners.map (·.fd)) ⊆ fds.map (·.1) ∧
      fds.foldl (fun s fd => addFd fd.2 fd.1 .listener pollin s) s =
        { s with
          sanedFds := listeners ++ s.sanedFds
          numSanedFds := (listeners ++ s.sanedFds).length } ∧
      Kept (listeners ++ s.sanedFds) s.children := by
  induction fds generalizing s with
  | nil => exact ⟨[], List.nil_subset _, by rw [List.nil_append, ← hcounted]; rfl, h⟩
  | cons fd fds ih =>
      obtain ⟨fd, memory⟩ := fd
      rw [List.map_cons, List.nodup_cons] at hnodup
      rw [List.map_cons, List.forall_mem_cons] at hfresh
      rw [List.foldl_cons]
      cases memory with
      | false =>
          obtain ⟨listeners, hsub, hfold, hkept⟩ := ih h hcounted hnodup.2 hfresh.2
          exact ⟨listeners, List.subset_cons_of_subset _ hsub, hfold, hkept⟩
      | true =>
          have hkept := h.addListener hfresh.1.1 hfresh.1.2
          have hfresh' : ∀ fd' ∈ fds.map (·.1), 0 ≤ fd' ∧
              fd' ∉ (addFd true fd .listener pollin s).sanedFds.map (·.fd) := by
            intro fd' hmem
            refine ⟨(hfresh.2 fd' hmem).1, ?_⟩
            intro hin
            change fd' ∈ fd :: s.sanedFds.map (·.fd) at hin
            rcases List.mem_cons.mp hin with rfl | hin
            · exact hnodup.1 hmem
            · exact (hfresh.2 fd' hmem).2 hin
          obtain ⟨listeners, hsub, hfold, hkept'⟩ :=
            ih hkept (counted_addFd hcounted true fd .listener pollin) hnodup.2 hfresh'
          refine ⟨listeners ++ [⟨.listener, fd, pollin⟩], ?_, ?_, ?_⟩
          · rw [List.map_append]
            refine List.append_subset.mpr ⟨List.subset_cons_of_subset _ hsub, ?_⟩
            exact List.cons_subset.mpr ⟨List.mem_cons_self, List.nil_subset _⟩
          · rw [hfold, List.append_assoc]
            rfl
          · rw [List.append_assoc]
            exact hkept'

/-- The listeners are replaced; the pidfds stay. -/
theorem rebind_spec {fds : List (Int × Bool)} {s : Standalone}
    (h : Kept s.sanedFds s.children) (hcounted : s.Counted) (hnodup : (fds.map (·.1)).Nodup)
    (hfresh : ∀ fd ∈ fds.map (·.1), 0 ≤ fd ∧
      ∀ f ∈ s.sanedFds, f.type = .process → f.fd ≠ fd) :
    ∃ s', rebind (some fds) s = .ok s' ∧ s'.Counted ∧ Kept s'.sanedFds s'.children ∧
      s'.children = s.children ∧ s'.pollSetValid = false ∧
      ∀ f ∈ s'.sanedFds, f ∈ s.sanedFds ∨ f.fd ∈ fds.map (·.1) := by
  have hclosed : (closeFds (· == .listener) (-1) s).sanedFds =
      s.sanedFds.filter (·.type = .process) := by
    refine List.filter_congr fun f hf => ?_
    have hnonneg := h.nonneg f hf
    have hfd : ((-1 : Int) == f.fd) = false := by
      rw [beq_eq_false_iff_ne]
      omega
    change (!(f.type == .listener || (-1 : Int) == f.fd)) = _
    rw [hfd]
    cases f.type <;> rfl
  have hkept : Kept (closeFds (· == .listener) (-1) s).sanedFds s.children := by
    have hfilter := h.filter (·.type = .process) (fun _ => true)
      (fun _ _ _ _ => decide_eq_true rfl) fun _ _ _ _ _ _ => rfl
    rw [hclosed]
    rwa [List.filter_true] at hfilter
  obtain ⟨listeners, hsub, hfold, hkept'⟩ := addListeners_spec hkept
    (counted_closeFds hcounted _ _) hnodup fun fd hfd => by
      refine ⟨(hfresh fd hfd).1, ?_⟩
      rw [hclosed]
      intro hmem
      obtain ⟨f, hf, heq⟩ := List.mem_map.mp hmem
      obtain ⟨hf, htype⟩ := List.mem_filter.mp hf
      exact (hfresh fd hfd).2 f hf (by simpa using htype) heq
  refine ⟨{ s with
      sanedFds := listeners ++ (closeFds (· == .listener) (-1) s).sanedFds
      numSanedFds := (listeners ++ (closeFds (· == .listener) (-1) s).sanedFds).length
      pollSetValid := false }, ?_, rfl, hkept', rfl, rfl, ?_⟩
  · rw [rebind, doBindings, ok_bind, hfold]
    rfl
  intro f hf
  rcases List.mem_append.mp hf with hf | hf
  · exact .inr (hsub (List.mem_map_of_mem hf))
  · rw [hclosed] at hf
    exact .inl (List.mem_filter.mp hf).1

end Lists

section Loop

variable (runOnce : Bool)

theorem handleEvent_ret (accept : AcceptAnswer) (sfd : SanedFd) (r : Revents) (e : Events)
    (n : Nat) : handleEvent runOnce accept sfd r { e with ret := n } =
      { handleEvent runOnce accept sfd r e with ret := n } := by
  obtain ⟨type, fd, events⟩ := sfd
  obtain ⟨ready, error⟩ := r
  cases type <;> cases ready <;> cases error <;> cases runOnce <;> cases accept <;> rfl

/-- What an event can do: nothing, mark a listener as broken, hand over a connection, or
report an exit. -/
theorem handleEvent_cases (accept : AcceptAnswer) (sfd : SanedFd) (r : Revents) (e : Events) :
    (handleEvent runOnce accept sfd r e = e ∧ match sfd.type with
      | .process => r.pollin = false
      | .listener => r.error = false ∧ (r.pollin = true → accept = .failed)) ∨
    (sfd.type = .listener ∧ r.error = true ∧
      handleEvent runOnce accept sfd r e = { e with doRebind := true }) ∨
    (sfd.type = .listener ∧ r = ⟨true, false⟩ ∧ ∃ fork running, accept = .accepted fork ∧
      handleEvent runOnce accept sfd r e =
        { e with s := { handleClient fork e.s with pollSetValid := false, running := running } }) ∨
    (sfd.type = .process ∧ r.pollin = true ∧
      handleEvent runOnce accept sfd r e =
        { e with s := { e.s with pollSetValid := false }, doReap := true }) := by
  obtain ⟨type, fd, events⟩ := sfd
  obtain ⟨ready, error⟩ := r
  cases type with
  | process =>
      cases ready with
      | false => exact .inl ⟨rfl, rfl⟩
      | true => exact .inr (.inr (.inr ⟨rfl, rfl, rfl⟩))
  | listener =>
      cases error with
      | true => exact .inr (.inl ⟨rfl, rfl, rfl⟩)
      | false =>
          cases ready with
          | false => exact .inl ⟨rfl, rfl, nofun⟩
          | true =>
              cases accept with
              | failed => exact .inl ⟨rfl, rfl, fun _ => rfl⟩
              | accepted fork =>
                  refine .inr (.inr (.inl ⟨rfl, rfl, fork, ?_⟩))
                  cases runOnce with
                  | false => exact ⟨_, rfl, rfl⟩
                  | true => exact ⟨_, rfl, rfl⟩

theorem handleEvent_zero {accept : AcceptAnswer} {sfd : SanedFd} {r : Revents} (hr : r.isZero)
    (e : Events) : handleEvent runOnce accept sfd r e = e := by
  obtain ⟨type, fd, events⟩ := sfd
  obtain ⟨ready, error⟩ := r
  cases type <;> cases ready <;> cases error <;> first | rfl | cases hr

theorem handleClient_grows (fork : Option (Nat × ChildAnswer)) (s : Standalone) :
    (handleClient fork s).pollSet = s.pollSet ∧
      s.numSanedFds ≤ (handleClient fork s).numSanedFds := by
  cases fork with
  | none => exact ⟨rfl, Nat.le_refl _⟩
  | some fork =>
      unfold handleClient addChild addFd
      dsimp only
      split_ifs <;> simp

theorem handleEvent_grows (accept : AcceptAnswer) (sfd : SanedFd) (r : Revents) (e : Events) :
    (handleEvent runOnce accept sfd r e).s.pollSet = e.s.pollSet ∧
      e.s.numSanedFds ≤ (handleEvent runOnce accept sfd r e).s.numSanedFds := by
  rcases handleEvent_cases runOnce accept sfd r e with
    ⟨h, -⟩ | ⟨-, -, h⟩ | ⟨-, -, fork, running, -, h⟩ | ⟨-, -, h⟩
  all_goals rw [h]
  · exact ⟨rfl, Nat.le_refl _⟩
  · exact ⟨rfl, Nat.le_refl _⟩
  · exact handleClient_grows fork e.s
  · exact ⟨rfl, Nat.le_refl _⟩

/-- All events handled in the order of the list. -/
def handleAll : List AcceptAnswer → List Revents → List SanedFd → Events → Events
  | _, _, [], e => e
  | accept, revents, sfd :: sfds, e =>
      handleAll accept.tail revents.tail sfds
        (handleEvent runOnce (accept.head?.getD .failed) sfd (revents.head?.getD ⟨false, false⟩) e)

theorem handleAll_zero {accept : List AcceptAnswer} {revents : List Revents}
    (hzero : ∀ r ∈ revents, r.isZero) (sfds : List SanedFd) (e : Events) :
    handleAll runOnce accept revents sfds e = e := by
  induction sfds generalizing accept revents with
  | nil => rfl
  | cons sfd sfds ih =>
      have hhead : (revents.head?.getD ⟨false, false⟩).isZero := by
        cases revents with
        | nil => rfl
        | cons r revents => exact hzero r List.mem_cons_self
      rw [handleAll, handleEvent_zero runOnce hhead]
      exact ih fun r hr => hzero r (List.mem_of_mem_tail hr)

theorem handleAll_ret (accept : List AcceptAnswer) (revents : List Revents) (sfds : List SanedFd)
    (e : Events) (n : Nat) : { handleAll runOnce accept revents sfds { e with ret := n } with
      ret := 0 } = { handleAll runOnce accept revents sfds e with ret := 0 } := by
  induction sfds generalizing accept revents e with
  | nil => rfl
  | cons sfd sfds ih =>
      rw [handleAll, handleAll, handleEvent_ret]
      exact ih _ _ _

/-- With the poll set in the order of the list no assertion fails, and each event is handled
for the entry it belongs to. -/
theorem eventLoop_ok {accept : List AcceptAnswer} {revents : List Revents} {sfds : List SanedFd}
    {i : Nat} {e : Events} (hset : e.s.pollSet.drop i = sfds.map SanedFd.toPollfd)
    (hlength : revents.length = e.s.pollSet.length)
    (hret : e.ret = (revents.drop i).countP (!·.isZero))
    (hnum : i + sfds.length ≤ e.s.numSanedFds) :
    eventLoop runOnce accept revents i sfds e =
      .ok { handleAll runOnce (accept.drop i) (revents.drop i) sfds e with ret := 0 } := by
  induction sfds generalizing i e with
  | nil =>
      have hle : revents.length ≤ i := by
        have hdrop := congrArg List.length hset
        rw [List.length_drop, List.map_nil, List.length_nil] at hdrop
        omega
      have hzero : e.ret = 0 := by rw [hret, List.drop_of_length_le hle, List.countP_nil]
      rw [eventLoop, if_pos (.inl hzero), handleAll, ← hzero]
  | cons sfd sfds ih =>
      rw [List.length_cons] at hnum
      have hlt : i < e.s.pollSet.length := by
        have hdrop := congrArg List.length hset
        rw [List.length_drop, List.length_map, List.length_cons] at hdrop
        omega
      have hlt' : i < revents.length := hlength ▸ hlt
      rw [List.drop_eq_getElem_cons hlt, List.map_cons, List.cons.injEq] at hset
      rw [List.drop_eq_getElem_cons hlt'] at hret ⊢
      rw [eventLoop]
      by_cases hzero : e.ret = 0
      · rw [if_pos (.inl hzero), handleAll_zero runOnce, ← hzero]
        rw [hret, List.countP_eq_zero] at hzero
        intro r hr
        simpa using hzero r hr
      · rw [if_neg (by omega), List.getElem?_eq_getElem hlt, List.getElem?_eq_getElem hlt']
        dsimp only
        have hfd : sfd.fd = sfd.toPollfd.fd := rfl
        rw [hset.1, if_neg (not_not.mpr hfd), handleAll, List.tail_cons, List.head?_cons,
          Option.getD_some, List.tail_drop, List.head?_drop]
        by_cases hr : revents[i].isZero
        · rw [if_pos hr, handleEvent_zero runOnce hr]
          rw [List.countP_cons_of_neg (by simpa using hr)] at hret
          exact ih hset.2 hlength hret (by omega)
        · rw [if_neg hr]
          rw [List.countP_cons_of_pos (by simpa using hr)] at hret
          obtain ⟨hsame, hgrows⟩ := handleEvent_grows runOnce
            ((accept[i]?).getD .failed) sfd revents[i] { e with ret := e.ret - 1 }
          rw [ih (by rw [hsame]; exact hset.2) (by rw [hsame]; exact hlength)
            (by rw [handleEvent_ret]; change e.ret - 1 = _; omega)
            ((Nat.le_of_eq (by omega)).trans (hnum.trans hgrows)), handleEvent_ret, handleAll_ret]

/-- What a fork adds to the lists. -/
structure Grows (forks : List (Nat × ChildAnswer)) (s s' : Standalone) : Prop where
  kept : Kept s'.sanedFds s'.children
  counted : s'.Counted
  children : ∃ new, s'.children = new ++ s.children ∧ new.map (·.pid) ⊆ forks.map (·.1)
  fds : ∃ new, s'.sanedFds = new ++ s.sanedFds ∧ new.map (·.fd) ⊆ pidfdsOf forks
  pollSet : s'.pollSet = s.pollSet

theorem Grows.refl {s : Standalone} (h : Kept s.sanedFds s.children) (hcounted : s.Counted)
    (forks : List (Nat × ChildAnswer)) : Grows forks s s :=
  ⟨h, hcounted, ⟨[], rfl, List.nil_subset _⟩, ⟨[], rfl, List.nil_subset _⟩, rfl⟩

theorem pidfdsOf_append (forks forks' : List (Nat × ChildAnswer)) :
    pidfdsOf (forks ++ forks') = pidfdsOf forks ++ pidfdsOf forks' := by
  rw [pidfdsOf, List.map_append, List.filter_append]
  rfl

theorem Grows.trans {forks forks' : List (Nat × ChildAnswer)} {s s' s'' : Standalone}
    (h : Grows forks s s') (h' : Grows forks' s' s'') : Grows (forks ++ forks') s s'' where
  kept := h'.kept
  counted := h'.counted
  children := by
    obtain ⟨new, hnew, hsub⟩ := h.children
    obtain ⟨new', hnew', hsub'⟩ := h'.children
    refine ⟨new' ++ new, by rw [hnew', hnew, List.append_assoc], ?_⟩
    rw [List.map_append, List.map_append]
    exact List.append_subset.mpr ⟨List.subset_append_of_subset_right _ hsub',
      List.subset_append_of_subset_left _ hsub⟩
  fds := by
    obtain ⟨new, hnew, hsub⟩ := h.fds
    obtain ⟨new', hnew', hsub'⟩ := h'.fds
    refine ⟨new' ++ new, by rw [hnew', hnew, List.append_assoc], ?_⟩
    rw [List.map_append, pidfdsOf_append]
    exact List.append_subset.mpr ⟨List.subset_append_of_subset_right _ hsub',
      List.subset_append_of_subset_left _ hsub⟩
  pollSet := h'.pollSet.trans h.pollSet

/-- New processes and descriptors are none of those in use. -/
structure Fresh (forks : List (Nat × ChildAnswer)) (s : Standalone) : Prop where
  nodupPids : (forks.map (·.1)).Nodup
  pids : ∀ pid ∈ forks.map (·.1), pid ∉ s.children.map (·.pid)
  nodupPidfds : (pidfdsOf forks).Nodup
  pidfds : ∀ fd ∈ pidfdsOf forks, 0 ≤ fd ∧ fd ∉ s.sanedFds.map (·.fd)

/-- What is left of fresh forks is fresh behind the first of them. -/
theorem Fresh.after {forks forks' : List (Nat × ChildAnswer)} {s s' : Standalone}
    (h : Fresh (forks ++ forks') s) (hgrows : Grows forks s s') : Fresh forks' s' := by
  obtain ⟨hpids, hin, hpidfds, hfds⟩ := h
  rw [List.map_append] at hpids hin
  rw [pidfdsOf_append] at hpidfds hfds
  obtain ⟨-, hpids', hdisjoint⟩ := List.nodup_append'.mp hpids
  obtain ⟨-, hpidfds', hdisjoint'⟩ := List.nodup_append'.mp hpidfds
  refine ⟨hpids', fun pid hpid hmem => ?_, hpidfds', fun fd hfd => ?_⟩
  · obtain ⟨new, hnew, hsub⟩ := hgrows.children
    rw [hnew, List.map_append, List.mem_append] at hmem
    rcases hmem with hmem | hmem
    · exact hdisjoint (hsub hmem) hpid
    · exact hin pid (List.mem_append_right _ hpid) hmem
  · obtain ⟨hnonneg, hnot⟩ := hfds fd (List.mem_append_right _ hfd)
    refine ⟨hnonneg, fun hmem => ?_⟩
    obtain ⟨new, hnew, hsub⟩ := hgrows.fds
    rw [hnew, List.map_append, List.mem_append] at hmem
    rcases hmem with hmem | hmem
    · exact hdisjoint' (hsub hmem) hfd
    · exact hnot hmem

theorem addChild_valid (answer : ChildAnswer) (pid : Nat) (type : SanedChildType)
    (s : Standalone) : (addChild answer pid type s).pollSetValid = s.pollSetValid := by
  unfold addChild addFd
  dsimp only
  split_ifs <;> rfl

theorem addChild_grows {pid : Nat} {answer : ChildAnswer} {s : Standalone}
    (h : Kept s.sanedFds s.children) (hcounted : s.Counted) (hfresh : Fresh [(pid, answer)] s)
    (hwatched : Watched [(pid, answer)]) (type : SanedChildType) :
    Grows [(pid, answer)] s (addChild answer pid type s) := by
  obtain ⟨memory, pidfd, fdMemory⟩ := answer
  have hpid := hfresh.pids pid List.mem_cons_self
  unfold addChild
  dsimp only
  split_ifs with hmemory hpidfd
  · exact .refl h hcounted _
  · exact ⟨h.addChild hpid hpidfd, hcounted, ⟨[_], rfl, List.Subset.refl _⟩,
      ⟨[], rfl, List.nil_subset _⟩, rfl⟩
  · have hmem : pidfd ∈ pidfdsOf [(pid, ⟨memory, pidfd, fdMemory⟩)] := by
      simp [pidfdsOf, hpidfd]
    obtain ⟨hnonneg, hnot⟩ := hfresh.pidfds pidfd hmem
    obtain rfl : fdMemory = true :=
      hwatched _ List.mem_cons_self (by simpa using hmemory) hpidfd
    have hkept := h.addWatchedChild (c := ⟨type, pid, pidfd⟩) hpid hnonneg hnot
    exact ⟨hkept, counted_addFd hcounted true pidfd .process pollin,
      ⟨[_], rfl, List.Subset.refl _⟩, ⟨[_], rfl, List.cons_subset.mpr ⟨hmem, List.nil_subset _⟩⟩,
      rfl⟩

theorem handleClient_grows_fork {fork : Option (Nat × ChildAnswer)} {s : Standalone}
    (h : Kept s.sanedFds s.children) (hcounted : s.Counted) (hfresh : Fresh fork.toList s)
    (hwatched : Watched fork.toList) : Grows fork.toList s (handleClient fork s) := by
  cases fork with
  | none => exact .refl h hcounted _
  | some fork => exact addChild_grows h hcounted hfresh hwatched .client

theorem handleEvent_grows_fork {accept : AcceptAnswer} (sfd : SanedFd) (r : Revents) {e : Events}
    (h : Kept e.s.sanedFds e.s.children) (hcounted : e.s.Counted)
    (hfresh : Fresh accept.fork.toList e.s) (hwatched : Watched accept.fork.toList) :
    Grows accept.fork.toList e.s (handleEvent runOnce accept sfd r e).s := by
  rcases handleEvent_cases runOnce accept sfd r e with
    ⟨heq, -⟩ | ⟨-, -, heq⟩ | ⟨-, -, fork, running, rfl, heq⟩ | ⟨-, -, heq⟩
  all_goals rw [heq]
  · exact .refl h hcounted _
  · exact .refl h hcounted _
  · obtain ⟨hkept, hcounted', hchildren, hfds, hset⟩ :=
      handleClient_grows_fork h hcounted hfresh hwatched
    exact ⟨hkept, hcounted', hchildren, hfds, hset⟩
  · exact ⟨h, hcounted, ⟨[], rfl, List.nil_subset _⟩, ⟨[], rfl, List.nil_subset _⟩, rfl⟩

theorem forks_cons (accept : List AcceptAnswer) :
    accept.filterMap (·.fork) =
      (accept.head?.getD .failed).fork.toList ++ accept.tail.filterMap (·.fork) := by
  cases accept with
  | nil => rfl
  | cons answer accept =>
      rw [List.filterMap_cons]
      cases hfork : answer.fork <;> simp [hfork]

/-- The events add the forked children and their pidfds. -/
theorem handleAll_grows {accept : List AcceptAnswer} {revents : List Revents}
    {sfds : List SanedFd} {e : Events} (h : Kept e.s.sanedFds e.s.children)
    (hcounted : e.s.Counted) (hfresh : Fresh (accept.filterMap (·.fork)) e.s)
    (hwatched : Watched (accept.filterMap (·.fork))) :
    Grows (accept.filterMap (·.fork)) e.s (handleAll runOnce accept revents sfds e).s := by
  induction sfds generalizing accept revents e with
  | nil => exact .refl h hcounted _
  | cons sfd sfds ih =>
      rw [forks_cons] at hfresh hwatched ⊢
      have hfirst : Fresh (accept.head?.getD .failed).fork.toList e.s := by
        obtain ⟨hpids, hin, hpidfds, hfds⟩ := hfresh
        rw [List.map_append] at hpids hin
        rw [pidfdsOf_append] at hpidfds hfds
        exact ⟨(List.nodup_append'.mp hpids).1, fun pid hpid => hin pid (List.mem_append_left _ hpid),
          (List.nodup_append'.mp hpidfds).1, fun fd hfd => hfds fd (List.mem_append_left _ hfd)⟩
      have hgrows := handleEvent_grows_fork runOnce sfd
        (revents.head?.getD ⟨false, false⟩) h hcounted hfirst
        fun fork hfork => hwatched fork (List.mem_append_left _ hfork)
      exact hgrows.trans (ih hgrows.kept hgrows.counted (hfresh.after hgrows)
        fun fork hfork => hwatched fork (List.mem_append_right _ hfork))

theorem anyEvent_cons {p : AcceptAnswer → SanedFd → Revents → Prop} {accept : List AcceptAnswer}
    {revents : List Revents} {sfd : SanedFd} {sfds : List SanedFd} :
    AnyEvent p accept revents (sfd :: sfds) ↔
      (∃ r, revents.head? = some r ∧ p (accept.head?.getD .failed) sfd r) ∨
        AnyEvent p accept.tail revents.tail sfds := by
  constructor
  · rintro ⟨i, f, r, hf, hr, hp⟩
    cases i with
    | zero =>
        cases hf
        rw [← List.head?_eq_getElem?] at hr hp
        exact .inl ⟨r, hr, hp⟩
    | succ i =>
        refine .inr ⟨i, f, r, hf, ?_, ?_⟩
        · rwa [List.getElem?_tail]
        · rwa [List.getElem?_tail]
  · rintro (⟨r, hr, hp⟩ | ⟨i, f, r, hf, hr, hp⟩)
    · refine ⟨0, sfd, r, rfl, ?_, ?_⟩ <;> rwa [← List.head?_eq_getElem?]
    · rw [List.getElem?_tail] at hr hp
      exact ⟨i + 1, f, r, hf, hr, hp⟩

/-- The poll set will be made anew. -/
def Invalidated (e : Events) : Prop := e.doRebind = true ∨ e.s.pollSetValid = false

/-- A readable pidfd. -/
def Exited (_ : AcceptAnswer) (f : SanedFd) (r : Revents) : Prop :=
  f.type = .process ∧ r.pollin = true

/-- The flags that outlive the loop over the events. -/
theorem handleEvent_flags (accept : AcceptAnswer) (sfd : SanedFd) (r : Revents) (e : Events) :
    ((handleEvent runOnce accept sfd r e).doReap = true ↔
        e.doReap = true ∨ Exited accept sfd r) ∧
      (Invalidated e ∨ Noticed accept sfd r → Invalidated (handleEvent runOnce accept sfd r e)) ∧
      (¬ Noticed accept sfd r → handleEvent runOnce accept sfd r e = e) := by
  rcases handleEvent_cases runOnce accept sfd r e with
    ⟨heq, hnone⟩ | ⟨htype, herror, heq⟩ | ⟨htype, rfl, fork, running, rfl, heq⟩ | ⟨htype, hready, heq⟩
  all_goals rw [heq]
  · have hquiet : ¬ Noticed accept sfd r ∧ ¬ Exited accept sfd r := by
      unfold Noticed Exited
      cases htype : sfd.type <;> simp_all
    exact ⟨(or_iff_left hquiet.2).symm, Or.rec id fun h => absurd h hquiet.1, fun _ => rfl⟩
  · have hnoticed : Noticed accept sfd r := by simp [Noticed, htype, herror]
    exact ⟨by simp [Exited, htype], fun _ => .inl rfl, fun hnot => absurd hnoticed hnot⟩
  · have hnoticed : Noticed (.accepted fork) sfd ⟨true, false⟩ := by simp [Noticed, htype]
    exact ⟨by simp [Exited, htype], fun _ => .inr rfl, fun hnot => absurd hnoticed hnot⟩
  · have hnoticed : Noticed accept sfd r := by simp [Noticed, htype, hready]
    exact ⟨by simp [Exited, htype, hready], fun _ => .inr rfl, fun hnot => absurd hnoticed hnot⟩

theorem handleAll_flags {accept : List AcceptAnswer} {revents : List Revents}
    {sfds : List SanedFd} {e : Events} :
    ((handleAll runOnce accept revents sfds e).doReap = true ↔
        e.doReap = true ∨ AnyEvent Exited accept revents sfds) ∧
      (Invalidated e ∨ AnyEvent Noticed accept revents sfds →
        Invalidated (handleAll runOnce accept revents sfds e)) ∧
      (¬ AnyEvent Noticed accept revents sfds →
        handleAll runOnce accept revents sfds e = e) := by
  induction sfds generalizing accept revents e with
  | nil =>
      have hnone : ∀ p, ¬ AnyEvent p accept revents [] := fun p ⟨i, f, r, hf, _⟩ => nomatch hf
      exact ⟨(or_iff_left (hnone _)).symm, Or.rec id fun h => absurd h (hnone _), fun _ => rfl⟩
  | cons sfd sfds ih =>
      rw [handleAll, anyEvent_cons, anyEvent_cons]
      obtain ⟨hreap, hinvalid, hsame⟩ := @ih accept.tail revents.tail
        (handleEvent runOnce (accept.head?.getD .failed) sfd
          (revents.head?.getD ⟨false, false⟩) e)
      obtain ⟨hreap₁, hinvalid₁, hsame₁⟩ := handleEvent_flags runOnce
        (accept.head?.getD .failed) sfd (revents.head?.getD ⟨false, false⟩) e
      have hhead : ∀ p : AcceptAnswer → SanedFd → Revents → Prop,
          ¬ p (accept.head?.getD .failed) sfd ⟨false, false⟩ →
          ((∃ r, revents.head? = some r ∧ p (accept.head?.getD .failed) sfd r) ↔
            p (accept.head?.getD .failed) sfd (revents.head?.getD ⟨false, false⟩)) := by
        intro p hp
        cases revents.head? with
        | none => simpa using hp
        | some r => simp
      rw [hhead Exited (by simp [Exited]), hhead Noticed (by cases h : sfd.type <;> simp [Noticed, h])]
      refine ⟨by rw [hreap, hreap₁, or_assoc], ?_, fun hnot => ?_⟩
      · rintro (h | h | h)
        · exact hinvalid (.inl (hinvalid₁ (.inl h)))
        · exact hinvalid (.inl (hinvalid₁ (.inr h)))
        · exact hinvalid (.inr h)
      · rw [not_or] at hnot
        rw [hsame hnot.2, hsame₁ hnot.1]

end Loop

/-- Whenever `poll` is called, it is called with the list. -/
def Standalone.PollsList (s : Standalone) : Prop :=
  ∀ memory s', preparePollSet memory s = .ok s' →
    s'.pollSet = s'.sanedFds.map SanedFd.toPollfd ∧ s'.numSanedFds = s'.sanedFds.length

/-- What is kept between two turns. -/
structure Good (s : Standalone) (k : Kernel) : Prop where
  kept : Kept s.sanedFds s.children
  counted : s.Counted
  exact : s.Exact
  tracked : ∀ c ∈ s.children, c.pid ∈ k.live ++ k.zombies

theorem preparePollSet_cases {memory : Bool} {s : Standalone} (hcounted : s.Counted)
    (hexact : s.Exact) : preparePollSet memory s = .error .bailOut ∨
      preparePollSet memory s = .ok { s with
        pollSet := s.sanedFds.map SanedFd.toPollfd
        pollSetValid := true } := by
  unfold preparePollSet
  by_cases hvalid : s.pollSetValid = true
  · rw [if_pos hvalid, ← hexact hvalid, ← hvalid]
    exact .inr rfl
  · rw [if_neg hvalid]
    by_cases hmemory : memory = false ∧ s.numSanedFds ≠ 0
    · rw [if_pos hmemory]
      exact .inl rfl
    · rw [if_neg hmemory, if_neg (not_not.mpr hcounted.symm)]
      exact .inr rfl

theorem pollsList_iff {s : Standalone} (hcounted : s.Counted) : s.PollsList ↔ s.Exact := by
  constructor
  · intro h hvalid
    refine (h true s ?_).1
    rw [preparePollSet, if_pos hvalid]
  · intro hexact memory s' hprepare
    rcases preparePollSet_cases hcounted hexact with h | h
    · rw [h] at hprepare
      cases hprepare
    · rw [h] at hprepare
      cases hprepare
      exact ⟨rfl, hcounted⟩

/-- The lists behind the events of a turn and a re-bind, before anything is reaped. -/
structure Handled (s : Standalone) (it : Iteration) (s' : Standalone) : Prop where
  kept : Kept s'.sanedFds s'.children
  counted : s'.Counted
  children : ∃ new, s'.children = new ++ s.children ∧
    new.map (·.pid) ⊆ it.turn.forks.map (·.1)
  noticed : it.turn.Notices s → s'.pollSetValid = false
  unnoticed : ¬ it.turn.Notices s → s' = { s with
    pollSet := s.sanedFds.map SanedFd.toPollfd
    pollSetValid := true }

section Turn

variable (runOnce : Bool) {s : Standalone} {k : Kernel} {it : Iteration}

theorem Kernel.mem_exit {pid : Nat} (h : pid ∈ k.live ++ k.zombies) (pids : List Nat) :
    pid ∈ (k.exit pids).live ++ (k.exit pids).zombies := by
  change pid ∈ k.live.filter (· ∉ pids) ++ (k.zombies ++ pids)
  rw [List.mem_append, List.mem_filter, List.mem_append]
  rcases List.mem_append.mp h with hlive | hzombie
  · by_cases hexits : pid ∈ pids
    · exact .inr (.inr hexits)
    · exact .inl ⟨hlive, by simpa using hexits⟩
  · exact .inr (.inl hzombie)

/-- No process is lost in a turn. -/
theorem Iteration.mem_reaped {pid : Nat}
    (h : pid ∈ k.live ++ k.zombies ∨ pid ∈ it.turn.forks.map (·.1)) :
    pid ∈ (it.reaped k).live ++ (it.reaped k).zombies := by
  refine Kernel.mem_exit ?_ _
  change pid ∈ ((it.polled k).live ++ it.turn.forks.map (·.1)) ++ (it.polled k).zombies
  rcases h with h | h
  · have hpolled := Kernel.mem_exit h it.exitsBefore
    rw [List.mem_append] at hpolled
    rw [List.mem_append, List.mem_append]
    exact hpolled.imp_left .inl
  · exact List.mem_append_left _ (List.mem_append_right _ h)

/-- The forks of a turn are fresh for its lists. -/
theorem Good.fresh (h : Good s k) (hpossible : it.Possible s k) : Fresh it.turn.forks s where
  nodupPids := hpossible.forkPids.1
  pids pid hpid hmem := by
    obtain ⟨c, hc, rfl⟩ := List.mem_map.mp hmem
    exact hpossible.forkPids.2 c.pid hpid (Kernel.mem_exit (h.tracked c hc) it.exitsBefore)
  nodupPidfds := hpossible.forkPidfds.1
  pidfds := hpossible.forkPidfds.2

/-- A turn that is not cut short handles the events and reaps; no assertion fails. -/
theorem turn_cases (h : Good s k) (hpossible : it.Possible s k)
    (hwatched : Watched it.turn.forks) :
    turn runOnce it.turn s = .error .bailOut ∨
    (it.turn.poll = .interrupted ∧ turn runOnce it.turn s = .ok ({ s with
      pollSet := s.sanedFds.map SanedFd.toPollfd
      pollSetValid := true }, false)) ∨
    ∃ revents s' doReap, it.turn.poll = .events revents ∧ Handled s it s' ∧
      (doReap = true ↔
        timeoutNeeded s = true ∨ AnyEvent Exited it.turn.accept revents s.sanedFds) ∧
      turn runOnce it.turn s = .ok (if doReap then reap it.turn.waits s' else s', doReap) := by
  rcases @preparePollSet_cases it.turn.memory s h.counted h.exact with hprepare | hprepare
  · refine .inl ?_
    rw [turn, hprepare]
    rfl
  set s₁ : Standalone := { s with
    pollSet := s.sanedFds.map SanedFd.toPollfd
    pollSetValid := true } with hs₁
  unfold turn
  rw [hprepare, ok_bind]
  cases hpoll : it.turn.poll with
  | interrupted => exact .inr (.inl ⟨rfl, rfl⟩)
  | failed => exact .inl rfl
  | events revents =>
      dsimp only
      have hlength : revents.length = s₁.pollSet.length := by
        rw [(hpossible.revents revents hpoll s₁ hprepare).1, hs₁, List.length_map]
        exact h.counted
      have hloop := @eventLoop_ok runOnce it.turn.accept revents s₁.sanedFds 0
        ⟨s₁, revents.countP (!·.isZero), false, timeoutNeeded s⟩ rfl hlength rfl
        (by rw [Nat.zero_add]; exact h.counted.ge)
      rw [List.drop_zero, List.drop_zero] at hloop
      have hfresh : Fresh (it.turn.accept.filterMap (·.fork)) s₁ :=
        let ⟨hpids, hin, hpidfds, hfds⟩ := h.fresh hpossible
        ⟨hpids, hin, hpidfds, hfds⟩
      have hgrows := @handleAll_grows runOnce it.turn.accept revents s₁.sanedFds
        ⟨s₁, revents.countP (!·.isZero), false, timeoutNeeded s⟩ h.kept h.counted
        hfresh hwatched
      obtain ⟨hreap, hinvalid, hsame⟩ := @handleAll_flags runOnce it.turn.accept revents
        s₁.sanedFds ⟨s₁, revents.countP (!·.isZero), false, timeoutNeeded s⟩
      rw [hloop, ok_bind]
      set e := handleAll runOnce it.turn.accept revents s₁.sanedFds
        ⟨s₁, revents.countP (!·.isZero), false, timeoutNeeded s⟩ with he
      have hnotices : it.turn.Notices s ↔ AnyEvent Noticed it.turn.accept revents s.sanedFds := by
        unfold Turn.Notices
        rw [hpoll]
        exact ⟨fun ⟨_, heq, hany⟩ => by cases heq; exact hany, fun hany => ⟨_, rfl, hany⟩⟩
      dsimp only
      by_cases hrebind : e.doRebind = true
      · rw [if_pos hrebind]
        cases hbindings : it.turn.bindings with
        | none => exact .inl rfl
        | some fds =>
            obtain ⟨hnodup, hfds⟩ := hpossible.bindings fds hbindings
            obtain ⟨s', hok, hcounted, hkept, hchildren, hvalid, -⟩ :=
              rebind_spec hgrows.kept hgrows.counted hnodup fun fd hfd => by
                obtain ⟨hnonneg, hnot, hprocess⟩ := hfds fd hfd
                refine ⟨hnonneg, fun f hf htype heq => ?_⟩
                obtain ⟨new, hnew, hsub⟩ := hgrows.fds
                rw [hnew] at hf
                rcases List.mem_append.mp hf with hf | hf
                · exact hnot (heq ▸ hsub (List.mem_map_of_mem hf))
                · exact hprocess f hf htype heq
            rw [hok]
            refine .inr (.inr ⟨revents, s', e.doReap, rfl, ?_, hreap, rfl⟩)
            refine ⟨hkept, hcounted, hchildren ▸ hgrows.children, fun _ => hvalid, fun hnot => ?_⟩
            rw [hsame (hnotices.not.mp hnot)] at hrebind
            cases hrebind
      · rw [if_neg hrebind]
        refine .inr (.inr ⟨revents, e.s, e.doReap, rfl, ?_, hreap, rfl⟩)
        refine ⟨hgrows.kept, hgrows.counted, hgrows.children, fun hnoticed => ?_, fun hnot => ?_⟩
        · exact (hinvalid (.inr (hnotices.mp hnoticed))).resolve_left hrebind
        · rw [hsame (hnotices.not.mp hnot)]

/-- What a turn that is not aborted leaves. -/
theorem turn_ok_cases (h : Good s k) (hpossible : it.Possible s k)
    (hwatched : Watched it.turn.forks) {s' : Standalone} {reaped : Bool}
    (hturn : turn runOnce it.turn s = .ok (s', reaped)) :
    (it.turn.poll = .interrupted ∧ reaped = false ∧ s' = { s with
      pollSet := s.sanedFds.map SanedFd.toPollfd
      pollSetValid := true }) ∨
    ∃ revents s₂, it.turn.poll = .events revents ∧ Handled s it s₂ ∧
      (reaped = true ↔
        timeoutNeeded s = true ∨ AnyEvent Exited it.turn.accept revents s.sanedFds) ∧
      s' = if reaped then reap it.turn.waits s₂ else s₂ := by
  rcases turn_cases runOnce h hpossible hwatched with
    herror | ⟨hpoll, hok⟩ | ⟨revents, s₂, doReap, hpoll, hhandled, hreap, hok⟩
  · rw [herror] at hturn
    cases hturn
  · rw [hok] at hturn
    cases hturn
    exact .inl ⟨hpoll, rfl, rfl⟩
  · rw [hok] at hturn
    cases hturn
    exact .inr ⟨revents, s₂, hpoll, hhandled, hreap, rfl⟩

/-- A child with a pidfd whose exit `poll` could see is noticed. -/
theorem exited_of_polled (h : Good s k) (hpossible : it.Possible s k) {s' : Standalone}
    {reaped : Bool} (hturn : turn runOnce it.turn s = .ok (s', reaped)) {revents : List Revents}
    (hpoll : it.turn.poll = .events revents) {c : SanedChild} (hc : c ∈ s.children)
    (hpidfd : c.pidfd ≠ -1) (hexited : c.pid ∈ (it.polled k).zombies) :
    AnyEvent Exited it.turn.accept revents s.sanedFds := by
  obtain ⟨s₁, hprepare, -⟩ := bind_eq_ok.mp hturn
  obtain ⟨hlength, hreadable⟩ := hpossible.revents revents hpoll s₁ hprepare
  rcases @preparePollSet_cases it.turn.memory s h.counted h.exact with heq | heq
  · rw [heq] at hprepare
    cases hprepare
  rw [heq] at hprepare
  cases hprepare
  obtain ⟨i, hi, hentry⟩ := List.getElem_of_mem (h.kept.watched c hc hpidfd)
  have hlt : i < revents.length := by
    rw [hlength]
    exact h.counted ▸ hi
  have hset : (s.sanedFds.map SanedFd.toPollfd)[i]? = some ⟨c.pidfd, pollin⟩ := by
    rw [List.getElem?_map, List.getElem?_eq_getElem hi, hentry]
    rfl
  refine ⟨i, _, revents[i], List.getElem?_eq_getElem hi, List.getElem?_eq_getElem hlt, ?_, ?_⟩
  · rw [hentry]
  · exact (hreadable i _ _ hset (List.getElem?_eq_getElem hlt) c hc rfl).mpr hexited

theorem notices_of_exited {revents : List Revents} (hpoll : it.turn.poll = .events revents)
    (h : AnyEvent Exited it.turn.accept revents s.sanedFds) : it.turn.Notices s := by
  obtain ⟨i, f, r, hf, hr, htype, hready⟩ := h
  refine ⟨revents, hpoll, i, f, r, hf, hr, ?_⟩
  rw [Noticed, htype]
  exact hready

/-- The exited children go, and their entries with them. -/
theorem reap_removes (h : Kept s.sanedFds s.children) (waits : List Nat) :
    (∀ c ∈ (reap waits s).children, c.pid ∉ waits) ∧
      ∀ c ∈ s.children, c.pid ∈ waits → ∀ f ∈ (reap waits s).sanedFds, f.fd ≠ c.pidfd := by
  obtain ⟨hchildren, hfds⟩ := reap_spec h waits
  rw [hchildren, hfds]
  constructor
  · intro c hc
    simpa using (List.mem_filter.mp hc).2
  · intro c hc hmem f hf heq
    have hclosed := (List.mem_filter.mp hf).2
    rw [decide_eq_true_eq] at hclosed
    exact hclosed ⟨c, hc, hmem, heq.symm⟩

/-- Reaping behind a valid poll set leaves it exact only if no entry goes. -/
theorem exact_reap (h : Kept s.sanedFds s.children) (hvalid : s.pollSetValid = true)
    (hset : s.pollSet = s.sanedFds.map SanedFd.toPollfd) (waits : List Nat) :
    (reap waits s).Exact ↔ ∀ c ∈ s.children, c.pid ∈ waits → c.pidfd = -1 := by
  obtain ⟨hset', hvalid'⟩ := reap_flags waits s
  rw [Standalone.Exact, hset', hvalid', hset, (reap_spec h waits).2]
  constructor
  · intro hexact c hc hmem
    by_contra hpidfd
    have hlength := congrArg List.length (hexact hvalid)
    rw [List.length_map, List.length_map] at hlength
    refine (List.length_filter_lt_length_iff_exists.mpr
      ⟨_, h.watched c hc hpidfd, ?_⟩).ne' hlength
    rw [decide_eq_true_eq]
    exact fun hnot => hnot ⟨c, hc, hmem, rfl⟩
  · intro hnone _
    rw [List.filter_eq_self.mpr]
    intro f hf
    rw [decide_eq_true_eq]
    rintro ⟨c, hc, hmem, heq⟩
    have hnonneg := h.nonneg f hf
    rw [← heq, hnone c hc hmem] at hnonneg
    omega

theorem zombies_reaped (it : Iteration) (k : Kernel) :
    (it.reaped k).zombies = (it.polled k).zombies ++ it.exitsAfter := rfl

/-- The poll set goes stale exactly in a turn that reaps unnoticed. -/
theorem exact_turn (h : Good s k) (hpossible : it.Possible s k)
    (hwatched : Watched it.turn.forks) {s' : Standalone} {reaped : Bool}
    (hturn : turn runOnce it.turn s = .ok (s', reaped)) :
    s'.Exact ↔ ¬ it.ReapsUnnoticed s := by
  rcases turn_ok_cases runOnce h hpossible hwatched hturn with
    ⟨hpoll, -, rfl⟩ | ⟨revents, s₂, hpoll, hhandled, hreap, rfl⟩
  · refine iff_of_true (fun _ => rfl) ?_
    rintro ⟨⟨revents, hevents⟩, -⟩
    rw [hpoll] at hevents
    cases hevents
  by_cases hnotices : it.turn.Notices s
  · refine iff_of_true (fun hvalid => ?_) fun hunnoticed => hunnoticed.unnoticed hnotices
    have hinvalid := hhandled.noticed hnotices
    cases reaped with
    | true =>
        rw [if_pos rfl, (reap_flags it.turn.waits s₂).2, hinvalid] at hvalid
        cases hvalid
    | false =>
        rw [if_neg nofun, hinvalid] at hvalid
        cases hvalid
  have hs₂ := hhandled.unnoticed hnotices
  have hquiet : ¬ AnyEvent Exited it.turn.accept revents s.sanedFds :=
    fun hexited => hnotices (notices_of_exited hpoll hexited)
  cases reaped with
  | false =>
      rw [if_neg nofun, hs₂]
      refine iff_of_true (fun _ => rfl) fun hunnoticed => ?_
      exact absurd (hreap.mpr (.inl hunnoticed.timeout)) nofun
  | true =>
      have htimeout := (hreap.mp rfl).resolve_right hquiet
      rw [if_pos rfl, exact_reap hhandled.kept (by rw [hs₂]) (by rw [hs₂])]
      have hchildren : s₂.children = s.children := by rw [hs₂]
      rw [hchildren]
      constructor
      · rintro hnone ⟨-, -, -, c, hc, hpidfd, hmem⟩
        refine hpidfd (hnone c hc (hpossible.waits.mem_iff.mpr ?_))
        rw [zombies_reaped]
        exact List.mem_append_right _ hmem
      · intro hnot c hc hmem
        by_contra hpidfd
        rw [hpossible.waits.mem_iff, zombies_reaped, List.mem_append] at hmem
        rcases hmem with hmem | hmem
        · exact hquiet (exited_of_polled runOnce h hpossible hturn hpoll hc hpidfd hmem)
        · exact hnot ⟨⟨revents, hpoll⟩, htimeout, hnotices, c, hc, hpidfd, hmem⟩

/-- A turn whose `poll` can see the exit of a child reaps. -/
theorem reaps_of_polled (h : Good s k) (hpossible : it.Possible s k)
    (hwatched : Watched it.turn.forks) {s' : Standalone} {reaped : Bool}
    (hturn : turn runOnce it.turn s = .ok (s', reaped)) (hpoll : it.turn.poll ≠ .interrupted)
    {c : SanedChild} (hc : c ∈ s.children) (hexited : c.pid ∈ (it.polled k).zombies) :
    reaped = true := by
  rcases turn_ok_cases runOnce h hpossible hwatched hturn with
    ⟨hinterrupted, -⟩ | ⟨revents, s₂, hevents, -, hreap, -⟩
  · exact absurd hinterrupted hpoll
  · refine hreap.mpr ?_
    by_cases hpidfd : c.pidfd = -1
    · exact .inl (List.any_eq_true.mpr ⟨c, hc, beq_iff_eq.mpr hpidfd⟩)
    · exact .inr (exited_of_polled runOnce h hpossible hturn hevents hc hpidfd hexited)

/-- A turn that reaps leaves no exited child in the list and no entry of one. -/
theorem turn_removes (h : Good s k) (hpossible : it.Possible s k)
    (hwatched : Watched it.turn.forks) {s' : Standalone}
    (hturn : turn runOnce it.turn s = .ok (s', true)) :
    (∀ c ∈ s'.children, c.pid ∉ (it.reaped k).zombies) ∧
      ∀ c ∈ s.children, c.pid ∈ (it.reaped k).zombies → ∀ f ∈ s'.sanedFds, f.fd ≠ c.pidfd := by
  rcases turn_ok_cases runOnce h hpossible hwatched hturn with
    ⟨-, hreaped, -⟩ | ⟨revents, s₂, -, hhandled, -, rfl⟩
  · cases hreaped
  rw [if_pos rfl]
  obtain ⟨hchildren, hfds⟩ := reap_removes hhandled.kept it.turn.waits
  obtain ⟨new, hnew, -⟩ := hhandled.children
  constructor
  · intro c hc hmem
    exact hchildren c hc (hpossible.waits.mem_iff.mpr hmem)
  · intro c hc hmem
    refine hfds c ?_ (hpossible.waits.mem_iff.mpr hmem)
    rw [hnew]
    exact List.mem_append_right _ hc

/-- The invariant outlives a turn that does not reap unnoticed. -/
theorem Good.turn (h : Good s k) (hpossible : it.Possible s k)
    (hwatched : Watched it.turn.forks) (hunnoticed : ¬ it.ReapsUnnoticed s) {s' : Standalone}
    {reaped : Bool} (hturn : turn runOnce it.turn s = .ok (s', reaped)) :
    Good s' ((it.reaped k).waited reaped) := by
  have hexact := (exact_turn runOnce h hpossible hwatched hturn).mpr hunnoticed
  rcases turn_ok_cases runOnce h hpossible hwatched hturn with
    ⟨-, rfl, rfl⟩ | ⟨revents, s₂, -, hhandled, -, rfl⟩
  · exact ⟨h.kept, h.counted, hexact, fun c hc => it.mem_reaped (.inl (h.tracked c hc))⟩
  have htracked : ∀ c ∈ s₂.children, c.pid ∈ (it.reaped k).live ++ (it.reaped k).zombies := by
    obtain ⟨new, hnew, hsub⟩ := hhandled.children
    intro c hc
    rw [hnew] at hc
    rcases List.mem_append.mp hc with hc | hc
    · exact it.mem_reaped (.inr (hsub (List.mem_map_of_mem hc)))
    · exact it.mem_reaped (.inl (h.tracked c hc))
  cases reaped with
  | false => exact ⟨hhandled.kept, hhandled.counted, hexact, htracked⟩
  | true =>
      obtain ⟨hchildren, hfds⟩ := reap_spec hhandled.kept it.turn.waits
      refine ⟨?_, counted_reap hhandled.counted _, hexact, fun c hc => ?_⟩
      · rw [if_pos rfl, hchildren, hfds]
        exact hhandled.kept.filter_waits _
      · rw [if_pos rfl] at hc
        have hleft := (reap_removes hhandled.kept it.turn.waits).1 c hc
        rw [hpossible.waits.mem_iff] at hleft
        rw [hchildren] at hc
        have hin := htracked c (List.mem_of_mem_filter hc)
        exact List.mem_append_left _ ((List.mem_append.mp hin).resolve_right hleft)

/-- The loop starts in a good state. -/
theorem Starts.good {listeners : List (Int × Bool)} {avahi : Option (Nat × ChildAnswer)}
    (h : Starts listeners avahi) :
    Good (startStandalone listeners avahi) ⟨avahi.toList.map (·.1), []⟩ := by
  obtain ⟨entries, hsub, hfold, hkept⟩ := @addListeners_spec listeners
    ⟨[], 0, [], 0, [], false, true⟩
    ⟨List.nodup_nil, nofun, List.nodup_nil, nofun, nofun, .nil⟩ rfl h.nodup
    fun fd hfd => ⟨h.nonneg fd hfd, List.not_mem_nil⟩
  unfold startStandalone
  rw [hfold]
  cases avahi with
  | none => exact ⟨hkept, rfl, nofun, nofun⟩
  | some fork =>
      obtain ⟨pid, answer⟩ := fork
      dsimp only
      set s : Standalone := ⟨entries ++ [], (entries ++ []).length, [], 0, [], false, true⟩
      have hcounted : s.Counted := rfl
      have hfresh : Fresh [(pid, answer)] s := by
        refine ⟨List.nodup_singleton _, fun _ _ => List.not_mem_nil,
          (List.nodup_singleton answer.pidfd).filter _, fun fd hfd => ?_⟩
        obtain ⟨hnonneg, hnot⟩ := h.fresh fd hfd
        refine ⟨hnonneg, fun hmem => hnot (hsub ?_)⟩
        change fd ∈ (entries ++ []).map SanedFd.fd at hmem
        rwa [List.append_nil] at hmem
      obtain ⟨hkept', hcounted', ⟨new, hnew, hsub'⟩, -, -⟩ :=
        addChild_grows hkept hcounted hfresh h.watched .avahi
      refine ⟨hkept', hcounted', fun hvalid => ?_, fun c hc => ?_⟩
      · rw [addChild_valid] at hvalid
        cases hvalid
      · rw [hnew, List.append_nil] at hc
        exact List.mem_append_left _ (hsub' (List.mem_map_of_mem hc))

end Turn

/-- No descriptor of a child goes without notice: each opened pidfd is entered, and no turn
reaps unnoticed. -/
def Heeds (p : Standalone × Kernel) (it : Iteration) : Prop :=
  Watched it.turn.forks ∧ ¬ it.ReapsUnnoticed p.1

theorem good_of_reach {runOnce : Bool} {p : Standalone × Kernel}
    (h : (standaloneSystem runOnce).Reach Heeds p) : Good p.1 p.2 := by
  refine h.invariant (I := fun p => Good p.1 p.2) ?_ ?_
  · rintro p ⟨listeners, avahi, hstarts, rfl⟩
    exact hstarts.good
  · rintro ⟨s, k⟩ it ⟨s', k'⟩ - hgood ⟨hwatched, hunnoticed⟩ ⟨-, hpossible, reaped, hturn, rfl⟩
    exact hgood.turn runOnce hpossible hwatched hunnoticed hturn

/-- In the states of runs that heed the descriptors `poll` is called with the list, no
assertion fails, and an exited child is removed with its entry by the first turn whose
`poll` reports anything; the poll set is made wrong by just the turns that reap unnoticed. -/
theorem polls_list_and_reaps (runOnce : Bool) (p : Standalone × Kernel)
    (hreach : (standaloneSystem runOnce).Reach Heeds p) :
    p.1.PollsList ∧
      (∀ f ∈ p.1.sanedFds, f.type = .process → ∃ c ∈ p.1.children, c.pidfd = f.fd) ∧
      ∀ it : Iteration, it.Possible p.1 p.2 → Watched it.turn.forks →
        turn runOnce it.turn p.1 ≠ .error .assertion ∧
        turn runOnce it.turn p.1 ≠ .error .outOfBounds ∧
        ∀ s' reaped, turn runOnce it.turn p.1 = .ok (s', reaped) →
          (s'.PollsList ↔ ¬ it.ReapsUnnoticed p.1) ∧
          (it.turn.poll ≠ .interrupted →
            ∀ c ∈ p.1.children, c.pid ∈ (it.polled p.2).zombies → reaped = true) ∧
          (reaped = true →
            (∀ c ∈ s'.children, c.pid ∉ (it.reaped p.2).zombies) ∧
            ∀ c ∈ p.1.children, c.pid ∈ (it.reaped p.2).zombies →
              ∀ f ∈ s'.sanedFds, f.fd ≠ c.pidfd) := by
  have hgood := good_of_reach hreach
  refine ⟨(pollsList_iff hgood.counted).mpr hgood.exact, hgood.kept.owned, ?_⟩
  intro it hpossible hwatched
  have hcases := turn_cases runOnce hgood hpossible hwatched
  have hnot : ∀ abort, abort ≠ .bailOut → turn runOnce it.turn p.1 ≠ .error abort := by
    intro abort hne herror
    rw [herror] at hcases
    rcases hcases with h | ⟨-, h⟩ | ⟨_, _, _, -, -, -, h⟩
    · cases h
      exact hne rfl
    · cases h
    · cases h
  refine ⟨hnot _ nofun, hnot _ nofun, fun s' reaped hturn => ?_⟩
  have hcounted : s'.Counted := by
    rcases turn_ok_cases runOnce hgood hpossible hwatched hturn with
      ⟨-, -, rfl⟩ | ⟨_, s₂, -, hhandled, -, rfl⟩
    · exact hgood.counted
    · cases reaped with
      | true => exact counted_reap hhandled.counted _
      | false => exact hhandled.counted
  refine ⟨?_, fun hpoll c hc hexited => ?_, fun hreaped => ?_⟩
  · rw [pollsList_iff hcounted]
    exact exact_turn runOnce hgood hpossible hwatched hturn
  · exact reaps_of_polled runOnce hgood hpossible hwatched hturn hpoll hc hexited
  · subst hreaped
    exact turn_removes runOnce hgood hpossible hwatched hturn

section Run

/-- The Avahi process has no pidfd. -/
def avahiStart : Standalone × Kernel :=
  (startStandalone [(3, true)] (some (10, ⟨true, -1, true⟩)), ⟨[10], []⟩)

/-- A connection is accepted; its child has a pidfd. -/
def clientTurn : Iteration :=
  ⟨[], ⟨true, .events [⟨true, false⟩], [.accepted (some (11, ⟨true, 5, true⟩))], none, []⟩, []⟩

def clientState : Standalone × Kernel :=
  (⟨[⟨.process, 5, 1⟩, ⟨.listener, 3, 1⟩], 2, [⟨.client, 11, 5⟩, ⟨.avahi, 10, -1⟩], 2,
    [⟨3, 1⟩], false, true⟩, ⟨[10, 11], []⟩)

/-- `poll` times out, and the child exits behind it. -/
def silentTurn : Iteration :=
  ⟨[], ⟨true, .events [⟨false, false⟩, ⟨false, false⟩], [], none, [11]⟩, [11]⟩

def staleState : Standalone × Kernel :=
  (⟨[⟨.listener, 3, 1⟩], 1, [⟨.avahi, 10, -1⟩], 1, [⟨5, 1⟩, ⟨3, 1⟩], true, true⟩, ⟨[10], []⟩)

/-- `poll` reports that the first descriptor is closed. -/
def staleTurn : Iteration := ⟨[], ⟨true, .events [⟨false, true⟩], [], none, []⟩, []⟩

theorem avahiStart_init (runOnce : Bool) : (standaloneSystem runOnce).init avahiStart :=
  ⟨[(3, true)], some (10, ⟨true, -1, true⟩),
    ⟨by decide, by decide, by decide, by unfold Watched; decide⟩, rfl⟩

theorem clientTurn_possible : clientTurn.Possible avahiStart.1 avahiStart.2 where
  exitsBefore := List.nil_subset _
  revents := by
    intro revents hpoll s' hprepare
    cases hpoll
    cases hprepare
    refine ⟨rfl, fun i p r hp hr c hc heq => ?_⟩
    obtain rfl : c = ⟨.avahi, 10, -1⟩ := List.mem_singleton.mp hc
    obtain rfl : p = ⟨3, 1⟩ := List.mem_singleton.mp (List.mem_of_getElem? hp)
    cases heq
  accepts := by
    intro i fork haccept
    cases i with
    | zero => exact ⟨_, _, rfl, rfl, rfl, rfl⟩
    | succ i => cases haccept
  forkPids := by decide
  forkPidfds := by decide
  bindings := nofun
  exitsAfter := List.nil_subset _
  waits := by decide

theorem silentTurn_possible : silentTurn.Possible clientState.1 clientState.2 where
  exitsBefore := List.nil_subset _
  revents := by
    intro revents hpoll s' hprepare
    cases hpoll
    cases hprepare
    refine ⟨rfl, fun i p r _ hr c hc _ => ?_⟩
    obtain rfl : r = ⟨false, false⟩ := by
      rcases List.mem_cons.mp (List.mem_of_getElem? hr) with h | h
      · exact h
      · exact List.mem_singleton.mp h
    exact iff_of_false nofun List.not_mem_nil
  accepts := nofun
  forkPids := by decide
  forkPidfds := by decide
  bindings := nofun
  exitsAfter := by decide
  waits := by decide

theorem staleTurn_possible : staleTurn.Possible staleState.1 staleState.2 where
  exitsBefore := List.nil_subset _
  revents := by
    intro revents hpoll s' hprepare
    cases hpoll
    cases hprepare
    refine ⟨rfl, fun i p r _ hr c hc _ => ?_⟩
    obtain rfl : r = ⟨false, true⟩ := List.mem_singleton.mp (List.mem_of_getElem? hr)
    exact iff_of_false nofun List.not_mem_nil
  accepts := nofun
  forkPids := by decide
  forkPidfds := by decide
  bindings := nofun
  exitsAfter := List.nil_subset _
  waits := by decide

theorem clientTurn_step : (standaloneSystem false).step avahiStart clientTurn clientState :=
  ⟨rfl, clientTurn_possible, true, rfl, rfl⟩

theorem silentTurn_step : (standaloneSystem false).step clientState silentTurn staleState :=
  ⟨rfl, silentTurn_possible, true, rfl, rfl⟩

theorem clientTurn_heeds : Heeds avahiStart clientTurn := by
  refine ⟨by unfold Watched; decide, fun h => h.unnoticed ?_⟩
  exact ⟨_, rfl, 0, _, _, rfl, rfl, .inr ⟨rfl, nofun⟩⟩

/-- The hypothesis is met behind the first connection. -/
theorem polls_list_and_reaps_client : clientState.1.PollsList ∧
    turn false silentTurn.turn clientState.1 ≠ .error .assertion := by
  have hreach : (standaloneSystem false).Reach Heeds clientState :=
    .next (.start (avahiStart_init false)) clientTurn_heeds clientTurn_step
  obtain ⟨hlist, -, hturns⟩ := polls_list_and_reaps false clientState hreach
  exact ⟨hlist, (hturns silentTurn silentTurn_possible (by unfold Watched; decide)).1⟩

/-- A client with a pidfd exits just behind the time-out that the Avahi process without one
brings about: `poll` is then called with its closed descriptor, and the assertion fails. -/
theorem polls_closed_pidfd : ∃ p, (standaloneSystem false).Reachable p ∧ ¬ p.1.PollsList ∧
    ∃ it : Iteration, it.Possible p.1 p.2 ∧ turn false it.turn p.1 = .error .assertion := by
  refine ⟨staleState, ?_, fun h => ?_, staleTurn, staleTurn_possible, rfl⟩
  · exact .next (.next (.start (avahiStart_init false)) trivial clientTurn_step) trivial
      silentTurn_step
  · exact absurd (h true staleState.1 rfl).1 (by decide)

end Run

end SaneBackends.Saned
