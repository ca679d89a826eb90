import SaneBackends.Saned.Session
/-!
# The backend handles a connection uses

The handle of a scan and the handles in the table stay open until a request closes them.
So the backend is only called with open handles, unless a handle is closed from inside
its own scan: the scan goes on with the handle it was started with.
-/

namespace SaneBackends.Saned

open SaneBackends.Lib HandleTable

/-- The handles that are open behind a call. -/
def BackendCall.behind (opened : List SaneHandle) : BackendCall → List SaneHandle
  | .saneOpen be => be :: opened
  | .saneClose be => opened.filter (· ≠ be)
  | _ => opened

/-- A handle that is used is open. -/
def BackendCall.Legal (opened : List SaneHandle) : BackendCall → Prop
  | .saneOpen _ => True
  | .saneClose be | .saneGetOptionDescriptor be | .saneControlOption be | .saneGetParameters be
  | .saneStart be | .saneRead be | .saneCancel be | .saneSetIoMode be | .saneGetSelectFd be =>
      be ∈ opened

/-- The handles that are open behind a sequence of calls. -/
def openedBehind : List SaneHandle → List BackendCall → List SaneHandle
  | opened, [] => opened
  | opened, c :: calls => openedBehind (c.behind opened) calls

/-- Each call uses an open handle. -/
def Legal : List SaneHandle → List BackendCall → Prop
  | _, [] => True
  | opened, c :: calls => c.Legal opened ∧ Legal (c.behind opened) calls

theorem openedBehind_append (opened : List SaneHandle) (calls calls' : List BackendCall) :
    openedBehind opened (calls ++ calls') = openedBehind (openedBehind opened calls) calls' := by
  induction calls generalizing opened with
  | nil => rfl
  | cons c calls ih => exact ih _

theorem legal_append {opened : List SaneHandle} {calls calls' : List BackendCall} :
    Legal opened (calls ++ calls') ↔
      Legal opened calls ∧ Legal (openedBehind opened calls) calls' := by
  induction calls generalizing opened with
  | nil => exact (and_iff_right trivial).symm
  | cons c calls ih => rw [List.cons_append, Legal, Legal, openedBehind, ih, and_assoc]

/-- The handle of each slot in use is open and its own, and a scan has that of its slot. -/
structure Tidy (t : HandleTable) (frames : List Frame) (opened : List SaneHandle) : Prop where
  opened : ∀ j, (t.slot j).inuse = true → (t.slot j).handle ∈ opened
  distinct : ∀ i j, (t.slot i).inuse = true → (t.slot j).inuse = true →
    (t.slot i).handle = (t.slot j).handle → i = j
  frames : ∀ f ∈ frames, (t.slot f.h).inuse = true ∧ (t.slot f.h).handle = f.beHandle

/-- A step that leaves legal calls and a tidy table. -/
def Keeps (opened : List SaneHandle) (result : Session × List BackendCall) : Prop :=
  Legal opened result.2 ∧
    Tidy result.1.table result.1.frames (openedBehind opened result.2)

theorem Keeps.prepend {opened : List SaneHandle} {calls : List BackendCall}
    {result : Session × List BackendCall} (hcalls : Legal opened calls)
    (h : Keeps (openedBehind opened calls) result) :
    Keeps opened (result.1, calls ++ result.2) := by
  refine ⟨legal_append.mpr ⟨hcalls, h.1⟩, ?_⟩
  rw [openedBehind_append]
  exact h.2

section Tables

variable {t t' : HandleTable} {frames : List Frame} {opened : List SaneHandle}

theorem setFlags_slot (t : HandleTable) (h j : Nat) (scanning docancel : Bool) :
    ((t.setFlags h scanning docancel).slot j).inuse = (t.slot j).inuse ∧
      ((t.setFlags h scanning docancel).slot j).handle = (t.slot j).handle := by
  unfold setFlags
  by_cases hj : j = h
  · subst hj
    by_cases hlt : j < t.numHandles
    · rw [slot_setSlot_same _ hlt]
      exact ⟨rfl, rfl⟩
    · rw [slot_of_le (by rw [numHandles_setSlot]; omega), slot_of_le (Nat.not_lt.mp hlt)]
      exact ⟨rfl, rfl⟩
  · rw [slot_setSlot_ne _ hj]
    exact ⟨rfl, rfl⟩

theorem Tidy.setFlags (h : Tidy t frames opened) (i : Nat) (scanning docancel : Bool) :
    Tidy (t.setFlags i scanning docancel) frames opened := by
  have hsame := fun j => setFlags_slot t i j scanning docancel
  refine ⟨fun j hj => ?_, fun j k hj hk heq => ?_, fun f hf => ?_⟩
  · rw [(hsame j).1] at hj
    rw [(hsame j).2]
    exact h.opened j hj
  · rw [(hsame j).1] at hj
    rw [(hsame k).1] at hk
    rw [(hsame j).2, (hsame k).2] at heq
    exact h.distinct j k hj hk heq
  · rw [(hsame f.h).1, (hsame f.h).2]
    exact h.frames f hf

theorem Tidy.sub {frames' : List Frame} (h : Tidy t frames opened) (hsub : frames' ⊆ frames) :
    Tidy t frames' opened :=
  ⟨h.opened, h.distinct, fun f hf => h.frames f (hsub hf)⟩

/-- A new handle is kept in a slot that was free. -/
theorem Tidy.allocates (h : Tidy t frames opened) {i : Nat} (halloc : Allocates t i t')
    {be : SaneHandle} (hfresh : be ∉ opened) :
    Tidy (t'.setSlot i { t'.slot i with handle := be }) frames (be :: opened) := by
  have hown : (t'.setSlot i { t'.slot i with handle := be }).slot i =
      { t'.slot i with handle := be } := slot_setSlot_same _ halloc.index_lt
  have hrest : ∀ j, j ≠ i → (t'.setSlot i { t'.slot i with handle := be }).slot j = t.slot j :=
    fun j hj => (slot_setSlot_ne _ hj).trans (halloc.others j hj)
  have hinuse : ∀ j, (t.slot j).inuse = true → j ≠ i := by
    rintro j hj rfl
    rw [halloc.was_free] at hj
    cases hj
  have hnew : ∀ j, j ≠ i → (t.slot j).inuse = true → (t.slot j).handle ≠ be :=
    fun j _ hj heq => hfresh (heq ▸ h.opened j hj)
  refine ⟨fun j hj => ?_, fun j k hj hk heq => ?_, fun f hf => ?_⟩
  · by_cases hji : j = i
    · subst hji
      rw [hown]
      exact List.mem_cons_self
    · rw [hrest j hji] at hj ⊢
      exact List.mem_cons_of_mem _ (h.opened j hj)
  · by_cases hji : j = i <;> by_cases hki : k = i
    · exact hji.trans hki.symm
    · subst hji
      rw [hrest k hki] at hk heq
      rw [hown] at heq
      exact absurd heq.symm (hnew k hki hk)
    · subst hki
      rw [hrest j hji] at hj heq
      rw [hown] at heq
      exact absurd heq (hnew j hji hj)
    · rw [hrest j hji] at hj heq
      rw [hrest k hki] at hk heq
      exact h.distinct j k hj hk heq
  · have hslot := h.frames f hf
    rw [hrest f.h (hinuse f.h hslot.1)]
    exact hslot

/-- A slot is closed that no scan has. -/
theorem Tidy.close (h : Tidy t frames opened) {i : Nat} (hlt : i < t.numHandles)
    (hinuse : (t.slot i).inuse = true) (hfree : ∀ f ∈ frames, f.h ≠ i) :
    Tidy (t.setSlot i { t.slot i with inuse := false }) frames
      (opened.filter (· ≠ (t.slot i).handle)) := by
  have hown := slot_setSlot_same { t.slot i with inuse := false } hlt
  have hrest : ∀ j, j ≠ i → (t.setSlot i { t.slot i with inuse := false }).slot j = t.slot j :=
    fun j hj => slot_setSlot_ne _ hj
  have hne : ∀ j, ((t.setSlot i { t.slot i with inuse := false }).slot j).inuse = true →
      j ≠ i := by
    rintro j hj rfl
    rw [hown] at hj
    cases hj
  refine ⟨fun j hj => ?_, fun j k hj hk heq => ?_, fun f hf => ?_⟩
  · have hji := hne j hj
    rw [hrest j hji] at hj ⊢
    refine List.mem_filter.mpr ⟨h.opened j hj, ?_⟩
    rw [decide_eq_true_eq]
    exact fun heq => hji (h.distinct j i hj hinuse heq)
  · have hji := hne j hj
    have hki := hne k hk
    rw [hrest j hji] at hj heq
    rw [hrest k hki] at hk heq
    exact h.distinct j k hj hk heq
  · rw [hrest f.h (hfree f hf)]
    exact h.frames f hf

end Tables

section Steps

variable {t : HandleTable} {frames : List Frame} {opened : List SaneHandle}

theorem leaveScan_keeps (h : Tidy t frames opened) {i : Nat} (hinuse : (t.slot i).inuse = true) :
    Legal opened (leaveScan t i).2 ∧
      Tidy (leaveScan t i).1 frames (openedBehind opened (leaveScan t i).2) := by
  unfold leaveScan
  dsimp only
  split_ifs
  · exact ⟨⟨h.opened i hinuse, trivial⟩, h.setFlags i false false⟩
  · exact ⟨trivial, h.setFlags i false false⟩

/-- Scans that end on the way cancel the handles of their slots. -/
theorem returnTo_keeps (h : Tidy t frames opened) (code : Int) :
    Keeps opened (returnTo t code frames) := by
  induction frames generalizing t opened code with
  | nil => exact ⟨trivial, h⟩
  | cons f frames ih =>
      rw [returnTo]
      set t₁ := if code < 0 then t.setFlags f.h (t.slot f.h).scanning true else t with ht₁
      have htidy : Tidy t₁ (f :: frames) opened := by
        rw [ht₁]
        split_ifs
        · exact h.setFlags _ _ _
        · exact h
      dsimp only
      split_ifs
      · obtain ⟨hlegal, hleft⟩ := leaveScan_keeps htidy (htidy.frames f List.mem_cons_self).1
        exact .prepend hlegal (ih (hleft.sub (List.subset_cons_self f frames)) 0)
      · exact ⟨trivial, htidy⟩

theorem endScan_keeps (h : Tidy t frames opened) {i : Nat} (hinuse : (t.slot i).inuse = true) :
    Keeps opened (endScan t i frames) := by
  obtain ⟨hlegal, hleft⟩ := leaveScan_keeps h hinuse
  exact .prepend hlegal (returnTo_keeps hleft 0)

theorem enterScan_keeps (h : Tidy t frames opened) {i : Nat} (hinuse : (t.slot i).inuse = true)
    (answer : StartAnswer) : Keeps opened (enterScan t i answer frames) := by
  unfold enterScan
  dsimp only
  split
  · exact endScan_keeps h hinuse
  · have hopen := h.opened i hinuse
    exact ⟨⟨hopen, hopen, trivial⟩, h.opened, h.distinct,
      List.forall_mem_cons.mpr ⟨⟨hinuse, rfl⟩, h.frames⟩⟩

theorem decodeHandle_some {word : Option SaneWord} {i : Nat} (h : t.decodeHandle word = some i) :
    i < t.numHandles ∧ (t.slot i).inuse = true := by
  unfold decodeHandle at h
  cases word with
  | none => cases h
  | some w =>
      dsimp only at h
      split_ifs at h with hbad
      cases h
      rw [not_or, not_le, Bool.not_eq_false] at hbad
      exact hbad

/-- The slot a `SANE_NET_CLOSE` closes. -/
def Event.closes (t : HandleTable) : Event → Option Nat
  | .request (.netClose word) => t.decodeHandle word
  | _ => none

/-- The handle a `sane_open` returns. -/
def Event.opens : Event → Option SaneHandle
  | .request (.netOpen (.opened be)) => some be
  | _ => none

/-- A handle is closed while its own scan is on the stack. -/
def ClosesUnderScan (s : Session) (e : Event) : Prop :=
  ∃ h ∈ e.closes s.table, ∃ f ∈ s.frames, f.h = h

/-- `sane_open` returns no handle that is open. -/
def FreshHandle (opened : List SaneHandle) (e : Event) : Prop :=
  ∀ be ∈ e.opens, be ∉ opened

instance (s : Session) (e : Event) : Decidable (ClosesUnderScan s e) :=
  inferInstanceAs (Decidable (∃ h ∈ e.closes s.table, ∃ f ∈ s.frames, f.h = h))

instance (opened : List SaneHandle) (e : Event) : Decidable (FreshHandle opened e) :=
  inferInstanceAs (Decidable (∀ be ∈ e.opens, be ∉ opened))

/-- What serving a request leaves: legal calls, a tidy table, and a slot in use to scan. -/
def Serves (opened : List SaneHandle) (frames : List Frame)
    (result : HandleTable × List BackendCall × Served) : Prop :=
  Legal opened result.2.1 ∧ Tidy result.1 frames (openedBehind opened result.2.1) ∧
    ∀ h answer, result.2.2 = .scanning h answer → (result.1.slot h).inuse = true

theorem Serves.of_same {result : HandleTable × List BackendCall × Served}
    (hlegal : Legal opened result.2.1)
    (h : Tidy result.1 frames (openedBehind opened result.2.1)) {code : Int}
    (hcode : result.2.2 = .returned code) : Serves opened frames result := by
  refine ⟨hlegal, h, fun i answer hscan => ?_⟩
  rw [hcode] at hscan
  cases hscan

theorem serveOpen_serves (h : Tidy t frames opened) {answer : OpenAnswer}
    (hfresh : ∀ be, answer = .opened be → be ∉ opened) :
    Serves opened frames (serveOpen t answer) := by
  cases answer with
  | opened be =>
      unfold serveOpen
      dsimp only
      cases hget : getFreeHandle (2 * t.numHandles + 2) t with
      | none =>
          refine ⟨⟨trivial, trivial⟩, ⟨fun j hj => ?_, h.distinct, h.frames⟩, fun i answer hscan => ?_⟩
          · exact List.mem_cons_of_mem _ (h.opened j hj)
          · cases hscan
      | some found =>
          obtain ⟨i, t'⟩ := found
          obtain ⟨halloc, -⟩ := getFreeHandle_sound _ _ _ _ hget
          exact .of_same ⟨trivial, trivial⟩ (h.allocates halloc (hfresh be rfl)) rfl
  | undecoded => exact .of_same trivial h rfl
  | noName => exact .of_same trivial h rfl
  | noDevice => exact .of_same trivial h rfl
  | denied => exact .of_same trivial h rfl
  | failed => exact .of_same trivial h rfl

theorem replyStart_serves (h : Tidy t frames opened) {i : Nat} (hinuse : (t.slot i).inuse = true)
    (answer : StartAnswer) :
    Legal opened (replyStart t i answer).2.1 ∧
      openedBehind opened (replyStart t i answer).2.1 = opened ∧
      Tidy (replyStart t i answer).1 frames opened ∧
      ((replyStart t i answer).1.slot i).inuse = true := by
  have hopen := h.opened i hinuse
  unfold replyStart startScan
  dsimp only
  split_ifs
  · exact ⟨trivial, rfl, h, hinuse⟩
  · exact ⟨trivial, rfl, h, hinuse⟩
  · exact ⟨⟨hopen, trivial⟩, rfl, h.setFlags i true false,
      (setFlags_slot t i i true false).1.trans hinuse⟩
  · exact ⟨⟨hopen, trivial⟩, rfl, h, hinuse⟩

theorem acceptData_serves (h : Tidy t frames opened) {i : Nat} (hinuse : (t.slot i).inuse = true)
    (answer : StartAnswer) : Serves opened frames (acceptData t i answer) := by
  unfold acceptData
  split_ifs
  · exact .of_same trivial h rfl
  · exact .of_same trivial h rfl
  · exact .of_same trivial h rfl
  · exact .of_same ⟨h.opened i hinuse, trivial⟩ (h.setFlags i false false) rfl
  · refine ⟨trivial, h, fun j answer' hscan => ?_⟩
    cases hscan
    exact hinuse

theorem serveStart_serves (h : Tidy t frames opened) {i : Nat} (hinuse : (t.slot i).inuse = true)
    (answer : StartAnswer) : Serves opened frames (serveStart t i answer) := by
  obtain ⟨hlegal, hopened, htidy, hinuse'⟩ := replyStart_serves h hinuse answer
  unfold serveStart
  generalize replyStart t i answer = reply at hlegal hopened htidy hinuse' ⊢
  obtain ⟨t₁, calls, status⟩ := reply
  dsimp only at hlegal hopened htidy hinuse' ⊢
  split_ifs
  · obtain ⟨hlegal', htidy', hscan⟩ := acceptData_serves htidy hinuse' answer
    refine ⟨legal_append.mpr ⟨hlegal, hopened.symm ▸ hlegal'⟩, ?_, hscan⟩
    rw [openedBehind_append, hopened]
    exact htidy'
  · exact .of_same hlegal (hopened.symm ▸ htidy) rfl

theorem legal_replicate {be : SaneHandle} (hbe : be ∈ opened) (n : Nat) :
    Legal opened (.replicate n (.saneGetOptionDescriptor be)) ∧
      openedBehind opened (.replicate n (.saneGetOptionDescriptor be)) = opened := by
  induction n with
  | zero => exact ⟨trivial, rfl⟩
  | succ n ih => exact ⟨⟨hbe, ih.1⟩, ih.2⟩

/-- A request keeps the table tidy, unless it closes the handle of a scan on the stack. -/
theorem processRequest_serves (h : Tidy t frames opened) {r : Request}
    (hclose : ∀ word i, r = .netClose word → t.decodeHandle word = some i → ∀ f ∈ frames, f.h ≠ i)
    (hfresh : ∀ be, r = .netOpen (.opened be) → be ∉ opened) :
    Serves opened frames (processRequest t r) := by
  cases r with
  | undecoded => exact .of_same trivial h rfl
  | netGetDevices => exact .of_same trivial h rfl
  | netExit => exact .of_same trivial h rfl
  | unexpected => exact .of_same trivial h rfl
  | netOpen answer => exact serveOpen_serves h fun be heq => hfresh be (congrArg _ heq)
  | netClose word =>
      unfold processRequest
      dsimp only
      cases hword : t.decodeHandle word with
      | none =>
          have hkept : t.closeHandle (-1) = (t, none) := if_neg fun hpos => absurd hpos.1 (by decide)
          rw [hkept]
          exact .of_same trivial h rfl
      | some i =>
          obtain ⟨hlt, hinuse⟩ := decodeHandle_some hword
          have hclosed : t.closeHandle (i : Int) =
              (t.setSlot i { t.slot i with inuse := false }, some (t.slot i).handle) :=
            if_pos ⟨Int.natCast_nonneg i, hinuse⟩
          rw [hclosed]
          exact .of_same ⟨h.opened i hinuse, trivial⟩
            (h.close hlt hinuse (hclose word i rfl hword)) rfl
  | netGetOptionDescriptors word numOptions =>
      unfold processRequest
      dsimp only
      cases hword : t.decodeHandle word with
      | none => exact .of_same trivial h rfl
      | some i =>
          have hopen := h.opened i (decodeHandle_some hword).2
          obtain ⟨hlegal, hsame⟩ := legal_replicate hopen numOptions.toInt.toNat
          refine .of_same ⟨hopen, hlegal⟩ ?_ rfl
          change Tidy t frames (openedBehind opened (.replicate _ _))
          rw [hsame]
          exact h
  | netControlOption word memory =>
      unfold processRequest
      dsimp only
      cases hword : t.decodeHandle word with
      | none => exact .of_same trivial h rfl
      | some i =>
          dsimp only
          split_ifs
          · exact .of_same trivial h rfl
          · exact .of_same ⟨h.opened i (decodeHandle_some hword).2, trivial⟩ h rfl
  | netGetParameters word =>
      unfold processRequest
      dsimp only
      cases hword : t.decodeHandle word with
      | none => exact .of_same trivial h rfl
      | some i => exact .of_same ⟨h.opened i (decodeHandle_some hword).2, trivial⟩ h rfl
  | netStart word answer =>
      unfold processRequest
      dsimp only
      cases hword : t.decodeHandle word with
      | none => exact .of_same trivial h rfl
      | some i => exact serveStart_serves h (decodeHandle_some hword).2 answer
  | netCancel word =>
      unfold processRequest
      dsimp only
      cases hword : t.decodeHandle word with
      | none => exact .of_same trivial h rfl
      | some i =>
          exact .of_same ⟨h.opened i (decodeHandle_some hword).2, trivial⟩ (h.setFlags i _ true) rfl

/-- A turn reads with the handle of its scan, which is that of its slot. -/
theorem scanTurn_keeps (bufferSize : Nat) {f : Frame} (h : Tidy t (f :: frames) opened)
    (input : ScanInput) (rpc : Bool) :
    Keeps opened (scanTurn bufferSize t f frames input rpc) := by
  obtain ⟨hinuse, hsame⟩ := h.frames f List.mem_cons_self
  have hrest := h.sub (List.subset_cons_self f frames)
  unfold scanTurn
  set calls := if f.locals.reads input then [BackendCall.saneRead f.beHandle] else [] with hcalls
  have hlegal : Legal opened calls ∧ openedBehind opened calls = opened := by
    rw [hcalls]
    split_ifs
    · exact ⟨⟨hsame ▸ h.opened f.h hinuse, trivial⟩, rfl⟩
    · exact ⟨trivial, rfl⟩
  have hstay : ∀ (l : ScanLocals) (control : Control),
      Keeps opened (⟨t, { f with locals := l } :: frames, control⟩, calls) := by
    refine fun l control => ⟨hlegal.1, ?_⟩
    rw [hlegal.2]
    exact ⟨h.opened, h.distinct, List.forall_mem_cons.mpr ⟨⟨hinuse, hsame⟩, hrest.frames⟩⟩
  have hend : ∀ t', Tidy t' frames opened → (t'.slot f.h).inuse = true →
      Keeps opened ((endScan t' f.h frames).1, calls ++ (endScan t' f.h frames).2) := by
    intro t' ht' hinuse'
    refine .prepend hlegal.1 ?_
    rw [hlegal.2]
    exact endScan_keeps ht' hinuse'
  cases scanBody bufferSize f.locals input with
  | error fault => exact hstay f.locals .lost
  | ok result =>
      obtain ⟨l, out, flow⟩ := result
      have hloop : Keeps opened
          (if l.continues then (⟨t, { f with locals := l } :: frames, .turn⟩, calls)
            else ((endScan t f.h frames).1, calls ++ (endScan t f.h frames).2)) := by
        split_ifs
        · exact hstay l .turn
        · exact hend t hrest hinuse
      cases flow with
      | again => exact hloop
      | next =>
          cases rpc with
          | true => exact hstay l .request
          | false => exact hloop
      | leave docancel =>
          cases docancel with
          | false => exact hend t hrest hinuse
          | true =>
              have hset := (setFlags_slot t f.h f.h (t.slot f.h).scanning true).1
              exact hend _ (hrest.setFlags f.h _ true) (hset.trans hinuse)

/-- A turn is taken by the innermost scan. -/
theorem step_turn {bufferSize : Nat} {s : Session} {result : Session × List BackendCall}
    {input : ScanInput} {rpc : Bool} (h : s.step bufferSize (.turn input rpc) = some result) :
    ∃ f frames, s.frames = f :: frames ∧
      scanTurn bufferSize s.table f frames input rpc = result := by
  obtain ⟨t, frames, control⟩ := s
  cases control with
  | turn =>
      cases frames with
      | nil => cases h
      | cons f frames => exact ⟨f, frames, rfl, Option.some.inj h⟩
  | request => cases h
  | finished => cases h
  | lost => cases h

theorem step_request {bufferSize : Nat} {s : Session} {result : Session × List BackendCall}
    {r : Request} (h : s.step bufferSize (.request r) = some result) : serve s r = result := by
  rw [Session.step, Option.ite_none_right_eq_some, Option.some.injEq] at h
  exact h.2

theorem step_keeps (bufferSize : Nat) {s s' : Session} {calls : List BackendCall} {e : Event}
    (h : Tidy s.table s.frames opened) (hclose : ¬ ClosesUnderScan s e) (hfresh : FreshHandle opened e)
    (hstep : s.step bufferSize e = some (s', calls)) : Keeps opened (s', calls) := by
  cases e with
  | request r =>
      rw [← step_request hstep, serve]
      obtain ⟨hlegal, htidy, hscan⟩ := @processRequest_serves s.table s.frames opened h r
        (fun word i hr hword f hf heq => hclose ⟨i, by rw [hr]; exact hword, f, hf, heq⟩)
        fun be hr => hfresh be (by rw [hr]; rfl)
      generalize processRequest s.table r = result at hlegal htidy hscan
      obtain ⟨t, calls₁, served⟩ := result
      cases served with
      | hung => exact ⟨hlegal, htidy⟩
      | returned code => exact .prepend hlegal (returnTo_keeps htidy code)
      | scanning i answer => exact .prepend hlegal (enterScan_keeps htidy (hscan i answer rfl) answer)
  | turn input rpc =>
      obtain ⟨f, frames, hframes, hturn⟩ := step_turn hstep
      rw [hframes] at h
      rw [← hturn]
      exact scanTurn_keeps bufferSize h input rpc

end Steps

/-- A connection with the calls of the backend so far. -/
def sessionSystem (bufferSize : Nat) : System (Session × List BackendCall) Event where
  init p := p = (.start, [])
  step p e p' := ∃ calls, p.1.step bufferSize e = some (p'.1, calls) ∧ p'.2 = p.2 ++ calls

/-- A backend that hands out no open handle, and a client that closes none under its scan. -/
def Orderly (p : Session × List BackendCall) (e : Event) : Prop :=
  FreshHandle (openedBehind [] p.2) e ∧ ¬ ClosesUnderScan p.1 e

instance (p : Session × List BackendCall) (e : Event) : Decidable (Orderly p e) :=
  inferInstanceAs (Decidable (FreshHandle (openedBehind [] p.2) e ∧ ¬ ClosesUnderScan p.1 e))

/-- In a run in which no handle is closed from inside its own scan, the backend is only
called with handles that are open. -/
theorem legal_of_reach (bufferSize : Nat) (p : Session × List BackendCall)
    (hreach : (sessionSystem bufferSize).Reach Orderly p) : Legal [] p.2 := by
  have hgood : Legal [] p.2 ∧ Tidy p.1.table p.1.frames (openedBehind [] p.2) := by
    refine hreach.invariant (I := fun p => Legal [] p.2 ∧
      Tidy p.1.table p.1.frames (openedBehind [] p.2)) ?_ ?_
    · rintro p rfl
      have hnone : ∀ j, (HandleTable.empty.slot j).inuse = false := fun j => rfl
      refine ⟨trivial, fun j hj => ?_, fun i j hi => ?_, fun f hf => by cases hf⟩
      · rw [Session.start, hnone] at hj
        cases hj
      · rw [Session.start, hnone] at hi
        cases hi
    · rintro ⟨s, log⟩ e ⟨s', log'⟩ - ⟨hlegal, htidy⟩ ⟨hfresh, hclose⟩ ⟨calls, hstep, rfl⟩
      obtain ⟨hcalls, hkept⟩ := step_keeps bufferSize htidy hclose hfresh hstep
      refine ⟨legal_append.mpr ⟨hlegal, hcalls⟩, ?_⟩
      rw [openedBehind_append]
      exact hkept
  exact hgood.1

section Run

/-- Every call for the data connection succeeds. -/
def connected : StartAnswer where
  listening := true
  start := .good
  data := ⟨true, true, true, true, true⟩
  buf := some fun _ => 0
  selectFd := true

/-- The state behind some events that meet a condition, with the calls they make. -/
def runEvents (bufferSize : Nat) (C : Session × List BackendCall → Event → Prop)
    [∀ p e, Decidable (C p e)] :
    Session × List BackendCall → List Event → Option (Session × List BackendCall)
  | p, [] => some p
  | p, e :: events =>
      if C p e then
        match p.1.step bufferSize e with
        | none => none
        | some (s, calls) => runEvents bufferSize C (s, p.2 ++ calls) events
      else none

/-- Such a run goes through states of the system. -/
theorem reach_runEvents {bufferSize : Nat} {C : Session × List BackendCall → Event → Prop}
    [∀ p e, Decidable (C p e)] {p p' : Session × List BackendCall}
    (h : (sessionSystem bufferSize).Reach C p) (events : List Event)
    (hrun : runEvents bufferSize C p events = some p') :
    (sessionSystem bufferSize).Reach C p' := by
  induction events generalizing p with
  | nil =>
      cases hrun
      exact h
  | cons e events ih =>
      rw [runEvents, Option.ite_none_right_eq_some] at hrun
      obtain ⟨hC, hrun⟩ := hrun
      cases hstep : p.1.step bufferSize e with
      | none =>
          rw [hstep] at hrun
          cases hrun
      | some result =>
          obtain ⟨s, calls⟩ := result
          rw [hstep] at hrun
          exact ih (.next h hC ⟨calls, hstep, rfl⟩) hrun

/-- What holds behind a run holds of a state that is reached. -/
theorem exists_reach_runEvents (bufferSize : Nat) (C : Session × List BackendCall → Event → Prop)
    [∀ p e, Decidable (C p e)] (Q : Session × List BackendCall → Prop) (events : List Event)
    (h : ∃ p ∈ runEvents bufferSize C (.start, []) events, Q p) :
    ∃ p, (sessionSystem bufferSize).Reach C p ∧ Q p := by
  obtain ⟨p, hrun, hQ⟩ := h
  exact ⟨p, reach_runEvents (.start rfl) events hrun, hQ⟩

/-- A scan that waits for its backend, with a request pending. -/
def waitingScan : List Event :=
  [.request (.netOpen (.opened 1)), .request (.netStart (some 0) connected),
    .turn ⟨.ready false false, none, (.good, [])⟩ true]

/-- A turn in which the backend is at its end. -/
def lastTurn : Event := .turn ⟨.ready false true, none, (.eof, [])⟩ false

/-- The handle is closed when its scan is over. -/
theorem legal_of_reach_scan : ∃ p : Session × List BackendCall, Legal [] p.2 ∧
    p.2 = [.saneOpen 1, .saneStart 1, .saneSetIoMode 1, .saneGetSelectFd 1, .saneRead 1,
      .saneClose 1] := by
  obtain ⟨p, hreach, hcalls⟩ := exists_reach_runEvents (bufferSizeOf (-1))
    Orderly
    (fun p => p.2 = [.saneOpen 1, .saneStart 1, .saneSetIoMode 1, .saneGetSelectFd 1,
      .saneRead 1, .saneClose 1])
    (waitingScan.take 2 ++ [lastTurn, .turn ⟨.failed, none, (.good, [])⟩ false,
      .request (.netClose (some 0))]) (by decide)
  exact ⟨p, legal_of_reach _ p hreach, hcalls⟩

/-- The handle is closed while its scan waits, and then read. -/
theorem not_legal_closeUnderScan : ∃ bufferArg p, ¬ Legal [] p.2 ∧
    (sessionSystem (bufferSizeOf bufferArg)).Reach
      (fun p e => FreshHandle (openedBehind [] p.2) e) p := by
  obtain ⟨p, hreach, hcalls⟩ := exists_reach_runEvents (bufferSizeOf (-1))
    (fun p e => FreshHandle (openedBehind [] p.2) e)
    (fun p => p.2 = [.saneOpen 1, .saneStart 1, .saneSetIoMode 1, .saneGetSelectFd 1,
      .saneClose 1, .saneRead 1])
    (waitingScan ++ [.request (.netClose (some 0)), lastTurn]) (by decide)
  refine ⟨-1, p, ?_, hreach⟩
  rw [hcalls]
  intro hlegal
  have hread : (1 : SaneHandle) ∈ ([] : List SaneHandle) := hlegal.2.2.2.2.2.1
  cases hread

end Run

end SaneBackends.Saned
