import SaneBackends.Saned.HandleUse
/-!
# The `scanning` flag of a slot

`start_scan` sets the flag before there is a data connection, and three of the ways to leave
`SANE_NET_START` behind it do not clear it. Such a slot is stranded: it counts as scanning,
but no `do_scan` for it is on the stack.
-/

namespace SaneBackends.Saned

open SaneBackends.Lib HandleTable

/-- The slot scans, and no `do_scan` for it is on the stack. -/
def Stranded (t : HandleTable) (frames : List Frame) (h : Nat) : Prop :=
  (t.slot h).scanning = true ∧ ∀ f ∈ frames, f.h ≠ h

/-- A slot scans only while a `do_scan` for it is on the stack. -/
def FlagsClear (s : Session) : Prop :=
  ∀ h, (∀ f ∈ s.frames, f.h ≠ h) → (s.table.slot h).scanning = false

/-- The set-up of the data connection is left before its descriptor is looked at. -/
def StartAnswer.abandons (answer : StartAnswer) : Bool :=
  !answer.data.peername || !answer.data.nameinfo || !answer.data.authorized

/-- The slot for which `SANE_NET_START` starts a scan that it then abandons. -/
def Event.abandons (t : HandleTable) : Event → Option Nat
  | .request (.netStart word answer) =>
      (t.decodeHandle word).filter fun h =>
        (replyStart t h answer).2.2 = .good && answer.abandons
  | _ => none

/-- A started scan is abandoned, and no other one of its slot is on the stack. -/
def Strands (s : Session) (e : Event) : Prop :=
  ∃ h ∈ e.abandons s.table, ∀ f ∈ s.frames, f.h ≠ h

instance (s : Session) (e : Event) : Decidable (Strands s e) :=
  inferInstanceAs (Decidable (∃ h ∈ e.abandons s.table, ∀ f ∈ s.frames, f.h ≠ h))

theorem flagsClear_iff {s : Session} : FlagsClear s ↔ ∀ h, ¬ Stranded s.table s.frames h := by
  refine forall_congr' fun h => ?_
  rw [Stranded, not_and', Bool.not_eq_true]

theorem mem_abandons {t : HandleTable} {e : Event} {h : Nat} :
    h ∈ e.abandons t ↔ ∃ word answer, e = .request (.netStart word answer) ∧
      t.decodeHandle word = some h ∧ (replyStart t h answer).2.2 = .good ∧
      answer.abandons = true := by
  constructor
  · intro hmem
    unfold Event.abandons at hmem
    split at hmem
    · rename_i word answer
      rw [Option.mem_def, Option.filter_eq_some_iff, Bool.and_eq_true, decide_eq_true_eq] at hmem
      exact ⟨word, answer, rfl, hmem⟩
    · cases hmem
  · rintro ⟨word, answer, rfl, hword, hgood, habandons⟩
    rw [Event.abandons, Option.mem_def, Option.filter_eq_some_iff, Bool.and_eq_true,
      decide_eq_true_eq]
    exact ⟨hword, hgood, habandons⟩

section Flags

variable {t : HandleTable} {frames : List Frame}

theorem stranded_cons {f : Frame} {j : Nat} :
    Stranded t (f :: frames) j ↔ j ≠ f.h ∧ Stranded t frames j := by
  rw [Stranded, Stranded, List.forall_mem_cons, ne_comm, and_left_comm]

theorem stranded_congr {t' : HandleTable} {j : Nat}
    (h : (t'.slot j).scanning = (t.slot j).scanning) :
    Stranded t' frames j ↔ Stranded t frames j := by
  rw [Stranded, Stranded, h]

theorem scanning_setFlags_ne (t : HandleTable) {h j : Nat} (hj : j ≠ h) (scanning docancel : Bool) :
    ((t.setFlags h scanning docancel).slot j).scanning = (t.slot j).scanning := by
  rw [setFlags, slot_setSlot_ne _ hj]

theorem scanning_setFlags {h : Nat} (hlt : h < t.numHandles) (scanning docancel : Bool) :
    ((t.setFlags h scanning docancel).slot h).scanning = scanning := by
  rw [setFlags, slot_setSlot_same _ hlt]

/-- `docancel` does not matter. -/
theorem stranded_setDocancel (h : Nat) (docancel : Bool) {j : Nat} :
    Stranded (t.setFlags h (t.slot h).scanning docancel) frames j ↔ Stranded t frames j := by
  refine stranded_congr ?_
  by_cases hj : j = h
  · subst hj
    by_cases hlt : j < t.numHandles
    · exact scanning_setFlags hlt _ _
    · rw [setFlags, slot_of_le (by rw [numHandles_setSlot]; omega), slot_of_le (Nat.not_lt.mp hlt)]
  · exact scanning_setFlags_ne t hj _ _

theorem stranded_clear (h : Nat) (docancel : Bool) {j : Nat} :
    Stranded (t.setFlags h false docancel) frames j ↔ j ≠ h ∧ Stranded t frames j := by
  by_cases hj : j = h
  · subst hj
    refine iff_of_false (fun hstr => ?_) fun hstr => hstr.1 rfl
    obtain ⟨hscan, -⟩ := hstr
    by_cases hlt : j < t.numHandles
    · rw [scanning_setFlags hlt] at hscan
      cases hscan
    · rw [setFlags, slot_of_le (by rw [numHandles_setSlot]; omega)] at hscan
      cases hscan
  · rw [stranded_congr (scanning_setFlags_ne t hj _ _), and_iff_right hj]

end Flags

section Steps

variable {t : HandleTable} {frames : List Frame} {j : Nat}

theorem leaveScan_stranded (t : HandleTable) (frames : List Frame) (h : Nat) :
    Stranded (leaveScan t h).1 frames j ↔ j ≠ h ∧ Stranded t frames j := stranded_clear h false

/-- The scans that end on the way clear the flags of their own slots. -/
theorem returnTo_stranded (t : HandleTable) (code : Int) (frames : List Frame) :
    Stranded (returnTo t code frames).1.table (returnTo t code frames).1.frames j ↔
      Stranded t frames j := by
  induction frames generalizing t code with
  | nil => rfl
  | cons f frames ih =>
      rw [returnTo]
      set t₁ := if code < 0 then t.setFlags f.h (t.slot f.h).scanning true else t with ht₁
      have hsame : Stranded t₁ (f :: frames) j ↔ Stranded t (f :: frames) j := by
        rw [ht₁]
        split_ifs
        · exact stranded_setDocancel f.h true
        · rfl
      dsimp only
      split_ifs
      · calc Stranded (returnTo (leaveScan t₁ f.h).1 0 frames).1.table
              (returnTo (leaveScan t₁ f.h).1 0 frames).1.frames j
            ↔ Stranded (leaveScan t₁ f.h).1 frames j := ih _ 0
          _ ↔ j ≠ f.h ∧ Stranded t₁ frames j := leaveScan_stranded t₁ frames f.h
          _ ↔ Stranded t₁ (f :: frames) j := stranded_cons.symm
          _ ↔ Stranded t (f :: frames) j := hsame
      · exact hsame

theorem endScan_stranded (t : HandleTable) (h : Nat) (frames : List Frame) :
    Stranded (endScan t h frames).1.table (endScan t h frames).1.frames j ↔
      j ≠ h ∧ Stranded t frames j :=
  (returnTo_stranded (leaveScan t h).1 0 frames).trans (leaveScan_stranded t frames h)

theorem enterScan_stranded (t : HandleTable) (h : Nat) (answer : StartAnswer)
    (frames : List Frame) :
    Stranded (enterScan t h answer frames).1.table (enterScan t h answer frames).1.frames j ↔
      j ≠ h ∧ Stranded t frames j := by
  unfold enterScan
  dsimp only
  cases answer.buf with
  | none => exact endScan_stranded t h frames
  | some buf => exact stranded_cons

theorem scanTurn_stranded (bufferSize : Nat) (t : HandleTable) (f : Frame) (frames : List Frame)
    (input : ScanInput) (rpc : Bool) :
    Stranded (scanTurn bufferSize t f frames input rpc).1.table
      (scanTurn bufferSize t f frames input rpc).1.frames j ↔ Stranded t (f :: frames) j := by
  unfold scanTurn
  generalize (if f.locals.reads input then [BackendCall.saneRead f.beHandle] else []) = calls
  have hend : Stranded (endScan t f.h frames).1.table (endScan t f.h frames).1.frames j ↔
      Stranded t (f :: frames) j := (endScan_stranded t f.h frames).trans stranded_cons.symm
  cases scanBody bufferSize f.locals input with
  | error fault => rfl
  | ok result =>
      obtain ⟨l, out, flow⟩ := result
      have hstay : Stranded t ({ f with locals := l } :: frames) j ↔
          Stranded t (f :: frames) j := by
        rw [stranded_cons, stranded_cons]
      cases flow with
      | next =>
          dsimp only
          split_ifs
          · exact hstay
          · exact hstay
          · exact hend
      | again =>
          dsimp only
          split_ifs
          · exact hstay
          · exact hend
      | leave docancel =>
          cases docancel with
          | false => exact hend
          | true =>
              have hset : Stranded (t.setFlags f.h (t.slot f.h).scanning true) frames j ↔
                  Stranded t frames j := stranded_setDocancel f.h true
              calc Stranded (endScan _ f.h frames).1.table (endScan _ f.h frames).1.frames j
                  ↔ j ≠ f.h ∧ Stranded (t.setFlags f.h (t.slot f.h).scanning true) frames j :=
                    endScan_stranded _ f.h frames
                _ ↔ j ≠ f.h ∧ Stranded t frames j := and_congr_right' hset
                _ ↔ Stranded t (f :: frames) j := stranded_cons.symm

/-- What serving a request leaves: no slot is stranded but the one that is to be scanned. -/
def Strandless (frames : List Frame) (result : HandleTable × List BackendCall × Served) : Prop :=
  ∀ j, Stranded result.1 frames j → ∃ answer, result.2.2 = .scanning j answer

theorem Strandless.of_none {result : HandleTable × List BackendCall × Served}
    (h : ∀ j, ¬ Stranded result.1 frames j) : Strandless frames result :=
  fun j hj => absurd hj (h j)

theorem serveOpen_strandless (h : ∀ j, ¬ Stranded t frames j) (answer : OpenAnswer) :
    Strandless frames (serveOpen t answer) := by
  cases answer with
  | opened be =>
      unfold serveOpen
      dsimp only
      cases hget : getFreeHandle (2 * t.numHandles + 2) t with
      | none => exact .of_none h
      | some found =>
          obtain ⟨i, t'⟩ := found
          obtain ⟨halloc, -⟩ := getFreeHandle_sound _ _ _ _ hget
          refine .of_none fun j hj => ?_
          by_cases hji : j = i
          · subst hji
            have hscan := hj.1
            rw [slot_setSlot_same _ halloc.index_lt] at hscan
            exact absurd (hscan.symm.trans halloc.scanning_cleared) (by decide)
          · refine h j ⟨?_, hj.2⟩
            rw [← hj.1, slot_setSlot_ne _ hji, halloc.others j hji]
  | undecoded => exact .of_none h
  | noName => exact .of_none h
  | noDevice => exact .of_none h
  | denied => exact .of_none h
  | failed => exact .of_none h

/-- Closing a slot leaves its flag. -/
theorem closeHandle_stranded (t : HandleTable) (h : Int) :
    Stranded (t.closeHandle h).1 frames j ↔ Stranded t frames j := by
  unfold closeHandle
  split_ifs
  · refine stranded_congr ?_
    by_cases hj : j = h.toNat
    · subst hj
      by_cases hlt : h.toNat < t.numHandles
      · rw [slot_setSlot_same _ hlt]
      · rw [slot_of_le (by rw [numHandles_setSlot]; omega), slot_of_le (Nat.not_lt.mp hlt)]
    · rw [slot_setSlot_ne _ hj]
  · rfl

theorem replyStart_scanning {h : Nat} {answer : StartAnswer} :
    (∃ calls, replyStart t h answer = (t.setFlags h true false, calls, .good)) ∨
      (replyStart t h answer).1 = t ∧ (replyStart t h answer).2.2 ≠ .good := by
  unfold replyStart startScan
  dsimp only
  split_ifs with hscan hlisten hstart
  · exact .inr ⟨rfl, nofun⟩
  · exact .inr ⟨rfl, nofun⟩
  · exact .inl ⟨_, rfl⟩
  · exact .inr ⟨rfl, hstart⟩

/-- A set-up that is not abandoned clears the flag or goes on to scan. -/
theorem acceptData_strandless (h : ∀ j, ¬ Stranded t frames j) {i : Nat} {answer : StartAnswer}
    (hanswer : answer.abandons = true → ∃ f ∈ frames, f.h = i) :
    Strandless frames (acceptData (t.setFlags i true false) i answer) := by
  have hother : ∀ j, Stranded (t.setFlags i true false) frames j → j = i := by
    refine fun j hj => by_contra fun hji => h j ?_
    rwa [stranded_congr (scanning_setFlags_ne t hji _ _)] at hj
  have habandoned : answer.abandons = true → ∀ j, ¬ Stranded (t.setFlags i true false) frames j := by
    intro habandons j hj
    obtain ⟨f, hf, hfi⟩ := hanswer habandons
    exact hj.2 f hf (hfi.trans (hother j hj).symm)
  unfold acceptData
  split_ifs with hpeer hname hauth hfd
  · exact .of_none (habandoned (by rw [StartAnswer.abandons, hpeer]; rfl))
  · exact .of_none (habandoned (by simp [StartAnswer.abandons, hname]))
  · exact .of_none (habandoned (by simp [StartAnswer.abandons, hauth]))
  · refine .of_none fun j hj => ?_
    rw [stranded_clear] at hj
    exact hj.1 (hother j hj.2)
  · intro j hj
    rw [hother j hj]
    exact ⟨answer, rfl⟩

theorem serveStart_strandless (h : ∀ j, ¬ Stranded t frames j) {i : Nat} {answer : StartAnswer}
    (hanswer : (replyStart t i answer).2.2 = .good → answer.abandons = true → ∃ f ∈ frames, f.h = i) :
    Strandless frames (serveStart t i answer) := by
  unfold serveStart
  obtain ⟨calls, hreply⟩ | ⟨hsame, hbad⟩ := @replyStart_scanning t i answer
  · rw [hreply] at hanswer ⊢
    exact acceptData_strandless h (hanswer rfl)
  · dsimp only
    rw [if_neg hbad, hsame]
    exact .of_none h

/-- A request strands no slot, unless it abandons a scan that it started. -/
theorem processRequest_strandless (h : ∀ j, ¬ Stranded t frames j) {r : Request}
    (hstart : ∀ word answer i, r = .netStart word answer → t.decodeHandle word = some i →
      (replyStart t i answer).2.2 = .good → answer.abandons = true → ∃ f ∈ frames, f.h = i) :
    Strandless frames (processRequest t r) := by
  cases r with
  | undecoded => exact .of_none h
  | netGetDevices => exact .of_none h
  | netExit => exact .of_none h
  | unexpected => exact .of_none h
  | netOpen answer => exact serveOpen_strandless h answer
  | netClose word =>
      refine .of_none fun j hj => h j ?_
      exact (closeHandle_stranded t _).mp hj
  | netGetOptionDescriptors word numOptions =>
      unfold processRequest
      dsimp only
      split <;> exact .of_none h
  | netControlOption word memory =>
      unfold processRequest
      dsimp only
      split
      · exact .of_none h
      · split_ifs <;> exact .of_none h
  | netGetParameters word =>
      unfold processRequest
      dsimp only
      split <;> exact .of_none h
  | netStart word answer =>
      unfold processRequest
      dsimp only
      cases hword : t.decodeHandle word with
      | none => exact .of_none h
      | some i =>
          exact serveStart_strandless h (hstart word answer i rfl hword)
  | netCancel word =>
      unfold processRequest
      dsimp only
      split
      · exact .of_none h
      · exact .of_none fun j hj => h j ((stranded_setDocancel _ true).mp hj)

theorem acceptData_abandons {h : Nat} {answer : StartAnswer} (habandons : answer.abandons = true) :
    ∃ code, acceptData t h answer = (t, [], .returned code) := by
  unfold acceptData
  split_ifs with hpeer hname hauth
  · exact ⟨1, rfl⟩
  · exact ⟨1, rfl⟩
  · exact ⟨-1, rfl⟩
  all_goals simp [StartAnswer.abandons, hpeer, hname, hauth] at habandons

/-- An abandoned scan strands its slot. -/
theorem serve_strands {s : Session} {word : Option SaneWord} {answer : StartAnswer} {h : Nat}
    (hword : s.table.decodeHandle word = some h)
    (hgood : (replyStart s.table h answer).2.2 = .good) (habandons : answer.abandons = true)
    (hfree : ∀ f ∈ s.frames, f.h ≠ h) :
    Stranded (serve s (.netStart word answer)).1.table
      (serve s (.netStart word answer)).1.frames h := by
  obtain ⟨calls, hreply⟩ | ⟨-, hbad⟩ := @replyStart_scanning s.table h answer
  · obtain ⟨code, haccept⟩ := @acceptData_abandons (s.table.setFlags h true false) h answer habandons
    have hserved : processRequest s.table (.netStart word answer) =
        (s.table.setFlags h true false, calls ++ [], .returned code) := by
      rw [processRequest, hword]
      dsimp only
      rw [serveStart, hreply]
      dsimp only
      rw [if_pos rfl, haccept]
    rw [serve, hserved]
    exact (returnTo_stranded _ code s.frames).mpr
      ⟨scanning_setFlags (decodeHandle_some hword).1 true false, hfree⟩
  · exact absurd hgood hbad

theorem serve_flagsClear {s : Session} {r : Request} (h : FlagsClear s)
    (hstart : ¬ Strands s (.request r)) : FlagsClear (serve s r).1 := by
  rw [flagsClear_iff] at h ⊢
  have hserved := @processRequest_strandless s.table s.frames h r fun word answer i hr hword hgood
      habandons => by
    by_contra hfree
    rw [not_exists] at hfree
    refine hstart ⟨i, mem_abandons.mpr ⟨word, answer, congrArg _ hr, hword, hgood, habandons⟩, ?_⟩
    exact fun f hf heq => hfree f ⟨hf, heq⟩
  unfold serve
  generalize processRequest s.table r = result at hserved ⊢
  obtain ⟨t₁, calls, served⟩ := result
  intro j hj
  cases served with
  | hung =>
      obtain ⟨answer, hscan⟩ := hserved j hj
      cases hscan
  | returned code =>
      obtain ⟨answer, hscan⟩ := hserved j ((returnTo_stranded t₁ code s.frames).mp hj)
      cases hscan
  | scanning i answer =>
      obtain ⟨hne, hstr⟩ := (enterScan_stranded t₁ i answer s.frames).mp hj
      obtain ⟨answer', hscan⟩ := hserved j hstr
      cases hscan
      exact hne rfl

/-- The flags stay clear in a step just if it strands no slot. -/
theorem step_flagsClear {bufferSize : Nat} {s s' : Session} {calls : List BackendCall} {e : Event}
    (h : FlagsClear s) (hstep : s.step bufferSize e = some (s', calls)) :
    FlagsClear s' ↔ ¬ Strands s e := by
  cases e with
  | request r =>
      rw [show s' = (serve s r).1 from congrArg Prod.fst (step_request hstep).symm]
      refine ⟨fun hclear hstrands => ?_, serve_flagsClear h⟩
      obtain ⟨i, hi, hfree⟩ := hstrands
      obtain ⟨word, answer, hr, hword, hgood, habandons⟩ := mem_abandons.mp hi
      cases hr
      exact flagsClear_iff.mp hclear i (serve_strands hword hgood habandons hfree)
  | turn input rpc =>
      obtain ⟨f, frames, hframes, hturn⟩ := step_turn hstep
      rw [show s' = (scanTurn bufferSize s.table f frames input rpc).1 from
        congrArg Prod.fst hturn.symm]
      refine iff_of_true ?_ fun hstrands => ?_
      · rw [flagsClear_iff] at h ⊢
        intro j hj
        rw [scanTurn_stranded, ← hframes] at hj
        exact h j hj
      · obtain ⟨i, hi, -⟩ := hstrands
        cases hi

end Steps

/-- A slot that does not scan is refused as busy by the backend alone. -/
theorem replyStart_busy {t : HandleTable} {h : Nat} {answer : StartAnswer}
    (hidle : (t.slot h).scanning = false) (hbusy : (replyStart t h answer).2.2 = .deviceBusy) :
    answer.start = .deviceBusy := by
  unfold replyStart startScan at hbusy
  rw [hidle, if_neg Bool.false_ne_true] at hbusy
  dsimp only at hbusy
  split_ifs at hbusy
  exact hbusy

/-- In a run that abandons no started scan, a slot scans only while a `do_scan` for it is on
the stack, and no other start is refused as busy. The next step that abandons one breaks it. -/
theorem flagsClear_of_reach (bufferSize : Nat) (p : Session × List BackendCall)
    (hreach : (sessionSystem bufferSize).Reach (fun p e => ¬ Strands p.1 e) p) :
    FlagsClear p.1 ∧
      (∀ h answer, (∀ f ∈ p.1.frames, f.h ≠ h) →
        (replyStart p.1.table h answer).2.2 = .deviceBusy → answer.start = .deviceBusy) ∧
      ∀ e p', (sessionSystem bufferSize).step p e p' → (FlagsClear p'.1 ↔ ¬ Strands p.1 e) := by
  have hclear : FlagsClear p.1 := by
    refine hreach.invariant (I := fun p => FlagsClear p.1) ?_ ?_
    · rintro p rfl h -
      rfl
    · rintro p e p' - h hstrands ⟨calls, hstep, -⟩
      exact (step_flagsClear h hstep).mpr hstrands
  refine ⟨hclear, fun h answer hidle hbusy => replyStart_busy (hclear h hidle) hbusy, ?_⟩
  rintro e p' ⟨calls, hstep, -⟩
  exact step_flagsClear hclear hstep

section Run

/-- No data connection arrives. -/
def unconnected : StartAnswer :=
  { connected with data := ⟨true, false, false, true, true⟩ }

/-- Behind a scan that failed, its slot can be started again. -/
theorem flagsClear_of_reach_scan : ∃ p : Session × List BackendCall,
    (FlagsClear p.1 ∧
      (∀ h answer, (∀ f ∈ p.1.frames, f.h ≠ h) →
        (replyStart p.1.table h answer).2.2 = .deviceBusy → answer.start = .deviceBusy) ∧
      ∀ e p', (sessionSystem (bufferSizeOf (-1))).step p e p' →
        (FlagsClear p'.1 ↔ ¬ Strands p.1 e)) ∧
    p.2 = [.saneOpen 1, .saneStart 1, .saneSetIoMode 1, .saneGetSelectFd 1] := by
  obtain ⟨p, hreach, hcalls⟩ := exists_reach_runEvents (bufferSizeOf (-1))
    (fun p e => ¬ Strands p.1 e)
    (fun p => p.2 = [.saneOpen 1, .saneStart 1, .saneSetIoMode 1, .saneGetSelectFd 1])
    (waitingScan.take 2 ++ [Event.turn ⟨.failed, none, (.good, [])⟩ false]) (by decide)
  exact ⟨p, flagsClear_of_reach _ p hreach, hcalls⟩

/-- No data connection arrives, so the next start is refused as busy. -/
theorem not_flagsClear_unconnected : ∃ bufferArg p,
    (sessionSystem (bufferSizeOf bufferArg)).Reachable p ∧
      ¬ FlagsClear p.1 ∧ (replyStart p.1.table 0 connected).2.2 = .deviceBusy := by
  obtain ⟨p, hreach, hframes, hscan, hbusy⟩ := exists_reach_runEvents (bufferSizeOf (-1))
    (fun _ _ => True)
    (fun p => p.1.frames.length = 0 ∧ (p.1.table.slot 0).scanning = true ∧
      (replyStart p.1.table 0 connected).2.2 = .deviceBusy)
    [.request (.netOpen (.opened 1)), .request (.netStart (some 0) unconnected)]
    (by decide)
  refine ⟨-1, p, hreach, fun hclear => ?_, hbusy⟩
  rw [hclear 0 fun f hf => absurd hf (List.length_eq_zero_iff.mp hframes ▸ List.not_mem_nil)] at hscan
  cases hscan

end Run

end SaneBackends.Saned
