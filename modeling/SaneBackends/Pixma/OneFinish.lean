import SaneBackends.Lib.Logged
import SaneBackends.Pixma.Session
/-!
# One `finish_scan` for each scan

While a scan is padded with white the driver has finished it, but the session still counts
as scanning. A session that is cancelled or closed then finishes its scan twice.
-/

namespace SaneBackends.Pixma

open SaneBackends.Lib

/-- The calls a driver expects: whether a scan was started and not finished. -/
def lawStep : Bool → DriverCall → Option Bool
  | false, .scan ok => some ok
  | true, .fillBuffer => some true
  | true, .finishScan => some false
  | false, .close => some false
  | _, _ => none

/-- The calls of a session that was opened follow the law. -/
def Lawful (calls : List DriverCall) : Prop := ∃ pending, watch lawStep false calls = some pending

/-- Whether a call ends the scan of a session that is not at its end. -/
def Event.ends (s : Session) : Event → Bool
  | .close => true
  | .readImage _ _ => s.cancel
  | _ => false

/-- A scan that the driver has finished is cancelled or closed. -/
def FinishesAgain (s : Option Session) (e : Event) : Prop :=
  ∃ s' ∈ s, s'.scanning = true ∧ s'.underrun = true ∧ e.ends s' = true

instance (s : Option Session) (e : Event) : Decidable (FinishesAgain s e) :=
  inferInstanceAs (Decidable (∃ s' ∈ s, s'.scanning = true ∧ s'.underrun = true ∧
    e.ends s' = true))

/-- The driver waits to finish just the scans that are not padded. -/
def InStep : Option Session → Bool → Prop
  | none, pending => pending = false
  | some s, pending => pending = (s.scanning && !s.underrun)

theorem fillPixels_flags (s : Session) (room : Nat) :
    (fillPixels s room).1.scanning = s.scanning ∧ (fillPixels s room).1.underrun = s.underrun := by
  unfold fillPixels
  split_ifs <;> exact ⟨rfl, rfl⟩

/-- The loop fills while the scan lasts, and finishes it as it ends. -/
theorem readLoop_inStep {s s' : Session} {buffered room : Nat} {fills : List FillResult}
    {calls : List DriverCall} {end' : Except Int Nat} (hscan : s.scanning = true)
    (hunder : s.underrun = false)
    (hrun : readLoop s buffered room fills = some (s', calls, end')) :
    watch lawStep true calls = some (s'.scanning && !s'.underrun) := by
  induction fills generalizing s buffered room calls with
  | nil =>
      unfold readLoop at hrun
      dsimp only at hrun
      split_ifs at hrun
      cases hrun
      rw [watch_nil, hscan, hunder]
      rfl
  | cons f fills ih =>
      unfold readLoop at hrun
      dsimp only at hrun
      split_ifs at hrun with hroom hbad hend hshort
      · cases hrun
        rw [watch_nil, hscan, hunder]
        rfl
      · cases hrun
        rfl
      · have hflags := fillPixels_flags { s with buffered := f.internal, underrun := true }
          (room - min buffered room - min f.written (room - min buffered room))
        generalize fillPixels { s with buffered := f.internal, underrun := true } _ = filled
          at hrun hflags
        cases hrun
        rw [hflags.2, Bool.not_true, Bool.and_false]
        rfl
      · cases hrun
        rfl
      · obtain ⟨⟨s₁, calls₁, end₁⟩, hrest, heq⟩ := Option.map_eq_some_iff.mp hrun
        cases heq
        refine @ih _ _ _ calls₁ ?_ ?_ hrest
        · exact hscan
        · exact hunder

theorem pixmaScan_inStep {s : Session} (sp : ScanParam) (check result : Int)
    (hscan : s.scanning = false) :
    watch lawStep (s.scanning && !s.underrun) (pixmaScan s sp check result).2.1 =
      some ((pixmaScan s sp check result).1.scanning &&
        !(pixmaScan s sp check result).1.underrun) := by
  unfold pixmaScan
  split_ifs
  · rfl
  · rw [hscan]
    rfl
  · rw [hscan]
    rfl

theorem readImage_inStep {s s' : Session} {len : Nat} {fills : List FillResult}
    {calls : List DriverCall} {end' : Except Int Nat}
    (hok : ¬ (s.scanning = true ∧ s.underrun = true ∧ s.cancel = true))
    (hrun : pixmaReadImage s len fills = some (s', calls, end')) :
    watch lawStep (s.scanning && !s.underrun) calls = some (s'.scanning && !s'.underrun) := by
  unfold pixmaReadImage at hrun
  split_ifs at hrun with hscan hcancel hunder hmore
  · cases hrun
    rfl
  · rw [Bool.not_eq_false] at hscan
    have hunder : s.underrun = false := by
      by_contra hunder
      rw [Bool.not_eq_false] at hunder
      exact hok ⟨hscan, hunder, hcancel⟩
    cases hrun
    rw [hscan, hunder]
    rfl
  · have hflags := fillPixels_flags s len
    generalize fillPixels s len = filled at hrun hflags
    cases hrun
    rw [hflags.2, hunder, Bool.not_true, Bool.and_false, Bool.and_false]
    rfl
  · cases hrun
    rw [hunder, Bool.not_true, Bool.and_false]
    rfl
  · obtain ⟨⟨s₁, calls₁, end₁⟩, hloop, heq⟩ := Option.map_eq_some_iff.mp hrun
    cases heq
    rw [Bool.not_eq_false] at hscan
    rw [Bool.not_eq_true] at hunder
    rw [hscan, hunder]
    exact readLoop_inStep hscan hunder hloop

/-- A call keeps to the law unless it finishes a scan again. -/
theorem step_inStep {s s' : Option Session} {e : Event} {calls : List DriverCall} {pending : Bool}
    (hs : InStep s pending) (hok : ¬ FinishesAgain s e) (hstep : e.step s = some (s', calls)) :
    ∃ pending', watch lawStep pending calls = some pending' ∧ InStep s' pending' := by
  cases s with
  | none => cases hstep
  | some s =>
      subst hs
      cases e with
      | scan sp check result =>
          rw [Event.step] at hstep
          split_ifs at hstep with hscan
          have hwatch := pixmaScan_inStep sp check result (Bool.eq_false_of_not_eq_true hscan)
          generalize pixmaScan s sp check result = scanned at hstep hwatch
          cases hstep
          exact ⟨_, hwatch, rfl⟩
      | readImage len fills =>
          obtain ⟨⟨s₁, calls₁, end₁⟩, hread, heq⟩ := Option.map_eq_some_iff.mp hstep
          cases heq
          refine ⟨_, readImage_inStep (fun hagain => hok ?_) hread, rfl⟩
          exact ⟨s, rfl, hagain.1, hagain.2.1, hagain.2.2⟩
      | cancel =>
          cases hstep
          exact ⟨_, rfl, rfl⟩
      | close =>
          cases hstep
          refine ⟨false, ?_, rfl⟩
          unfold pixmaClose
          by_cases hscan : s.scanning = true
          · have hunder : s.underrun = false := by
              by_contra hunder
              rw [Bool.not_eq_false] at hunder
              exact hok ⟨s, rfl, hscan, hunder, rfl⟩
            rw [if_pos hscan, hscan, hunder]
            rfl
          · rw [if_neg hscan, Bool.eq_false_of_not_eq_true hscan]
            rfl

/-- A scan that is finished again breaks the law. -/
theorem finishesAgain_refused {s s' : Option Session} {e : Event} {calls : List DriverCall}
    {pending : Bool} (hs : InStep s pending) (hagain : FinishesAgain s e)
    (hstep : e.step s = some (s', calls)) : watch lawStep pending calls = none := by
  obtain ⟨s, rfl, hscan, hunder, he⟩ := hagain
  have hpending : pending = false := hs.trans (by rw [hscan, hunder]; rfl)
  cases e with
  | scan sp check result => cases he
  | cancel => cases he
  | close =>
      cases hstep
      rw [pixmaClose, if_pos hscan, hpending]
      rfl
  | readImage len fills =>
      obtain ⟨result, hread, heq⟩ := Option.map_eq_some_iff.mp hstep
      have hcancel : s.cancel = true := he
      rw [pixmaReadImage, if_neg (by rw [hscan]; decide), if_pos hcancel] at hread
      cases hread
      cases heq
      rw [hpending]
      rfl

/-- The calls on a session that `pixma_open` returned. -/
def sessionSystem : System (Option Session × List DriverCall) Event :=
  logged (some .opened) fun s e => e.step s

/-- In a run in which no padded scan is cancelled or closed, each scan is finished once and
filled only before. The next call that cancels or closes a padded scan finishes it again. -/
theorem lawful_of_reach (p : Option Session × List DriverCall)
    (hreach : sessionSystem.Reach (fun p e => ¬ FinishesAgain p.1 e) p) :
    Lawful p.2 ∧ ∀ e p', sessionSystem.step p e p' → (Lawful p'.2 ↔ ¬ FinishesAgain p.1 e) := by
  have hstart : InStep (some Session.opened) false := rfl
  obtain ⟨pending, hwatch, hs⟩ := watched_of_reach hstart
    (fun p e s' calls m hs hok hstep => step_inStep hs hok hstep) hreach
  refine ⟨⟨pending, hwatch⟩, ?_⟩
  intro e p' hnext
  obtain ⟨calls, hstep, hlog⟩ := hnext
  have hall : watch lawStep false p'.2 = watch lawStep pending calls := by
    rw [hlog, watch_append, hwatch]
    rfl
  constructor
  · intro hlawful hagain
    obtain ⟨pending', hlaw⟩ := hlawful
    rw [hall, finishesAgain_refused hs hagain hstep] at hlaw
    cases hlaw
  · intro hok
    obtain ⟨pending', hwatch', -⟩ := step_inStep hs hok hstep
    exact ⟨pending', hall.trans hwatch'⟩

section Run

/-- A scan of 10 bytes of which the driver delivers 4. -/
def shortScan : List Event :=
  [.scan ⟨10, false⟩ 0 0, .readImage 8 [⟨4, 4, 0⟩, ⟨0, 0, 0⟩]]

/-- The padding of a scan is read to its end before the session is closed. -/
theorem lawful_of_reach_padded : ∃ p : Option Session × List DriverCall,
    (Lawful p.2 ∧ ∀ e p', sessionSystem.step p e p' →
      (Lawful p'.2 ↔ ¬ FinishesAgain p.1 e)) ∧
    p.2 = [.scan true, .fillBuffer, .fillBuffer, .finishScan, .close] := by
  obtain ⟨p, hreach, hcalls⟩ := exists_reach_runLogged (some Session.opened)
    (fun s e => Event.step s e) (fun p e => ¬ FinishesAgain p.1 e)
    (fun p => p.2 = [.scan true, .fillBuffer, .fillBuffer, .finishScan, .close])
    (shortScan ++ [Event.readImage 8 [], Event.readImage 8 [], Event.close]) (by decide)
  exact ⟨p, lawful_of_reach p hreach, hcalls⟩

/-- The session is closed while the scan is padded. -/
theorem not_lawful_closed : ∃ p, sessionSystem.Reachable p ∧ ¬ Lawful p.2 := by
  obtain ⟨p, hreach, hcalls⟩ := exists_reach_runLogged (some Session.opened)
    (fun s e => Event.step s e) (fun _ _ => True)
    (fun p => p.2 = [.scan true, .fillBuffer, .fillBuffer, .finishScan, .finishScan, .close])
    (shortScan ++ [Event.close]) (by decide)
  refine ⟨p, hreach, fun hlawful => ?_⟩
  obtain ⟨pending, hwatch⟩ := hlawful
  rw [hcalls] at hwatch
  cases hwatch

end Run

end SaneBackends.Pixma
