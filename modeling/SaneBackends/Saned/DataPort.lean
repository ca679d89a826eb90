import Mathlib.Tactic
import SaneBackends.Sanei.Types
/-!
# The search for a data port

`start_scan` tries to bind one port of the configured range after another. The counter is an
`in_port_t`, which the largest port number is the last value of.
-/

namespace SaneBackends.Saned

/-! ## The code -/

/-- The variables of the loop, and the ports that were tried. -/
structure PortSearch where
  dataPort : UInt16
  ret : Int
  tried : List UInt16

/-- The loop over the ports, if it ends before its `fuel`-th condition. What `bind` comes to may
differ from one call to the next. -/
def bindLoop (bind : Nat → UInt16 → Bool) (dataPortHi : UInt16) :
    Nat → PortSearch → Option PortSearch
  | 0, _ => none
  | fuel + 1, st =>
      if st.dataPort ≤ dataPortHi then
        let ret := if bind st.tried.length st.dataPort then 0 else -1
        let st := { st with ret := ret, tried := st.tried ++ [st.dataPort] }
        if ret = 0 then some st
        else bindLoop bind dataPortHi fuel { st with dataPort := st.dataPort + 1 }
      else some st

/-- The port that is bound, or the status of the reply, with the ports that were tried. -/
def bindDataPort (bind : Nat → UInt16 → Bool) (dataPortLo dataPortHi : UInt16) (fuel : Nat) :
    Option (Except SaneStatus UInt16 × List UInt16) := do
  let st ← bindLoop bind dataPortHi fuel { dataPort := dataPortLo, ret := -1, tried := [] }
  some (if st.ret < 0 then .error .ioError else .ok st.dataPort, st.tried)

/-! ## What it is for -/

/-- The ports of the range were tried in turn, up to the first that could be bound. -/
structure SearchesRange (bind : Nat → UInt16 → Bool) (lo hi : UInt16)
    (outcome : Except SaneStatus UInt16) (tried : List UInt16) : Prop where
  order : tried.Pairwise (· < ·)
  inside : ∀ port ∈ tried, lo ≤ port ∧ port ≤ hi
  attempts : tried.length ≤ hi.toNat - lo.toNat + 1
  stops : ∀ i port, tried[i]? = some port → bind i port = true →
    i + 1 = tried.length ∧ outcome = .ok port
  failed : outcome = .error .ioError ↔ ∀ i port, tried[i]? = some port → bind i port = false
  whole : outcome = .error .ioError → ∀ port, lo ≤ port → port ≤ hi → port ∈ tried

/-- So many ports of the range, in turn. -/
def portsFrom (lo : UInt16) (k : Nat) : List UInt16 :=
  (List.range k).map fun i => lo + UInt16.ofNat i

section Search

variable {bind : Nat → UInt16 → Bool} {lo hi : UInt16} {st st' : PortSearch} {fuel i k : Nat}

theorem toNat_port (h : lo.toNat + i < 2 ^ 16) : (lo + UInt16.ofNat i).toNat = lo.toNat + i := by
  rw [UInt16.toNat_add, UInt16.toNat_ofNat']
  omega

@[simp] theorem length_portsFrom (lo : UInt16) (k : Nat) : (portsFrom lo k).length = k := by
  simp [portsFrom]

theorem portsFrom_succ (lo : UInt16) (k : Nat) :
    portsFrom lo (k + 1) = portsFrom lo k ++ [lo + UInt16.ofNat k] := by
  simp [portsFrom, List.range_succ]

theorem getElem?_portsFrom {port : UInt16} :
    (portsFrom lo k)[i]? = some port ↔ i < k ∧ lo + UInt16.ofNat i = port := by
  unfold portsFrom
  rw [List.getElem?_map]
  by_cases hi : i < k
  · rw [List.getElem?_range hi]
    simp [hi]
  · rw [List.getElem?_eq_none (by simpa using hi)]
    simp [hi]

theorem portsFrom_order (h : lo.toNat + k ≤ hi.toNat + 1) :
    (portsFrom lo k).Pairwise (· < ·) := by
  have hmax := hi.toNat_lt
  unfold portsFrom
  rw [List.pairwise_map]
  refine List.Pairwise.imp_of_mem (fun {i j} hi hj hlt => ?_) List.pairwise_lt_range
  rw [List.mem_range] at hi hj
  rw [UInt16.lt_iff_toNat_lt, toNat_port (by omega), toNat_port (by omega)]
  omega

theorem portsFrom_inside (h : lo.toNat + k ≤ hi.toNat + 1) :
    ∀ port ∈ portsFrom lo k, lo ≤ port ∧ port ≤ hi := by
  intro port hport
  have hmax := hi.toNat_lt
  obtain ⟨i, hlt, rfl⟩ := List.mem_map.mp hport
  rw [List.mem_range] at hlt
  rw [UInt16.le_iff_toNat_le, UInt16.le_iff_toNat_le, toNat_port (by omega)]
  omega

/-! ## Passes -/

theorem bindLoop_failed (h : st.dataPort ≤ hi) (hbind : bind st.tried.length st.dataPort = false) :
    bindLoop bind hi (fuel + 1) st = bindLoop bind hi fuel
      { dataPort := st.dataPort + 1, ret := -1, tried := st.tried ++ [st.dataPort] } := by
  rw [bindLoop, if_pos h, hbind]
  rfl

theorem bindLoop_bound (h : st.dataPort ≤ hi) (hbind : bind st.tried.length st.dataPort = true) :
    bindLoop bind hi (fuel + 1) st =
      some { st with ret := 0, tried := st.tried ++ [st.dataPort] } := by
  rw [bindLoop, if_pos h, hbind]
  rfl

theorem bindLoop_end (h : ¬ st.dataPort ≤ hi) : bindLoop bind hi (fuel + 1) st = some st := by
  rw [bindLoop, if_neg h]

/-- As long as no attempt succeeds, one port after another is tried. -/
theorem bindLoop_passes (hrange : lo.toNat + k ≤ hi.toNat + 1)
    (hfail : ∀ i < k, bind i (lo + UInt16.ofNat i) = false) :
    bindLoop bind hi (fuel + k) ⟨lo, -1, []⟩ =
      bindLoop bind hi fuel ⟨lo + UInt16.ofNat k, -1, portsFrom lo k⟩ := by
  have hmax := hi.toNat_lt
  induction k generalizing fuel with
  | zero =>
      rw [show UInt16.ofNat 0 = 0 from rfl, UInt16.add_zero]
      rfl
  | succ k ih =>
      have hinside : lo + UInt16.ofNat k ≤ hi := by
        rw [UInt16.le_iff_toNat_le, toNat_port (by omega)]
        omega
      have hnext : lo + UInt16.ofNat k + 1 = lo + UInt16.ofNat (k + 1) := by
        rw [UInt16.ofNat_add, UInt16.add_assoc]
        rfl
      rw [Nat.add_comm k 1, ← Nat.add_assoc, ih (by omega) fun i hi => hfail i (by omega),
        bindLoop_failed hinside]
      · rw [Nat.add_comm 1 k, hnext, portsFrom_succ]
      · rw [length_portsFrom]
        exact hfail k (Nat.lt_succ_self k)

/-- More fuel changes nothing. -/
theorem bindLoop_mono (h : bindLoop bind hi fuel st = some st') (k : Nat) :
    bindLoop bind hi (fuel + k) st = some st' := by
  induction fuel generalizing st with
  | zero => cases h
  | succ fuel ih =>
      rw [Nat.add_right_comm]
      by_cases hinside : st.dataPort ≤ hi
      · cases hbind : bind st.tried.length st.dataPort with
        | false =>
            rw [bindLoop_failed hinside hbind] at h ⊢
            exact ih h
        | true =>
            rw [bindLoop_bound hinside hbind] at h ⊢
            exact h
      · rw [bindLoop_end hinside] at h ⊢
        exact h

/-- No attempt is forgotten. -/
theorem bindLoop_length (h : bindLoop bind hi fuel st = some st') :
    st.tried.length ≤ st'.tried.length ∧
      (st.dataPort ≤ hi → st.tried.length < st'.tried.length) := by
  induction fuel generalizing st with
  | zero => cases h
  | succ fuel ih =>
      by_cases hinside : st.dataPort ≤ hi
      · have hlast : (st.tried ++ [st.dataPort]).length = st.tried.length + 1 := by simp
        have hless : st.tried.length < st'.tried.length := by
          cases hbind : bind st.tried.length st.dataPort with
          | false =>
              rw [bindLoop_failed hinside hbind] at h
              have hrest := (ih h).1
              rw [hlast] at hrest
              exact hrest
          | true =>
              rw [bindLoop_bound hinside hbind] at h
              cases h
              rw [hlast]
              exact Nat.lt_succ_self _
        exact ⟨Nat.le_of_lt hless, fun _ => hless⟩
      · rw [bindLoop_end hinside] at h
        cases h
        exact ⟨Nat.le_refl _, fun hle => absurd hle hinside⟩

theorem bindDataPort_eq {outcome : Except SaneStatus UInt16} {tried : List UInt16}
    (h : bindDataPort bind lo hi fuel = some (outcome, tried)) :
    ∃ st, bindLoop bind hi fuel ⟨lo, -1, []⟩ = some st ∧ st.tried = tried := by
  unfold bindDataPort at h
  cases hloop : bindLoop bind hi fuel ⟨lo, -1, []⟩ with
  | none =>
      rw [hloop] at h
      cases h
  | some st =>
      rw [hloop] at h
      exact ⟨st, rfl, (Prod.mk.inj (Option.some.inj h)).2⟩

/-! ## Runs -/

/-- The search ends at the first attempt that succeeds. -/
theorem searches_of_bound (hrange : lo.toNat + k ≤ hi.toNat)
    (hfail : ∀ i < k, bind i (lo + UInt16.ofNat i) = false)
    (hbind : bind k (lo + UInt16.ofNat k) = true) :
    ∃ tried, bindDataPort bind lo hi (1 + k) = some (.ok (lo + UInt16.ofNat k), tried) ∧
      SearchesRange bind lo hi (.ok (lo + UInt16.ofNat k)) tried := by
  have hmax := hi.toNat_lt
  have hinside : lo + UInt16.ofNat k ≤ hi := by
    rw [UInt16.le_iff_toNat_le, toNat_port (by omega)]
    exact hrange
  have hlast : lo.toNat + (k + 1) ≤ hi.toNat + 1 := by omega
  refine ⟨portsFrom lo (k + 1), ?_, portsFrom_order hlast, portsFrom_inside hlast, ?_,
    fun i port hport hsuccess => ?_, ⟨fun h => (by cases h), fun hall => ?_⟩, fun h => by cases h⟩
  · rw [bindDataPort, bindLoop_passes (by omega) hfail, bindLoop_bound hinside, portsFrom_succ]
    · rfl
    · rw [length_portsFrom]
      exact hbind
  · rw [length_portsFrom]
    omega
  · obtain ⟨hlt, rfl⟩ := getElem?_portsFrom.mp hport
    have heq : i = k := by
      by_contra hne
      rw [hfail i (by omega)] at hsuccess
      cases hsuccess
    rw [heq, length_portsFrom]
    exact ⟨rfl, rfl⟩
  · have hfalse := hall k _ (getElem?_portsFrom.mpr ⟨Nat.lt_succ_self k, rfl⟩)
    rw [hbind] at hfalse
    cases hfalse

/-- The search ends behind the last port, if there is a number behind it. -/
theorem searches_of_failed (hrange : lo ≤ hi) (hhi : hi < 65535)
    (hfail : ∀ i < hi.toNat - lo.toNat + 1, bind i (lo + UInt16.ofNat i) = false) :
    ∃ fuel tried, bindDataPort bind lo hi fuel = some (.error .ioError, tried) ∧
      SearchesRange bind lo hi (.error .ioError) tried := by
  rw [UInt16.le_iff_toNat_le] at hrange
  rw [UInt16.lt_iff_toNat_lt, show (65535 : UInt16).toNat = 65535 from rfl] at hhi
  have hbehind : ¬ lo + UInt16.ofNat (hi.toNat - lo.toNat + 1) ≤ hi := by
    rw [UInt16.le_iff_toNat_le, UInt16.toNat_add, UInt16.toNat_ofNat']
    omega
  have hlast : lo.toNat + (hi.toNat - lo.toNat + 1) ≤ hi.toNat + 1 := by omega
  refine ⟨1 + (hi.toNat - lo.toNat + 1), portsFrom lo (hi.toNat - lo.toNat + 1), ?_,
    portsFrom_order hlast, portsFrom_inside hlast, Nat.le_of_eq (length_portsFrom ..),
    fun i port hport hsuccess => ?_, ⟨fun _ i port hport => ?_, fun _ => rfl⟩,
    fun _ port hlo hhi => ?_⟩
  · rw [bindDataPort, bindLoop_passes (by omega) hfail, bindLoop_end hbehind]
    rfl
  · obtain ⟨hlt, rfl⟩ := getElem?_portsFrom.mp hport
    rw [hfail i hlt] at hsuccess
    cases hsuccess
  · obtain ⟨hlt, rfl⟩ := getElem?_portsFrom.mp hport
    exact hfail i hlt
  · rw [UInt16.le_iff_toNat_le] at hlo hhi
    refine List.mem_map.mpr ⟨port.toNat - lo.toNat, List.mem_range.mpr (by omega), ?_⟩
    have hmax := hi.toNat_lt
    rw [← UInt16.toNat_inj, toNat_port (by omega)]
    omega

/-- If the last port number has failed as well, the search goes on with port 0. -/
theorem bindDataPort_wraps (hrange : lo ≤ hi) (hhi : ¬ hi < 65535)
    (hfail : ∀ i < hi.toNat - lo.toNat + 1, bind i (lo + UInt16.ofNat i) = false)
    {outcome : Except SaneStatus UInt16} {tried : List UInt16}
    (hrun : bindDataPort bind lo hi fuel = some (outcome, tried)) :
    hi.toNat - lo.toNat + 1 < tried.length := by
  obtain ⟨st, hloop, rfl⟩ := bindDataPort_eq hrun
  rw [UInt16.le_iff_toNat_le] at hrange
  rw [UInt16.lt_iff_toNat_lt, show (65535 : UInt16).toNat = 65535 from rfl] at hhi
  have hmax := hi.toNat_lt
  have hwrapped : lo + UInt16.ofNat (hi.toNat - lo.toNat + 1) = 0 := by
    rw [← UInt16.toNat_inj, UInt16.toNat_add, UInt16.toNat_ofNat',
      show (0 : UInt16).toNat = 0 from rfl]
    omega
  have hzero : (0 : UInt16) ≤ hi := by
    rw [UInt16.le_iff_toNat_le]
    exact Nat.zero_le _
  have hlonger := bindLoop_mono hloop (hi.toNat - lo.toNat + 1)
  rw [bindLoop_passes (by omega) hfail, hwrapped] at hlonger
  have hless := (bindLoop_length hlonger).2 hzero
  rw [length_portsFrom] at hless
  exact hless

end Search

/-- The search tries the ports of the range and ends just if the largest port number is not one of
them, or one of the attempts at them succeeds. -/
theorem searchesRange_iff (bind : Nat → UInt16 → Bool) {lo hi : UInt16} (hrange : lo ≤ hi) :
    (∃ fuel outcome tried, bindDataPort bind lo hi fuel = some (outcome, tried) ∧
      SearchesRange bind lo hi outcome tried) ↔
      hi < 65535 ∨ ∃ k ≤ hi.toNat - lo.toNat, bind k (lo + UInt16.ofNat k) = true := by
  have hle := UInt16.le_iff_toNat_le.mp hrange
  by_cases hsuccess : ∃ k ≤ hi.toNat - lo.toNat, bind k (lo + UInt16.ofNat k) = true
  · refine ⟨fun _ => .inr hsuccess, fun _ => ?_⟩
    obtain ⟨hk, hbind⟩ := Nat.find_spec hsuccess
    have hfail : ∀ i < Nat.find hsuccess, bind i (lo + UInt16.ofNat i) = false := by
      intro i hi
      have hnot := Nat.find_min hsuccess hi
      rw [← Bool.not_eq_true]
      exact fun h => hnot ⟨by omega, h⟩
    have hinside : lo.toNat + Nat.find hsuccess ≤ hi.toNat := by omega
    obtain ⟨tried, hrun, hsearches⟩ := searches_of_bound hinside hfail hbind
    exact ⟨_, _, tried, hrun, hsearches⟩
  · have hfail : ∀ i < hi.toNat - lo.toNat + 1, bind i (lo + UInt16.ofNat i) = false := by
      intro i hi
      rw [← Bool.not_eq_true]
      exact fun h => hsuccess ⟨i, by omega, h⟩
    rw [or_iff_left hsuccess]
    constructor
    · rintro ⟨fuel, outcome, tried, hrun, hsearches⟩
      by_contra hhi
      have hmore := bindDataPort_wraps hrange hhi hfail hrun
      have hattempts := hsearches.attempts
      omega
    · intro hhi
      obtain ⟨fuel, tried, hrun, hsearches⟩ := searches_of_failed hrange hhi hfail
      exact ⟨fuel, _, tried, hrun, hsearches⟩

theorem searchesRange_iff_tenThousand :
    (∃ fuel outcome tried, bindDataPort (fun _ _ => false) 10000 10100 fuel = some (outcome, tried) ∧
      SearchesRange (fun _ _ => false) 10000 10100 outcome tried) ↔
      (10100 : UInt16) < 65535 ∨
        ∃ k ≤ (10100 : UInt16).toNat - (10000 : UInt16).toNat, false = true :=
  searchesRange_iff (fun _ _ => false) (by decide)

/-- With only the largest port number to try, and no success, the search does not end as it
should. -/
theorem not_searchesRange_lastPort :
    ¬ ∃ fuel outcome tried,
      bindDataPort (fun _ _ => false) 65535 65535 fuel = some (outcome, tried) ∧
        SearchesRange (fun _ _ => false) 65535 65535 outcome tried := by
  rintro ⟨fuel, outcome, tried, hrun, hsearches⟩
  have hmore := @bindDataPort_wraps (fun _ _ => false) 65535 65535 fuel (by decide) (by decide)
    (fun _ _ => rfl) outcome tried hrun
  have hattempts := hsearches.attempts
  omega

end SaneBackends.Saned
