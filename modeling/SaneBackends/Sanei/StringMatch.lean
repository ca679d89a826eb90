import SaneBackends.Sanei.ConstrainArray
/-!
# `sanei_constrain_value.c`: strings of a list

What `sanei_constrain_value` makes of a string is to be the entry that is the string, else one
that is it in another case, else the only entry it is the beginning of. The scan of the list
stops at the first entry that is the string in any case.
-/

namespace SaneBackends.Sanei

open SaneBackends.Lib

section Match

variable {v s t : List UInt8} {strings : List (List UInt8)}

/-- The string is, in any case, a proper prefix of the entry. -/
def completes (v s : List UInt8) : Bool := abbreviates v s && decide (v.length < s.length)

/-- The list has the string in some case, or a single entry that completes it. -/
def Accepts (strings : List (List UInt8)) (v : List UInt8) : Prop :=
  (∃ s ∈ strings, sameIgnoringCase v s = true) ∨ (strings.filter (completes v)).length = 1

/-- The entry that is meant: the string itself if the list has it. -/
def IsMeant (strings : List (List UInt8)) (v s : List UInt8) : Prop :=
  (s ∈ strings ∧ sameIgnoringCase v s = true ∧ (v ∈ strings → s = v)) ∨
    ((∀ t ∈ strings, sameIgnoringCase v t = false) ∧ strings.filter (completes v) = [s])

theorem sameIgnoringCase_iff : sameIgnoringCase v s = true ↔ s.map lowerCase = v.map lowerCase :=
  beq_iff_eq

theorem length_of_same (h : sameIgnoringCase v s = true) : s.length = v.length := by
  have hmaps := congrArg List.length (sameIgnoringCase_iff.mp h)
  rwa [List.length_map, List.length_map] at hmaps

/-- Strings that differ in case only are the same to the scan. -/
theorem sameIgnoringCase_congr (h : sameIgnoringCase v s = true) :
    sameIgnoringCase s = sameIgnoringCase v := by
  funext t
  rw [sameIgnoringCase, sameIgnoringCase, sameIgnoringCase_iff.mp h]

theorem completes_iff :
    completes v s = true ↔
      (s.take v.length).map lowerCase = v.map lowerCase ∧ v.length < s.length := by
  unfold completes abbreviates
  rw [Bool.and_eq_true, Bool.and_eq_true, beq_iff_eq, decide_eq_true_iff, decide_eq_true_iff]
  constructor
  · rintro ⟨⟨hbegins, -⟩, hlt⟩
    exact ⟨hbegins, hlt⟩
  · rintro ⟨hbegins, hlt⟩
    exact ⟨⟨hbegins, Nat.le_of_lt hlt⟩, hlt⟩

theorem completes_of_same (hsame : sameIgnoringCase s t = true) (h : completes v s = true) :
    completes v t = true := by
  obtain ⟨hbegins, hlt⟩ := completes_iff.mp h
  have hmaps := sameIgnoringCase_iff.mp hsame
  refine completes_iff.mpr ⟨?_, length_of_same hsame ▸ hlt⟩
  rw [← hbegins, List.map_take, List.map_take, hmaps]

/-- An entry counts as a match if it is the string in some case or completes it. -/
theorem abbreviates_eq : abbreviates v s = (sameIgnoringCase v s || completes v s) := by
  by_cases hlen : v.length = s.length
  · have hproper : completes v s = false := by
      rw [completes, decide_eq_false (by omega), Bool.and_false]
    rw [hproper, Bool.or_false, abbreviates_of_length hlen]
  · have hsame : sameIgnoringCase v s = false := by
      rw [← Bool.not_eq_true]
      intro h
      exact hlen (length_of_same h).symm
    rw [hsame, Bool.false_or, completes]
    by_cases hlt : v.length < s.length
    · rw [decide_eq_true hlt, Bool.and_true]
    · rw [decide_eq_false hlt, Bool.and_false, abbreviates, decide_eq_false (by omega),
        Bool.and_false]

/-- Without the string in any case, the scan counts the entries that complete it. -/
theorem constrainString_of_notSame (h : ∀ s ∈ strings, sameIgnoringCase v s = false) (n : Nat)
    (found : Option (List UInt8)) :
    constrainString v strings n found =
      if n + (strings.filter (completes v)).length = 1 then
        (strings.filter (completes v)).getLast?.or found
      else none := by
  induction strings generalizing n found with
  | nil => rfl
  | cons s strings ih =>
      have hrest : ∀ t ∈ strings, sameIgnoringCase v t = false := fun t ht => h t (.tail _ ht)
      have habbreviates : abbreviates v s = completes v s := by
        rw [abbreviates_eq, h s (.head _), Bool.false_or]
      by_cases hs : completes v s = true
      · have hlen : v.length ≠ s.length := Nat.ne_of_lt (completes_iff.mp hs).2
        rw [constrainString, habbreviates, if_pos hs, if_neg hlen, ih hrest,
          List.filter_cons_of_pos hs, List.length_cons, List.getLast?_cons, Option.some_or]
        have hcount : n + 1 + (strings.filter (completes v)).length =
            n + ((strings.filter (completes v)).length + 1) := by omega
        rw [hcount]
        cases (strings.filter (completes v)).getLast? <;> rfl
      · rw [constrainString, habbreviates, if_neg hs, ih hrest, List.filter_cons_of_neg hs]

/-- A string is found in the list, or it is told from every entry. -/
theorem same_or_notSame (strings : List (List UInt8)) (v : List UInt8) :
    (∃ s ∈ strings, sameIgnoringCase v s = true) ∨
      ∀ s ∈ strings, sameIgnoringCase v s = false := by
  by_cases h : ∃ s ∈ strings, sameIgnoringCase v s = true
  · exact .inl h
  · refine .inr fun s hs => ?_
    rw [← Bool.not_eq_true]
    exact fun hsame => h ⟨s, hs, hsame⟩

/-- The entry the scan takes, whichever of the matches it is. -/
theorem constrainString_eq_some :
    constrainString v strings 0 none = some s ↔
      strings.find? (sameIgnoringCase v) = some s ∨
        (∀ t ∈ strings, sameIgnoringCase v t = false) ∧ strings.filter (completes v) = [s] := by
  cases same_or_notSame strings v with
  | inl hsame =>
      rw [constrainString_of_same hsame]
      obtain ⟨t, ht, hsame⟩ := hsame
      constructor
      · exact .inl
      · intro h
        refine h.resolve_right fun hnone => ?_
        rw [hnone.1 t ht] at hsame
        cases hsame
  | inr hnone =>
      have hfind : strings.find? (sameIgnoringCase v) = none := by
        rw [List.find?_eq_none]
        intro t ht
        rw [hnone t ht]
        exact Bool.false_ne_true
      rw [constrainString_of_notSame hnone, hfind, Nat.zero_add, Option.ite_none_right_eq_some]
      constructor
      · rintro ⟨hlength, hlast⟩
        obtain ⟨t, ht⟩ := List.length_eq_one_iff.mp hlength
        rw [ht] at hlast
        cases hlast
        exact .inr ⟨hnone, ht⟩
      · intro h
        have honly := (h.resolve_left nofun).2
        rw [honly]
        exact ⟨rfl, rfl⟩

theorem constrainString_eq_none :
    constrainString v strings 0 none = none ↔ ¬ Accepts strings v := by
  unfold Accepts
  rw [Option.eq_none_iff_forall_ne_some]
  constructor
  · intro hnone haccepts
    cases same_or_notSame strings v with
    | inl hsame =>
        obtain ⟨t, ht⟩ := Option.isSome_iff_exists.mp (List.find?_isSome.mpr hsame)
        exact hnone t (constrainString_eq_some.mpr (.inl ht))
    | inr hnot =>
        cases haccepts with
        | inl hsame =>
            obtain ⟨s, hs, hsame⟩ := hsame
            rw [hnot s hs] at hsame
            cases hsame
        | inr hlength =>
            obtain ⟨t, ht⟩ := List.length_eq_one_iff.mp hlength
            exact hnone t (constrainString_eq_some.mpr (.inr ⟨hnot, ht⟩))
  · intro hnot s hs
    apply hnot
    cases constrainString_eq_some.mp hs with
    | inl hfind => exact .inl ⟨s, List.mem_of_find?_eq_some hfind, List.find?_some hfind⟩
    | inr honly => exact .inr (List.length_eq_one_iff.mpr ⟨s, honly.2⟩)

/-- What the scan takes, it takes again. -/
theorem constrainString_idem (h : constrainString v strings 0 none = some s) :
    constrainString s strings 0 none = some s := by
  refine constrainString_eq_some.mpr (.inl ?_)
  cases constrainString_eq_some.mp h with
  | inl hfind =>
      rw [sameIgnoringCase_congr (List.find?_some hfind)]
      exact hfind
  | inr honly =>
      have hs : s ∈ strings.filter (completes v) := honly.2 ▸ .head _
      rw [List.mem_filter] at hs
      have hsame : ∃ t ∈ strings, sameIgnoringCase s t = true :=
        ⟨s, hs.1, sameIgnoringCase_iff.mpr rfl⟩
      obtain ⟨t, ht⟩ := Option.isSome_iff_exists.mp (List.find?_isSome.mpr hsame)
      -- another case of the completion would complete the string as well
      have hcompletes : t ∈ strings.filter (completes v) :=
        List.mem_filter.mpr ⟨List.mem_of_find?_eq_some ht,
          completes_of_same (List.find?_some ht) hs.2⟩
      rw [honly.2, List.mem_singleton] at hcompletes
      rw [ht, hcompletes]

/-- If the list has the string, then no entry before it is the string in another case. -/
def InCaseOrder (strings : List (List UInt8)) (v : List UInt8) : Prop :=
  v ∈ strings → strings.find? (sameIgnoringCase v) = some v

instance (strings : List (List UInt8)) (v : List UInt8) : Decidable (InCaseOrder strings v) :=
  inferInstanceAs (Decidable (_ → _))

theorem isMeant_iff (h : constrainString v strings 0 none = some s) :
    IsMeant strings v s ↔ InCaseOrder strings v := by
  cases constrainString_eq_some.mp h with
  | inl hfind =>
      have hs := List.mem_of_find?_eq_some hfind
      have hsame := List.find?_some hfind
      unfold InCaseOrder
      rw [hfind, Option.some.injEq]
      constructor
      · intro hmeant
        cases hmeant with
        | inl hentry => exact hentry.2.2
        | inr honly =>
            rw [honly.1 s hs] at hsame
            cases hsame
      · exact fun hfirst => .inl ⟨hs, hsame, hfirst⟩
  | inr honly =>
      refine iff_of_true (.inr honly) fun hv => ?_
      have hself : sameIgnoringCase v v = true := sameIgnoringCase_iff.mpr rfl
      rw [honly.1 v hv] at hself
      cases hself

end Match

section Run

variable {opt : OptionDescriptor} {strings : List (List UInt8)} {v s rest : List UInt8}
  {info : Option SaneWord}

/-- The only entry that completes a string fits into the block the string is in. -/
def CompletionFits (strings : List (List UInt8)) (v rest : List UInt8) : Prop :=
  (∀ s ∈ strings, sameIgnoringCase v s = false) →
    ∀ s, strings.filter (completes v) = [s] → s.length < (v ++ 0 :: rest).length

/-- The string is accepted if it matches; then the entry that is meant is stored, and storing it
again changes nothing. Otherwise the block is as it was. -/
def MatchesList (opt : OptionDescriptor) (strings : List (List UInt8)) (v rest : List UInt8)
    (info : Option SaneWord) : Prop :=
  ∃ result, saneiConstrainBlock opt (v ++ 0 :: rest) info = .ok result ∧
    (result.status = .good ↔ Accepts strings v) ∧
    (result.status = .good →
      (∃ s rest', result.value = s ++ 0 :: rest' ∧ IsMeant strings v s) ∧
        saneiConstrainBlock opt result.value result.info =
          .ok ⟨.good, result.value, result.info⟩) ∧
    (result.status ≠ .good → result.value = v ++ 0 :: rest)

/-- The block is written if the scan takes another string, which then has to fit. -/
theorem constrain_stringList (hconstraint : opt.constraint = .stringList strings) (hv : 0 ∉ v) :
    saneiConstrainBlock opt (v ++ 0 :: rest) info =
      match constrainString v strings 0 none with
      | some s =>
          if v = s then .ok ⟨.good, v ++ 0 :: rest, info⟩
          else if s.length < (v ++ 0 :: rest).length then
            .ok ⟨.good, s ++ 0 :: (v ++ 0 :: rest).drop (s.length + 1), info⟩
          else .error .outOfBounds
      | none => .ok ⟨.inval, v ++ 0 :: rest, info⟩ := by
  unfold saneiConstrainBlock
  rw [hconstraint]
  simp only [strlen_of_terminated hv, ok_bind, List.take_left]
  cases constrainString v strings 0 none with
  | none => rfl
  | some s =>
      dsimp only
      split_ifs with hsame hfits
      · rfl
      · rw [strcpy, if_pos hfits]
        rfl
      · rw [strcpy, if_neg hfits]
        rfl

/-- A block has one string at its beginning. -/
theorem terminated_injective {s t rest rest' : List UInt8} (hs : 0 ∉ s) (ht : 0 ∉ t)
    (h : s ++ 0 :: rest = t ++ 0 :: rest') : s = t := by
  have hlen : strlen (s ++ 0 :: rest) = strlen (t ++ 0 :: rest') := by rw [h]
  rw [strlen_of_terminated hs, strlen_of_terminated ht, Except.ok.injEq] at hlen
  exact (List.append_inj h hlen).1

theorem mem_of_isMeant (h : IsMeant strings v s) : s ∈ strings := by
  cases h with
  | inl hentry => exact hentry.1
  | inr honly =>
      have hs : s ∈ strings.filter (completes v) := honly.2 ▸ .head _
      exact (List.mem_filter.mp hs).1

/-- What is stored is left alone by another call. -/
theorem constrain_again (hconstraint : opt.constraint = .stringList strings) (hs : 0 ∉ s)
    (h : constrainString s strings 0 none = some s) :
    saneiConstrainBlock opt (s ++ 0 :: rest) info = .ok ⟨.good, s ++ 0 :: rest, info⟩ := by
  rw [constrain_stringList hconstraint hs, h]
  exact if_pos rfl

/-- The entry stands at the beginning of the block afterwards, unless it does not fit. -/
theorem constrain_taken (hconstraint : opt.constraint = .stringList strings) (hv : 0 ∉ v)
    (h : constrainString v strings 0 none = some s) (hfits : s.length < (v ++ 0 :: rest).length) :
    ∃ rest', saneiConstrainBlock opt (v ++ 0 :: rest) info =
      .ok ⟨.good, s ++ 0 :: rest', info⟩ := by
  rw [constrain_stringList hconstraint hv, h]
  by_cases hsame : v = s
  · exact ⟨rest, hsame ▸ if_pos rfl⟩
  · exact ⟨_, (if_neg hsame).trans (if_pos hfits)⟩

/-- The entry that is taken fits if it is not longer than the string, or if it does as the only
completion. -/
theorem taken_fits_iff (h : constrainString v strings 0 none = some s) :
    s.length < (v ++ 0 :: rest).length ↔ CompletionFits strings v rest := by
  have hblock : (v ++ 0 :: rest).length = v.length + rest.length + 1 := by simp; omega
  unfold CompletionFits
  rw [hblock]
  cases constrainString_eq_some.mp h with
  | inl hfind =>
      have hsame := List.find?_some hfind
      refine iff_of_true ?_ fun hnot => ?_
      · rw [length_of_same hsame]
        omega
      · rw [hnot s (List.mem_of_find?_eq_some hfind)] at hsame
        cases hsame
  | inr honly =>
      constructor
      · intro hfits _ t ht
        rw [honly.2] at ht
        cases ht
        exact hfits
      · exact fun hfits => hfits honly.1 s honly.2

/-- The strings of a list are matched as meant if and only if no entry before the string itself
differs from it in case only, and the only completion, when it is taken, fits into the block. -/
theorem constrain_matchesList_iff (hconstraint : opt.constraint = .stringList strings)
    (hstrings : ∀ s ∈ strings, 0 ∉ s) (hv : 0 ∉ v) :
    MatchesList opt strings v rest info ↔
      InCaseOrder strings v ∧ CompletionFits strings v rest := by
  cases htaken : constrainString v strings 0 none with
  | none =>
      have hnot := constrainString_eq_none.mp htaken
      have hrun : saneiConstrainBlock opt (v ++ 0 :: rest) info =
          .ok ⟨.inval, v ++ 0 :: rest, info⟩ := by
        rw [constrain_stringList hconstraint hv, htaken]
      refine iff_of_true ⟨_, hrun, ?_, (fun hgood => by cases hgood), fun _ => rfl⟩ ⟨?_, ?_⟩
      · exact iff_of_false nofun hnot
      · exact fun hmem => absurd (.inl ⟨v, hmem, sameIgnoringCase_iff.mpr rfl⟩) hnot
      · exact fun _ s hs => absurd (.inr (by rw [hs]; rfl)) hnot
  | some s =>
      have haccepts : Accepts strings v := by
        by_contra hnot
        rw [constrainString_eq_none.mpr hnot] at htaken
        cases htaken
      have hmem : s ∈ strings := (constrainString_mem htaken).resolve_left nofun
      by_cases hfits : s.length < (v ++ 0 :: rest).length
      · obtain ⟨rest', hrun⟩ :=
          @constrain_taken opt strings v s rest info hconstraint hv htaken hfits
        have hagain : saneiConstrainBlock opt (s ++ 0 :: rest') info =
            .ok ⟨.good, s ++ 0 :: rest', info⟩ :=
          constrain_again hconstraint (hstrings s hmem) (constrainString_idem htaken)
        constructor
        · rintro ⟨result, hresult, -, hstored, -⟩
          rw [hrun, Except.ok.injEq] at hresult
          subst hresult
          obtain ⟨⟨t, restt, hvalue, hmeant⟩, -⟩ := hstored rfl
          have hsame : s = t :=
            terminated_injective (hstrings s hmem) (hstrings t (mem_of_isMeant hmeant)) hvalue
          exact ⟨(isMeant_iff htaken).mp (hsame ▸ hmeant), (taken_fits_iff htaken).mp hfits⟩
        · rintro ⟨horder, -⟩
          refine ⟨_, hrun, iff_of_true rfl haccepts, fun _ => ⟨?_, hagain⟩, fun hbad => ?_⟩
          · exact ⟨s, rest', rfl, (isMeant_iff htaken).mpr horder⟩
          · exact absurd rfl hbad
      · have hrun : saneiConstrainBlock opt (v ++ 0 :: rest) info = .error .outOfBounds := by
          rw [constrain_stringList hconstraint hv, htaken]
          have hother : v ≠ s := by
            intro heq
            rw [← heq] at hfits
            simp at hfits
          dsimp only
          rw [if_neg hother, if_neg hfits]
        refine iff_of_false ?_ fun hcondition => hfits ((taken_fits_iff htaken).mpr hcondition.2)
        rintro ⟨result, hresult, -⟩
        rw [hrun] at hresult
        cases hresult

/-- A scanner with the modes `A`, `a` and `ab`. -/
def casesOption : OptionDescriptor where
  name := []
  type := .string
  size := 3
  constraint := .stringList [[65], [97], [97, 98]]

/-- The first mode is the string itself. -/
theorem constrain_matchesList_iff_firstCase :
    MatchesList casesOption [[65], [97], [97, 98]] [65] [0] none ↔
      InCaseOrder [[65], [97], [97, 98]] [65] ∧
        CompletionFits [[65], [97], [97, 98]] [65] [0] :=
  constrain_matchesList_iff rfl (by decide) (by decide)

/-- The list has `a`, and `A` is stored for it. -/
theorem not_constrain_matchesList_secondCase :
    saneiConstrainBlock casesOption [97, 0, 0] none = .ok ⟨.good, [65, 0, 0], none⟩ ∧
      ¬ MatchesList casesOption [[65], [97], [97, 98]] [97] [0] none := by
  have hrun : saneiConstrainBlock casesOption [97, 0, 0] none =
      .ok ⟨.good, [65, 0, 0], none⟩ := by decide
  refine ⟨hrun, fun ⟨result, hresult, _, hstored, _⟩ => ?_⟩
  have heq : result = ⟨.good, [65, 0, 0], none⟩ := by
    have hruns := hresult.symm.trans hrun
    exact Except.ok.inj hruns
  subst heq
  obtain ⟨⟨s, rest, hvalue, hmeant⟩, -⟩ := hstored rfl
  have hs : s = [97] := by
    cases hmeant with
    | inl hentry => exact hentry.2.2 (by decide)
    | inr honly =>
        have hother : sameIgnoringCase [97] [97] = false := honly.1 [97] (by decide)
        exact absurd hother (by decide)
  rw [hs] at hvalue
  cases hvalue

end Run

end SaneBackends.Sanei
