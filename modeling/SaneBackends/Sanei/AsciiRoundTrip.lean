import SaneBackends.Sanei.AsciiRead
/-!
# Messages over the ASCII codec

A peer that decodes the text of a message gets a message of the same shape, unless there is a
character among its tokens or its wire does not admit an array.
-/

namespace SaneBackends.Sanei

open SaneBackends.Lib

/-- A token that has a text. -/
def Token.Exact : Token → Prop
  | word v => ¬ intMax < -v.toInt
  | _ => True

/-- None of the tokens is a character. -/
def Legible (ts : List Token) : Prop := ∀ t ∈ ts, ¬ t.isChar

/-- What may stand in front of the tokens: the end of a line, or nothing if the first of them is
no character. -/
def Leads (lead : List UInt8) (ts : List Token) : Prop :=
  lead = [10] ∨ (lead = [] ∧ ∀ t ∈ ts.head?, ¬ t.isChar)

/-- What stays unread behind the tokens. -/
def leadAfter (lead : List UInt8) (ts : List Token) : List UInt8 := if ts = [] then lead else [10]

theorem leads_append {lead : List UInt8} {ts us : List Token} (h : Leads lead (ts ++ us)) :
    Leads lead ts ∧ Leads (leadAfter lead ts) us := by
  cases ts with
  | nil =>
      refine ⟨?_, h⟩
      rcases h with h | ⟨h, -⟩
      · exact .inl h
      · exact .inr ⟨h, by simp⟩
  | cons t ts => exact ⟨h, .inl rfl⟩

theorem leadAfter_append (lead : List UInt8) (ts us : List Token) :
    leadAfter (leadAfter lead ts) us = leadAfter lead (ts ++ us) := by
  cases ts with
  | nil => rfl
  | cons t ts =>
      cases us with
      | nil => rfl
      | cons u us => rfl

theorem legible_append {ts us : List Token} : Legible (ts ++ us) ↔ Legible ts ∧ Legible us := by
  simp only [Legible, List.mem_append, or_imp, forall_and]

theorem Leads.isSpace {lead : List UInt8} {ts : List Token} (h : Leads lead ts) :
    ∀ a ∈ lead, isSpace a := by
  rcases h with rfl | ⟨rfl, -⟩
  · intro a ha
    rw [List.mem_singleton.mp ha]
    rfl
  · simp

/-- Whether a peer whose wire has the `total` can decode the tokens. -/
def Readable (total : BitVec 32) (ts : List Token) (allocs : List Alloc) : Prop :=
  Legible ts ∧ Admitted total allocs

theorem readable_append {total : BitVec 32} {ts us : List Token} {as bs : List Alloc} :
    Readable total (ts ++ us) (as ++ bs) ↔
      Readable total ts as ∧ Readable (totalAfter total as) us bs := by
  unfold Readable
  rw [legible_append, admitted_append]
  tauto

/-- A run that starts in a bad status ends in one. -/
def Sticky {α : Type} (m : WireM α) : Prop :=
  ∀ w x w', w.direction = .decode → w.status ≠ 0 → m.run w = .ok (x, w') →
    w'.status ≠ 0 ∧ w'.direction = .decode

/-- Given the text of the tokens, decoding ends with status 0 and a result that satisfies `post`
if the tokens can be decoded, and with a bad status if not. -/
def Scans {α : Type} (version : Int) (m : WireM α) (ts : List Token) (allocs : List Alloc)
    (post : α → Prop) : Prop :=
  ∀ w lead rest, Scanning version w → Leads lead ts → (∀ t ∈ ts, t.Exact) →
    w.input = lead ++ (tokensText ts ++ rest) →
    (Readable w.allocatedMemory ts allocs →
      ∃ x w', m.run w = .ok (x, w') ∧ Scanning version w' ∧ w'.input = leadAfter lead ts ++ rest ∧
        w'.allocatedMemory = totalAfter w.allocatedMemory allocs ∧ post x) ∧
    (¬ Readable w.allocatedMemory ts allocs →
      ∀ x w', m.run w = .ok (x, w') → w'.status ≠ 0 ∧ w'.direction = .decode)

variable {version : Int}

theorem sticky_pure {α : Type} (a : α) : Sticky (Pure.pure a : WireM α) := by
  intro w x w' hdir hbad hrun
  cases hrun
  exact ⟨hbad, hdir⟩

theorem Sticky.bind {α β : Type} {m : WireM α} {k : α → WireM β} (h : Sticky m)
    (hk : ∀ a, Sticky (k a)) : Sticky (m >>= k) := by
  intro w x w' hdir hbad hrun
  rw [run_bind_eq] at hrun
  obtain ⟨⟨a, w₁⟩, hrun₁, hrun₂⟩ := bind_eq_ok.mp hrun
  obtain ⟨hbad₁, hdir₁⟩ := h w a w₁ hdir hbad hrun₁
  exact hk a w₁ x w' hdir₁ hbad₁ hrun₂

theorem Sticky.get_bind {α : Type} {k : Wire → WireM α}
    (h : ∀ w, w.direction = .decode → w.status ≠ 0 → Sticky (k w)) : Sticky (get >>= k) := by
  intro w x w' hdir hbad hrun
  rw [run_bind_eq, StateT.run_get] at hrun
  exact h w hdir hbad w x w' hdir hbad hrun

/-- The test of the status that ends a transfer early keeps a bad status. -/
theorem sticky_unless_bad {α : Type} {a : α} {m : WireM α} :
    Sticky (do if (← get).status ≠ 0 then Pure.pure a else m) := by
  apply Sticky.get_bind
  intro w _ hbad
  rw [if_pos hbad]
  exact sticky_pure a

namespace Scans

variable {α β : Type} {m : WireM α} {k : α → WireM β} {ts us : List Token} {as bs : List Alloc}
  {post : α → Prop} {post' : β → Prop}

theorem pure {a : α} (h : post a) : Scans version (Pure.pure a) [] [] post := by
  intro w lead rest hw _ _ hinput
  refine ⟨fun _ => ⟨a, w, rfl, hw, hinput, rfl, h⟩, fun hbad => ?_⟩
  exact absurd ⟨by simp [Legible], trivial⟩ hbad

theorem bind (h : Scans version m ts as post) (hsticky : ∀ a, Sticky (k a))
    (hk : ∀ a, post a → Scans version (k a) us bs post') :
    Scans version (m >>= k) (ts ++ us) (as ++ bs) post' := by
  intro w lead rest hw hlead hexact hinput
  obtain ⟨hlead₁, hlead₂⟩ := leads_append hlead
  rw [List.forall_mem_append] at hexact
  rw [tokensText_append, List.append_assoc] at hinput
  obtain ⟨hdone, hstuck⟩ := h w lead _ hw hlead₁ hexact.1 hinput
  rw [readable_append, totalAfter_append, ← leadAfter_append, run_bind_eq]
  by_cases hfirst : Readable w.allocatedMemory ts as
  · obtain ⟨a, w₁, hrun, hw₁, hinput₁, htotal₁, ha⟩ := hdone hfirst
    have hrest := hk a ha w₁ _ rest hw₁ hlead₂ hexact.2 hinput₁
    rw [htotal₁] at hrest
    rw [hrun, ok_bind]
    refine ⟨fun hall => hrest.1 hall.2, fun hnot => hrest.2 fun hsecond => hnot ⟨hfirst, hsecond⟩⟩
  · refine ⟨fun hall => absurd hall.1 hfirst, fun _ x w' hrun => ?_⟩
    obtain ⟨⟨a, w₁⟩, hrun₁, hrun₂⟩ := bind_eq_ok.mp hrun
    obtain ⟨hbad, hdir⟩ := hstuck hfirst a w₁ hrun₁
    exact hsticky a w₁ x w' hdir hbad hrun₂

/-- A first computation that cannot fail. -/
theorem bind_token {t : Token} (h : Scans version m [t] [] post) (ht : ¬ t.isChar)
    (hk : ∀ a, post a → Scans version (k a) us bs post') :
    Scans version (m >>= k) ([t] ++ us) bs post' := by
  intro w lead rest hw hlead hexact hinput
  obtain ⟨hlead₁, hlead₂⟩ := leads_append hlead
  rw [List.forall_mem_append] at hexact
  rw [tokensText_append, List.append_assoc] at hinput
  obtain ⟨hdone, -⟩ := h w lead _ hw hlead₁ hexact.1 hinput
  have hfirst : Readable w.allocatedMemory [t] [] := by
    refine ⟨?_, trivial⟩
    intro u hu
    rw [List.mem_singleton] at hu
    rw [hu]
    exact ht
  obtain ⟨a, w₁, hrun, hw₁, hinput₁, htotal₁, ha⟩ := hdone hfirst
  have hrest := hk a ha w₁ _ rest hw₁ hlead₂ hexact.2 hinput₁
  have hiff : Readable w.allocatedMemory ([t] ++ us) bs ↔
      Readable w₁.allocatedMemory us bs := by
    rw [htotal₁]
    exact readable_append.trans (and_iff_right hfirst)
  rw [htotal₁] at hiff hrest
  rw [hiff, ← leadAfter_append, run_bind_eq, hrun]
  exact hrest

/-- A second computation that only makes up the result. -/
theorem bind_pure (h : Scans version m ts as post)
    (hk : ∀ a, ∃ b, k a = Pure.pure b ∧ (post a → post' b)) :
    Scans version (m >>= k) ts as post' := by
  have hall : Scans version (m >>= k) (ts ++ []) (as ++ []) post' := by
    apply h.bind
    · intro a
      obtain ⟨b, hb, -⟩ := hk a
      rw [hb]
      exact sticky_pure b
    · intro a ha
      obtain ⟨b, hb, hpost⟩ := hk a
      rw [hb]
      exact .pure (hpost ha)
  rwa [List.append_nil, List.append_nil] at hall

theorem get_bind {k : Wire → WireM α}
    (h : ∀ w, Scanning version w → Scans version (k w) ts as post) :
    Scans version (get >>= k) ts as post := fun w lead rest hw => h w hw w lead rest hw

/-- The test of the status that ends a transfer early. -/
theorem unless_bad {a : α} {m : WireM α} (h : Scans version m ts as post) :
    Scans version (do if (← get).status ≠ 0 then Pure.pure a else m) ts as post := by
  apply get_bind
  intro w hw
  rw [if_neg hw.not_bad]
  exact h

theorem conseq {post' : α → Prop} (h : Scans version m ts as post)
    (hpost : ∀ a, post a → post' a) : Scans version m ts as post' := by
  intro w lead rest hw hlead hexact hinput
  obtain ⟨hdone, hstuck⟩ := h w lead rest hw hlead hexact hinput
  refine ⟨fun hread => ?_, hstuck⟩
  obtain ⟨a, w', hrun, hw', hinput', htotal, ha⟩ := hdone hread
  exact ⟨a, w', hrun, hw', hinput', htotal, hpost a ha⟩

theorem map {f : α → β} (h : Scans version m ts as post) (hpost : ∀ a, post a → post' (f a)) :
    Scans version (f <$> m) ts as post' := by
  rw [map_eq_pure_bind]
  exact h.bind_pure fun a => ⟨f a, rfl, hpost a⟩

end Scans

/-! The codec. -/

theorem sticky_space (n : Nat) : Sticky (modify (saneiWSpace n)) := by
  intro w x w' hdir hbad hrun
  have hsame : saneiWSpace n w = w := if_pos hbad
  have hw' : saneiWSpace n w = w' := congrArg Prod.snd (Except.ok.inj hrun)
  rw [← hw', hsame]
  exact ⟨hbad, hdir⟩

theorem sticky_takeByte : Sticky takeByte := by
  intro w x w' hdir hbad hrun
  simp only [takeByte, peekByte, run_bind_eq, StateT.run_get, pure_bind] at hrun
  split_ifs at hrun with hroom
  · cases hrun
    exact ⟨hbad, hdir⟩
  · cases hrun

theorem sticky_skipWs : Sticky skipWs := by
  apply Sticky.get_bind
  intro w _ _
  unfold byteTurns skipWsLoop
  exact (sticky_space 1).bind fun _ => sticky_unless_bad

theorem sticky_takeExpected (expected : List UInt8) : Sticky (takeExpected expected) := by
  induction expected with
  | nil => exact sticky_pure true
  | cons c expected ih =>
      apply sticky_takeByte.bind
      intro a
      split_ifs
      · exact sticky_pure false
      · exact ih

theorem sticky_setStatus {status : Nat} (hst : status ≠ 0) : Sticky (setStatus status) := by
  intro w x w' hdir hbad hrun
  cases hrun
  exact ⟨hst, hdir⟩

/-- In a bad status the loop over a string ends at once. -/
theorem takeString_bad {fuel : Nat} {b : StringBuffer} {w : Wire} (hbad : w.status ≠ 0) :
    (takeString fuel b).run w = .ok (none, w) := by
  cases fuel with
  | zero => rfl
  | succ fuel =>
      have hsame : saneiWSpace 1 w = w := if_pos hbad
      have hspace : (modify (saneiWSpace 1) : WireM Unit).run w = .ok ((), w) := by
        conv_rhs => rw [← hsame]
        rfl
      rw [takeString, run_bind_eq, hspace, ok_bind, run_bind_eq, StateT.run_get]
      simp only [pure_bind]
      rw [if_pos hbad]
      rfl

theorem sticky_string (s : SaneString) : Sticky (asciiWString.run s) := by
  apply Sticky.get_bind
  intro w hdir _
  rw [hdir]
  apply sticky_skipWs.bind
  intro _
  apply (sticky_space 1).bind
  intro _
  apply sticky_takeByte.bind
  intro ch
  split_ifs
  · apply Sticky.get_bind
    intro w₁ _ _ w₂ x w' hdir₂ hbad hrun
    rw [run_bind_eq, takeString_bad hbad, ok_bind] at hrun
    exact sticky_pure s w₂ x w' hdir₂ hbad hrun
  · apply (sticky_space 4).bind
    intro _
    apply (sticky_takeExpected _).bind
    intro matched
    split_ifs
    · exact sticky_pure none
    · exact (sticky_setStatus (by decide)).bind fun _ => sticky_pure s
  · exact (sticky_setStatus (by decide)).bind fun _ => sticky_pure s

theorem Scanning.ready {w : Wire} (hw : Scanning version w) :
    Ready version 0 none w.allocatedMemory w.input w :=
  ⟨hw, hw.decoding.sound.curr_le, (fun _ h => by cases h), rfl, rfl⟩

/-- A token other than a character, decoded from the lines in front of the input. -/
theorem scans_of_run {α : Type} {m : WireM α} {t : Token} {post : α → Prop} (ht : ¬ t.isChar)
    (h : ∀ {lead rest : List UInt8} {w : Wire} {total : BitVec 32}, t.Exact →
      (∀ a ∈ lead, isSpace a) → Ready version 0 none total (lead ++ (t.text ++ rest)) w →
      ∃ n x w', m.run w = .ok (x, w') ∧ Ready version n none total (10 :: rest) w' ∧ post x) :
    Scans version m [t] [] post := by
  intro w lead rest hw hlead hexact hinput
  rw [tokensText_singleton] at hinput
  have hready := hw.ready
  rw [hinput] at hready
  obtain ⟨n, x, w', hrun, hw', hx⟩ := h (hexact t List.mem_cons_self) hlead.isSpace hready
  refine ⟨fun _ => ⟨x, w', hrun, hw'.toScanning, hw'.input, hw'.total, hx⟩, fun hnot => ?_⟩
  refine absurd ⟨?_, trivial⟩ hnot
  intro u hu
  rw [List.mem_singleton] at hu
  rw [hu]
  exact ht

theorem scans_word (v₀ v : SaneWord) : Scans version (asciiWWord.run v₀) [.word v] [] (· = v) := by
  apply scans_of_run (by simp [Token.isChar])
  intro lead rest w total hv hlead hw
  have hsteps : Steps version none total 0 (lead ++ ((Token.word v).text ++ rest))
      (asciiWWord.run v₀) 1 (10 :: rest) (· = v) := by
    apply Steps.get_bind
    intro w hw
    simp only [hw.decoding.direction]
    apply (steps_takeWord hv hlead).bind
    rintro _ rfl
    exact .pure rfl
  obtain ⟨x, w', hrun, hw', hx⟩ := hsteps w hw
  exact ⟨1, x, w', hrun, hw', hx⟩

theorem stringScript_tokens (s : SaneString) :
    ∃ t, (stringScript s).tokens = [t] ∧ (stringScript s).allocs = [] ∧ ¬ t.isChar := by
  cases s with
  | none => exact ⟨_, rfl, rfl, by simp [Token.isChar]⟩
  | some block => exact ⟨_, rfl, rfl, by simp [Token.isChar]⟩

theorem scans_string {s : SaneString} (hheld : (stringScript s).held) (s₀ : SaneString) :
    Scans version (asciiWString.run s₀) (stringScript s).tokens (stringScript s).allocs
      (SameString s) := by
  obtain ⟨t, htokens, hallocs, ht⟩ := stringScript_tokens s
  rw [htokens, hallocs]
  apply scans_of_run ht
  intro lead rest w total _ hlead hw
  rw [← tokensText_singleton, ← htokens] at hw
  obtain ⟨y, w', hrun, hw', hy⟩ := string_run hheld hlead s₀ hw
  exact ⟨0, y, w', hrun, hw', hy⟩

/-- A character ends the decoding: the end of the line before is no apostrophe. -/
theorem scans_char (c₀ c : UInt8) : Scans version (asciiWChar.run c₀) [.char c] [] fun _ => True := by
  intro w lead rest hw hlead _ hinput
  have hnot : ¬ Readable w.allocatedMemory [.char c] [] := by
    intro h
    exact h.1 _ List.mem_cons_self rfl
  refine ⟨fun h => absurd h hnot, fun _ x w' hrun => ?_⟩
  obtain rfl : lead = [10] := by
    rcases hlead with h | ⟨-, h⟩
    · exact h
    · exact absurd rfl (h _ rfl)
  rw [tokensText_singleton] at hinput
  have hready := hw.ready
  rw [hinput] at hready
  have hlength : 4 ≤ ([10] ++ ((Token.char c).text ++ rest)).length := by
    have hescape := (length_escape 39 c).1
    simp only [Token.text, List.length_append, List.length_cons, List.length_nil]
    omega
  have hsteps : Steps version none w.allocatedMemory 0 ([10] ++ ((Token.char c).text ++ rest))
      (do
        modify (saneiWSpace 4)
        takeByte) 3 ((Token.char c).text ++ rest) (· = 10) := by
    apply (steps_space (by decide) hlength).bind
    intro _ _
    exact steps_take
  obtain ⟨_, w₁, hrun₁, hw₁, rfl⟩ := hsteps w hready
  have hall : (asciiWChar.run c₀).run w = .ok (c₀, { w₁ with status := einval }) := by
    have hassoc : ∀ k : UInt8 → WireM UInt8,
        (do
          modify (saneiWSpace 4)
          let c ← takeByte
          k c) =
        (do
          modify (saneiWSpace 4)
          takeByte) >>= k := by
      intro k
      simp only [bind_assoc]
    unfold asciiWChar
    dsimp only
    rw [run_bind_eq, StateT.run_get]
    simp only [pure_bind]
    rw [hw.decoding.direction]
    dsimp only
    rw [hassoc, run_bind_eq, hrun₁, ok_bind, if_pos (by decide : (10 : UInt8) ≠ 39)]
    rfl
  rw [hall] at hrun
  cases hrun
  exact ⟨(by decide : einval ≠ 0), hw₁.decoding.direction⟩

/-- The transfer function `f` decodes the text of a value to one that is the `same`. -/
abbrev Reads {α : Type} (version : Int) (f : α → WireM α) (script : α → Script)
    (same : α → α → Prop) : Prop :=
  ∀ x, (script x).held → ∀ x₀,
    Scans version (f x₀) (script x).tokens (script x).allocs (same x)

theorem reads_word : Reads version asciiWWord.run wordScript fun x y => y = x :=
  fun x _ x₀ => scans_word x₀ x

theorem reads_char : Reads version asciiWChar.run charScript fun x y => y = x := by
  intro x _ x₀ w lead rest hw hlead hexact hinput
  obtain ⟨-, hstuck⟩ := scans_char x₀ x w lead rest hw hlead hexact hinput
  exact ⟨fun h => absurd rfl (h.1 _ List.mem_cons_self), hstuck⟩

theorem reads_string : Reads version asciiWString.run stringScript SameString :=
  fun _ hheld s₀ => scans_string hheld s₀

section Arrays

variable {α : Type} {element : WireCodecFunc α} {script : α → Script} {same : α → α → Prop}

theorem scans_elements (helement : Reads version element.run script same) {xs : List α}
    (hheld : ∀ x ∈ xs, (script x).held) {zs : List α} (hlen : zs.length = xs.length) :
    Scans version (transferElements element xs.length zs)
      (xs.flatMap fun x => (script x).tokens) (xs.flatMap fun x => (script x).allocs)
      (List.Forall₂ same xs) := by
  induction xs generalizing zs with
  | nil =>
      obtain rfl := List.length_eq_zero_iff.mp hlen
      exact .pure .nil
  | cons x xs ih =>
      cases zs with
      | nil => cases hlen
      | cons z zs =>
          simp only [List.flatMap_cons]
          apply (helement x (hheld x List.mem_cons_self) z).bind
          · intro y
            exact sticky_unless_bad
          · intro y hy
            apply Scans.unless_bad
            have hrest := ih (fun u hu => hheld u (List.mem_cons_of_mem _ hu))
              (Nat.succ.inj hlen)
            exact hrest.bind_pure fun ys => ⟨y :: ys, rfl, fun hys => .cons hy hys⟩

theorem allocate_run {w : Wire} (hw : Scanning version w) (site : ChargeSite) (bytes : Nat) :
    ∃ addr w', (allocate site bytes).run w = .ok (some addr, w') ∧ Scanning version w' ∧
      w'.input = w.input ∧ w'.allocatedMemory = w.allocatedMemory + BitVec.ofNat 32 bytes := by
  obtain ⟨heap, hrun, -, hgrant⟩ := allocate_granted (hw.grants _) site bytes
  refine ⟨_, _, hrun, ⟨⟨hw.decoding.direction, hw.decoding.sound⟩, hw.version, hw.fine, hw.reads,
    ?_⟩, rfl, rfl⟩
  change ∀ i, heap.grant i
  rw [hgrant]
  exact hw.grants

/-- The three tests of `sanei_w_array` on a length that is no overflow. -/
theorem exceedsMaxMem_iff {w : Wire} {n size : Nat} (hn : n ≤ intMax) :
    exceedsMaxMem w (BitVec.ofNat 32 n) size ↔
      ¬ (n ≤ maxMem ∧ n * size ≤ maxMem ∧ 0 ≤ w.allocatedMemory.toInt + (n * size : Nat) ∧
        w.allocatedMemory.toInt + (n * size : Nat) ≤ maxMem) := by
  have hbig : maxMem = 2 ^ 20 := rfl
  have hmax : intMax = 2 ^ 31 - 1 := rfl
  have hnat : (BitVec.ofNat 32 n).toNat = n := by
    rw [BitVec.toNat_ofNat]
    omega
  have hlo := w.allocatedMemory.le_toInt
  have hhi := w.allocatedMemory.toInt_lt
  simp only [exceedsMaxMem, hnat, toInt_ofNat_of_le_intMax hn, ← Nat.cast_mul, decide_eq_true_eq]
  generalize n * size = bytes
  unfold toSize
  omega

theorem scans_array {zero : α} {size n : Nat} {xs : List α} (lenPtr : SaneWord) (v : Ptr (List α))
    (helement : Reads version element.run script same)
    (hheld : (elementsScript size script n xs).held) :
    Scans version (saneiWArray asciiWWord element zero size lenPtr v)
      (elementsScript size script n xs).tokens (elementsScript size script n xs).allocs
      fun p => p.1 = BitVec.ofNat 32 n ∧ ReceivedArray same (xs.take n) p.2 := by
  obtain ⟨hmax, hle, helements⟩ := hheld
  have hbig : intMax = 2 ^ 31 - 1 := rfl
  have hint := toInt_ofNat_of_le_intMax hmax
  have hnat : (BitVec.ofNat 32 n).toNat = n := by
    rw [BitVec.toNat_ofNat]
    omega
  apply Scans.get_bind
  intro w hw
  simp only [hw.decoding.direction]
  apply Scans.get_bind
  intro _ _
  apply (scans_word _ _).bind_token (by simp [Token.isChar])
  rintro _ rfl
  apply Scans.unless_bad
  by_cases hzero : n = 0
  · subst hzero
    rw [if_pos (show 0#32 = 0 from rfl)]
    exact .pure ⟨rfl, rfl⟩
  have hlen : ¬ BitVec.ofNat 32 n = 0 := by
    intro h0
    rw [h0] at hnat
    exact hzero hnat.symm
  rw [if_neg hlen]
  have hallocs : (elementsScript size script n xs).allocs =
      .array n size :: (xs.take n).flatMap fun x => (script x).allocs := if_neg hzero
  rw [hallocs]
  have hcount : (xs.take n).length = n := List.length_take_of_le hle
  have hzeros : (List.replicate n zero).length = (xs.take n).length := by
    rw [List.length_replicate, hcount]
  have hcells := scans_elements helement helements hzeros
  rw [hcount] at hcells
  intro w₁ lead rest hw₁ hlead hexact hinput
  rw [run_bind_eq, StateT.run_get]
  simp only [pure_bind]
  by_cases hadmit : n ≤ maxMem ∧ n * size ≤ maxMem ∧
      0 ≤ w₁.allocatedMemory.toInt + (n * size : Nat) ∧
      w₁.allocatedMemory.toInt + (n * size : Nat) ≤ maxMem
  · have hexceeds : ¬ exceedsMaxMem w₁ (BitVec.ofNat 32 n) size := by
      rw [exceedsMaxMem_iff hmax]
      exact not_not.mpr hadmit
    obtain ⟨addr, w₂, hrun, hw₂, hinput₂, htotal₂⟩ := allocate_run hw₁ .array (n * size)
    have hread : ∀ ts as, Readable w₁.allocatedMemory ts (.array n size :: as) ↔
        Readable w₂.allocatedMemory ts as := by
      intro ts as
      rw [htotal₂]
      exact and_congr_right fun _ => and_iff_right hadmit
    rw [if_neg hexceeds, hnat, hint, Int.toNat_natCast, hread, run_bind_eq, hrun, ok_bind]
    have hne : xs.take n ≠ [] := by
      intro hnil
      rw [hnil] at hcount
      exact hzero hcount.symm
    have htail : Scans version (do
        let val ← transferElements element n (List.replicate n zero)
        pure (BitVec.ofNat 32 n, some (⟨addr, val⟩ : Block (List α)))) _ _
        (fun p => p.1 = BitVec.ofNat 32 n ∧ ReceivedArray same (xs.take n) p.2) :=
      hcells.bind_pure fun ys => ⟨_, rfl, fun hys => ⟨rfl, hne, hys⟩⟩
    have hall := htail w₂ lead rest hw₂ hlead hexact (hinput₂.trans hinput)
    rw [htotal₂] at hall ⊢
    exact hall
  · have hexceeds : exceedsMaxMem w₁ (BitVec.ofNat 32 n) size := by
      rw [exceedsMaxMem_iff hmax]
      exact hadmit
    rw [if_pos hexceeds]
    refine ⟨fun hread => absurd hread.2.1 hadmit, fun _ x w' hrun => ?_⟩
    cases hrun
    exact ⟨(by decide : enomem ≠ 0), hw₁.decoding.direction⟩

/-- A pointer is received as a copy, and as `NULL` exactly if it was `NULL`. -/
def SamePtr (same : α → α → Prop) (v v' : Ptr α) : Prop :=
  (v = none ∧ v' = none) ∨ ∃ b b', v = some b ∧ v' = some b' ∧ same b.val b'.val

theorem reads_ptr {f : α → WireM α} {zero : α} {size : Nat} (hsize : size ≤ maxMem)
    (hf : Reads version f script same) :
    Reads version (saneiWPtr asciiWWord f zero size) (ptrScript size script) (SamePtr same) := by
  intro v hheld v₀
  apply Scans.get_bind
  intro w hw
  simp only [hw.decoding.direction]
  apply Scans.get_bind
  intro _ _
  cases v with
  | none =>
      apply (scans_word _ 1).bind_token (by simp [Token.isChar])
      rintro _ rfl
      apply Scans.unless_bad
      rw [if_neg (by decide)]
      exact .pure (.inl ⟨rfl, rfl⟩)
  | some block =>
      apply (scans_word _ 0).bind_token (by simp [Token.isChar])
      rintro _ rfl
      apply Scans.unless_bad
      rw [if_pos rfl, if_neg (Nat.not_lt.mpr hsize)]
      intro w₁ lead rest hw₁ hlead hexact hinput
      obtain ⟨addr, w₂, hrun, hw₂, hinput₂, htotal₂⟩ := allocate_run hw₁ .ptr size
      have htail : Scans version (do
          let val ← f zero
          pure (some (⟨addr, val⟩ : Block α))) _ _ (SamePtr same (some block)) :=
        (hf block.val hheld zero).bind_pure fun y =>
          ⟨_, rfl, fun hy => .inr ⟨block, ⟨addr, y⟩, rfl, rfl, hy⟩⟩
      have hall := htail w₂ lead rest hw₂ hlead hexact (hinput₂.trans hinput)
      rw [htotal₂] at hall
      rw [run_bind_eq, hrun, ok_bind]
      exact hall

end Arrays

/-! The structures of `sane.h`. -/

/-- A value of the same shape. -/
def Alike {α : Type} (shape : α → α) (x y : α) : Prop := shape y = shape x

section Pointers

variable {α : Type} {shape : α → α} {v v' : Ptr α}

theorem SamePtr.shape_eq (h : SamePtr (Alike shape) v v') : ptrShape shape v' = ptrShape shape v := by
  rcases h with ⟨rfl, rfl⟩ | ⟨b, b', rfl, rfl, hval⟩
  · rfl
  · have hval : shape b'.val = shape b.val := hval
    simp only [ptrShape, hval]

theorem SamePtr.null_iff (h : SamePtr (Alike shape) v v') : v' = none ↔ v = none := by
  rcases h with ⟨rfl, rfl⟩ | ⟨b, b', rfl, rfl, -⟩
  · exact Iff.rfl
  · simp

end Pointers

theorem Scanning.not_ne {w : Wire} (hw : Scanning version w) : ¬ w.direction ≠ .decode :=
  not_not.mpr hw.decoding.direction

theorem scans_enum (v₀ v : SaneWord) :
    Scans version (saneiWEnum asciiCodec v₀) [.word v] [] (· = v) := by
  have hall : Scans version (saneiWEnum asciiCodec v₀) ([Token.word v] ++ []) [] (· = v) := by
    apply (scans_word v₀ v).bind_token (by simp [Token.isChar])
    rintro _ rfl
    apply Scans.get_bind
    intro w hw
    rw [if_pos hw.decoding.direction]
    exact .pure rfl
  exact hall

section Fields

variable {β : Type} {us : List Token} {bs : List Alloc} {post : β → Prop}

/-- A word in front of other values. -/
theorem Scans.bind_word {m : WireM SaneWord} {v : SaneWord} {k : SaneWord → WireM β}
    (h : Scans version m [.word v] [] (· = v)) (hk : Scans version (k v) us bs post) :
    Scans version (m >>= k) ([Token.word v] ++ us) ([] ++ bs) post := by
  apply h.bind_token (by simp [Token.isChar])
  rintro _ rfl
  exact hk

/-- A string in front of other values. -/
theorem scans_string_bind {s : SaneString} (hheld : (stringScript s).held) (s₀ : SaneString)
    {k : SaneString → WireM β} (hk : ∀ y, SameString s y → Scans version (k y) us bs post) :
    Scans version (asciiWString.run s₀ >>= k) ((stringScript s).tokens ++ us)
      ((stringScript s).allocs ++ bs) post := by
  obtain ⟨t, htokens, hallocs, ht⟩ := stringScript_tokens s
  have hstring : Scans version (asciiWString.run s₀) _ _ (SameString s) := scans_string hheld s₀
  rw [htokens, hallocs] at hstring ⊢
  exact hstring.bind_token ht hk

end Fields

theorem reads_range : Reads version (saneiWRange asciiCodec) rangeScript (Alike id) := by
  intro v _ v₀
  apply (scans_word v₀.min v.min).bind_word
  apply (scans_word v₀.max v.max).bind_word
  apply (scans_word v₀.quant v.quant).bind_pure
  intro quant
  refine ⟨_, rfl, ?_⟩
  rintro rfl
  rfl

theorem reads_device : Reads version (saneiWDevice asciiCodec) deviceScript (Alike deviceShape) := by
  intro v hheld v₀
  obtain ⟨hname, hheld⟩ := hheld
  obtain ⟨hvendor, hheld⟩ := hheld
  obtain ⟨hmodel, htype⟩ := hheld
  apply scans_string_bind hname v₀.name
  intro name hname
  apply scans_string_bind hvendor v₀.vendor
  intro vendor hvendor
  apply scans_string_bind hmodel v₀.model
  intro model hmodel
  apply (scans_string htype v₀.type).bind_pure
  intro type
  refine ⟨_, rfl, fun htype => ?_⟩
  simp only [Alike, deviceShape, hname.1, hvendor.1, hmodel.1, htype.1]

theorem reads_devicePtr :
    Reads version (saneiWDevicePtr asciiCodec).run devicePtrScript (SamePtr (Alike deviceShape)) :=
  reads_ptr (by decide) reads_device

theorem scans_wordList {v : Ptr (List SaneWord)}
    (hheld : (arrayScript sizeofWord wordScript (wordListCount v) v).held) (lenPtr : SaneWord)
    (v₀ : Ptr (List SaneWord)) :
    Scans version (saneiWArray asciiWWord asciiWWord 0 sizeofWord lenPtr v₀)
      (arrayScript sizeofWord wordScript (wordListCount v) v).tokens
      (arrayScript sizeofWord wordScript (wordListCount v) v).allocs fun p =>
        arrayShape id (wordListCount p.2) p.2 = arrayShape id (wordListCount v) v := by
  obtain ⟨n, hcount, helements, -, htokens, hallocs⟩ := arrayScript_held hheld
  rw [htokens, hallocs]
  apply (scans_array lenPtr v₀ reads_word helements).conseq
  rintro ⟨len, v'⟩ ⟨-, hreceived⟩
  rcases v with _ | ⟨addr, _ | ⟨count, ws⟩⟩
  · cases hcount
  · cases hcount
  · cases hcount
    obtain ⟨a, rfl⟩ := hreceived.eq_some (by simp [Ptr.cells])
    have hcount' : wordListCount (some ⟨a, (count :: ws).take (count.toNat + 1)⟩) =
        .ok (count.toNat + 1) := rfl
    change arrayShape id (wordListCount (some ⟨a, (count :: ws).take (count.toNat + 1)⟩)) _ = _
    rw [hcount']
    exact hreceived.shape_eq helements.2.1 fun _ _ h => h

theorem scans_stringList {v : Ptr (List SaneString)}
    (hheld : (arrayScript sizeofPointer stringScript (stringListCount v) v).held)
    (lenPtr : SaneWord) (v₀ : Ptr (List SaneString)) :
    Scans version (saneiWArray asciiWWord asciiWString none sizeofPointer lenPtr v₀)
      (arrayScript sizeofPointer stringScript (stringListCount v) v).tokens
      (arrayScript sizeofPointer stringScript (stringListCount v) v).allocs fun p =>
        arrayShape stringShape (stringListCount p.2) p.2 =
          arrayShape stringShape (stringListCount v) v := by
  obtain ⟨n, hcount, helements, -, htokens, hallocs⟩ := arrayScript_held hheld
  rw [htokens, hallocs]
  apply (scans_array lenPtr v₀ reads_string helements).conseq
  rintro ⟨len, v'⟩ ⟨-, hreceived⟩
  cases v with
  | none => cases hcount
  | some block =>
      obtain ⟨k, hk, hn⟩ := bind_eq_ok.mp hcount
      cases hn
      have hscan := (nullScan_take (fun _ _ h => h.2) hk hreceived.forall₂).2
      have hcount' : stringListCount v' = .ok (k + 1) := by
        cases v' with
        | none =>
            have hlength := hreceived.cells_length
            rw [List.length_take_of_le helements.2.1] at hlength
            cases hlength
        | some block' =>
            change nullScan block'.val = _ at hscan
            simp only [stringListCount, hscan, ok_bind]
      change arrayShape stringShape (stringListCount v') v' = _
      rw [hcount', hcount]
      exact hreceived.shape_eq helements.2.1 fun _ _ h => h.1

theorem reads_constraint (constraintType : SaneWord) :
    Reads version (saneiWConstraint asciiCodec constraintType) (constraintScript constraintType)
      (Alike (constraintShape constraintType)) := by
  intro v hheld v₀
  unfold constraintScript at hheld
  unfold saneiWConstraint constraintScript Alike constraintShape
  split_ifs at hheld ⊢
  · apply (reads_ptr (by decide) reads_range v.range hheld v₀.range).bind_pure
    intro range
    refine ⟨_, rfl, fun hrange => ?_⟩
    rw [hrange.shape_eq]
  · apply Scans.get_bind
    intro w hw
    rw [if_neg hw.not_ne]
    apply Scans.get_bind
    intro _ _
    rw [pure_bind]
    apply (scans_wordList hheld _ v₀.wordList).bind_pure
    rintro ⟨len, wordList⟩
    refine ⟨_, rfl, fun hshape => ?_⟩
    rw [hshape]
  · apply Scans.get_bind
    intro w hw
    rw [if_neg hw.not_ne]
    apply Scans.get_bind
    intro _ _
    rw [pure_bind]
    apply (scans_stringList hheld _ v₀.stringList).bind_pure
    rintro ⟨len, stringList⟩
    refine ⟨_, rfl, fun hshape => ?_⟩
    rw [hshape]
  · exact .pure rfl

theorem reads_optionDescriptor :
    Reads version (saneiWOptionDescriptor asciiCodec) optionDescriptorScript
      (Alike optionDescriptorShape) := by
  intro v hheld v₀
  obtain ⟨hname, hheld⟩ := hheld
  obtain ⟨htitle, hheld⟩ := hheld
  obtain ⟨hdesc, hheld⟩ := hheld
  have hconstraint := hheld.2.2.2.2.2
  apply scans_string_bind hname v₀.name
  intro name hname
  apply scans_string_bind htitle v₀.title
  intro title htitle
  apply scans_string_bind hdesc v₀.desc
  intro desc hdesc
  apply (scans_enum v₀.type v.type).bind_word
  apply (scans_enum v₀.unit v.unit).bind_word
  apply (scans_word v₀.size v.size).bind_word
  apply (scans_word v₀.cap v.cap).bind_word
  apply (scans_enum v₀.constraintType v.constraintType).bind_word
  apply (reads_constraint v.constraintType v.constraint hconstraint v₀.constraint).bind_pure
  intro constraint
  refine ⟨_, rfl, fun hconstraint => ?_⟩
  have hconstraint : constraintShape v.constraintType constraint =
      constraintShape v.constraintType v.constraint := hconstraint
  simp only [Alike, optionDescriptorShape, hname.1, htitle.1, hdesc.1, hconstraint]

theorem reads_optionDescriptorPtr :
    Reads version (saneiWOptionDescriptorPtr asciiCodec).run optionDescriptorPtrScript
      (SamePtr (Alike optionDescriptorShape)) :=
  reads_ptr (by decide) reads_optionDescriptor

theorem reads_optionValue (type size : SaneWord) :
    Reads version (wOptionValue asciiCodec type size) (optionValueScript type size)
      (Alike (optionValueShape type size)) := by
  intro value hheld value₀
  unfold optionValueScript at hheld
  unfold wOptionValue optionValueScript Alike optionValueShape
  split_ifs at hheld ⊢
  · obtain ⟨-, -, helements⟩ := countedScript_held hheld
    apply (scans_array _ _ reads_word helements).bind_pure
    rintro ⟨len, v⟩
    refine ⟨_, rfl, fun hreceived => ?_⟩
    rw [Ptr.cast_cast fun _ => rfl, hreceived.2.shape_eq helements.2.1 fun _ _ h => congrArg id h]
  · obtain ⟨-, -, helements⟩ := countedScript_held hheld
    apply (scans_array _ _ reads_char helements).bind_pure
    rintro ⟨len, v⟩
    refine ⟨_, rfl, fun hreceived => ?_⟩
    rw [Ptr.cast_cast fun _ => rfl, hreceived.2.shape_eq helements.2.1 fun _ _ h => congrArg id h]
  · obtain ⟨-, -, helements⟩ := countedScript_held hheld
    have hvoid : Reads version saneiWVoid.run (fun _ => .empty) fun x y => y = x :=
      fun _ _ _ => .pure rfl
    apply (scans_array _ _ hvoid helements).bind_pure
    rintro ⟨len, v⟩
    exact ⟨_, rfl, fun _ => rfl⟩
  · exact hheld.elim

/-! The messages. -/

theorem scans_parameters (v v₀ : SaneParameters) :
    Scans version (saneiWParameters asciiCodec v₀) (parametersScript v).tokens
      (parametersScript v).allocs (· = v) := by
  apply (scans_enum v₀.format v.format).bind_word
  apply (scans_enum v₀.lastFrame v.lastFrame).bind_word
  apply (scans_word v₀.bytesPerLine v.bytesPerLine).bind_word
  apply (scans_word v₀.pixelsPerLine v.pixelsPerLine).bind_word
  apply (scans_word v₀.lines v.lines).bind_word
  apply (scans_word v₀.depth v.depth).bind_pure
  intro depth
  refine ⟨_, rfl, ?_⟩
  rintro rfl
  rfl

theorem scans_getDevicesReply {reply : SaneGetDevicesReply}
    (hheld : (messageScript version (.getDevicesReply reply)).held)
    (reply₀ : SaneGetDevicesReply) :
    Scans version (saneiWGetDevicesReply asciiCodec reply₀)
      (messageScript version (.getDevicesReply reply)).tokens
      (messageScript version (.getDevicesReply reply)).allocs
      fun y => Alike (messageShape version) (.getDevicesReply reply) (.getDevicesReply y) := by
  obtain ⟨n, hcount, helements, -, htokens, hallocs⟩ := arrayScript_held hheld.2
  simp only [messageScript, Script.append_tokens, Script.append_allocs, htokens, hallocs]
  apply Scans.get_bind
  intro w hw
  rw [if_neg hw.not_ne]
  apply Scans.get_bind
  intro _ _
  rw [pure_bind]
  apply (scans_enum reply₀.status reply.status).bind_word
  apply (scans_array _ reply₀.deviceList reads_devicePtr helements).bind_pure
  rintro ⟨len, v⟩
  refine ⟨_, rfl, ?_⟩
  rintro ⟨-, hreceived⟩
  have hlength := hreceived.cells_length
  rw [List.length_take_of_le helements.2.1] at hlength
  have hcount' : deviceListCount v = .ok n := by
    cases hlist : reply.deviceList with
    | none =>
        rw [hlist] at hcount
        cases hcount
        cases v with
        | none => rfl
        | some block => exact absurd rfl hreceived.1
    | some block =>
        rw [hlist] at hcount hreceived
        obtain ⟨k, hk, hn'⟩ := bind_eq_ok.mp hcount
        cases hn'
        have hscan := (nullScan_take (fun _ _ h => h.null_iff) hk hreceived.forall₂).2
        cases v with
        | none => cases hlength
        | some block' =>
            change nullScan block'.val = _ at hscan
            simp only [deviceListCount, hscan, ok_bind]
  have hshape := hreceived.shape_eq helements.2.1 fun _ _ h => h.shape_eq
  simp only [Alike, messageShape, hcount, hcount', arrayShape]
  rw [hshape]

theorem scans_optionDescriptorArray {a : SaneOptionDescriptorArray}
    (hheld : (messageScript version (.optionDescriptorArray a)).held)
    (a₀ : SaneOptionDescriptorArray) :
    Scans version (saneiWOptionDescriptorArray asciiCodec a₀)
      (messageScript version (.optionDescriptorArray a)).tokens
      (messageScript version (.optionDescriptorArray a)).allocs
      fun y => Alike (messageShape version) (.optionDescriptorArray a)
        (.optionDescriptorArray y) := by
  obtain ⟨hlen, -, helements⟩ := countedScript_held hheld
  apply (scans_array a₀.numOptions a₀.desc reads_optionDescriptorPtr helements).bind_pure
  rintro ⟨len, v⟩
  refine ⟨_, rfl, ?_⟩
  rintro ⟨hlen', hreceived⟩
  have hnum : len = a.numOptions := hlen'.trans hlen.symm
  have hshape := hreceived.shape_eq helements.2.1 fun _ _ h => h.shape_eq
  simp only [Alike, messageShape, hnum]
  rw [hshape]

theorem scans_controlOptionReq {req : SaneControlOptionReq}
    (hheld : (messageScript version (.controlOptionReq req)).held) (req₀ : SaneControlOptionReq) :
    Scans version (saneiWControlOptionReq asciiCodec req₀)
      (messageScript version (.controlOptionReq req)).tokens
      (messageScript version (.controlOptionReq req)).allocs
      fun y => Alike (messageShape version) (.controlOptionReq req) (.controlOptionReq y) := by
  have hvalue := hheld.2.2.2
  apply (scans_word req₀.handle req.handle).bind_word
  apply (scans_word req₀.option req.option).bind_word
  apply (scans_word req₀.action req.action).bind_word
  apply Scans.get_bind
  intro w hw
  have hcarries : (w.version < 3 ∨ req.action ≠ actionSetAuto) ↔
      carriesValue version req.action := by
    rw [hw.version]
    simp [carriesValue]
  simp only [hcarries]
  split_ifs at hvalue ⊢ with hc
  · apply (scans_word req₀.valueType req.valueType).bind_word
    apply (scans_word req₀.valueSize req.valueSize).bind_word
    apply (reads_optionValue _ _ req.value hvalue.2.2 req₀.value).bind_pure
    intro value
    refine ⟨_, rfl, fun hshape => ?_⟩
    have hshape : optionValueShape req.valueType req.valueSize value = _ := hshape
    simp only [Alike, messageShape, if_pos hc, hshape]
  · refine .pure ?_
    simp only [Alike, messageShape, if_neg hc]

theorem scans_controlOptionReply {reply : SaneControlOptionReply}
    (hheld : (messageScript version (.controlOptionReply reply)).held)
    (reply₀ : SaneControlOptionReply) :
    Scans version (saneiWControlOptionReply asciiCodec reply₀)
      (messageScript version (.controlOptionReply reply)).tokens
      (messageScript version (.controlOptionReply reply)).allocs
      fun y => Alike (messageShape version) (.controlOptionReply reply)
        (.controlOptionReply y) := by
  obtain ⟨hvalue, hresource⟩ := hheld.2.2.2.2
  apply (scans_enum reply₀.status reply.status).bind_word
  apply (scans_word reply₀.info reply.info).bind_word
  apply (scans_word reply₀.valueType reply.valueType).bind_word
  apply (scans_word reply₀.valueSize reply.valueSize).bind_word
  apply (reads_optionValue _ _ reply.value hvalue reply₀.value).bind
  · intro value
    exact (sticky_string _).bind fun _ => sticky_pure _
  · intro value hshape
    apply (scans_string hresource reply₀.resourceToAuthorize).bind_pure
    intro resource
    refine ⟨_, rfl, fun hresource => ?_⟩
    have hshape : optionValueShape reply.valueType reply.valueSize value = _ := hshape
    simp only [Alike, messageShape, hshape, hresource.1]

/-- Decoding the text of a message gives a message of the same shape. -/
theorem scans_message {m m₀ : NetMessage} (htype : SameType m m₀)
    (hheld : (messageScript version m).held) :
    Scans version (transferMessage asciiCodec m₀) (messageScript version m).tokens
      (messageScript version m).allocs (Alike (messageShape version) m) := by
  have hmap : ∀ {α : Type} {f : α → NetMessage} {x : WireM α} {ts : List Token}
      {allocs : List Alloc} {post : NetMessage → Prop},
      Scans version x ts allocs (fun y => post (f y)) →
      Scans version (f <$> x) ts allocs post := by
    intro α f x ts allocs post h
    exact h.map fun _ h => h
  cases htype with
  | initReq req req₀ =>
      apply hmap
      apply (scans_word req₀.versionCode req.versionCode).bind_word
      apply (scans_string hheld.2 req₀.username).bind_pure
      intro username
      refine ⟨_, rfl, fun husername => ?_⟩
      simp only [Alike, messageShape, husername.1]
  | initReply reply reply₀ =>
      apply hmap
      apply (scans_enum reply₀.status reply.status).bind_word
      apply (scans_word reply₀.versionCode reply.versionCode).bind_pure
      intro versionCode
      refine ⟨_, rfl, ?_⟩
      rintro rfl
      rfl
  | getDevicesReply reply reply₀ => exact hmap (scans_getDevicesReply hheld reply₀)
  | openReply reply reply₀ =>
      apply hmap
      apply (scans_enum reply₀.status reply.status).bind_word
      apply (scans_word reply₀.handle reply.handle).bind_word
      apply (scans_string hheld.2.2 reply₀.resourceToAuthorize).bind_pure
      intro resource
      refine ⟨_, rfl, fun hresource => ?_⟩
      simp only [Alike, messageShape, hresource.1]
  | optionDescriptorArray a a₀ => exact hmap (scans_optionDescriptorArray hheld a₀)
  | controlOptionReq req req₀ => exact hmap (scans_controlOptionReq hheld req₀)
  | controlOptionReply reply reply₀ =>
      exact hmap (scans_controlOptionReply hheld reply₀)
  | getParametersReply reply reply₀ =>
      apply hmap
      apply (scans_enum reply₀.status reply.status).bind_word
      apply (scans_parameters reply.params reply₀.params).bind_pure
      intro params
      refine ⟨_, rfl, ?_⟩
      rintro rfl
      rfl
  | startReply reply reply₀ =>
      apply hmap
      apply (scans_enum reply₀.status reply.status).bind_word
      apply (scans_word reply₀.port reply.port).bind_word
      apply (scans_word reply₀.byteOrder reply.byteOrder).bind_word
      apply (scans_string hheld.2.2.2 reply₀.resourceToAuthorize).bind_pure
      intro resource
      refine ⟨_, rfl, fun hresource => ?_⟩
      simp only [Alike, messageShape, hresource.1]
  | authorizationReq req req₀ =>
      apply hmap
      apply scans_string_bind hheld.1 req₀.resource
      intro resource hresource
      apply scans_string_bind hheld.2.1 req₀.username
      intro username husername
      apply (scans_string hheld.2.2 req₀.password).bind_pure
      intro password
      refine ⟨_, rfl, fun hpassword => ?_⟩
      simp only [Alike, messageShape, hresource.1, husername.1, hpassword.1]

/-- Every message starts with a word or a string. -/
theorem messageScript_head (version : Int) (m : NetMessage) :
    ∀ t ∈ (messageScript version m).tokens.head?, ¬ t.isChar := by
  have hstring : ∀ (s : SaneString) (ts : List Token),
      ∀ t ∈ ((stringScript s).tokens ++ ts).head?, ¬ t.isChar := by
    intro s ts
    obtain ⟨t, htokens, -, ht⟩ := stringScript_tokens s
    rw [htokens]
    rintro u ⟨⟩
    exact ht
  cases m with
  | authorizationReq req => exact hstring _ _
  | _ =>
      rintro t ⟨⟩
      simp [Token.isChar]

/-- Tokens that can be written have a text. -/
theorem exact_of_fillAfter {size curr curr' : Nat} {ts : List Token}
    (h : fillAfter size curr ts = some curr') : ∀ t ∈ ts, t.Exact := by
  induction ts generalizing curr with
  | nil => simp
  | cons t ts ih =>
      obtain ⟨mid, hmid, hrest⟩ := Option.bind_eq_some_iff.mp h
      refine List.forall_mem_cons.mpr ⟨?_, ih hrest⟩
      cases t with
      | word v =>
          intro hover
          simp only [Token.fill, if_pos hover] at hmid
          cases hmid
      | char c => trivial
      | string chars => trivial

/-- The wire of a peer that gets `bytes`. -/
def Wire.fed (bytes : List UInt8) (r : Wire) : Wire :=
  { r with io := { r.io with incoming := bytes } }

/-- Encoding a message and flushing it, and decoding it at a peer whatever follows it there, ends
with status 0 and gives the message as far as it is transmitted. -/
def AsciiRoundTrip (version : Int) (m m₀ : NetMessage) (w r : Wire) : Prop :=
  ∃ x w', (transferMessage asciiCodec m).run w = .ok (x, w') ∧ (flush w').status = 0 ∧
    ∀ rest, ∃ y r', (transferMessage asciiCodec m₀).run
        (r.fed ((flush w').io.sent.drop w.output.length ++ rest)) = .ok (y, r') ∧
      r'.status = 0 ∧ messageShape version y = messageShape version m

theorem scanning_fed {r : Wire} (hr : Scanning version r) (bytes : List UInt8) :
    Scanning version (r.fed bytes) :=
  ⟨⟨hr.decoding.direction, hr.decoding.sound⟩, hr.version, hr.fine, hr.reads, hr.grants⟩

/-- A sender and a peer with nothing left to read make the round trip exactly with the messages
whose tokens can be written from the fill of the sender's buffer on, of which none is a character,
and whose arrays the wire of the peer admits. -/
theorem asciiRoundTrip_iff {m m₀ : NetMessage} (htype : SameType m m₀) {w r : Wire}
    (hw : Printing version w) (hr : Scanning version r) (hidle : r.buffer.window = [])
    (hheld : (messageScript version m).held) :
    AsciiRoundTrip version m m₀ w r ↔
      (fillAfter w.buffer.size w.buffer.curr (messageScript version m).tokens).isSome ∧
        Legible (messageScript version m).tokens ∧
        Admitted r.allocatedMemory (messageScript version m).allocs := by
  obtain ⟨hdone, hstuck⟩ := writes_message m hheld w hw
  cases hfill : fillAfter w.buffer.size w.buffer.curr (messageScript version m).tokens with
  | none =>
      obtain ⟨f, hfault⟩ := hstuck hfill
      refine ⟨?_, fun h => by cases h.1⟩
      rintro ⟨x, w', hrun, -⟩
      rw [hfault] at hrun
      cases hrun
  | some curr =>
      obtain ⟨x, w', hrun, hprinted, -⟩ := hdone curr hfill
      have hprinting := hprinted.printing
      obtain ⟨hflushed, hsent⟩ :=
        flush_sent hprinting.toStreaming hprinting.fine hprinting.writes
      have hbytes : (flush w').io.sent.drop w.output.length =
          tokensText (messageScript version m).tokens := by
        rw [hsent, hprinted.output, List.drop_left]
      have hscan : ∀ rest, _ := fun rest =>
        scans_message htype hheld (r.fed (tokensText (messageScript version m).tokens ++ rest)) []
          rest (scanning_fed hr _) (.inr ⟨rfl, messageScript_head version m⟩)
          (exact_of_fillAfter hfill) (by
            change r.buffer.window ++ _ = _
            rw [hidle]
            rfl)
      change ∀ rest, (Readable r.allocatedMemory _ _ → _) ∧
        (¬ Readable r.allocatedMemory _ _ → _) at hscan
      constructor
      · rintro ⟨x₁, w₁, hrun₁, -, hpeer⟩
        rw [hrun] at hrun₁
        cases hrun₁
        refine ⟨rfl, ?_⟩
        by_contra hnot
        obtain ⟨y, r', hdecode, hst, -⟩ := hpeer []
        rw [hbytes] at hdecode
        exact ((hscan []).2 hnot y r' hdecode).1 hst
      · rintro ⟨-, hread⟩
        refine ⟨x, w', hrun, hflushed, fun rest => ?_⟩
        obtain ⟨y, r', hdecode, hr', -, -, hshape⟩ := (hscan rest).1 hread
        rw [hbytes]
        exact ⟨y, r', hdecode, hr'.fine, hshape⟩

theorem printing_freshSender (version : Int) : Printing version (freshSender version) :=
  ⟨encoding_freshSender version, by simp [freshSender, freshWire]⟩

theorem scanning_freshWire (version : Int) : Scanning version (freshWire version []) where
  decoding := (receiving_freshWire version []).decoding
  version := rfl
  fine := rfl
  reads := (receiving_freshWire version []).reads
  grants := (receiving_freshWire version []).grants

theorem asciiRoundTrip_iff_initReply :
    AsciiRoundTrip 3 (.initReply ⟨0, 3⟩) (.initReply ⟨0, 0⟩) (freshSender 3) (freshWire 3 []) ↔
      (fillAfter 8192 0 [.word 0, .word 3]).isSome ∧ Legible [.word 0, .word 3] ∧ Admitted 0 [] :=
  asciiRoundTrip_iff (.initReply _ _) (printing_freshSender 3) (scanning_freshWire 3) rfl
    ⟨trivial, trivial⟩

/-- A string option of two characters does not reach a peer: behind the size the end of the line
is left to read. The most negative word cannot be written. -/
theorem not_asciiRoundTrip_string :
    let req : SaneControlOptionReq := ⟨0, 1, actionSetValue, typeString, 2, some ⟨1, .chars [97, 0]⟩⟩
    (messageScript 3 (.controlOptionReq req)).held ∧
      ¬ AsciiRoundTrip 3 (.controlOptionReq req) (.controlOptionReq ⟨0, 0, 0, 0, 0, none⟩)
        (freshSender 3) (freshWire 3 []) ∧
      ¬ AsciiRoundTrip 3 (.initReply ⟨0, BitVec.intMin 32⟩) (.initReply ⟨0, 0⟩)
        (freshSender 3) (freshWire 3 []) := by
  refine ⟨?_, ?_, ?_⟩
  · refine ⟨trivial, trivial, trivial, ?_⟩
    have hcarries : carriesValue 3 actionSetValue := by decide
    rw [if_pos hcarries]
    exact ⟨trivial, trivial, by decide, by decide, by decide, fun _ _ => trivial⟩
  · rintro ⟨x, w', hrun, -, hpeer⟩
    obtain ⟨y, r', hdecode, hst, -⟩ := hpeer []
    have hall : ((transferMessage asciiCodec (.controlOptionReq
        ⟨0, 1, actionSetValue, typeString, 2, some ⟨1, .chars [97, 0]⟩⟩)).run
        (freshSender 3)).toOption.any (fun p =>
          ((transferMessage asciiCodec (.controlOptionReq ⟨0, 0, 0, 0, 0, none⟩)).run
            ((freshWire 3 []).fed ((flush p.2).io.sent.drop (freshSender 3).output.length ++
              []))).toOption.any fun q => q.2.status == einval) = true := by decide +kernel
    obtain ⟨p, hsend, hall⟩ := exists_of_any_toOption hall
    cases hrun.symm.trans hsend
    obtain ⟨q, hreceive, hall⟩ := exists_of_any_toOption hall
    cases hdecode.symm.trans hreceive
    have hbad : r'.status = einval := eq_of_beq hall
    rw [hst] at hbad
    cases hbad
  · rintro ⟨x, w', hrun, -⟩
    have hall : ((transferMessage asciiCodec (.initReply ⟨0, BitVec.intMin 32⟩)).run
        (freshSender 3)).toOption.isNone = true := by decide +kernel
    rw [hrun] at hall
    cases hall

end SaneBackends.Sanei
