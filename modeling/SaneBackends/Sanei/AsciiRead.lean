import SaneBackends.Sanei.AsciiWrite
import SaneBackends.Sanei.RoundTrip
/-!
# Decoding with the ASCII codec

As long as reads and allocations work, decoding the text of a value gives the value back and
leaves the end of its last line unread. It ends with a bad status if the total of the wire does
not admit an array, or at a character, whose decoding does not skip the end of the line before.
-/

namespace SaneBackends.Sanei

open SaneBackends.Lib

/-- A wire that decodes in a protocol version, whose reads and allocations work. -/
structure Scanning (version : Int) (w : Wire) : Prop where
  decoding : Decoding w
  version : w.version = version
  fine : w.status = 0
  reads : ReadsWork w
  grants : ∀ i, w.heap.grant i

/-- A wire with `n` bytes of its input in the buffer. The block `owned` is allocated. -/
structure Ready (version : Int) (n : Nat) (owned : Option Nat) (total : BitVec 32)
    (input : List UInt8) (w : Wire) : Prop extends Scanning version w where
  ready : w.buffer.curr + n ≤ w.buffer.endPos
  owned : ∀ a ∈ owned, a ∈ w.heap.live
  total : w.allocatedMemory = total
  input : w.input = input

/-- From `n` ready bytes of `input` the computation gets to `n'` ready bytes of `input'`. -/
def Steps {α : Type} (version : Int) (owned : Option Nat) (total : BitVec 32) (n : Nat)
    (input : List UInt8) (m : WireM α) (n' : Nat) (input' : List UInt8) (post : α → Prop) : Prop :=
  ∀ w, Ready version n owned total input w →
    ∃ x w', m.run w = .ok (x, w') ∧ Ready version n' owned total input' w' ∧ post x

variable {version : Int}

namespace Steps

variable {α β : Type} {m : WireM α} {k : α → WireM β} {owned : Option Nat} {total : BitVec 32}
  {n n' n'' : Nat} {input input' input'' : List UInt8} {post : α → Prop} {post' : β → Prop}

theorem pure {a : α} (h : post a) : Steps version owned total n input (Pure.pure a) n input post :=
  fun w hw => ⟨a, w, rfl, hw, h⟩

theorem bind (h : Steps version owned total n input m n' input' post)
    (hk : ∀ a, post a → Steps version owned total n' input' (k a) n'' input'' post') :
    Steps version owned total n input (m >>= k) n'' input'' post' := by
  intro w hw
  obtain ⟨a, w₁, hrun, hw₁, ha⟩ := h w hw
  obtain ⟨b, w₂, hrun₂, hw₂, hb⟩ := hk a ha w₁ hw₁
  refine ⟨b, w₂, ?_, hw₂, hb⟩
  rw [run_bind_eq, hrun]
  exact hrun₂

theorem get_bind {k : Wire → WireM α}
    (h : ∀ w, Ready version n owned total input w →
      Steps version owned total n input (k w) n' input' post) :
    Steps version owned total n input (get >>= k) n' input' post := fun w hw => h w hw w hw

/-- What follows may change which block is allocated. -/
theorem then_run (h : Steps version owned total n input m n' input' post) {w : Wire}
    (hw : Ready version n owned total input w) {q : β → Wire → Prop}
    (hk : ∀ a w', Ready version n' owned total input' w' → post a →
      ∃ x w'', (k a).run w' = .ok (x, w'') ∧ q x w'') :
    ∃ x w'', (m >>= k).run w = .ok (x, w'') ∧ q x w'' := by
  obtain ⟨a, w', hrun, hw', ha⟩ := h w hw
  rw [run_bind_eq, hrun]
  exact hk a w' hw' ha

end Steps

section Bytes

variable {owned : Option Nat} {total : BitVec 32} {n : Nat} {input : List UInt8}

theorem steps_space {k : Nat} (hk : k ≤ 4) (hinput : k ≤ input.length) :
    Steps version owned total n input (modify (saneiWSpace k)) k input fun _ => True := by
  intro w hw
  obtain ⟨hrec, hsound, hdone⟩ := saneiWSpace_decode hw.decoding.direction hw.decoding.sound k
  have hst := saneiWSpace_decode_status hw.decoding.direction hw.decoding.sound hw.fine hw.reads
    (hk.trans hw.decoding.sound.word_le) (by rw [hw.input]; exact hinput)
  refine ⟨(), saneiWSpace k w, rfl, ⟨⟨⟨?_, hsound⟩, ?_, hst, ?_, ?_⟩, (hdone hst).2, ?_, ?_,
    hrec.input.trans hw.input⟩, trivial⟩
  · rw [hrec.eq]
    exact hw.decoding.direction
  · rw [hrec.eq]
    exact hw.version
  · intro i
    rw [hrec.reads]
    exact hw.reads i
  · rw [hrec.eq]
    exact hw.grants
  · rw [hrec.eq]
    exact hw.owned
  · rw [hrec.eq]
    exact hw.total

theorem Ready.mem_eq {c : UInt8} {w : Wire}
    (hw : Ready version (n + 1) owned total (c :: input) w) :
    w.buffer.mem w.buffer.curr = c ∧ (w.advance 1).input = input := by
  have hsplit := input_advance (w := w) (n := 1) (by have := hw.ready; omega)
  rw [hw.input] at hsplit
  have hslice : slice w.buffer.mem w.buffer.curr 1 = [w.buffer.mem w.buffer.curr] := rfl
  rw [hslice] at hsplit
  exact List.cons.inj hsplit

theorem steps_peek {c : UInt8} :
    Steps version owned total (n + 1) (c :: input) peekByte (n + 1) (c :: input) (· = c) := by
  intro w hw
  have hroom : w.buffer.curr < w.buffer.size := by
    have hready := hw.ready
    have hend := hw.decoding.sound.end_le
    omega
  refine ⟨w.buffer.mem w.buffer.curr, w, ?_, hw, hw.mem_eq.1⟩
  simp only [peekByte, StateT.run_bind, StateT.run_get, pure_bind, if_pos hroom]
  rfl

theorem steps_take {c : UInt8} :
    Steps version owned total (n + 1) (c :: input) takeByte n input (· = c) := by
  intro w hw
  obtain ⟨x, w', hrun, hw', hx⟩ := steps_peek w hw
  obtain ⟨-, hinput⟩ := hw'.mem_eq
  have hready := hw'.ready
  refine ⟨x, w'.advance 1, ?_, ⟨⟨⟨hw'.decoding.direction, ?_⟩, hw'.version, hw'.fine, hw'.reads,
    hw'.grants⟩, ?_, hw'.owned, hw'.total, hinput⟩, hx⟩
  · rw [takeByte, run_bind_eq, hrun]
    rfl
  · exact hw'.decoding.sound.advance (by omega)
  · change w'.buffer.curr + 1 + n ≤ w'.buffer.endPos
    omega

theorem Scanning.not_bad {w : Wire} (hw : Scanning version w) : ¬ w.status ≠ 0 :=
  not_not.mpr hw.fine

theorem Ready.byteTurns_eq {w : Wire} (hw : Ready version n owned total input w) :
    byteTurns w = input.length + 1 := by
  rw [← hw.input]
  simp [byteTurns, Wire.input, WireBuffer.window]

end Bytes

section Words

variable {owned : Option Nat} {total : BitVec 32}

theorem steps_skipWsLoop {lead rest : List UInt8} {c : UInt8} {n fuel : Nat}
    (hlead : ∀ a ∈ lead, isSpace a) (hc : ¬ isSpace c) (hfuel : lead.length < fuel) :
    Steps version owned total n (lead ++ c :: rest) (skipWsLoop fuel) 1 (c :: rest)
      fun _ => True := by
  induction lead generalizing n fuel with
  | nil =>
      obtain ⟨fuel, rfl⟩ := Nat.exists_eq_succ_of_ne_zero (by omega : fuel ≠ 0)
      apply (steps_space (by decide) (by simp)).bind
      intro _ _
      apply Steps.get_bind
      intro w hw
      rw [if_neg hw.not_bad]
      apply steps_peek.bind
      rintro _ rfl
      rw [if_neg hc]
      exact .pure trivial
  | cons a lead ih =>
      obtain ⟨fuel, rfl⟩ := Nat.exists_eq_succ_of_ne_zero (by omega : fuel ≠ 0)
      apply (steps_space (by decide) (by simp)).bind
      intro _ _
      apply Steps.get_bind
      intro w hw
      rw [if_neg hw.not_bad]
      apply steps_peek.bind
      rintro _ rfl
      rw [if_pos (hlead _ List.mem_cons_self)]
      apply steps_take.bind
      intro _ _
      exact ih (fun b hb => hlead b (List.mem_cons_of_mem _ hb)) (Nat.lt_of_succ_lt_succ hfuel)

theorem steps_skipWs {lead rest : List UInt8} {c : UInt8} {n : Nat}
    (hlead : ∀ a ∈ lead, isSpace a) (hc : ¬ isSpace c) :
    Steps version owned total n (lead ++ c :: rest) skipWs 1 (c :: rest) fun _ => True := by
  apply Steps.get_bind
  intro w hw
  rw [hw.byteTurns_eq]
  exact steps_skipWsLoop hlead hc (by simp)

theorem isDigit_iff {c : UInt8} : isDigit c ↔ 48 ≤ c ∧ c ≤ 57 := by
  simp [isDigit]

theorem steps_takeDigits {digits rest : List UInt8} {n fuel val : Nat}
    (hdigits : ∀ c ∈ digits, isDigit c) (hval : decimalFold val digits ≤ intMax)
    (hfuel : digits.length < fuel) :
    Steps version owned total n (digits ++ 10 :: rest) (takeDigits fuel val) 1 (10 :: rest)
      (· = some (decimalFold val digits)) := by
  induction digits generalizing n fuel val with
  | nil =>
      obtain ⟨fuel, rfl⟩ := Nat.exists_eq_succ_of_ne_zero (by omega : fuel ≠ 0)
      apply (steps_space (by decide) (by simp)).bind
      intro _ _
      apply Steps.get_bind
      intro w hw
      rw [if_neg hw.not_bad]
      apply steps_peek.bind
      rintro _ rfl
      rw [if_neg (by decide)]
      exact .pure rfl
  | cons c digits ih =>
      obtain ⟨fuel, rfl⟩ := Nat.exists_eq_succ_of_ne_zero (by omega : fuel ≠ 0)
      have hfold : decimalFold val (c :: digits) =
          decimalFold (10 * val + (c.toNat - 48)) digits := by
        rw [Nat.mul_comm]
        rfl
      rw [hfold] at hval ⊢
      apply (steps_space (by decide) (by simp)).bind
      intro _ _
      apply Steps.get_bind
      intro w hw
      rw [if_neg hw.not_bad]
      apply steps_peek.bind
      rintro _ rfl
      rw [if_pos (hdigits _ List.mem_cons_self)]
      apply steps_take.bind
      rintro _ rfl
      have hfits := (le_decimalFold _ digits).trans hval
      dsimp only
      rw [if_neg (Nat.not_lt.mpr hfits)]
      exact ih (fun b hb => hdigits b (List.mem_cons_of_mem _ hb)) hval
        (Nat.lt_of_succ_lt_succ hfuel)

/-- The word that the sign and the digits stand for. -/
theorem word_of_natAbs (v : SaneWord) :
    (if v.toInt < 0 then -BitVec.ofNat 32 v.toInt.natAbs else BitVec.ofNat 32 v.toInt.natAbs) =
      v := by
  have hnat : BitVec.ofNat 32 v.toInt.natAbs = BitVec.ofInt 32 v.toInt.natAbs := by
    rw [BitVec.ofInt_natCast]
  rw [hnat]
  split_ifs with hneg
  · rw [← BitVec.ofInt_neg]
    have habs : -(v.toInt.natAbs : Int) = v.toInt := by omega
    rw [habs, BitVec.ofInt_toInt]
  · have habs : (v.toInt.natAbs : Int) = v.toInt := by omega
    rw [habs, BitVec.ofInt_toInt]

theorem isSpace_of_isDigit {c : UInt8} (hc : isDigit c) : ¬ isSpace c ∧ c ≠ 45 := by
  obtain ⟨hlo, hhi⟩ := isDigit_iff.mp hc
  rw [UInt8.le_iff_toNat_le] at hlo hhi
  simp only [UInt8.reduceToNat] at hlo hhi
  refine ⟨?_, ?_⟩
  · simp only [isSpace, Bool.or_eq_true, Bool.and_eq_true, decide_eq_true_eq,
      UInt8.le_iff_toNat_le, ← UInt8.toNat_inj, UInt8.reduceToNat]
    omega
  · rw [ne_eq, ← UInt8.toNat_inj]
    simp only [UInt8.reduceToNat]
    omega

theorem steps_digits {v : SaneWord} (hv : ¬ intMax < -v.toInt) {rest : List UInt8} {n : Nat} :
    Steps version owned total n (decimal v.toInt.natAbs ++ 10 :: rest) (do
      match ← takeDigits (byteTurns (← get)) 0 with
      | none => pure none
      | some val =>
          pure (some (if decide (v.toInt < 0) then -BitVec.ofNat 32 val else BitVec.ofNat 32 val)))
      1 (10 :: rest) (· = some v) := by
  have hbig : intMax = 2 ^ 31 - 1 := rfl
  have hlt := v.toInt_lt
  have hfold := decimalFold_decimal v.toInt.natAbs
  have hdigit : ∀ c ∈ decimal v.toInt.natAbs, isDigit c := fun c hc =>
    isDigit_iff.mpr (digit_of_mem_decimal hc)
  apply Steps.get_bind
  intro w hw
  apply (steps_takeDigits hdigit (by omega) (by
    rw [hw.byteTurns_eq, List.length_append]
    omega)).bind
  rintro _ rfl
  rw [hfold]
  refine .pure ?_
  rw [← word_of_natAbs v]
  simp only [decide_eq_true_eq, word_of_natAbs]

theorem steps_takeWord {v : SaneWord} (hv : ¬ intMax < -v.toInt) {lead rest : List UInt8} {n : Nat}
    (hlead : ∀ a ∈ lead, isSpace a) :
    Steps version owned total n (lead ++ ((Token.word v).text ++ rest)) takeWord 1 (10 :: rest)
      (· = some v) := by
  have htext : (Token.word v).text ++ rest =
      signText v ++ (decimal v.toInt.natAbs ++ 10 :: rest) := by
    simp only [Token.text, List.append_assoc, List.cons_append, List.nil_append]
  rw [htext]
  unfold signText
  have hsteps : ∀ n, Steps version owned total n _ _ 1 (10 :: rest) _ := fun n => steps_digits hv
  by_cases hneg : v.toInt < 0
  · rw [if_pos hneg]
    rw [decide_eq_true hneg] at hsteps
    apply (steps_skipWs hlead (by decide)).bind
    intro _ _
    apply (steps_space (by decide) (by simp)).bind
    intro _ _
    apply steps_peek.bind
    rintro _ rfl
    dsimp only
    rw [if_pos rfl]
    apply steps_take.bind
    intro _ _
    rw [pure_bind]
    exact hsteps 0
  · rw [if_neg hneg]
    rw [decide_eq_false hneg] at hsteps
    obtain ⟨d, ds, hds⟩ := List.exists_cons_of_ne_nil (decimal_ne_nil v.toInt.natAbs)
    have hd : isDigit d := isDigit_iff.mpr (digit_of_mem_decimal (hds ▸ List.mem_cons_self))
    obtain ⟨hspace, hminus⟩ := isSpace_of_isDigit hd
    rw [hds] at hsteps ⊢
    apply (steps_skipWs hlead hspace).bind
    intro _ _
    apply (steps_space (by decide) (by simp)).bind
    intro _ _
    apply steps_peek.bind
    rintro _ rfl
    dsimp only
    rw [if_neg hminus, pure_bind]
    exact hsteps 1

end Words

section Strings

variable {total : BitVec 32} {n : Nat} {input : List UInt8}

theorem mallocBlock_run {owned : Option Nat} {w : Wire} (hw : Ready version n owned total input w) :
    ∃ a w', mallocBlock.run w = .ok (some a, w') ∧ Ready version n (some a) total input w' ∧
      Ready version n owned total input w' ∧ a ∉ owned := by
  obtain ⟨heap, hmalloc, hlive, hgrant⟩ := malloc_granted (hw.grants w.heap.asked)
  have hscan : Scanning version { w with heap } :=
    ⟨⟨hw.decoding.direction, hw.decoding.sound⟩, hw.version, hw.fine, hw.reads, by
      change ∀ i, heap.grant i
      rw [hgrant]
      exact hw.grants⟩
  refine ⟨w.heap.next, { w with heap }, ?_, ⟨hscan, hw.ready, ?_, hw.total, hw.input⟩,
    ⟨hscan, hw.ready, ?_, hw.total, hw.input⟩, ?_⟩
  · simp only [mallocBlock, StateT.run_bind, StateT.run_get, pure_bind, hmalloc]
    rfl
  · rintro _ ⟨⟩
    change w.heap.next ∈ heap.live
    rw [hlive]
    exact List.mem_cons_self
  · intro a ha
    change a ∈ heap.live
    rw [hlive]
    exact List.mem_cons_of_mem _ (hw.owned a ha)
  · intro ha
    exact Nat.lt_irrefl _ (w.heap.fresh _ (hw.owned _ ha))

theorem reallocBlock_run {old : Nat} {w : Wire} (hw : Ready version n (some old) total input w) :
    ∃ a w', (reallocBlock old).run w = .ok (some a, w') ∧
      Ready version n (some a) total input w' := by
  obtain ⟨a, w', hrun, hnew, hold, hne⟩ := mallocBlock_run hw
  have hlive : old ∈ w'.heap.live := hold.owned old rfl
  have hne : a ≠ old := fun h => hne (h ▸ rfl)
  refine ⟨a, { w' with heap := w'.heap.free old }, ?_,
    ⟨⟨⟨hnew.decoding.direction, hnew.decoding.sound⟩, hnew.version, hnew.fine, hnew.reads,
      hnew.grants⟩, hnew.ready, ?_, hnew.total, hnew.input⟩⟩
  · rw [reallocBlock, run_bind_eq, hrun]
    simp only [ok_bind, freeBlock, StateT.run_bind, StateT.run_get, pure_bind, if_pos hlive]
    rfl
  · rintro _ ⟨⟩
    change a ∈ w'.heap.live.erase old
    exact (List.mem_erase_of_ne hne).mpr (hnew.owned a rfl)

theorem reserve_run {b : StringBuffer} (hb : b.str = none → b.allocedLen = 0) {w : Wire}
    (hw : Ready version n b.str total input w) :
    ∃ b' w', b.reserve.run w = .ok (some b', w') ∧ Ready version n b'.str total input w' ∧
      b'.chars = b.chars ∧ b'.str ≠ none := by
  unfold StringBuffer.reserve
  by_cases hfull : b.allocedLen ≤ b.chars.length
  · rw [if_pos hfull]
    cases hstr : b.str with
    | none =>
        rw [hstr] at hw
        obtain ⟨a, w', hrun, hw', -⟩ := mallocBlock_run hw
        refine ⟨{ b with str := some a, allocedLen := b.allocedLen + 1024 }, w', ?_, hw', rfl,
          by simp⟩
        dsimp only
        rw [run_bind_eq, hrun]
        rfl
    | some old =>
        rw [hstr] at hw
        obtain ⟨a, w', hrun, hw'⟩ := reallocBlock_run hw
        refine ⟨{ b with str := some a, allocedLen := b.allocedLen + 1024 }, w', ?_, hw', rfl,
          by simp⟩
        dsimp only
        rw [run_bind_eq, hrun]
        rfl
  · rw [if_neg hfull]
    refine ⟨b, w, rfl, hw, rfl, fun hnone => ?_⟩
    rw [hb hnone] at hfull
    exact hfull (Nat.zero_le _)

theorem store_run {b : StringBuffer} (ch : UInt8) (hb : b.str = none → b.allocedLen = 0) {w : Wire}
    (hw : Ready version n b.str total input w) :
    ∃ b' w', (b.store ch).run w = .ok (some b', w') ∧ Ready version n b'.str total input w' ∧
      b'.chars = b.chars ++ [ch] ∧ b'.str ≠ none := by
  obtain ⟨b', w', hrun, hw', hchars, hstr⟩ := reserve_run hb hw
  refine ⟨{ b' with chars := b'.chars ++ [ch] }, w', ?_, hw', by rw [hchars], hstr⟩
  rw [StringBuffer.store, run_bind_eq, hrun]
  rfl

/-- The byte that a character was stored behind or as, and the character. -/
theorem steps_escaped {owned : Option Nat} (c : UInt8) :
    Steps version owned total 1 (escape 34 c ++ input) (do
        let ch ← takeByte
        let e ← takeEscaped 1 ch
        pure (ch, e)) 0 input (fun p => p.1 ≠ 34 ∧ p.2 = c) := by
  unfold escape
  split_ifs with hescaped
  · apply steps_take.bind
    rintro _ rfl
    have hnext : Steps version owned total 0 (c :: input) (takeEscaped 1 92) 0 input (· = c) := by
      apply (steps_space (by decide) (by simp)).bind
      intro _ _
      exact steps_take
    apply hnext.bind
    rintro _ rfl
    exact .pure ⟨(by decide : (92 : UInt8) ≠ 34), rfl⟩
  · simp only [isEscaped, Bool.or_eq_true, decide_eq_true_eq, not_or] at hescaped
    apply steps_take.bind
    rintro _ rfl
    rw [takeEscaped, if_neg hescaped.2, pure_bind]
    exact .pure ⟨hescaped.1, rfl⟩

/-- One turn of the loop over a string. -/
theorem takeString_turn {text : List UInt8} {fuel : Nat} {b : StringBuffer}
    {q : UInt8 × UInt8 → Prop} (hb : b.str = none → b.allocedLen = 0) (htext : text ≠ [])
    (hsteps : Steps version b.str total 1 (text ++ input) (do
        let ch ← takeByte
        let e ← takeEscaped 1 ch
        pure (ch, e)) 0 input q) {w : Wire}
    (hw : Ready version n b.str total (text ++ input) w) :
    ∃ p b' w', (takeString (fuel + 1) b).run w =
        (if p.1 = 34 then pure (some b') else takeString fuel b').run w' ∧ q p ∧
      Ready version 0 b'.str total input w' ∧ b'.str ≠ none ∧ b'.chars = b.chars ++ [p.2] := by
  have hlength : 1 ≤ (text ++ input).length := by
    have hpos := List.length_pos_iff.mpr htext
    rw [List.length_append]
    omega
  obtain ⟨_, w₁, hspace, hw₁, -⟩ := steps_space (by decide) hlength w hw
  obtain ⟨p, w₂, hrun, hw₂, hp⟩ := hsteps w₁ hw₁
  obtain ⟨b', w₃, hstore, hw₃, hchars, hstr⟩ := store_run p.2 hb hw₂
  refine ⟨p, b', w₃, ?_, hp, hw₃, hstr, hchars⟩
  have hassoc : ∀ k : UInt8 → UInt8 → WireM (Option StringBuffer),
      (do
        let ch ← takeByte
        let e ← takeEscaped 1 ch
        k ch e) =
      (do
        let ch ← takeByte
        let e ← takeEscaped 1 ch
        pure (ch, e)) >>= fun p => k p.1 p.2 := by
    intro k
    simp only [bind_assoc, pure_bind]
  rw [takeString, run_bind_eq, hspace, ok_bind, run_bind_eq, StateT.run_get]
  simp only [pure_bind]
  rw [if_neg hw₁.not_bad]
  apply (congrArg (StateT.run · w₁) (hassoc _)).trans
  rw [run_bind_eq, hrun, ok_bind, run_bind_eq, hstore]
  rfl

/-- The loop over a string reads its characters and stores them behind those read before. -/
theorem takeString_run {chars rest : List UInt8} {fuel : Nat} {b : StringBuffer}
    (hfuel : chars.length < fuel) (hb : b.str = none → b.allocedLen = 0) {w : Wire}
    (hw : Ready version n b.str total (chars.flatMap (escape 34) ++ 34 :: rest) w) :
    ∃ b' w', (takeString fuel b).run w = .ok (some b', w') ∧
      Ready version 0 b'.str total rest w' ∧ b'.str ≠ none ∧
      b'.chars = b.chars ++ (chars ++ [34]) := by
  induction chars generalizing n fuel b w with
  | nil =>
      obtain ⟨fuel, rfl⟩ := Nat.exists_eq_succ_of_ne_zero (by omega : fuel ≠ 0)
      have hclose : Steps version b.str total 1 ([34] ++ rest) (do
          let ch ← takeByte
          let e ← takeEscaped 1 ch
          pure (ch, e)) 0 rest (· = (34, 34)) := by
        apply steps_take.bind
        rintro _ rfl
        exact .pure rfl
      obtain ⟨_, b', w', hrun, rfl, hw', hstr, hchars⟩ :=
        takeString_turn hb (List.cons_ne_nil _ _) hclose hw
      exact ⟨b', w', hrun, hw', hstr, hchars⟩
  | cons ch chars ih =>
      obtain ⟨fuel, rfl⟩ := Nat.exists_eq_succ_of_ne_zero (by omega : fuel ≠ 0)
      rw [List.flatMap_cons, List.append_assoc] at hw
      have hne : escape 34 ch ≠ [] := List.length_pos_iff.mp (length_escape 34 ch).1
      obtain ⟨p, b₁, w₁, hrun, ⟨hopen, hp⟩, hw₁, hstr, hchars⟩ :=
        takeString_turn hb hne (steps_escaped ch) hw
      obtain ⟨b', w', hrest, hw', hstr', hchars'⟩ :=
        ih (Nat.lt_of_succ_lt_succ hfuel) (fun h => absurd h hstr) hw₁
      refine ⟨b', w', ?_, hw', hstr', ?_⟩
      · rw [hrun, if_neg hopen]
        exact hrest
      · rw [hchars', hchars, hp, List.append_assoc]
        rfl

theorem steps_takeExpected {owned : Option Nat} {expected : List UInt8} {k : Nat}
    (hk : k = expected.length) :
    Steps version owned total k (expected ++ input) (takeExpected expected) 0 input (· = true) := by
  subst hk
  induction expected with
  | nil => exact .pure rfl
  | cons c expected ih =>
      apply steps_take.bind
      rintro _ rfl
      rw [if_neg (not_not.mpr rfl)]
      exact ih

/-- The string with the characters up to the NUL that ends it. -/
theorem stringShape_eq {a : Nat} {chars after : List UInt8} (hchars : 0 ∉ chars) :
    stringShape (some ⟨a, chars ++ 0 :: after⟩) = some ⟨0, chars ++ [0]⟩ := by
  have hidx : (chars ++ 0 :: after).idxOf 0 = chars.length := by
    rw [List.idxOf_append_of_notMem hchars]
    simp
  have hcount : stringCount (some ⟨a, chars ++ 0 :: after⟩) = .ok (chars.length + 1) := by
    simp only [stringCount, strlen]
    rw [if_pos (by simp), hidx]
    rfl
  have htake : (chars ++ 0 :: after).take (chars.length + 1) = chars ++ [0] := by
    simp [List.take_append]
  rw [stringShape, hcount]
  simp only [arrayShape, elementsShape, Ptr.cells, htake, Nat.succ_ne_zero, if_false, List.map_id]

/-- A string is received as a copy, and as `NULL` exactly if it was `NULL`. -/
def SameString (x y : SaneString) : Prop := stringShape y = stringShape x ∧ (y = none ↔ x = none)

theorem length_le_flatMap_escape (quote : UInt8) (chars : List UInt8) :
    chars.length ≤ (chars.flatMap (escape quote)).length := by
  induction chars with
  | nil => exact Nat.le_refl 0
  | cons ch chars ih =>
      have hescape := (length_escape quote ch).1
      rw [List.flatMap_cons, List.length_append, List.length_cons]
      omega

theorem string_run {s : SaneString} (hheld : (stringScript s).held) {lead rest : List UInt8}
    (hlead : ∀ a ∈ lead, isSpace a) (s₀ : SaneString) {w : Wire}
    (hw : Ready version n none total (lead ++ (tokensText (stringScript s).tokens ++ rest)) w) :
    ∃ y w', (asciiWString.run s₀).run w = .ok (y, w') ∧ Ready version 0 none total (10 :: rest) w' ∧
      SameString s y := by
  have hget : ∀ {k : Wire → WireM SaneString}, (get >>= k).run w = (k w).run w := by
    intro k
    rw [run_bind_eq, StateT.run_get]
    simp only [pure_bind]
  unfold asciiWString
  dsimp only
  rw [hget, hw.decoding.direction]
  dsimp only
  cases s with
  | none =>
      have hw : Ready version n none total (lead ++ 40 :: ([110, 105, 108, 41] ++ 10 :: rest)) w := hw
      apply (steps_skipWs hlead (by decide)).then_run hw
      intro _ w₁ hw₁ _
      apply (steps_space (k := 1) (by decide) (by simp)).then_run hw₁
      intro _ w₂ hw₂ _
      apply steps_take.then_run hw₂
      rintro _ w₃ hw₃ rfl
      rw [if_neg (by decide), if_pos rfl]
      apply (steps_space (k := 4) (by decide) (by simp)).then_run hw₃
      intro _ w₄ hw₄ _
      apply (steps_takeExpected rfl).then_run hw₄
      rintro _ w₅ hw₅ rfl
      exact ⟨none, w₅, rfl, hw₅, rfl, Iff.rfl⟩
  | some block =>
      obtain ⟨chars, after, hval, hchars, htake⟩ := split_at_nul hheld
      have hw : Ready version n none total
          (lead ++ 34 :: (chars.flatMap (escape 34) ++ 34 :: 10 :: rest)) w := by
        simpa [stringScript, htake, Token.text] using hw
      apply (steps_skipWs hlead (by decide)).then_run hw
      intro _ w₁ hw₁ _
      apply (steps_space (k := 1) (by decide) (by simp)).then_run hw₁
      intro _ w₂ hw₂ _
      apply steps_take.then_run hw₂
      rintro _ w₃ hw₃ rfl
      rw [if_pos rfl, run_bind_eq, StateT.run_get]
      simp only [pure_bind]
      have hfuel : chars.length < byteTurns w₃ := by
        have hle := length_le_flatMap_escape 34 chars
        rw [hw₃.byteTurns_eq, List.length_append]
        omega
      obtain ⟨b, w₄, hrun, hw₄, hstr, hread⟩ := 
        takeString_run (b := ⟨none, [], 0⟩) hfuel (fun _ => rfl) hw₃
      obtain ⟨str, read, alloced⟩ := b
      obtain ⟨old, rfl⟩ := Option.ne_none_iff_exists'.mp hstr
      obtain rfl : read = chars ++ [34] := hread
      obtain ⟨a, w₅, hrealloc, hw₅⟩ := reallocBlock_run hw₄
      have hend : (chars ++ [34]).set ((chars ++ [34]).length - 1) 0 = chars ++ [0] := by
        simp
      refine ⟨some ⟨a, chars ++ [0]⟩, w₅, ?_,
        ⟨hw₅.toScanning, hw₅.ready, (fun _ h => by cases h), hw₅.total, hw₅.input⟩, ?_, by simp⟩
      · rw [run_bind_eq, hrun, ok_bind]
        dsimp only
        rw [run_bind_eq, hrealloc, ok_bind]
        dsimp only
        rw [hend]
        rfl
      · obtain ⟨addr, val⟩ := block
        obtain rfl : val = chars ++ 0 :: after := hval
        rw [stringShape_eq hchars, stringShape_eq hchars]

end Strings

end SaneBackends.Sanei
