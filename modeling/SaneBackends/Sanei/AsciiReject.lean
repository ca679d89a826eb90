import SaneBackends.Sanei.Listening
/-!
# What the ASCII decoder rejects

The decoder leaves a status other than 0 unless the stream starts with a text of the value. The
exceptions are digits of a byte that are none, and words without digits or out of range.
-/

namespace SaneBackends.Sanei

open SaneBackends.Lib

/-- A value that the codec is called for. -/
inductive AsciiType where
  | byte | char | string | word
  deriving DecidableEq, Repr

/-! ## The texts -/

def isHexDigit (c : UInt8) : Bool := isDigit c || (97 ≤ c && c ≤ 102) || (65 ≤ c && c ≤ 70)

/-- The characters between the quotes of a string. -/
inductive Quoted : List UInt8 → Prop where
  | nil : Quoted []
  | plain {c : UInt8} {rest : List UInt8} : c ≠ 34 → c ≠ 92 → Quoted rest → Quoted (c :: rest)
  | escaped {c : UInt8} {rest : List UInt8} : Quoted rest → Quoted (92 :: c :: rest)

/-- What follows the white space and the sign of a word. -/
def afterSign (stream : List UInt8) : List UInt8 :=
  if (afterSpace stream).head? = some 45 then (afterSpace stream).tail else afterSpace stream

/-- The digits are there, and stand for a number that a word can be. -/
def NumberText (stream : List UInt8) : Prop :=
  (afterSign stream).takeWhile isDigit ≠ [] ∧
    decimalFold 0 ((afterSign stream).takeWhile isDigit) ≤
      if (afterSpace stream).head? = some 45 then intMax + 1 else intMax

namespace AsciiType

/-- The stream starts with a text of the type, after white space. -/
def Text : AsciiType → List UInt8 → Prop
  | byte, stream => ∃ a b rest, afterSpace stream = a :: b :: rest ∧ isHexDigit a ∧ isHexDigit b
  | char, stream => ∃ c rest, afterSpace stream = 39 :: c :: 39 :: rest ∧ c ≠ 92 ∨
      afterSpace stream = 39 :: 92 :: c :: 39 :: rest
  | string, stream => ∃ rest, afterSpace stream = nilText ++ rest ∨
      ∃ body, afterSpace stream = 34 :: (body ++ 34 :: rest) ∧ Quoted body
  | word, stream => NumberText stream

/-- The decoder of the type, called for a value that is overwritten. -/
def decode : AsciiType → WireM Unit
  | byte => do
      let _ ← asciiCodec.wByte.run 0
      pure ()
  | char => do
      let _ ← asciiCodec.wChar.run 0
      pure ()
  | string => do
      let _ ← asciiCodec.wString.run none
      pure ()
  | word => do
      let _ ← asciiCodec.wWord.run 0
      pure ()

end AsciiType

/-- The wire with other answers of `io.read`. -/
def Wire.reading (reads : Nat → IoEvent) (w : Wire) : Wire := { w with io := { w.io with reads } }

/-- However the rest of the stream arrives, decoding ends with a status other than 0. -/
def Rejects (type : AsciiType) (w : Wire) : Prop :=
  ∀ reads, Yields (w.reading reads) type.decode fun _ w' => w'.status ≠ 0

/-- A character that `getDigit` takes for a digit. -/
def isTakenDigit (c : UInt8) : Bool := isHexDigit c || (91 ≤ c && c ≤ 96)

/-- The byte `k` of the input lies in the last cell of the buffer, or can come to lie there. -/
def Wire.MayEndBuffer (w : Wire) (k : Nat) : Prop :=
  if k < w.buffer.endPos - w.buffer.curr then w.buffer.curr + k + 1 = w.buffer.size
  else w.buffer.size ≤ k - (w.buffer.endPos - w.buffer.curr) + 1

/-- The wires whose input is told from texts. For a byte, two characters that are taken for
digits are digits, and a first one that is not does not come last in the buffer. For a word, the
stream ends before any digit or there is a number in range. -/
def AsciiType.Exact : AsciiType → Wire → Prop
  | byte, w =>
      (∀ a b rest, afterSpace w.input = a :: b :: rest → isTakenDigit a → isTakenDigit b →
        isHexDigit a ∧ isHexDigit b) ∧
      (∀ c rest, afterSpace w.input = c :: rest → ¬ isTakenDigit c →
        ¬ w.MayEndBuffer (spaces w.input))
  | word, w => afterSign w.input = [] ∨ NumberText w.input
  | _, _ => True

variable {works : Prop} {n k : Nat} {owned : Option Nat} {input : List UInt8} {w : Wire}

/-! ## Bytes -/

/-- The digit that a character is taken for. -/
def digitOf (c : UInt8) : BitVec 32 :=
  let lower := if 65 ≤ c && c ≤ 90 then c + 32 else c
  let digit := lower.toBitVec.signExtend 32 - 48
  if 9 < digit.toNat then digit - (97 - (57 + 1)) else digit

theorem digitOf_gt_iff (c : UInt8) : 0xf < (digitOf c).toNat ↔ ¬ isTakenDigit c := by
  have hall : ∀ n < 256, decide (0xf < (digitOf (UInt8.ofNat n)).toNat) =
      !isTakenDigit (UInt8.ofNat n) := by decide +kernel
  have hc := hall c.toNat (UInt8.toNat_lt c)
  rw [UInt8.ofNat_toNat] at hc
  rw [← decide_eq_true_iff (p := 0xf < (digitOf c).toNat), hc]
  simp

/-- What `getDigit` does once the byte is there. -/
def readDigit : WireM (BitVec 32) := do
  let c ← takeByte
  if 0xf < (digitOf c).toNat then do
    setStatus einval
    pure 0
  else pure (digitOf c)

theorem getDigit_eq : getDigit = (do modify (saneiWSpace 1); readDigit) := rfl

theorem Stalled.readDigit (hw : Stalled (n + 1) owned w) :
    Yields w Sanei.readDigit fun _ => Stalled n owned := by
  apply hw.take.bind
  intro c w' hw'
  split_ifs
  · apply (hw'.setStatus (by decide)).bind
    intro _ w' hw'
    exact .pure hw'
  · exact .pure hw'

theorem Stalled.getDigit (hw : Stalled (n + 1) owned w) :
    Yields w Sanei.getDigit fun _ => Stalled n owned := by
  rw [getDigit_eq]
  apply (hw.space 1).bind
  intro _ w' hw'
  exact hw'.readDigit

theorem Listening.readDigit (hw : Listening works 1 owned input w) :
    Yields w Sanei.readDigit fun _ w' => ∃ c rest, input = c :: rest ∧
      if isTakenDigit c then Listening works 0 owned rest w'
      else Stalled (w.buffer.size - (w.buffer.curr + 1)) owned w' := by
  apply hw.take.bind
  rintro c w' ⟨rfl, rest, hinput, hw'⟩
  split_ifs with hbad
  · rw [digitOf_gt_iff] at hbad
    apply (hw'.setStatus (by decide)).bind
    intro _ w' hw'
    refine .pure ⟨c, rest, hinput, ?_⟩
    rw [if_neg hbad]
    exact hw'
  · rw [digitOf_gt_iff, not_not] at hbad
    refine .pure ⟨c, rest, hinput, ?_⟩
    rw [if_pos hbad]
    exact hw'

/-- With two digits to take the byte is read; otherwise, where there is a cell left behind a first
character that is none, the status is bad. -/
theorem Listening.getByte (hw : Listening works 1 owned input w)
    (hlast : ∀ c rest, input = c :: rest → ¬ isTakenDigit c → w.buffer.curr + 2 ≤ w.buffer.size) :
    Yields w Sanei.getByte fun _ w' =>
      Stalled 0 owned w' ∧ (works → ¬ ∃ a b rest, input = a :: b :: rest ∧
        isTakenDigit a ∧ isTakenDigit b) ∨
      ∃ a b rest, input = a :: b :: rest ∧ isTakenDigit a ∧ isTakenDigit b ∧
        Listening works 0 owned rest w' := by
  have hspace : saneiWSpace 1 w = w := by
    rw [saneiWSpace_decode_eq hw.decoding.direction hw.decoding.sound hw.fine,
      if_neg (Nat.not_lt.mpr hw.ready)]
  have hfirst : Yields w Sanei.getDigit fun _ w' => ∃ c rest, input = c :: rest ∧
      if isTakenDigit c then Listening works 0 owned rest w'
      else Stalled (w.buffer.size - (w.buffer.curr + 1)) owned w' := by
    rw [getDigit_eq]
    apply Yields.bind (P := fun _ w' => w' = w) ⟨(), saneiWSpace 1 w, rfl, hspace⟩
    rintro _ _ rfl
    exact hw.readDigit
  apply hfirst.bind
  rintro hi w₁ ⟨a, rest, rfl, hw₁⟩
  split_ifs at hw₁ with ha
  · rw [getDigit_eq, bind_assoc]
    apply (hw₁.space (by decide)).bind
    rintro _ w₂ (⟨hw₂, hend⟩ | ⟨hw₂, -, -⟩)
    · apply (hw₂.readDigit (n := 7)).bind
      intro lo w₃ hw₃
      refine .pure (.inl ⟨hw₃.mono (Nat.zero_le _), fun hworks => ?_⟩)
      rintro ⟨a', b', rest', heq, -, -⟩
      cases heq
      have hlength := hend hworks
      simp at hlength
    · apply hw₂.readDigit.bind
      rintro lo w₃ ⟨b, rest', rfl, hw₃⟩
      split_ifs at hw₃ with hb
      · exact .pure (.inr ⟨a, b, rest', rfl, ha, hb, hw₃⟩)
      · refine .pure (.inl ⟨hw₃.mono (Nat.zero_le _), fun _ => ?_⟩)
        rintro ⟨a', b', rest'', heq, -, hb'⟩
        cases heq
        exact hb hb'
  · have hroom := hlast a rest rfl ha
    apply ((hw₁.mono (by omega : 0 + 1 ≤ _)).getDigit).bind
    intro lo w₂ hw₂
    refine .pure (.inl ⟨hw₂, fun _ => ?_⟩)
    rintro ⟨a', b', rest'', heq, ha', -⟩
    cases heq
    exact ha ha'

theorem Stalled.getByte (hw : Stalled (n + 2) owned w) :
    Yields w Sanei.getByte fun _ => Stalled n owned := by
  apply hw.getDigit.bind
  intro hi w' hw'
  apply hw'.getDigit.bind
  intro lo w' hw'
  exact .pure hw'

/-- After a first character in the last cell that is no digit, the second one is read behind the
buffer. -/
theorem Listening.getByte_fault {c : UInt8} {rest : List UInt8}
    (hw : Listening works 1 owned (c :: rest) w) (hlast : w.buffer.curr + 1 = w.buffer.size)
    (hc : ¬ isTakenDigit c) : Sanei.getByte.run w = .error .outOfBounds := by
  have hbyte : w.buffer.mem w.buffer.curr = c := (List.cons.inj hw.input_eq).1.symm
  have hspace : saneiWSpace 1 w = w := by
    rw [saneiWSpace_decode_eq hw.decoding.direction hw.decoding.sound hw.fine,
      if_neg (Nat.not_lt.mpr hw.ready)]
  have hfirst : Sanei.getDigit.run w = .ok (0, { w.advance 1 with status := einval }) := by
    have hrun : (modify (saneiWSpace 1) : WireM Unit).run w = .ok ((), saneiWSpace 1 w) := rfl
    rw [getDigit_eq, run_bind_eq, hrun, hspace]
    change Sanei.readDigit.run w = _
    rw [Sanei.readDigit, run_bind_eq, takeByte_run (by omega), hbyte]
    change StateT.run (if 0xf < (digitOf c).toNat then _ else _) _ = _
    rw [if_pos ((digitOf_gt_iff c).mpr hc)]
    rfl
  have hsecond :
      Sanei.getDigit.run { w.advance 1 with status := einval } = .error .outOfBounds := by
    have hstuck : saneiWSpace 1 { w.advance 1 with status := einval } =
        { w.advance 1 with status := einval } := if_pos (by decide : einval ≠ 0)
    have hrun : (modify (saneiWSpace 1) : WireM Unit).run { w.advance 1 with status := einval } =
        .ok ((), saneiWSpace 1 { w.advance 1 with status := einval }) := rfl
    rw [getDigit_eq, run_bind_eq, hrun, hstuck]
    change Sanei.readDigit.run { w.advance 1 with status := einval } = _
    have hfull : w.buffer.size ≤ w.buffer.curr + 1 := by omega
    rw [Sanei.readDigit, run_bind_eq, takeByte_full hfull]
    rfl
  rw [Sanei.getByte, run_bind_eq, hfirst, ok_bind]
  dsimp only
  rw [run_bind_eq, hsecond]
  rfl

/-- A wire set to decode with status 0, however its reads go. -/
structure Facing (w : Wire) : Prop where
  decoding : Decoding w
  fine : w.status = 0
  roomy : 16 ≤ w.buffer.size

theorem Facing.listening (hw : Facing w) (works : Prop) (reads : Nat → IoEvent)
    (hreads : works → ∀ i, ∃ n, reads i = .moved n) :
    Listening works 0 none w.input (w.reading reads) :=
  ⟨⟨hw.decoding.direction, hw.decoding.sound⟩, hw.fine, hw.roomy, hw.decoding.sound.curr_le,
    nofun, hreads, rfl⟩

theorem decode_byte_run (hdir : w.direction = .decode) :
    AsciiType.byte.decode.run w = (do skipWs; let _ ← getByte; pure ()).run w := by
  simp [AsciiType.decode, asciiCodec, asciiWByte, hdir]

theorem isTakenDigit_of_isHexDigit {c : UInt8} (hc : isHexDigit c) : isTakenDigit c := by
  simp [isTakenDigit, hc]

/-- Where two characters that are taken for digits are, and the first one does not come last in
the buffer, the status tells whether it was a byte. -/
theorem decode_byte (hw : Listening works 0 none input w)
    (hlast : ∀ c rest, afterSpace input = c :: rest → ¬ isTakenDigit c →
      ¬ w.MayEndBuffer (spaces input)) :
    Yields w AsciiType.byte.decode fun _ w' =>
      w'.status ≠ 0 ∧ (works → ¬ ∃ a b rest, afterSpace input = a :: b :: rest ∧
        isTakenDigit a ∧ isTakenDigit b) ∨
      w'.status = 0 ∧ ∃ a b rest, afterSpace input = a :: b :: rest ∧
        isTakenDigit a ∧ isTakenDigit b := by
  apply Yields.of_run_eq _ (decode_byte_run hw.decoding.direction)
  apply hw.skipWs.bind
  rintro _ w₁ (⟨hw₁, hnil⟩ | ⟨hw₁, hsize, hplace⟩)
  · apply (hw₁.mono (by decide : 0 + 2 ≤ 8)).getByte.bind
    intro _ w₂ hw₂
    refine .pure (.inl ⟨hw₂.bad, fun hworks => ?_⟩)
    rintro ⟨a, b, rest, heq, -⟩
    rw [hnil hworks] at heq
    cases heq
  · have hroom : ∀ c rest, afterSpace input = c :: rest → ¬ isTakenDigit c →
        w₁.buffer.curr + 2 ≤ w₁.buffer.size := by
      intro c rest heq hc
      have hnot := hlast c rest heq hc
      have hlt := hw₁.room
      unfold Wire.MayEndBuffer at hnot
      split_ifs at hplace hnot <;> omega
    apply (hw₁.getByte hroom).bind
    rintro _ w₂ (⟨hw₂, hnone⟩ | ⟨a, b, rest, heq, ha, hb, hw₂⟩)
    · exact .pure (.inl ⟨hw₂.bad, hnone⟩)
    · exact .pure (.inr ⟨hw₂.fine, a, b, rest, heq, ha, hb⟩)

theorem decode_byte_fault {c : UInt8} {rest : List UInt8} (hw : Facing w)
    (hstream : afterSpace w.input = c :: rest) (hc : ¬ isTakenDigit c)
    (hend : w.MayEndBuffer (spaces w.input)) : ¬ Rejects .byte w := by
  intro h
  obtain ⟨limit, haim⟩ : ∃ limit, Aimed limit (spaces w.input) w := by
    unfold Wire.MayEndBuffer at hend
    split_ifs at hend with hin
    · exact ⟨0, .inr ⟨hin, hend⟩⟩
    · refine ⟨w.io.nreads + (spaces w.input - (w.buffer.endPos - w.buffer.curr) + 1 -
        w.buffer.size), .inl ⟨Nat.le_add_right _ _, ?_⟩⟩
      omega
  have hlistening := hw.listening True (singlesThenAll limit w.buffer.size)
    fun _ i => ⟨_, rfl⟩
  have hskip : Yields (w.reading (singlesThenAll limit w.buffer.size)) skipWs fun _ w' =>
      Listening True 1 none (afterSpace w.input) w' ∧ w'.buffer.curr + 1 = w'.buffer.size := by
    apply Yields.get_bind
    rw [hlistening.byteTurns_eq]
    exact Aimed.skipWsLoop hlistening rfl (by rw [hstream]; simp) haim (Nat.lt_succ_self _)
  obtain ⟨_, w₁, hrun, hw₁, hlast⟩ := hskip
  rw [hstream] at hw₁
  obtain ⟨_, _, hdecode, -⟩ := h (singlesThenAll limit w.buffer.size)
  rw [decode_byte_run hlistening.decoding.direction, run_bind_eq, hrun, ok_bind] at hdecode
  dsimp only at hdecode
  rw [run_bind_eq, hw₁.getByte_fault hlast hc] at hdecode
  cases hdecode

theorem rejects_byte_iff (hw : Facing w) :
    (¬ AsciiType.byte.Text w.input → Rejects .byte w) ↔ AsciiType.byte.Exact w := by
  constructor
  · intro h
    refine ⟨?_, ?_⟩
    · intro a b rest heq ha hb
      by_contra hnot
      have htext : ¬ AsciiType.byte.Text w.input := by
        rintro ⟨a', b', rest', heq', ha', hb'⟩
        rw [heq] at heq'
        cases heq'
        exact hnot ⟨ha', hb'⟩
      have hlistening := hw.listening True (fun _ => .moved 0) fun _ i => ⟨_, rfl⟩
      have hdecode := decode_byte hlistening (by
        intro c rest' heq' hc
        rw [heq] at heq'
        cases heq'
        exact absurd ha hc)
      obtain ⟨_, w', -, hbad, hends⟩ := (h htext _).and hdecode
      obtain ⟨-, hnone⟩ | ⟨hfine, -⟩ := hends
      · exact hnone trivial ⟨a, b, rest, heq, ha, hb⟩
      · exact hbad hfine
    · intro c rest heq hc hend
      refine decode_byte_fault hw heq hc hend (h ?_)
      rintro ⟨a, b, rest', heq', ha, -⟩
      rw [heq] at heq'
      cases heq'
      exact hc (isTakenDigit_of_isHexDigit ha)
  · rintro ⟨hdigits, hend⟩ htext reads
    have hlistening := hw.listening False reads nofun
    apply (decode_byte hlistening hend).conseq
    rintro _ w' (⟨hbad, -⟩ | ⟨-, a, b, rest, heq, ha, hb⟩)
    · exact hbad
    · exact absurd ⟨a, b, rest, heq, hdigits a b rest heq ha hb⟩ htext

/-! ## Characters -/

theorem yields_setStatus {status : Nat} (hst : status ≠ 0) :
    Yields w (setStatus status) fun _ w' => w'.status ≠ 0 := ⟨(), { w with status }, rfl, hst⟩

theorem Stalled.takeEscaped {howmuch : Nat} {c : UInt8} (hw : Stalled (n + 1) owned w) :
    Yields w (Sanei.takeEscaped howmuch c) fun _ => Stalled n owned := by
  unfold Sanei.takeEscaped
  split_ifs
  · apply (hw.space howmuch).bind
    intro _ w' hw'
    exact hw'.take
  · exact .pure (hw.mono (Nat.le_succ n))

/-- A backslash stands for the character behind it. -/
theorem Listening.takeEscaped {c : UInt8} (hw : Listening works n owned input w) (hk : k + 1 ≤ 4) :
    Yields w (Sanei.takeEscaped (k + 1) c) fun e w' => Stalled 7 owned w' ∧ c = 92 ∨
      if c = 92 then ∃ rest, input = e :: rest ∧ Listening works k owned rest w'
      else w' = w := by
  unfold Sanei.takeEscaped
  split_ifs with hc
  · apply (hw.space hk).bind
    rintro _ w' (⟨hw', -⟩ | ⟨hw', -, -⟩)
    · exact (hw'.take (n := 7)).conseq fun _ _ h => .inl ⟨h, hc⟩
    · apply hw'.take.conseq
      rintro e w'' ⟨-, hrest⟩
      exact .inr hrest
  · exact .pure (.inr rfl)

/-- The apostrophe behind the character. -/
def readQuote (c : UInt8) : WireM UInt8 := do
  if (← takeByte) ≠ 39 then setStatus einval
  pure c

theorem Stalled.readQuote {c : UInt8} (hw : Stalled (n + 1) owned w) :
    Yields w (Sanei.readQuote c) fun _ w' => w'.status ≠ 0 := by
  apply hw.take.bind
  intro q w' hw'
  split_ifs
  · apply (yields_setStatus (by decide)).bind
    intro _ w'' hbad
    exact .pure hbad
  · exact .pure hw'.bad

theorem Listening.readQuote {c : UInt8} (hw : Listening works (n + 1) owned input w) :
    Yields w (Sanei.readQuote c) fun _ w' => w'.status ≠ 0 ∨ ∃ rest, input = 39 :: rest := by
  apply hw.take.bind
  rintro q w' ⟨-, rest, rfl, -⟩
  split_ifs with hq
  · apply (yields_setStatus (by decide)).bind
    intro _ w'' hbad
    exact .pure (.inl hbad)
  · rw [not_not] at hq
    exact .pure (.inr ⟨rest, by rw [hq]⟩)

theorem decode_char (hw : Listening works 0 none input w) :
    Yields w AsciiType.char.decode fun _ w' =>
      w'.status ≠ 0 ∨ AsciiType.char.Text input := by
  apply Yields.bind (P := fun _ w' => w'.status ≠ 0 ∨ AsciiType.char.Text input) _
    fun _ w' h => .pure h
  apply Yields.get_bind
  simp only [hw.decoding.direction]
  apply (hw.space (by decide)).bind
  rintro _ w₁ (⟨hw₁, -⟩ | ⟨hw₁, -, -⟩)
  · -- the bytes are read all the same
    apply (hw₁.take (n := 7)).bind
    intro q w₂ hw₂
    split_ifs
    · apply (yields_setStatus (by decide)).bind
      intro _ w' hbad
      exact .pure (.inl hbad)
    · apply (hw₂.take (n := 6)).bind
      intro c w₃ hw₃
      apply (hw₃.takeEscaped (n := 5)).bind
      intro e w₄ hw₄
      exact (hw₄.readQuote (n := 4)).conseq fun _ _ h => .inl h
  · apply hw₁.take.bind
    rintro q w₂ ⟨-, rest, rfl, hw₂⟩
    split_ifs with hq
    · apply (yields_setStatus (by decide)).bind
      intro _ w' hbad
      exact .pure (.inl hbad)
    rw [not_not] at hq
    subst hq
    have hafter : ∀ rest, afterSpace (39 :: rest) = 39 :: rest := fun _ =>
      afterSpace_cons (by decide)
    apply hw₂.take.bind
    rintro c w₃ ⟨-, rest, rfl, hw₃⟩
    apply (hw₃.takeEscaped (k := 1) (by decide)).bind
    rintro e w₄ (⟨hw₄, -⟩ | hw₄)
    · exact (hw₄.readQuote (n := 6)).conseq fun _ _ h => .inl h
    · split_ifs at hw₄ with hc
      · obtain ⟨rest, rfl, hw₄⟩ := hw₄
        subst hc
        apply hw₄.readQuote.conseq
        rintro _ w₅ (hbad | ⟨rest, rfl⟩)
        · exact .inl hbad
        · exact .inr ⟨e, rest, .inr (hafter _)⟩
      · subst hw₄
        apply hw₃.readQuote.conseq
        rintro _ w₅ (hbad | ⟨rest, rfl⟩)
        · exact .inl hbad
        · exact .inr ⟨c, rest, .inl ⟨hafter _, hc⟩⟩

/-! ## Strings -/

theorem yields_mallocBlock (w : Wire) :
    Yields w mallocBlock fun r w' => ∃ heap, w' = { w with heap } ∧
      (∀ a ∈ w.heap.live, a ∈ heap.live) ∧ ∀ a ∈ r, a ∈ heap.live ∧ a ∉ w.heap.live := by
  by_cases hgrant : w.heap.grant w.heap.asked
  · obtain ⟨heap, hmalloc, hlive, -⟩ := malloc_granted hgrant
    refine ⟨some w.heap.next, { w with heap }, ?_, heap, rfl, ?_, ?_⟩
    · simp only [mallocBlock, StateT.run_bind, StateT.run_get, pure_bind, hmalloc]
      rfl
    · intro a ha
      rw [hlive]
      exact List.mem_cons_of_mem _ ha
    · rintro _ ⟨⟩
      rw [hlive]
      exact ⟨List.mem_cons_self, fun hmem => Nat.lt_irrefl _ (w.heap.fresh _ hmem)⟩
  · obtain ⟨heap, hmalloc, hlive⟩ := malloc_refused hgrant
    refine ⟨none, { w with heap }, ?_, heap, rfl, ?_, ?_⟩
    · simp only [mallocBlock, StateT.run_bind, StateT.run_get, pure_bind, hmalloc]
      rfl
    · intro a ha
      rw [hlive]
      exact ha
    · rintro _ ⟨⟩

theorem yields_reallocBlock {old : Nat} (hold : old ∈ w.heap.live) :
    Yields w (reallocBlock old) fun r w' => ∃ heap, w' = { w with heap } ∧
      ∀ a ∈ r, a ∈ heap.live := by
  apply (yields_mallocBlock w).bind
  rintro (- | a) _ ⟨heap, rfl, hkept, hnew⟩
  · exact .pure ⟨heap, rfl, nofun⟩
  · obtain ⟨ha, hfresh⟩ := hnew a rfl
    have hne : a ≠ old := fun h => hfresh (h ▸ hold)
    have hfree : (freeBlock old).run { w with heap } =
        .ok ((), { w with heap := heap.free old }) := by
      simp only [freeBlock, StateT.run_bind, StateT.run_get, pure_bind, if_pos (hkept old hold)]
      rfl
    refine ⟨some a, { w with heap := heap.free old }, ?_, heap.free old, rfl, ?_⟩
    · dsimp only
      rw [run_bind_eq, hfree]
      rfl
    · rintro _ ⟨⟩
      exact (List.mem_erase_of_ne hne).mpr ha

/-- A string that is being read is in a block, once there is a character in it. -/
def StringBuffer.Held (b : StringBuffer) (heap : Heap) : Prop :=
  (b.str = none → b.allocedLen = 0) ∧ ∀ a ∈ b.str, a ∈ heap.live

theorem yields_reserve {b : StringBuffer} (hb : b.Held w.heap) :
    Yields w b.reserve fun r w' => ∃ heap, w' = { w with heap } ∧
      ∀ b' ∈ r, b'.str ≠ none ∧ ∀ a ∈ b'.str, a ∈ heap.live := by
  obtain ⟨hnone, hlive⟩ := hb
  unfold StringBuffer.reserve
  split_ifs with hfull
  · cases hstr : b.str with
    | none =>
        apply (yields_mallocBlock w).bind
        rintro (- | a) _ ⟨heap, rfl, -, hnew⟩
        · exact .pure ⟨heap, rfl, nofun⟩
        · refine .pure ⟨heap, rfl, ?_⟩
          rintro _ ⟨⟩
          exact ⟨nofun, fun _ h => by cases h; exact (hnew a rfl).1⟩
    | some old =>
        apply (yields_reallocBlock (hlive old hstr)).bind
        rintro (- | a) _ ⟨heap, rfl, hnew⟩
        · exact .pure ⟨heap, rfl, nofun⟩
        · refine .pure ⟨heap, rfl, ?_⟩
          rintro _ ⟨⟩
          exact ⟨nofun, hnew⟩
  · refine .pure ⟨w.heap, rfl, ?_⟩
    rintro _ ⟨⟩
    refine ⟨fun h => ?_, hlive⟩
    rw [hnone h] at hfull
    exact hfull (Nat.zero_le _)

theorem yields_store {b : StringBuffer} (hb : b.Held w.heap) (ch : UInt8) :
    Yields w (b.store ch) fun r w' => r = none ∧ w'.status ≠ 0 ∨
      ∃ b' heap, r = some b' ∧ w' = { w with heap } ∧ b'.str ≠ none ∧
        ∀ a ∈ b'.str, a ∈ heap.live := by
  apply (yields_reserve hb).bind
  rintro (- | b') _ ⟨heap, rfl, hheld⟩
  · apply (yields_setStatus (by decide)).bind
    intro _ w' hbad
    exact .pure (.inl ⟨rfl, hbad⟩)
  · obtain ⟨hsome, hlive⟩ := hheld b' rfl
    exact .pure (.inr ⟨_, heap, rfl, rfl, hsome, hlive⟩)

theorem Listening.withHeap {owned' : Option Nat} {heap : Heap}
    (hw : Listening works n owned input w) (howned : ∀ a ∈ owned', a ∈ heap.live) :
    Listening works n owned' input { w with heap } :=
  ⟨⟨hw.decoding.direction, hw.decoding.sound⟩, hw.fine, hw.roomy, hw.ready, howned, hw.reads,
    hw.input⟩

theorem Stalled.takeString {fuel : Nat} {b : StringBuffer} (hw : Stalled n owned w) :
    Yields w (Sanei.takeString fuel b) fun r w' => r = none ∧ w'.status ≠ 0 := by
  cases fuel with
  | zero => exact .pure ⟨rfl, hw.bad⟩
  | succ fuel =>
      apply (hw.space 1).bind
      intro _ w' hw'
      apply Yields.get_bind
      rw [if_pos hw'.bad]
      exact .pure ⟨rfl, hw'.bad⟩

theorem Listening.takeString {fuel : Nat} {b : StringBuffer} (hw : Listening works n b.str input w)
    (hb : b.str = none → b.allocedLen = 0) (hfuel : input.length < fuel) :
    Yields w (Sanei.takeString fuel b) fun r w' => r = none ∧ w'.status ≠ 0 ∨
      ∃ b' body rest, r = some b' ∧ b'.str ≠ none ∧ (∀ a ∈ b'.str, a ∈ w'.heap.live) ∧
        input = body ++ 34 :: rest ∧ Quoted body := by
  induction fuel generalizing n input b w with
  | zero => omega
  | succ fuel ih =>
      apply (hw.space (by decide)).bind
      rintro _ w₁ (⟨hw₁, -⟩ | ⟨hw₁, -, -⟩)
      · apply Yields.get_bind
        rw [if_pos hw₁.bad]
        exact .pure (.inl ⟨rfl, hw₁.bad⟩)
      apply Yields.get_bind
      rw [if_neg (not_not.mpr hw₁.fine)]
      apply hw₁.take.bind
      rintro ch w₂ ⟨-, rest, rfl, hw₂⟩
      apply (hw₂.takeEscaped (k := 0) (by decide)).bind
      rintro e w₃ (⟨hw₃, rfl⟩ | hw₃)
      · -- what is read behind the backslash is stored, but then the status is tested
        apply (yields_store ⟨hb, hw₃.owned⟩ e).bind
        rintro _ w₄ (⟨rfl, hbad⟩ | ⟨b', heap, rfl, rfl, -, -⟩)
        · exact .pure (.inl ⟨rfl, hbad⟩)
        · have hstalled : Stalled 7 none { w₃ with heap } := ⟨hw₃.bad, hw₃.room, nofun⟩
          exact hstalled.takeString.conseq fun _ _ h => .inl h
      · by_cases hescape : ch = 92
        · rw [if_pos hescape] at hw₃
          obtain ⟨rest, rfl, hw₃⟩ := hw₃
          subst hescape
          apply (yields_store ⟨hb, hw₃.owned⟩ e).bind
          rintro _ w₄ (⟨rfl, hbad⟩ | ⟨b', heap, rfl, rfl, hsome, hlive⟩)
          · exact .pure (.inl ⟨rfl, hbad⟩)
          · apply (ih (hw₃.withHeap hlive) (fun h => absurd h hsome) (by
              simp only [List.length_cons] at hfuel
              omega)).conseq
            rintro _ w₅ (hnone | ⟨b'', body, rest, hr, hsome', hlive', rfl, hbody⟩)
            · exact .inl hnone
            · exact .inr ⟨b'', 92 :: e :: body, rest, hr, hsome', hlive', rfl, hbody.escaped⟩
        · rw [if_neg hescape] at hw₃
          subst hw₃
          apply (yields_store ⟨hb, hw₂.owned⟩ e).bind
          rintro _ w₄ (⟨rfl, hbad⟩ | ⟨b', heap, rfl, rfl, hsome, hlive⟩)
          · exact .pure (.inl ⟨rfl, hbad⟩)
          · dsimp only
            split_ifs with hquote
            · subst hquote
              exact .pure (.inr ⟨b', [], rest, rfl, hsome, hlive, rfl, .nil⟩)
            · apply (ih (hw₂.withHeap hlive) (fun h => absurd h hsome)
                (Nat.lt_of_succ_lt_succ hfuel)).conseq
              rintro _ w₅ (hnone | ⟨b'', body, rest, hr, hsome', hlive', rfl, hbody⟩)
              · exact .inl hnone
              · exact .inr ⟨b'', ch :: body, rest, hr, hsome', hlive', rfl,
                  .plain hquote hescape hbody⟩

theorem Stalled.takeExpected {expected : List UInt8} (hw : Stalled expected.length owned w) :
    Yields w (Sanei.takeExpected expected) fun _ => Stalled 0 owned := by
  induction expected generalizing w with
  | nil => exact .pure hw
  | cons c expected ih =>
      apply hw.take.bind
      intro c' w' hw'
      split_ifs
      · exact .pure (hw'.mono (Nat.zero_le _))
      · exact ih hw'

theorem Listening.takeExpected {expected : List UInt8}
    (hw : Listening works expected.length owned input w) :
    Yields w (Sanei.takeExpected expected) fun r _ => r → ∃ rest, input = expected ++ rest := by
  induction expected generalizing input w with
  | nil => exact .pure fun _ => ⟨input, rfl⟩
  | cons c expected ih =>
      apply hw.take.bind
      rintro c' w' ⟨-, rest, rfl, hw'⟩
      split_ifs with hdiffers
      · exact .pure nofun
      · apply (ih hw').conseq
        intro r _ hr hr'
        obtain ⟨rest', rfl⟩ := hr hr'
        rw [not_not] at hdiffers
        exact ⟨rest', by rw [hdiffers]; rfl⟩

/-- What the decoder of a string does behind the parenthesis, once the bytes are there. -/
def readNil (s : SaneString) : WireM SaneString := do
  if ← takeExpected [110, 105, 108, 41] then pure none
  else do
    setStatus einval
    pure s

/-- What it does behind the quote. -/
def readQuoted (s : SaneString) : WireM SaneString := do
  match ← takeString (byteTurns (← get)) ⟨none, [], 0⟩ with
  | none => pure s
  | some ⟨none, _, _⟩ => throw .nullPointer
  | some ⟨some str, chars, _⟩ => do
      match ← reallocBlock str with
      | none => do
          setStatus enomem
          pure none
      | some addr => pure (some ⟨addr, chars.set (chars.length - 1) 0⟩)

/-- What it does once the first byte is there. -/
def readString (s : SaneString) : WireM SaneString := do
  let ch ← takeByte
  if ch = 34 then readQuoted s
  else if ch = 40 then do
    modify (saneiWSpace 4)
    readNil s
  else do
    setStatus einval
    pure s

theorem asciiWString_decode {s : SaneString} (hdir : w.direction = .decode) :
    (asciiWString.run s).run w = (do skipWs; modify (saneiWSpace 1); readString s).run w := by
  simp only [asciiWString, StateT.run_bind, StateT.run_get, pure_bind, hdir]
  rfl

theorem Stalled.readNil {s : SaneString} (hw : Stalled 4 owned w) :
    Yields w (Sanei.readNil s) fun _ w' => w'.status ≠ 0 := by
  have hfour : Stalled [110, 105, 108, 41].length owned w := hw
  apply hfour.takeExpected.bind
  intro r w' hw'
  split_ifs
  · exact .pure hw'.bad
  · apply (yields_setStatus (by decide)).bind
    intro _ w' hbad
    exact .pure hbad

theorem Stalled.readString {s : SaneString} (hw : Stalled 8 owned w) :
    Yields w (Sanei.readString s) fun _ w' => w'.status ≠ 0 := by
  apply (hw.take (n := 7)).bind
  intro ch w₁ hw₁
  split_ifs
  · apply Yields.get_bind
    apply hw₁.takeString.bind
    rintro _ w₂ ⟨rfl, hbad⟩
    exact .pure hbad
  · apply (hw₁.space 4).bind
    intro _ w₂ hw₂
    exact (hw₂.mono (by decide)).readNil
  · apply (yields_setStatus (by decide)).bind
    intro _ w' hbad
    exact .pure hbad

theorem Listening.readNil {s : SaneString} (hw : Listening works 4 owned input w) :
    Yields w (Sanei.readNil s) fun _ w' => w'.status ≠ 0 ∨
      ∃ rest, input = [110, 105, 108, 41] ++ rest := by
  have hfour : Listening works [110, 105, 108, 41].length owned input w := hw
  apply hfour.takeExpected.bind
  intro r w' hr
  split_ifs with htaken
  · exact .pure (.inr (hr htaken))
  · apply (yields_setStatus (by decide)).bind
    intro _ w' hbad
    exact .pure (.inl hbad)

theorem Listening.readQuoted {s : SaneString} (hw : Listening works n none input w) :
    Yields w (Sanei.readQuoted s) fun _ w' => w'.status ≠ 0 ∨
      ∃ body rest, input = body ++ 34 :: rest ∧ Quoted body := by
  apply Yields.get_bind
  have hbuffer : Listening works n (StringBuffer.mk none [] 0).str input w := hw
  apply (hbuffer.takeString (fun _ => rfl) (by rw [hw.byteTurns_eq]; omega)).bind
  rintro _ w₁ (⟨rfl, hbad⟩ | ⟨b, body, rest, rfl, hsome, hlive, rfl, hbody⟩)
  · exact .pure (.inl hbad)
  · obtain ⟨addr, haddr⟩ := Option.ne_none_iff_exists'.mp hsome
    obtain ⟨str, chars, alloced⟩ := b
    dsimp only at haddr hlive
    subst haddr
    apply (yields_reallocBlock (hlive addr rfl)).bind
    rintro (- | a) w₂ -
    · apply (yields_setStatus (by decide)).bind
      intro _ w' hbad
      exact .pure (.inl hbad)
    · exact .pure (.inr ⟨body, rest, rfl, hbody⟩)

theorem decode_string (hw : Listening works 0 none input w) :
    Yields w AsciiType.string.decode fun _ w' =>
      w'.status ≠ 0 ∨ AsciiType.string.Text input := by
  apply Yields.bind (P := fun _ w' => w'.status ≠ 0 ∨ AsciiType.string.Text input) _
    fun _ w' h => .pure h
  apply Yields.of_run_eq _ (asciiWString_decode hw.decoding.direction)
  apply hw.skipWs.bind
  rintro _ w₁ (⟨hw₁, -⟩ | ⟨hw₁, -⟩)
  · apply (hw₁.space 1).bind
    intro _ w₂ hw₂
    exact hw₂.readString.conseq fun _ _ h => .inl h
  · apply (hw₁.space (by decide)).bind
    rintro _ w₂ (⟨hw₂, -⟩ | ⟨hw₂, -, -⟩)
    · exact hw₂.readString.conseq fun _ _ h => .inl h
    · apply hw₂.take.bind
      rintro ch w₃ ⟨-, rest, hrest, hw₃⟩
      split_ifs with hquote hparen
      · subst hquote
        apply hw₃.readQuoted.conseq
        rintro _ w₄ (hbad | ⟨body, rest', rfl, hbody⟩)
        · exact .inl hbad
        · exact .inr ⟨rest', .inr ⟨body, hrest, hbody⟩⟩
      · subst hparen
        apply (hw₃.space (by decide)).bind
        rintro _ w₄ (⟨hw₄, -⟩ | ⟨hw₄, -, -⟩)
        · exact (hw₄.mono (by decide)).readNil.conseq fun _ _ h => .inl h
        · apply hw₄.readNil.conseq
          rintro _ w₅ (hbad | ⟨rest', rfl⟩)
          · exact .inl hbad
          · exact .inr ⟨rest', .inl hrest⟩
      · apply (yields_setStatus (by decide)).bind
        intro _ w' hbad
        exact .pure (.inl hbad)

/-! ## Words -/

/-- The sign of a word. -/
def readSign : WireM Bool := do
  if (← peekByte) = 45 then do
    let _ ← takeByte
    pure true
  else pure false

/-- The part of `takeWord` in front of the digits. -/
def readLead : WireM Bool := do
  skipWs
  modify (saneiWSpace 1)
  readSign

/-- The part behind the sign. -/
def readNumber (isNegative : Bool) : WireM (Option SaneWord) := do
  match ← takeDigits (byteTurns (← get)) 0 with
  | none => pure none
  | some val => pure (some (if isNegative then -BitVec.ofNat 32 val else BitVec.ofNat 32 val))

theorem takeWord_eq : takeWord = readLead >>= readNumber := by
  unfold takeWord readLead readSign
  simp only [bind_assoc]
  apply bind_congr
  intro _
  apply bind_congr
  intro _
  apply bind_congr
  intro c
  split_ifs
  · simp only [bind_assoc]
    rfl
  · rfl

theorem Stalled.readSign (hw : Stalled (n + 1) owned w) :
    Yields w Sanei.readSign fun _ => Stalled n owned := by
  apply hw.peek.bind
  intro c w' hw'
  split_ifs
  · apply hw'.take.bind
    intro _ w'' hw''
    exact .pure hw''
  · exact .pure (hw'.mono (Nat.le_succ n))

theorem Listening.readLead (hw : Listening works n owned input w) :
    Yields w Sanei.readLead fun _ w' =>
      Stalled 7 owned w' ∧ (works → afterSign input = []) ∨
      Listening works 0 owned (afterSign input) w' := by
  have hnone : afterSpace input = [] → afterSign input = [] := by
    intro hnil
    simp [afterSign, hnil]
  apply hw.skipWs.bind
  rintro _ w₁ (⟨hw₁, hnil⟩ | ⟨hw₁, -⟩)
  · apply (hw₁.space 1).bind
    intro _ w₂ hw₂
    apply (hw₂.readSign (n := 7)).conseq
    intro _ w₃ hw₃
    exact .inl ⟨hw₃, fun hworks => hnone (hnil hworks)⟩
  · apply (hw₁.space (by decide)).bind
    rintro _ w₂ (⟨hw₂, hshort⟩ | ⟨hw₂, -, -⟩)
    · apply (hw₂.readSign (n := 7)).conseq
      intro _ w₃ hw₃
      refine .inl ⟨hw₃, fun hworks => hnone ?_⟩
      exact List.length_eq_zero_iff.mp (Nat.lt_one_iff.mp (hshort hworks))
    · apply hw₂.peek.bind
      rintro c w₃ ⟨rfl, rest, hinput⟩
      split_ifs with hminus
      · apply hw₂.take.bind
        rintro c' w₄ ⟨-, rest', hrest, hw₄⟩
        refine .pure (.inr ?_)
        have hsign : afterSign input = rest' := by
          rw [hinput] at hrest
          cases hrest
          simp [afterSign, hinput, hminus]
        rw [hsign]
        exact hw₄
      · refine .pure (.inr ?_)
        have hsign : afterSign input = afterSpace input := by
          simp [afterSign, hinput, hminus]
        rw [hsign]
        exact ⟨hw₂.decoding, hw₂.fine, hw₂.roomy, hw₂.decoding.sound.curr_le, hw₂.owned, hw₂.reads,
          hw₂.input⟩

theorem Stalled.takeDigits {fuel val : Nat} (hw : Stalled n owned w) :
    Yields w (Sanei.takeDigits fuel val) fun _ w' => w'.status ≠ 0 := by
  cases fuel with
  | zero => exact .pure hw.bad
  | succ fuel =>
      apply (hw.space 1).bind
      intro _ w' hw'
      apply Yields.get_bind
      rw [if_pos hw'.bad]
      exact .pure hw'.bad

theorem decimalFold_cons (val : Nat) (c : UInt8) (digits : List UInt8) :
    decimalFold val (c :: digits) = decimalFold (10 * val + (c.toNat - 48)) digits := by
  rw [Nat.mul_comm]
  rfl

/-- Digits that stand for a number a word can hold are taken up to the first character that is
none. -/
theorem Listening.takeDigits {fuel val : Nat} (hw : Listening works n owned input w)
    (hval : decimalFold val (input.takeWhile isDigit) ≤ intMax) (hfuel : input.length < fuel) :
    Yields w (Sanei.takeDigits fuel val) fun _ w' =>
      w'.status ≠ 0 ∧ (works → input.dropWhile isDigit = []) ∨
      w'.status = 0 ∧ input.dropWhile isDigit ≠ [] := by
  induction fuel generalizing n input val w with
  | zero => omega
  | succ fuel ih =>
      apply (hw.space (by decide)).bind
      rintro _ w₁ (⟨hw₁, hshort⟩ | ⟨hw₁, -, -⟩)
      · apply Yields.get_bind
        rw [if_pos hw₁.bad]
        refine .pure (.inl ⟨hw₁.bad, fun hworks => ?_⟩)
        rw [List.length_eq_zero_iff.mp (Nat.lt_one_iff.mp (hshort hworks))]
        rfl
      · apply Yields.get_bind
        rw [if_neg (not_not.mpr hw₁.fine)]
        apply hw₁.peek.bind
        rintro c _ ⟨rfl, rest, rfl⟩
        by_cases hdigit : isDigit c
        · rw [List.takeWhile_cons_of_pos hdigit, decimalFold_cons] at hval
          rw [if_pos hdigit, List.dropWhile_cons_of_pos hdigit]
          apply hw₁.take.bind
          rintro c' w₂ ⟨-, rest', hrest, hw₂⟩
          cases hrest
          have hfits := (le_decimalFold _ (rest.takeWhile isDigit)).trans hval
          dsimp only
          rw [if_neg (Nat.not_lt.mpr hfits)]
          exact ih hw₂ hval (Nat.lt_of_succ_lt_succ hfuel)
        · rw [if_neg hdigit, List.dropWhile_cons_of_neg hdigit]
          exact .pure (.inr ⟨hw₁.fine, by simp⟩)

theorem Listening.takeDigits_overflow {fuel val : Nat} (hw : Listening True n owned input w)
    (hfits : val ≤ intMax) (hval : intMax < decimalFold val (input.takeWhile isDigit))
    (hfuel : input.length < fuel) :
    (Sanei.takeDigits fuel val).run w = .error .signedOverflow := by
  induction fuel generalizing n input val w with
  | zero => omega
  | succ fuel ih =>
      cases input with
      | nil => exact absurd hval (Nat.not_lt.mpr hfits)
      | cons c rest =>
          by_cases hdigit : isDigit c
          · rw [List.takeWhile_cons_of_pos hdigit, decimalFold_cons] at hval
            have hw₁ := hw.space_works (by decide : 1 ≤ 4) (by simp)
            have hspace : (modify (saneiWSpace 1) : WireM Unit).run w =
                .ok ((), saneiWSpace 1 w) := rfl
            have hget : (get : WireM Wire).run (saneiWSpace 1 w) =
                .ok (saneiWSpace 1 w, saneiWSpace 1 w) := rfl
            have hbyte := (List.cons.inj hw₁.input_eq).1
            rw [Sanei.takeDigits, run_bind_eq, hspace, ok_bind, run_bind_eq, hget, ok_bind]
            dsimp only
            rw [if_neg (not_not.mpr hw₁.fine), run_bind_eq, peekByte_run hw₁.room, ok_bind]
            dsimp only
            rw [← hbyte, if_pos hdigit, run_bind_eq, takeByte_run hw₁.room, ok_bind]
            dsimp only
            rw [← hbyte]
            split_ifs with hover
            · rfl
            · exact ih hw₁.advance (Nat.le_of_not_lt hover) hval (Nat.lt_of_succ_lt_succ hfuel)
          · rw [List.takeWhile_cons_of_neg hdigit] at hval
            exact absurd hval (Nat.not_lt.mpr hfits)

theorem Stalled.readNumber {isNegative : Bool} (hw : Stalled n owned w) :
    Yields w (Sanei.readNumber isNegative) fun _ w' => w'.status ≠ 0 := by
  apply Yields.get_bind
  apply hw.takeDigits.bind
  rintro (- | val) w' hbad
  · exact .pure hbad
  · exact .pure hbad

theorem Listening.readNumber {isNegative : Bool} (hw : Listening works n owned input w)
    (hval : decimalFold 0 (input.takeWhile isDigit) ≤ intMax) :
    Yields w (Sanei.readNumber isNegative) fun _ w' =>
      w'.status ≠ 0 ∧ (works → input.dropWhile isDigit = []) ∨
      w'.status = 0 ∧ input.dropWhile isDigit ≠ [] := by
  apply Yields.get_bind
  apply (hw.takeDigits hval (by rw [hw.byteTurns_eq]; omega)).bind
  rintro (- | val) w' hends
  · exact .pure hends
  · exact .pure hends

theorem decode_word (hw : Listening works 0 none input w)
    (hval : decimalFold 0 ((afterSign input).takeWhile isDigit) ≤ intMax) :
    Yields w AsciiType.word.decode fun _ w' =>
      w'.status ≠ 0 ∧ (works → (afterSign input).dropWhile isDigit = []) ∨
      w'.status = 0 ∧ (afterSign input).dropWhile isDigit ≠ [] := by
  apply Yields.bind (P := fun _ w' =>
    w'.status ≠ 0 ∧ (works → (afterSign input).dropWhile isDigit = []) ∨
      w'.status = 0 ∧ (afterSign input).dropWhile isDigit ≠ []) _ fun _ w' h => .pure h
  apply Yields.get_bind
  simp only [hw.decoding.direction]
  rw [takeWord_eq, bind_assoc]
  apply hw.readLead.bind
  rintro isNegative w₁ (⟨hw₁, hnil⟩ | hw₁)
  · apply hw₁.readNumber.bind
    intro r w₂ hbad
    have hends : works → (afterSign input).dropWhile isDigit = [] := by
      intro hworks
      rw [hnil hworks]
      rfl
    cases r with
    | none => exact .pure (.inl ⟨hbad, hends⟩)
    | some val => exact .pure (.inl ⟨hbad, hends⟩)
  · apply (hw₁.readNumber hval).bind
    intro r w₂ hends
    cases r with
    | none => exact .pure hends
    | some val => exact .pure hends

theorem decode_word_overflow (hw : Listening True 0 none input w)
    (hval : intMax < decimalFold 0 ((afterSign input).takeWhile isDigit)) :
    AsciiType.word.decode.run w = .error .signedOverflow := by
  have hsome : afterSign input ≠ [] := by
    intro hnil
    rw [hnil] at hval
    exact absurd hval (by decide)
  obtain ⟨isNegative, w₁, hrun, hends⟩ := hw.readLead
  obtain ⟨-, hnil⟩ | hw₁ := hends
  · exact absurd (hnil trivial) hsome
  · have hdigits := hw₁.takeDigits_overflow (Nat.zero_le _) hval (Nat.lt_succ_self _)
    have hnumber : (Sanei.readNumber isNegative).run w₁ = .error .signedOverflow := by
      have hget : (get : WireM Wire).run w₁ = .ok (w₁, w₁) := rfl
      rw [readNumber, run_bind_eq, hget, ok_bind]
      dsimp only
      rw [run_bind_eq, hw₁.byteTurns_eq, hdigits]
      rfl
    have htake : takeWord.run w = .error .signedOverflow := by
      rw [takeWord_eq, run_bind_eq, hrun]
      exact hnumber
    have hword : (asciiWWord.run 0).run w = .error .signedOverflow := by
      simp only [asciiWWord, StateT.run_bind, StateT.run_get, pure_bind, hw.decoding.direction]
      rw [htake]
      rfl
    have hcodec : asciiCodec.wWord.run 0 = asciiWWord.run 0 := rfl
    rw [AsciiType.decode, hcodec, run_bind_eq, hword]
    rfl

theorem rejects_word_iff (hw : Facing w) :
    (¬ AsciiType.word.Text w.input → Rejects .word w) ↔ AsciiType.word.Exact w := by
  constructor
  · intro h
    by_contra hnot
    obtain ⟨hsome, hnumber⟩ := not_or.mp hnot
    have hlistening := hw.listening True (fun _ => .moved 0) fun _ i => ⟨_, rfl⟩
    have hrejects := h hnumber fun _ => .moved 0
    by_cases hval : decimalFold 0 ((afterSign w.input).takeWhile isDigit) ≤ intMax
    · obtain ⟨_, w', -, hbad, hends⟩ := hrejects.and (decode_word hlistening hval)
      obtain ⟨-, hnil⟩ | ⟨hfine, -⟩ := hends
      · have hdigits : (afterSign w.input).takeWhile isDigit = [] := by
          by_contra hdigits
          apply hnumber
          refine ⟨hdigits, ?_⟩
          split_ifs <;> omega
        have hall := List.takeWhile_append_dropWhile (p := isDigit) (l := afterSign w.input)
        rw [hdigits, hnil trivial] at hall
        exact hsome hall.symm
      · exact hbad hfine
    · obtain ⟨_, _, hrun, -⟩ := hrejects
      rw [decode_word_overflow hlistening (Nat.lt_of_not_le hval)] at hrun
      cases hrun
  · rintro (hnil | hnumber) htext reads
    · have hlistening := hw.listening False reads nofun
      have hval : decimalFold 0 ((afterSign w.input).takeWhile isDigit) ≤ intMax := by
        rw [hnil]
        exact Nat.zero_le _
      apply (decode_word hlistening hval).conseq
      rintro _ w' (⟨hbad, -⟩ | ⟨-, hsome⟩)
      · exact hbad
      · rw [hnil] at hsome
        exact absurd rfl hsome
    · exact absurd hnumber htext

/-! ## What is told apart -/

/-- Decoding ends with a bad status for every stream that starts with no text of the type, just
if the wire is one of those whose input is told from texts. -/
theorem rejects_iff (hw : Facing w) (type : AsciiType) :
    (¬ type.Text w.input → Rejects type w) ↔ type.Exact w := by
  cases type with
  | byte => exact rejects_byte_iff hw
  | word => exact rejects_word_iff hw
  | char =>
      refine iff_of_true (fun htext reads => ?_) trivial
      apply (decode_char (hw.listening False reads nofun)).conseq
      rintro _ w' (hbad | htext')
      · exact hbad
      · exact absurd htext' htext
  | string =>
      refine iff_of_true (fun htext reads => ?_) trivial
      apply (decode_string (hw.listening False reads nofun)).conseq
      rintro _ w' (hbad | htext')
      · exact hbad
      · exact absurd htext' htext

theorem facing_freshWire (version : Int) (incoming : List UInt8) :
    Facing (freshWire version incoming) :=
  ⟨(receiving_freshWire version incoming).decoding, rfl, by simp [freshWire]⟩

theorem rejects_iff_brackets :
    (¬ AsciiType.byte.Text (freshWire 3 [91, 91, 10]).input →
      Rejects .byte (freshWire 3 [91, 91, 10])) ↔
      AsciiType.byte.Exact (freshWire 3 [91, 91, 10]) :=
  rejects_iff (facing_freshWire 3 [91, 91, 10]) .byte

/-- Two brackets are taken for a byte. -/
theorem not_rejects_brackets :
    ¬ (¬ AsciiType.byte.Text (freshWire 3 [91, 91, 10]).input →
      Rejects .byte (freshWire 3 [91, 91, 10])) := by
  intro h
  have htext : ¬ AsciiType.byte.Text (freshWire 3 [91, 91, 10]).input := by
    rintro ⟨a, b, rest, heq, ha, -⟩
    have hinput : afterSpace (freshWire 3 [91, 91, 10]).input = [91, 91, 10] := rfl
    rw [hinput] at heq
    cases heq
    exact absurd ha (by decide)
  obtain ⟨_, w', hrun, hbad⟩ := h htext fun _ => .moved 8191
  cases hrun
  exact hbad rfl

end SaneBackends.Sanei
