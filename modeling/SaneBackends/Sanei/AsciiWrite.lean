import SaneBackends.Sanei.AsciiText
import SaneBackends.Sanei.Encoding
/-!
# Encoding with the ASCII codec

As long as writes work, encoding a value appends the text of its tokens, or is undefined if the
tokens cannot be written from the fill of the buffer on.
-/

namespace SaneBackends.Sanei

open SaneBackends.Lib

/-- A wire whose writes work and whose buffer has room for any word. -/
structure Printing (version : Int) (w : Wire) : Prop extends Encoding version w where
  roomy : 16 ≤ w.buffer.size

/-- From `w` to `w'` the `text` was encoded, and `w'` holds `curr` bytes in its buffer. -/
structure Printed (version : Int) (text : List UInt8) (curr : Nat) (w w' : Wire) : Prop where
  printing : Printing version w'
  size : w'.buffer.size = w.buffer.size
  curr : w'.buffer.curr = curr
  output : w'.output = w.output ++ text

variable {version : Int}

theorem Printed.trans {text text' : List UInt8} {curr curr' : Nat} {w w' w'' : Wire}
    (h : Printed version text curr w w') (h' : Printed version text' curr' w' w'') :
    Printed version (text ++ text') curr' w w'' where
  printing := h'.printing
  size := h'.size.trans h.size
  curr := h'.curr
  output := by rw [h'.output, h.output, List.append_assoc]

/-- With `curr` bytes in a buffer of `size`, the computation encodes `text` and leaves `curr'`. -/
def Puts {α : Type} (version : Int) (size curr : Nat) (m : WireM α) (text : List UInt8)
    (curr' : Nat) (post : α → Prop) : Prop :=
  ∀ w, Printing version w → w.buffer.size = size → w.buffer.curr = curr →
    ∃ x w', m.run w = .ok (x, w') ∧ Printed version text curr' w w' ∧ post x

namespace Puts

variable {α β : Type} {m : WireM α} {k : α → WireM β} {text text' : List UInt8}
  {size curr curr' curr'' : Nat} {post : α → Prop} {post' : β → Prop}

theorem pure {a : α} (h : post a) : Puts version size curr (Pure.pure a) [] curr post := by
  intro w hw hsize hcurr
  exact ⟨a, w, rfl, ⟨hw, rfl, hcurr, (List.append_nil _).symm⟩, h⟩

theorem bind (h : Puts version size curr m text curr' post)
    (hk : ∀ a, post a → Puts version size curr' (k a) text' curr'' post') :
    Puts version size curr (m >>= k) (text ++ text') curr'' post' := by
  intro w hw hsize hcurr
  obtain ⟨a, w₁, hrun, hprinted, ha⟩ := h w hw hsize hcurr
  obtain ⟨b, w₂, hrun₂, hprinted₂, hb⟩ :=
    hk a ha w₁ hprinted.printing (hprinted.size.trans hsize) hprinted.curr
  refine ⟨b, w₂, ?_, hprinted.trans hprinted₂, hb⟩
  rw [run_bind_eq, hrun]
  exact hrun₂

/-- A second computation that encodes nothing. -/
theorem bind_nil (h : Puts version size curr m text curr' post)
    (hk : ∀ a, post a → Puts version size curr' (k a) [] curr' post') :
    Puts version size curr (m >>= k) text curr' post' := List.append_nil text ▸ h.bind hk

end Puts

theorem roomFrom_le (size n curr : Nat) (hn : n ≤ size) : roomFrom size n curr + n ≤ size := by
  unfold roomFrom
  split_ifs <;> omega

theorem puts_space {size curr : Nat} (n : Nat) :
    Puts version size curr (modify (saneiWSpace n)) [] (roomFrom size n curr) fun _ => True := by
  rintro w hw rfl rfl
  obtain ⟨hpoured, hsound, hend, -⟩ := saneiWSpace_encode hw.direction hw.sound hw.room n
  have hcurr : (saneiWSpace n w).buffer.curr = roomFrom w.buffer.size n w.buffer.curr := by
    have hst := hpoured.works hw.fine hw.writes
    rw [saneiWSpace_encode_eq hw.direction hw.fine, hw.room] at hst ⊢
    unfold roomFrom
    split_ifs at hst ⊢
    · exact ((poured_drain hw.fine).2.2.2 hst).1
    · rfl
  have hfine := hpoured.works hw.fine hw.writes
  refine ⟨(), saneiWSpace n w, rfl, ⟨⟨⟨⟨?_, ?_, hsound, ?_⟩, hfine, ?_⟩, ?_⟩, hpoured.size, hcurr, ?_⟩,
    trivial⟩
  · rw [hpoured.eq]
    exact hw.version
  · rw [hpoured.eq]
    exact hw.direction
  · rw [hend, hpoured.size]
  · intro i
    rw [hpoured.writes_eq]
    exact hw.writes i
  · rw [hpoured.size]
    exact hw.roomy
  · exact hpoured.done hfine

theorem puts_bytes {size curr : Nat} (bytes : List UInt8) (hroom : curr + bytes.length ≤ size) :
    Puts version size curr (putBytes bytes) bytes (curr + bytes.length) fun _ => True := by
  rintro w hw rfl rfl
  have happend := slice_storeBlock_append w.buffer.mem 0 w.buffer.curr bytes
  rw [Nat.zero_add] at happend
  refine ⟨(), _, putBytes_run hroom, ⟨⟨⟨⟨hw.version, hw.direction, ?_, hw.room⟩, hw.fine, hw.writes⟩,
    hw.roomy⟩, rfl, rfl, ?_⟩, trivial⟩
  · exact ⟨hw.room ▸ hroom, hw.sound.end_le, hw.sound.word_le, hw.sound.size_le⟩
  · simp only [Wire.output]
    rw [happend, List.append_assoc]

/-- Encoding ends with `tokens` encoded and a result that satisfies `post`, unless the tokens
cannot be written. -/
def Prints {α : Type} (version : Int) (m : WireM α) (tokens : List Token) (post : α → Prop) :
    Prop :=
  ∀ w, Printing version w →
    (∀ curr, fillAfter w.buffer.size w.buffer.curr tokens = some curr →
      ∃ x w', m.run w = .ok (x, w') ∧ Printed version (tokensText tokens) curr w w' ∧ post x) ∧
    (fillAfter w.buffer.size w.buffer.curr tokens = none → ∃ f, m.run w = .error f)

namespace Prints

variable {α β : Type} {m : WireM α} {k : α → WireM β} {ts us : List Token}
  {post : α → Prop} {post' : β → Prop}

theorem pure {a : α} (h : post a) : Prints version (Pure.pure a) [] post := by
  intro w hw
  refine ⟨?_, fun hnone => by cases hnone⟩
  rintro curr ⟨⟩
  exact ⟨a, w, rfl, ⟨hw, rfl, rfl, (List.append_nil _).symm⟩, h⟩

theorem bind (h : Prints version m ts post) (hk : ∀ a, post a → Prints version (k a) us post') :
    Prints version (m >>= k) (ts ++ us) post' := by
  intro w hw
  rw [fillAfter_append, run_bind_eq]
  obtain ⟨hdone, hstuck⟩ := h w hw
  cases hts : fillAfter w.buffer.size w.buffer.curr ts with
  | none =>
      obtain ⟨f, hrun⟩ := hstuck hts
      refine ⟨fun _ hnone => (by cases hnone), fun _ => ⟨f, ?_⟩⟩
      rw [hrun]
      rfl
  | some curr =>
      obtain ⟨a, w₁, hrun, hprinted, ha⟩ := hdone curr hts
      obtain ⟨hdone₂, hstuck₂⟩ := hk a ha w₁ hprinted.printing
      rw [hprinted.size, hprinted.curr] at hdone₂ hstuck₂
      rw [Option.bind_some, hrun]
      refine ⟨fun curr' hus => ?_, hstuck₂⟩
      obtain ⟨b, w₂, hrun₂, hprinted₂, hb⟩ := hdone₂ curr' hus
      refine ⟨b, w₂, hrun₂, ?_, hb⟩
      rw [tokensText_append]
      exact hprinted.trans hprinted₂

/-- A second computation that encodes nothing. -/
theorem bind_nil (h : Prints version m ts post) (hk : ∀ a, post a → Prints version (k a) [] post') :
    Prints version (m >>= k) ts post' := List.append_nil ts ▸ h.bind hk

theorem get_bind {k : Wire → WireM α}
    (h : ∀ w, Printing version w → Prints version (k w) ts post) :
    Prints version (get >>= k) ts post := fun w hw => h w hw w hw

/-- The test of the status that ends a transfer early. -/
theorem unless_bad {a : α} {m : WireM α} (h : Prints version m ts post) :
    Prints version (do if (← get).status ≠ 0 then Pure.pure a else m) ts post := by
  apply get_bind
  intro w hw
  rw [if_neg (not_not.mpr hw.fine)]
  exact h

/-- What encoding hands back is of no further use. -/
theorem ignore (h : Prints version m ts post) : Prints version m ts fun _ => True := by
  intro w hw
  obtain ⟨hdone, hstuck⟩ := h w hw
  refine ⟨fun curr hcurr => ?_, hstuck⟩
  obtain ⟨x, w', hrun, hprinted, -⟩ := hdone curr hcurr
  exact ⟨x, w', hrun, hprinted, trivial⟩

theorem map {f : α → β} (h : Prints version m ts post) (hpost : ∀ a, post a → post' (f a)) :
    Prints version (f <$> m) ts post' := by
  rw [map_eq_pure_bind]
  exact h.bind_nil fun a ha => .pure (hpost a ha)

/-- A computation whose only token can always be written. -/
theorem of_puts {t : Token}
    (h : ∀ size curr, 16 ≤ size → ∃ curr', t.fill size curr = some curr' ∧
      Puts version size curr m t.text curr' post) : Prints version m [t] post := by
  intro w hw
  obtain ⟨curr', hfill, hputs⟩ := h w.buffer.size w.buffer.curr hw.roomy
  rw [fillAfter_singleton, hfill, tokensText_singleton]
  refine ⟨?_, fun hnone => by cases hnone⟩
  rintro _ ⟨⟩
  exact hputs w hw rfl rfl

end Prints

/-! The codec. -/

theorem storeDigits_eq {fuel n : Nat} (hn : n < 10 ^ fuel) (buf : List UInt8) :
    storeDigits fuel n buf = if fuel = 0 then buf else decimal n ++ buf := by
  induction fuel generalizing n buf with
  | zero => rfl
  | succ fuel ih =>
      rw [if_neg (Nat.succ_ne_zero fuel)]
      simp only [storeDigits]
      split_ifs with hlast
      · have hlt : n < 10 := by omega
        rw [decimal_of_lt hlt, Nat.mod_eq_of_lt hlt]
        rfl
      · have hfuel : fuel ≠ 0 := by
          rintro rfl
          omega
        have hrest : n / 10 < 10 ^ fuel := by
          rw [pow_succ] at hn
          omega
        rw [ih hrest, if_neg hfuel, decimal_step (by omega : 10 ≤ n), List.append_assoc]
        rfl

theorem natAbs_le {v : SaneWord} (hv : ¬ intMax < -v.toInt) : v.toInt.natAbs ≤ intMax := by
  have hbig : intMax = 2 ^ 31 - 1 := rfl
  have hlt := v.toInt_lt
  omega

theorem prints_word (v : SaneWord) : Prints version (asciiWWord.run v) [.word v] (· = v) := by
  apply Prints.get_bind
  intro w hw
  simp only [hw.direction]
  have hbig : intMax = 2 ^ 31 - 1 := rfl
  by_cases hv : intMax < -v.toInt
  · rw [if_pos hv]
    intro w' _
    rw [fillAfter_singleton]
    refine ⟨?_, fun _ => ⟨.signedOverflow, rfl⟩⟩
    intro curr hcurr
    simp only [Token.fill, if_pos hv] at hcurr
    cases hcurr
  rw [if_neg hv]
  have habs := natAbs_le hv
  have hdigits : storeDigits sizeofBuf v.toInt.natAbs [] = decimal v.toInt.natAbs := by
    rw [storeDigits_eq (by unfold sizeofBuf; omega), if_neg (by decide), List.append_nil]
  have htext : (if v.toInt < 0 then 45 :: decimal v.toInt.natAbs else decimal v.toInt.natAbs) =
      signText v ++ decimal v.toInt.natAbs := by
    unfold signText
    split_ifs <;> rfl
  have hline : (Token.word v).text = (signText v ++ decimal v.toInt.natAbs) ++ [10] := rfl
  have hsign : (signText v).length ≤ 1 := by
    unfold signText
    split_ifs <;> simp
  have hlength := length_decimal_le (n := v.toInt.natAbs) (by decide : 0 < 10) (by omega)
  simp only [hdigits, htext]
  apply Prints.of_puts
  intro size curr hsize
  refine ⟨_, by rw [Token.fill, if_neg hv], ?_⟩
  have htotal : (Token.word v).text.length =
      (signText v ++ decimal v.toInt.natAbs).length + 1 := by
    rw [hline, List.length_append]
    rfl
  have hroom := roomFrom_le size (Token.word v).text.length curr (by
    rw [htotal, List.length_append]
    omega)
  rw [htotal] at hroom ⊢
  rw [hline]
  apply (puts_space _).bind
  intro _ _
  apply (puts_bytes _ (by omega)).bind
  intro _ _
  apply (puts_bytes _ hroom).bind_nil
  intro _ _
  exact .pure rfl

theorem length_escape (quote c : UInt8) :
    1 ≤ (escape quote c).length ∧ (escape quote c).length ≤ 2 := by
  unfold escape
  split_ifs <;> simp

theorem prints_char (c : UInt8) : Prints version (asciiWChar.run c) [.char c] (· = c) := by
  apply Prints.get_bind
  intro w hw
  simp only [hw.direction]
  apply Prints.of_puts
  intro size curr hsize
  refine ⟨_, rfl, ?_⟩
  have hroom := roomFrom_le size 5 curr (by omega)
  obtain ⟨-, hescape⟩ := length_escape 39 c
  have hlength : (Token.char c).text.length = 1 + (escape 39 c).length + 2 := by
    simp only [Token.text, List.length_append, List.length_cons, List.length_nil]
  have htext : (Token.char c).text = [39] ++ (escape 39 c ++ [39, 10]) := List.append_assoc ..
  rw [hlength, htext, ← Nat.add_assoc, ← Nat.add_assoc]
  apply (puts_space 5).bind
  intro _ _
  apply (puts_bytes _ (by simp; omega)).bind
  intro _ _
  apply (puts_bytes _ (by simp; omega)).bind
  intro _ _
  apply (puts_bytes [39, 10] (by simp; omega)).bind_nil
  intro _ _
  exact .pure rfl

/-- The characters of a string, from fill `curr` on. -/
theorem puts_chars {chars after : List UInt8} (hchars : 0 ∉ chars) {size curr : Nat}
    (hsize : 16 ≤ size) :
    Puts version size curr (putChars (chars ++ 0 :: after)) (chars.flatMap (escape 34))
      (charsFill size curr chars) fun _ => True := by
  induction chars generalizing curr with
  | nil => exact .pure trivial
  | cons ch chars ih =>
      have hch : ch ≠ 0 := fun h => hchars (h ▸ List.mem_cons_self)
      obtain ⟨-, hescape⟩ := length_escape 34 ch
      have hroom := roomFrom_le size 2 curr (by omega)
      rw [List.cons_append, putChars, if_neg hch, List.flatMap_cons]
      apply (puts_space 2).bind
      intro _ _
      apply (puts_bytes _ (by omega)).bind
      intro _ _
      exact ih fun h => hchars (List.mem_cons_of_mem _ h)

/-- A store that does not fit the buffer is a fault, whatever was encoded before. -/
theorem Puts.full {α β : Type} {size curr curr' : Nat} {m : WireM α} {k : Unit → WireM β}
    {text : List UInt8} {post : α → Prop} (h : Puts version size curr m text curr' post)
    (bytes : List UInt8) (hfull : size < curr' + bytes.length) {w : Wire} (hw : Printing version w)
    (hsize : w.buffer.size = size) (hcurr : w.buffer.curr = curr) :
    (m >>= fun _ => putBytes bytes >>= k).run w = .error .outOfBounds := by
  obtain ⟨x, w', hrun, hprinted, -⟩ := h w hw hsize hcurr
  have hbytes : (putBytes bytes).run w' = .error .outOfBounds := by
    simp only [putBytes, StateT.run_bind, StateT.run_get, pure_bind]
    rw [hprinted.size, hprinted.curr, hsize, if_pos hfull]
    rfl
  rw [run_bind_eq, hrun]
  change (putBytes bytes >>= k).run w' = _
  rw [run_bind_eq, hbytes]
  rfl

theorem split_at_nul {val : List UInt8} (h : 0 ∈ val) :
    ∃ chars after, val = chars ++ 0 :: after ∧ 0 ∉ chars ∧ val.take (val.idxOf 0) = chars := by
  obtain ⟨chars, after, rfl, hchars⟩ := List.eq_append_cons_of_mem h
  refine ⟨chars, after, rfl, hchars, ?_⟩
  rw [List.idxOf_append_of_notMem hchars]
  simp

/-- The line of a string but for the quote that closes it. -/
theorem puts_opened {chars after : List UInt8} (hchars : 0 ∉ chars) {size curr : Nat}
    (hsize : 16 ≤ size) :
    Puts version size curr (do
        modify (saneiWSpace 1)
        putBytes [34]
        putChars (chars ++ 0 :: after))
      ([34] ++ chars.flatMap (escape 34)) (charsFill size (roomFrom size 1 curr + 1) chars)
      fun _ => True := by
  have hroom := roomFrom_le size 1 curr (by omega)
  apply (puts_space 1).bind
  intro _ _
  apply (puts_bytes [34] hroom).bind
  intro _ _
  exact puts_chars hchars hsize

theorem prints_string {s : SaneString} (hheld : (stringScript s).held) :
    Prints version (asciiWString.run s) (stringScript s).tokens (· = s) := by
  apply Prints.get_bind
  intro w hw
  simp only [hw.direction]
  cases s with
  | none =>
      apply Prints.of_puts
      intro size curr hsize
      refine ⟨_, rfl, ?_⟩
      have hroom := roomFrom_le size 5 curr (by omega)
      have hroom' := roomFrom_le size 1 (roomFrom size 5 curr + 5) (by omega)
      apply (puts_space 5).bind
      intro _ _
      apply (puts_bytes nilText hroom).bind
      intro _ _
      apply (puts_space 1).bind
      intro _ _
      apply (puts_bytes [10] hroom').bind_nil
      intro _ _
      exact .pure rfl
  | some block =>
      obtain ⟨chars, after, hval, hchars, htake⟩ := split_at_nul hheld
      dsimp only [stringScript]
      rw [htake, hval]
      have hassoc : (do
          modify (saneiWSpace 1)
          putBytes [34]
          putChars (chars ++ 0 :: after)
          putBytes [34]
          modify (saneiWSpace 1)
          putBytes [10]
          pure (some block) : WireM SaneString) =
        (do
          modify (saneiWSpace 1)
          putBytes [34]
          putChars (chars ++ 0 :: after)) >>= fun _ => putBytes [34] >>= fun _ => (do
            modify (saneiWSpace 1)
            putBytes [10]
            pure (some block)) := by
        simp only [bind_assoc]
      rw [hassoc]
      intro w' hw'
      have hsize := hw'.roomy
      have hopened : Puts version w'.buffer.size w'.buffer.curr (do
          modify (saneiWSpace 1)
          putBytes [34]
          putChars (chars ++ 0 :: after)) _ _ _ := puts_opened hchars hsize
      rw [fillAfter_singleton, tokensText_singleton]
      simp only [Token.fill]
      by_cases hfits : charsFill w'.buffer.size (roomFrom w'.buffer.size 1 w'.buffer.curr + 1) chars <
          w'.buffer.size
      · rw [if_pos hfits]
        refine ⟨?_, fun hnone => by cases hnone⟩
        rintro _ ⟨⟩
        have hroom := roomFrom_le w'.buffer.size 1 (charsFill w'.buffer.size
          (roomFrom w'.buffer.size 1 w'.buffer.curr + 1) chars + 1) (by omega)
        have hclosed : Puts version w'.buffer.size (charsFill w'.buffer.size
            (roomFrom w'.buffer.size 1 w'.buffer.curr + 1) chars) (do
              putBytes [34]
              modify (saneiWSpace 1)
              putBytes [10]
              pure (some block)) [34, 10] _ (fun x => x = some block) :=
          (puts_bytes [34] hfits).bind fun _ _ => (puts_space 1).bind fun _ _ =>
            (puts_bytes [10] hroom).bind_nil fun _ _ => .pure rfl
        exact hopened.bind (fun _ _ => hclosed) w' hw' rfl rfl
      · rw [if_neg hfits]
        refine ⟨fun _ hnone => (by cases hnone), fun _ => ⟨.outOfBounds, ?_⟩⟩
        exact hopened.full [34] (Nat.lt_succ_of_le (Nat.le_of_not_lt hfits)) hw' rfl rfl

/-- The transfer function `f` encodes a value that a sender holds as its tokens. -/
abbrev Writes {α : Type} (version : Int) (f : α → WireM α) (script : α → Script) : Prop :=
  ∀ x, (script x).held → Prints version (f x) (script x).tokens fun _ => True

theorem writes_word : Writes version asciiWWord.run wordScript := fun v _ => (prints_word v).ignore

theorem writes_char : Writes version asciiWChar.run charScript := fun c _ => (prints_char c).ignore

theorem writes_string : Writes version asciiWString.run stringScript :=
  fun _ hheld => (prints_string hheld).ignore

section Arrays

variable {α : Type} {element : WireCodecFunc α} {script : α → Script}

theorem prints_elements (helement : Writes version element.run script) {xs : List α} {n : Nat}
    (hlen : n ≤ xs.length) (hheld : ∀ x ∈ xs.take n, (script x).held) :
    Prints version (transferElements element n xs) ((xs.take n).flatMap fun x => (script x).tokens)
      fun _ => True := by
  induction n generalizing xs with
  | zero => exact .pure trivial
  | succ n ih =>
      cases xs with
      | nil => simp at hlen
      | cons x xs =>
          simp only [List.take_succ_cons, List.flatMap_cons] at hheld ⊢
          apply (helement x (hheld x List.mem_cons_self)).bind
          intro y _
          apply Prints.unless_bad
          have hrest := ih (Nat.le_of_succ_le_succ hlen)
            fun z hz => hheld z (List.mem_cons_of_mem _ hz)
          exact hrest.bind_nil fun ys _ => .pure trivial

theorem prints_array {zero : α} {size n : Nat} {len : SaneWord} {v : Ptr (List α)}
    (helement : Writes version element.run script) (hlen : len = BitVec.ofNat 32 n)
    (hn : len.toInt = n) (hheld : (elementsScript size script n (Ptr.cells v)).held) :
    Prints version (saneiWArray asciiWWord element zero size len v)
      (elementsScript size script n (Ptr.cells v)).tokens fun _ => True := by
  obtain ⟨-, hle, helements⟩ := hheld
  have hcount : len.toInt.toNat = n := by omega
  have hcells := prints_elements helement hle helements
  apply Prints.get_bind
  intro w hw
  simp only [hw.direction]
  have hword : Prints version (asciiWWord.run len) [.word (BitVec.ofNat 32 n)] (· = len) := by
    rw [← hlen]
    exact prints_word len
  apply hword.bind
  rintro _ rfl
  apply Prints.unless_bad
  rw [hcount]
  cases v with
  | none => exact hcells.bind_nil fun _ _ => .pure trivial
  | some block => exact hcells.bind_nil fun _ _ => .pure trivial

theorem prints_ptr {f : α → WireM α} {zero : α} {size : Nat} (hf : Writes version f script) :
    Writes version (saneiWPtr asciiWWord f zero size) (ptrScript size script) := by
  intro v hheld
  apply Prints.get_bind
  intro w hw
  simp only [hw.direction]
  cases v with
  | none =>
      apply (prints_word 1).bind_nil
      rintro _ rfl
      apply Prints.unless_bad
      rw [if_neg (by decide)]
      exact .pure trivial
  | some block =>
      rw [if_neg (by simp)]
      apply (prints_word 0).bind
      rintro _ rfl
      apply Prints.unless_bad
      rw [if_pos rfl]
      exact (hf block.val hheld).bind_nil fun _ _ => .pure trivial

end Arrays

theorem Printing.not_decode {w : Wire} (hw : Printing version w) : w.direction ≠ .decode := by
  rw [hw.direction]
  decide

theorem prints_liftM {α β : Type} {x : Except Fault α} {a : α} (h : x = .ok a) {k : α → WireM β}
    {ts : List Token} {post : β → Prop} (hk : Prints version (k a) ts post) :
    Prints version (liftM x >>= k) ts post := by
  rw [h]
  exact hk

/-- An array whose elements are counted first. -/
theorem prints_countedArray {α : Type} {element : WireCodecFunc α} {script : α → Script} {zero : α}
    {size : Nat} {count : Except Fault Nat} {len : Except Fault SaneWord} {v : Ptr (List α)}
    {β : Type} {k : SaneWord × Ptr (List α) → WireM β} {post : β → Prop}
    (helement : Writes version element.run script)
    (hlen : ∀ n, count = .ok n → len = .ok (BitVec.ofNat 32 n))
    (hheld : (arrayScript size script count v).held)
    (hk : ∀ p, Prints version (k p) [] post) :
    Prints version (liftM len >>= fun n => saneiWArray asciiWWord element zero size n v >>= k)
      (arrayScript size script count v).tokens post := by
  obtain ⟨n, hcount, helements, -, htokens, -⟩ := arrayScript_held hheld
  rw [htokens]
  apply prints_liftM (hlen n hcount)
  apply (prints_array helement rfl (toInt_ofNat_of_le_intMax helements.1) helements).bind_nil
  intro p _
  exact hk p

theorem prints_enum (v : SaneWord) : Prints version (saneiWEnum asciiCodec v) [.word v] (· = v) := by
  apply (prints_word v).bind_nil
  intro word _
  apply Prints.get_bind
  intro w hw
  rw [if_neg hw.not_decode]
  exact .pure rfl

theorem writes_range : Writes version (saneiWRange asciiCodec) rangeScript := by
  intro v _
  apply (prints_word v.min).bind
  intro min _
  apply (prints_word v.max).bind
  intro max _
  apply (prints_word v.quant).bind_nil
  intro quant _
  exact .pure trivial

theorem writes_device : Writes version (saneiWDevice asciiCodec) deviceScript := by
  intro v hheld
  obtain ⟨hname, hheld⟩ := hheld
  obtain ⟨hvendor, hheld⟩ := hheld
  obtain ⟨hmodel, htype⟩ := hheld
  apply (prints_string hname).bind
  intro name _
  apply (prints_string hvendor).bind
  intro vendor _
  apply (prints_string hmodel).bind
  intro model _
  apply (prints_string htype).bind_nil
  intro type _
  exact .pure trivial

theorem writes_devicePtr : Writes version (saneiWDevicePtr asciiCodec).run devicePtrScript :=
  prints_ptr writes_device

theorem writes_constraint (constraintType : SaneWord) :
    Writes version (saneiWConstraint asciiCodec constraintType)
      (constraintScript constraintType) := by
  intro v hheld
  unfold constraintScript at hheld
  unfold saneiWConstraint constraintScript
  split_ifs at hheld ⊢
  · exact (prints_ptr writes_range v.range hheld).bind_nil fun _ _ => .pure trivial
  · apply Prints.get_bind
    intro w hw
    rw [if_pos hw.not_decode]
    exact prints_countedArray writes_word (fun n => wordListLen_eq) hheld fun _ => .pure trivial
  · apply Prints.get_bind
    intro w hw
    rw [if_pos hw.not_decode]
    exact prints_countedArray writes_string (fun n => stringListLen_eq) hheld
      fun _ => .pure trivial
  · exact .pure trivial

theorem writes_optionDescriptor :
    Writes version (saneiWOptionDescriptor asciiCodec) optionDescriptorScript := by
  intro v hheld
  obtain ⟨hname, hheld⟩ := hheld
  obtain ⟨htitle, hheld⟩ := hheld
  obtain ⟨hdesc, hheld⟩ := hheld
  have hconstraint := hheld.2.2.2.2.2
  apply (prints_string hname).bind
  intro name _
  apply (prints_string htitle).bind
  intro title _
  apply (prints_string hdesc).bind
  intro desc _
  apply (prints_enum v.type).bind
  intro type _
  apply (prints_enum v.unit).bind
  intro unit _
  apply (prints_word v.size).bind
  intro size _
  apply (prints_word v.cap).bind
  intro cap _
  apply (prints_enum v.constraintType).bind
  rintro _ rfl
  apply (writes_constraint v.constraintType v.constraint hconstraint).bind_nil
  intro constraint _
  exact .pure trivial

theorem writes_optionDescriptorPtr :
    Writes version (saneiWOptionDescriptorPtr asciiCodec).run optionDescriptorPtrScript :=
  prints_ptr writes_optionDescriptor

theorem writes_optionValue (type size : SaneWord) :
    Writes version (wOptionValue asciiCodec type size) (optionValueScript type size) := by
  intro value hheld
  unfold optionValueScript at hheld
  unfold wOptionValue optionValueScript
  split_ifs at hheld ⊢
  · obtain ⟨hlen, hn, helements⟩ := countedScript_held hheld
    exact (prints_array writes_word hlen hn helements).bind_nil fun _ _ => .pure trivial
  · obtain ⟨hlen, hn, helements⟩ := countedScript_held hheld
    exact (prints_array writes_char hlen hn helements).bind_nil fun _ _ => .pure trivial
  · obtain ⟨hlen, hn, helements⟩ := countedScript_held hheld
    have hvoid : Writes version saneiWVoid.run fun _ => .empty := fun _ _ => .pure trivial
    exact (prints_array hvoid hlen hn helements).bind_nil fun _ _ => .pure trivial
  · exact hheld.elim

theorem writes_parameters : Writes version (saneiWParameters asciiCodec) parametersScript := by
  intro v _
  apply (prints_enum v.format).bind
  intro format _
  apply (prints_enum v.lastFrame).bind
  intro lastFrame _
  apply (prints_word v.bytesPerLine).bind
  intro bytesPerLine _
  apply (prints_word v.pixelsPerLine).bind
  intro pixelsPerLine _
  apply (prints_word v.lines).bind
  intro lines _
  apply (prints_word v.depth).bind_nil
  intro depth _
  exact .pure trivial

theorem writes_controlOptionReq (req : SaneControlOptionReq)
    (hheld : (messageScript version (.controlOptionReq req)).held) :
    Prints version (saneiWControlOptionReq asciiCodec req)
      (messageScript version (.controlOptionReq req)).tokens fun _ => True := by
  apply (prints_word req.handle).bind
  intro handle _
  apply (prints_word req.option).bind
  intro option _
  apply (prints_word req.action).bind
  rintro _ rfl
  apply Prints.get_bind
  intro w hw
  have hcarries : (w.version < 3 ∨ req.action ≠ actionSetAuto) ↔
      carriesValue version req.action := by
    rw [hw.version]
    simp [carriesValue]
  have hvalue := hheld.2.2.2
  simp only [hcarries]
  split_ifs at hvalue ⊢
  · apply (prints_word req.valueType).bind
    rintro _ rfl
    apply (prints_word req.valueSize).bind
    rintro _ rfl
    exact (writes_optionValue _ _ req.value hvalue.2.2).bind_nil fun _ _ => .pure trivial
  · exact .pure trivial

theorem writes_controlOptionReply (reply : SaneControlOptionReply)
    (hheld : (messageScript version (.controlOptionReply reply)).held) :
    Prints version (saneiWControlOptionReply asciiCodec reply)
      (messageScript version (.controlOptionReply reply)).tokens fun _ => True := by
  obtain ⟨hvalue, hresource⟩ := hheld.2.2.2.2
  apply (prints_enum reply.status).bind
  intro status _
  apply (prints_word reply.info).bind
  intro info _
  apply (prints_word reply.valueType).bind
  rintro _ rfl
  apply (prints_word reply.valueSize).bind
  rintro _ rfl
  apply (writes_optionValue _ _ reply.value hvalue).bind
  intro value _
  exact (prints_string hresource).bind_nil fun _ _ => .pure trivial

theorem writes_getDevicesReply (reply : SaneGetDevicesReply)
    (hheld : (messageScript version (.getDevicesReply reply)).held) :
    Prints version (saneiWGetDevicesReply asciiCodec reply)
      (messageScript version (.getDevicesReply reply)).tokens fun _ => True := by
  obtain ⟨n, hcount, helements, -, htokens, -⟩ := arrayScript_held hheld.2
  apply Prints.get_bind
  intro w hw
  rw [if_pos hw.not_decode]
  apply prints_liftM (deviceListLen_eq hcount)
  apply (prints_enum reply.status).bind
  intro status _
  rw [htokens]
  exact (prints_array writes_devicePtr rfl (toInt_ofNat_of_le_intMax helements.1) helements).bind_nil
    fun _ _ => .pure trivial

/-- Encoding a message that a sender holds. -/
theorem writes_message (m : NetMessage) (hheld : (messageScript version m).held) :
    Prints version (transferMessage asciiCodec m) (messageScript version m).tokens
      fun _ => True := by
  have hmap : ∀ {α : Type} {f : α → NetMessage} {x : WireM α} {ts : List Token},
      Prints version x ts (fun _ => True) → Prints version (f <$> x) ts fun _ => True := by
    intro α f x ts h
    exact h.map fun _ h => h
  cases m with
  | initReq req =>
      apply hmap
      apply (prints_word req.versionCode).bind
      intro versionCode _
      exact (prints_string hheld.2).bind_nil fun _ _ => .pure trivial
  | initReply reply =>
      apply hmap
      apply (prints_enum reply.status).bind
      intro status _
      exact (prints_word reply.versionCode).bind_nil fun _ _ => .pure trivial
  | getDevicesReply reply => exact hmap (writes_getDevicesReply reply hheld)
  | openReply reply =>
      apply hmap
      apply (prints_enum reply.status).bind
      intro status _
      apply (prints_word reply.handle).bind
      intro handle _
      exact (prints_string hheld.2.2).bind_nil fun _ _ => .pure trivial
  | optionDescriptorArray a =>
      apply hmap
      obtain ⟨hlen, hn, helements⟩ := countedScript_held hheld
      exact (prints_array writes_optionDescriptorPtr hlen hn helements).bind_nil
        fun _ _ => .pure trivial
  | controlOptionReq req => exact hmap (writes_controlOptionReq req hheld)
  | controlOptionReply reply => exact hmap (writes_controlOptionReply reply hheld)
  | getParametersReply reply =>
      apply hmap
      apply (prints_enum reply.status).bind
      intro status _
      exact (writes_parameters reply.params hheld.2).bind_nil fun _ _ => .pure trivial
  | startReply reply =>
      apply hmap
      apply (prints_enum reply.status).bind
      intro status _
      apply (prints_word reply.port).bind
      intro port _
      apply (prints_word reply.byteOrder).bind
      intro byteOrder _
      exact (prints_string hheld.2.2.2).bind_nil fun _ _ => .pure trivial
  | authorizationReq req =>
      apply hmap
      apply (prints_string hheld.1).bind
      intro resource _
      apply (prints_string hheld.2.1).bind
      intro username _
      exact (prints_string hheld.2.2).bind_nil fun _ _ => .pure trivial

end SaneBackends.Sanei
