import SaneBackends.Sanei.AsciiWrite
import SaneBackends.Sanei.RoundTrip
/-!
# Where the ASCII encoder stores

The encoder reserves room and stores bytes in turn. For the quote that closes a string it
reserves none: the quote lands in what the last character, or the quote that opens an empty
string, has left of the buffer.
-/

namespace SaneBackends.Sanei

open SaneBackends.Lib

/-- What the encoder does to the buffer. `undefined` is the negation of the most negative word. -/
inductive Action where
  | reserve (howmuch : Nat)
  | store (bytes : List UInt8)
  | undefined
  deriving DecidableEq, Repr

namespace Action

def run : Action → WireM Unit
  | reserve howmuch => modify (saneiWSpace howmuch)
  | store bytes => putBytes bytes
  | undefined => throw .signedOverflow

/-- The fill of a buffer of `size` bytes after an action, as long as no write fails. -/
def level (size curr : Nat) : Action → Nat
  | reserve howmuch => roomFrom size howmuch curr
  | store bytes => curr + bytes.length
  | undefined => curr

end Action

def runActions : List Action → WireM Unit
  | [] => pure ()
  | a :: as => do
      a.run
      runActions as

def levelAfter (size curr : Nat) (as : List Action) : Nat := as.foldl (Action.level size) curr

theorem runActions_append (as bs : List Action) :
    runActions (as ++ bs) = runActions as >>= fun _ => runActions bs := by
  induction as with
  | nil => rfl
  | cons a as ih => rw [List.cons_append, runActions, runActions, ih, bind_assoc]

/-- Every byte stored while the status is 0 lies below the end of the buffer. -/
def StaysInBuffer (as : List Action) (w : Wire) : Prop :=
  ∀ before bytes, before ++ [Action.store bytes] <+: as →
    ∀ w', (runActions before).run w = .ok ((), w') → w'.status = 0 →
      w'.buffer.curr + bytes.length ≤ w'.buffer.endPos

/-- From the fill `curr` on every store finds room. -/
def Fits (size : Nat) : Nat → List Action → Prop
  | _, [] => True
  | curr, .reserve howmuch :: as => Fits size (roomFrom size howmuch curr) as
  | curr, .store bytes :: as => curr + bytes.length ≤ size ∧ Fits size (curr + bytes.length) as
  | _, .undefined :: _ => True

theorem fits_append {size curr : Nat} {as bs : List Action} (has : .undefined ∉ as) :
    Fits size curr (as ++ bs) ↔ Fits size curr as ∧ Fits size (levelAfter size curr as) bs := by
  induction as generalizing curr with
  | nil => simp [Fits, levelAfter]
  | cons a as ih =>
      rw [List.mem_cons, not_or] at has
      cases a with
      | reserve howmuch => exact ih has.2
      | store bytes =>
          rw [List.cons_append, Fits, Fits, ih has.2]
          exact and_assoc.symm
      | undefined => exact absurd rfl has.1

theorem fits_append_of_mem {size curr : Nat} {as bs : List Action} (has : .undefined ∈ as) :
    Fits size curr (as ++ bs) ↔ Fits size curr as := by
  induction as generalizing curr with
  | nil => cases has
  | cons a as ih =>
      cases a with
      | reserve howmuch => exact ih (by simpa using has)
      | store bytes =>
          rw [List.cons_append, Fits, Fits, ih (by simpa using has)]
      | undefined => rfl

/-! ## Actions on a wire -/

/-- From `w` to `w'` the fill of the buffer became `curr`, unless a write failed. -/
structure Advanced (version : Int) (curr : Nat) (w w' : Wire) : Prop where
  streaming : Streaming version w'
  size : w'.buffer.size = w.buffer.size
  fine : w'.status = 0 → w.status = 0 ∧ w'.buffer.curr = curr
  works : WritesWork w → w.status = 0 → WritesWork w' ∧ w'.status = 0

variable {version : Int}

theorem advanced_space {w : Wire} (hw : Streaming version w) (howmuch : Nat) :
    Advanced version (roomFrom w.buffer.size howmuch w.buffer.curr) w (saneiWSpace howmuch w) := by
  obtain ⟨hpoured, hsound, hend, -⟩ := saneiWSpace_encode hw.direction hw.sound hw.room howmuch
  refine ⟨⟨?_, ?_, hsound, ?_⟩, hpoured.size, ?_, ?_⟩
  · rw [hpoured.eq]
    exact hw.version
  · rw [hpoured.eq]
    exact hw.direction
  · rw [hend, hpoured.size]
  · intro hst
    have hfine := hpoured.fine hst
    refine ⟨hfine, ?_⟩
    rw [saneiWSpace_encode_eq hw.direction hfine, hw.room] at hst ⊢
    unfold roomFrom
    split_ifs at hst ⊢
    · exact ((poured_drain hfine).2.2.2 hst).1
    · rfl
  · intro hwrites hfine
    refine ⟨?_, hpoured.works hfine hwrites⟩
    intro i
    rw [hpoured.writes_eq]
    exact hwrites i

theorem advanced_put {w : Wire} (hw : Streaming version w) {bytes : List UInt8}
    (hroom : w.buffer.curr + bytes.length ≤ w.buffer.size) :
    ∃ w', (putBytes bytes).run w = .ok ((), w') ∧
      Advanced version (w.buffer.curr + bytes.length) w w' := by
  refine ⟨_, putBytes_run hroom, ⟨hw.version, hw.direction, ?_, hw.room⟩, rfl, fun h => ⟨h, rfl⟩,
    fun hwrites h => ⟨hwrites, h⟩⟩
  exact ⟨hw.room ▸ hroom, hw.sound.end_le, hw.sound.word_le, hw.sound.size_le⟩

theorem putBytes_full {w : Wire} {bytes : List UInt8}
    (hfull : w.buffer.size < w.buffer.curr + bytes.length) :
    (putBytes bytes).run w = .error .outOfBounds := by
  simp only [putBytes, StateT.run_bind, StateT.run_get, pure_bind, if_pos hfull]
  rfl

/-- What an action that succeeds does to the wire. -/
theorem Action.advanced {a : Action} {w w' : Wire} (hw : Streaming version w)
    (hrun : a.run.run w = .ok ((), w')) :
    Advanced version (a.level w.buffer.size w.buffer.curr) w w' := by
  cases a with
  | reserve howmuch =>
      cases hrun
      exact advanced_space hw howmuch
  | store bytes =>
      change (putBytes bytes).run w = _ at hrun
      by_cases hroom : w.buffer.curr + bytes.length ≤ w.buffer.size
      · obtain ⟨w₁, hrun₁, hadvanced⟩ := advanced_put hw hroom
        rw [hrun₁] at hrun
        cases hrun
        exact hadvanced
      · rw [putBytes_full (Nat.lt_of_not_le hroom)] at hrun
        cases hrun
  | undefined => cases hrun

theorem staysInBuffer_cons {a : Action} {as : List Action} {w : Wire} :
    StaysInBuffer (a :: as) w ↔
      (∀ bytes, a = .store bytes → w.status = 0 →
        w.buffer.curr + bytes.length ≤ w.buffer.endPos) ∧
      ∀ w', a.run.run w = .ok ((), w') → StaysInBuffer as w' := by
  constructor
  · intro h
    constructor
    · rintro bytes rfl hst
      exact h [] bytes (List.prefix_append _ as) w rfl hst
    · intro w' hrun before bytes hprefix w'' hrun' hst
      apply h (a :: before) bytes (List.cons_prefix_cons.mpr ⟨rfl, hprefix⟩) w'' _ hst
      rw [runActions, run_bind_eq, hrun]
      exact hrun'
  · rintro ⟨hhead, htail⟩ before bytes hprefix w'' hrun hst
    cases before with
    | nil =>
        cases hrun
        have hsame := (List.cons_prefix_cons.mp hprefix).1
        exact hhead bytes hsame.symm hst
    | cons b before =>
        obtain ⟨rfl, hrest⟩ := List.cons_prefix_cons.mp hprefix
        rw [runActions, run_bind_eq] at hrun
        cases hb : b.run.run w with
        | error f =>
            rw [hb] at hrun
            cases hrun
        | ok p =>
            obtain ⟨⟨⟩, w'⟩ := p
            rw [hb] at hrun
            exact htail w' hb before bytes hrest w'' hrun hst

/-- Actions that find room from the fill of the buffer on keep to it, whatever the writes do. -/
theorem staysInBuffer_of_fits {as : List Action} {w : Wire} (hw : Streaming version w)
    (hfits : w.status = 0 → Fits w.buffer.size w.buffer.curr as) : StaysInBuffer as w := by
  induction as generalizing w with
  | nil =>
      intro before bytes hprefix
      simp at hprefix
  | cons a as ih =>
      rw [staysInBuffer_cons]
      constructor
      · rintro bytes rfl hst
        rw [hw.room]
        exact (hfits hst).1
      · intro w' hrun
        have hadvanced := a.advanced hw hrun
        apply ih hadvanced.streaming
        intro hst
        obtain ⟨hfine, hcurr⟩ := hadvanced.fine hst
        rw [hadvanced.size, hcurr]
        cases a with
        | reserve howmuch => exact hfits hfine
        | store bytes => exact (hfits hfine).2
        | undefined => cases hrun

/-- As long as writes work, actions that keep to the buffer find room. -/
theorem fits_of_staysInBuffer {as : List Action} {w : Wire} (hw : Streaming version w)
    (hwrites : WritesWork w) (hfine : w.status = 0) (h : StaysInBuffer as w) :
    Fits w.buffer.size w.buffer.curr as := by
  induction as generalizing w with
  | nil => trivial
  | cons a as ih =>
      obtain ⟨hhead, htail⟩ := staysInBuffer_cons.mp h
      cases a with
      | reserve howmuch =>
          have hadvanced := advanced_space hw howmuch
          obtain ⟨hwrites', hfine'⟩ := hadvanced.works hwrites hfine
          have hrest := ih hadvanced.streaming hwrites' hfine' (htail _ rfl)
          rwa [hadvanced.size, (hadvanced.fine hfine').2] at hrest
      | store bytes =>
          have hroom := hhead bytes rfl hfine
          rw [hw.room] at hroom
          obtain ⟨w', hrun, hadvanced⟩ := advanced_put hw hroom
          obtain ⟨hwrites', hfine'⟩ := hadvanced.works hwrites hfine
          have hrest := ih hadvanced.streaming hwrites' hfine' (htail w' hrun)
          rw [hadvanced.size, (hadvanced.fine hfine').2] at hrest
          exact ⟨hroom, hrest⟩
      | undefined => trivial

/-! ## The operations of the codec -/

/-- A call of the encoder. A string ends within its block. -/
inductive EncodeOp where
  | byte (b : UInt8)
  | char (c : UInt8)
  | string (s : SaneString) (hnul : ∀ block ∈ s, 0 ∈ block.val)
  | word (v : SaneWord)

/-- The characters of a string before its NUL. -/
def charsOf (block : Block (List UInt8)) : List UInt8 := block.val.take (block.val.idxOf 0)

def charActions (ch : UInt8) : List Action := [.reserve 2, .store (escape 34 ch)]

/-- The sign and the digits of a word. -/
def wordText (v : SaneWord) : List UInt8 :=
  if v.toInt < 0 then 45 :: storeDigits sizeofBuf v.toInt.natAbs []
  else storeDigits sizeofBuf v.toInt.natAbs []

namespace EncodeOp

def encode : EncodeOp → WireM Unit
  | byte b => do
      let _ ← asciiCodec.wByte.run b
      pure ()
  | char c => do
      let _ ← asciiCodec.wChar.run c
      pure ()
  | string s _ => do
      let _ ← asciiCodec.wString.run s
      pure ()
  | word v => do
      let _ ← asciiCodec.wWord.run v
      pure ()

def actions : EncodeOp → List Action
  | byte b => [.reserve 3, .store [hexDigit (b.toNat / 16), hexDigit (b.toNat % 16), 10]]
  | char c => [.reserve 5, .store [39], .store (escape 39 c), .store [39, 10]]
  | string none _ => [.reserve 5, .store nilText, .reserve 1, .store [10]]
  | string (some block) _ =>
      [.reserve 1, .store [34]] ++ ((charsOf block).flatMap charActions ++
        [.store [34], .reserve 1, .store [10]])
  | word v =>
      if intMax < -v.toInt then [.undefined]
      else [.reserve ((wordText v).length + 1), .store (wordText v), .store [10]]

/-- Any value but the most negative word. -/
def Defined : EncodeOp → Prop
  | word v => -v.toInt ≤ intMax
  | _ => True

/-- The string is empty and there is one free byte, or it ends in a character that a backslash
precedes and these two have the last two bytes of the buffer. -/
def ClosesFull (size curr : Nat) : EncodeOp → Prop
  | string (some block) _ =>
      charsOf block = [] ∧ curr + 1 = size ∨
        ∃ ch ∈ (charsOf block).getLast?, isEscaped 34 ch ∧
          charsFill size (roomFrom size 1 curr + 1) (charsOf block).dropLast + 2 = size
  | _ => False

end EncodeOp

def encodeAll : List EncodeOp → WireM Unit
  | [] => pure ()
  | op :: ops => do
      op.encode
      encodeAll ops

def opsActions (ops : List EncodeOp) : List Action := ops.flatMap EncodeOp.actions

theorem putChars_eq {chars : List UInt8} (after : List UInt8) (hchars : 0 ∉ chars) :
    putChars (chars ++ 0 :: after) = runActions (chars.flatMap charActions) := by
  induction chars with
  | nil => rfl
  | cons ch chars ih =>
      rw [List.mem_cons, not_or] at hchars
      rw [List.cons_append, putChars, if_neg (Ne.symm hchars.1), ih hchars.2]
      rfl

theorem encode_run (op : EncodeOp) {w : Wire} (hdir : w.direction = .encode) :
    op.encode.run w = (runActions op.actions).run w := by
  cases op with
  | byte b =>
      simp [EncodeOp.encode, EncodeOp.actions, asciiCodec, asciiWByte, hdir, runActions, Action.run]
  | char c =>
      simp [EncodeOp.encode, EncodeOp.actions, asciiCodec, asciiWChar, hdir, runActions, Action.run]
  | string s hnul =>
      cases s with
      | none =>
          simp [EncodeOp.encode, EncodeOp.actions, asciiCodec, asciiWString, hdir, runActions,
            Action.run, nilText]
      | some block =>
          obtain ⟨chars, after, hval, hchars, htake⟩ := split_at_nul (hnul block rfl)
          have hput := putChars_eq after hchars
          rw [← hval] at hput
          simp [EncodeOp.encode, EncodeOp.actions, asciiCodec, asciiWString, hdir, runActions,
            Action.run, runActions_append, hput, charsOf, htake]
  | word v =>
      simp only [EncodeOp.actions]
      split_ifs with hmin
      · simp [EncodeOp.encode, asciiCodec, asciiWWord, hdir, runActions, Action.run, hmin]
        rfl
      · simp [EncodeOp.encode, asciiCodec, asciiWWord, hdir, runActions, Action.run, hmin, wordText]

theorem runActions_advanced {as : List Action} {w w' : Wire} (hw : Streaming version w)
    (hrun : (runActions as).run w = .ok ((), w')) : Streaming version w' := by
  induction as generalizing w with
  | nil =>
      cases hrun
      exact hw
  | cons a as ih =>
      rw [runActions, run_bind_eq] at hrun
      cases ha : a.run.run w with
      | error f =>
          rw [ha] at hrun
          cases hrun
      | ok p =>
          obtain ⟨⟨⟩, w₁⟩ := p
          rw [ha] at hrun
          exact ih (a.advanced hw ha).streaming hrun

/-- A row of calls of the encoder is the row of their actions. -/
theorem encodeAll_run (ops : List EncodeOp) {w : Wire} (hw : Streaming version w) :
    (encodeAll ops).run w = (runActions (opsActions ops)).run w := by
  induction ops generalizing w with
  | nil => rfl
  | cons op ops ih =>
      rw [encodeAll, run_bind_eq, encode_run op hw.direction]
      change _ = (runActions (op.actions ++ opsActions ops)).run w
      rw [runActions_append, run_bind_eq]
      cases hop : (runActions op.actions).run w with
      | error f => rfl
      | ok p =>
          obtain ⟨⟨⟩, w'⟩ := p
          exact ih (runActions_advanced hw hop)

/-! ## The room of an operation -/

section Room

variable {size curr : Nat}

theorem length_wordText {v : SaneWord} (hv : ¬ intMax < -v.toInt) : (wordText v).length ≤ 11 := by
  have habs := natAbs_le hv
  have hbig : intMax = 2 ^ 31 - 1 := rfl
  have hdigits : storeDigits sizeofBuf v.toInt.natAbs [] = decimal v.toInt.natAbs := by
    rw [storeDigits_eq (by unfold sizeofBuf; omega), if_neg (by decide), List.append_nil]
  have hlength := length_decimal_le (n := v.toInt.natAbs) (by decide : 0 < 10) (by omega)
  unfold wordText
  rw [hdigits]
  split_ifs
  · exact Nat.succ_le_succ hlength
  · omega

theorem charsFill_append (chars chars' : List UInt8) :
    charsFill size curr (chars ++ chars') = charsFill size (charsFill size curr chars) chars' :=
  List.foldl_append

/-- Every character finds room. -/
theorem fits_chars (hsize : 2 ≤ size) (chars : List UInt8) (as : List Action) :
    Fits size curr (chars.flatMap charActions ++ as) ↔
      Fits size (charsFill size curr chars) as := by
  induction chars generalizing curr with
  | nil => rfl
  | cons ch chars ih =>
      obtain ⟨-, hescape⟩ := length_escape 34 ch
      have hroom := roomFrom_le size 2 curr hsize
      rw [List.flatMap_cons, List.append_assoc]
      change (_ ∧ Fits size _ (chars.flatMap charActions ++ as)) ↔ _
      rw [ih]
      exact and_iff_right (by omega)

theorem charsFill_le (hsize : 2 ≤ size) (hcurr : curr ≤ size) (chars : List UInt8) :
    charsFill size curr chars ≤ size := by
  induction chars generalizing curr with
  | nil => exact hcurr
  | cons ch chars ih =>
      obtain ⟨-, hescape⟩ := length_escape 34 ch
      have hroom := roomFrom_le size 2 curr hsize
      apply ih
      change roomFrom size 2 curr + (escape 34 ch).length ≤ size
      omega

/-- The last character that fills the buffer is one of two bytes. -/
theorem charsFill_concat_eq (hsize : 2 < size) (chars : List UInt8) (ch : UInt8) :
    charsFill size curr (chars ++ [ch]) = size ↔
      isEscaped 34 ch ∧ charsFill size curr chars + 2 = size := by
  rw [charsFill_append]
  change roomFrom size 2 _ + (escape 34 ch).length = size ↔ _
  have hroom := roomFrom_le size 2 (charsFill size curr chars) (Nat.le_of_lt hsize)
  unfold escape
  split_ifs with hescaped
  · simp only [List.length_cons, List.length_nil]
    unfold roomFrom at hroom ⊢
    split_ifs at hroom ⊢
    · simp [hescaped]
      omega
    · simp [hescaped]
  · simp only [List.length_cons, List.length_nil, hescaped]
    simp
    omega

theorem fits_closing (hsize : 16 ≤ size) (chars : List UInt8) :
    Fits size (charsFill size (roomFrom size 1 curr + 1) chars)
        [.store [34], .reserve 1, .store [10]] ↔
      ¬ (chars = [] ∧ curr + 1 = size ∨ ∃ ch ∈ chars.getLast?, isEscaped 34 ch ∧
          charsFill size (roomFrom size 1 curr + 1) chars.dropLast + 2 = size) := by
  have hopen := roomFrom_le size 1 curr (by omega)
  have hle := charsFill_le (by omega) hopen chars
  have hline := roomFrom_le size 1 (charsFill size (roomFrom size 1 curr + 1) chars + 1) (by omega)
  have hfits : Fits size (charsFill size (roomFrom size 1 curr + 1) chars)
      [.store [34], .reserve 1, .store [10]] ↔
      charsFill size (roomFrom size 1 curr + 1) chars ≠ size := by
    simp only [Fits, List.length_cons, List.length_nil, Nat.zero_add, and_true]
    omega
  rw [hfits, not_iff_not]
  rcases List.eq_nil_or_concat chars with rfl | ⟨init, ch, rfl⟩
  · change roomFrom size 1 curr + 1 = size ↔ _
    unfold roomFrom at hopen ⊢
    split_ifs at hopen ⊢
    · simp
      omega
    · simp
  · rw [List.concat_eq_append, charsFill_concat_eq (by omega)]
    simp

theorem fits_op (hsize : 16 ≤ size) (op : EncodeOp) :
    Fits size curr op.actions ↔ ¬ op.ClosesFull size curr := by
  cases op with
  | byte b =>
      have hroom := roomFrom_le size 3 curr (by omega)
      simpa [EncodeOp.actions, Fits, EncodeOp.ClosesFull] using hroom
  | char c =>
      obtain ⟨-, hescape⟩ := length_escape 39 c
      have hroom := roomFrom_le size 5 curr (by omega)
      simp [EncodeOp.actions, Fits, EncodeOp.ClosesFull]
      omega
  | string s hnul =>
      cases s with
      | none =>
          have hroom := roomFrom_le size 5 curr (by omega)
          have hroom' := roomFrom_le size 1 (roomFrom size 5 curr + 5) (by omega)
          simp [EncodeOp.actions, Fits, EncodeOp.ClosesFull, nilText]
          omega
      | some block =>
          have hopen := roomFrom_le size 1 curr (by omega)
          simp only [EncodeOp.actions, List.cons_append, List.nil_append, Fits]
          rw [fits_chars (by omega)]
          refine (and_iff_right hopen).trans ?_
          exact fits_closing hsize (charsOf block)
  | word v =>
      simp only [EncodeOp.actions, EncodeOp.ClosesFull, not_false_eq_true, iff_true]
      split_ifs with hmin
      · trivial
      · have hlength := length_wordText hmin
        have hroom := roomFrom_le size ((wordText v).length + 1) curr (by omega)
        simp only [Fits, List.length_cons, List.length_nil, and_true]
        omega

theorem undefined_mem_actions {op : EncodeOp} : .undefined ∈ op.actions ↔ ¬ op.Defined := by
  cases op with
  | byte b => simp [EncodeOp.actions, EncodeOp.Defined]
  | char c => simp [EncodeOp.actions, EncodeOp.Defined]
  | string s hnul => cases s <;> simp [EncodeOp.actions, EncodeOp.Defined, charActions]
  | word v =>
      simp only [EncodeOp.actions, EncodeOp.Defined]
      split_ifs with hmin
      · simpa using hmin
      · simpa using hmin

/-- The fill of the buffer before an operation of a row. -/
def fillBefore (size curr : Nat) (before : List EncodeOp) : Nat :=
  levelAfter size curr (opsActions before)

/-- No string that only defined calls precede closes at the end of the buffer. -/
def NoneClosesFull (size curr : Nat) (ops : List EncodeOp) : Prop :=
  ∀ before op after, ops = before ++ op :: after → (∀ b ∈ before, b.Defined) →
    ¬ op.ClosesFull size (fillBefore size curr before)

theorem noneClosesFull_cons {op : EncodeOp} {ops : List EncodeOp} :
    NoneClosesFull size curr (op :: ops) ↔
      ¬ op.ClosesFull size curr ∧
        (op.Defined → NoneClosesFull size (levelAfter size curr op.actions) ops) := by
  have hfill : ∀ before, fillBefore size curr (op :: before) =
      fillBefore size (levelAfter size curr op.actions) before := fun _ => List.foldl_append
  constructor
  · intro h
    refine ⟨h [] op ops rfl (by simp), ?_⟩
    intro hop before op' after heq hbefore
    have hlater := h (op :: before) op' after (by rw [heq]; rfl)
      (List.forall_mem_cons.mpr ⟨hop, hbefore⟩)
    rwa [hfill] at hlater
  · rintro ⟨hhead, htail⟩ before op' after heq hbefore
    cases before with
    | nil =>
        cases heq
        exact hhead
    | cons b before =>
        obtain ⟨rfl, rfl⟩ := List.cons.inj heq
        obtain ⟨hop, hrest⟩ := List.forall_mem_cons.mp hbefore
        rw [hfill]
        exact htail hop before op' after rfl hrest

theorem fits_ops (hsize : 16 ≤ size) (ops : List EncodeOp) :
    Fits size curr (opsActions ops) ↔ NoneClosesFull size curr ops := by
  induction ops generalizing curr with
  | nil => simp [opsActions, Fits, NoneClosesFull]
  | cons op ops ih =>
      change Fits size curr (op.actions ++ opsActions ops) ↔ _
      rw [noneClosesFull_cons]
      by_cases hop : op.Defined
      · rw [fits_append (undefined_mem_actions.not.mpr (not_not.mpr hop)), fits_op hsize, ih]
        simp only [hop, true_imp_iff]
      · rw [fits_append_of_mem (undefined_mem_actions.mpr hop), fits_op hsize]
        simp only [hop, false_imp_iff, and_true]

end Room

/-- A wire that encodes and holds `curr` bytes in a buffer of `size`. -/
structure Filled (size curr : Nat) (w : Wire) : Prop where
  direction : w.direction = .encode
  fine : w.status = 0
  size_eq : w.buffer.size = size
  curr_eq : w.buffer.curr = curr
  end_eq : w.buffer.endPos = size

/-- However the writes go, a row of calls of the encoder stores below the end of the buffer as
long as the status is 0. -/
def EncoderStays (size curr : Nat) (ops : List EncodeOp) : Prop :=
  ∀ w, Filled size curr w →
    (encodeAll ops).run w = (runActions (opsActions ops)).run w ∧ StaysInBuffer (opsActions ops) w

/-- The wire of a fresh sender with `curr` bytes in a buffer of `size`. -/
def filledSender (size curr : Nat) : Wire :=
  { freshSender 3 with buffer := { size, curr, endPos := size, mem := fun _ => 0 } }

theorem filled_filledSender (size curr : Nat) : Filled size curr (filledSender size curr) :=
  ⟨rfl, rfl, rfl, rfl, rfl⟩

theorem Filled.streaming {size curr : Nat} {w : Wire} (hw : Filled size curr w) (hsize : 16 ≤ size)
    (hmax : size ≤ intMax) (hcurr : curr ≤ size) : Streaming w.version w where
  version := rfl
  direction := hw.direction
  sound := by
    refine ⟨?_, ?_, ?_, ?_⟩
    · rw [hw.curr_eq, hw.end_eq]
      exact hcurr
    · rw [hw.end_eq, hw.size_eq]
    · rw [hw.size_eq]
      omega
    · rw [hw.size_eq]
      exact hmax
  room := hw.end_eq.trans hw.size_eq.symm

/-- A row of calls keeps to the buffer unless it comes, with no undefined call before, to a
string whose closing quote finds the buffer full. -/
theorem encoderStays_iff {size curr : Nat} (hsize : 16 ≤ size) (hmax : size ≤ intMax)
    (hcurr : curr ≤ size) (ops : List EncodeOp) :
    EncoderStays size curr ops ↔ NoneClosesFull size curr ops := by
  rw [← fits_ops hsize]
  constructor
  · intro h
    have hfilled := filled_filledSender size curr
    have hwrites : WritesWork (filledSender size curr) := fun _ => ⟨8191, rfl⟩
    exact fits_of_staysInBuffer (hfilled.streaming hsize hmax hcurr) hwrites rfl (h _ hfilled).2
  · intro hfits w hw
    have hstreaming := hw.streaming hsize hmax hcurr
    refine ⟨encodeAll_run ops hstreaming, staysInBuffer_of_fits hstreaming fun _ => ?_⟩
    rw [hw.size_eq, hw.curr_eq]
    exact hfits

theorem nul_mem_block (chars : List UInt8) :
    ∀ block ∈ (some ⟨1, chars ++ [0]⟩ : SaneString), 0 ∈ block.val := by simp

theorem encoderStays_iff_quote :
    EncoderStays 8192 8190 [.string (some ⟨1, [34] ++ [0]⟩) (nul_mem_block [34])] ↔
      NoneClosesFull 8192 8190 [.string (some ⟨1, [34] ++ [0]⟩) (nul_mem_block [34])] :=
  encoderStays_iff (by decide) (by decide) (by decide) _

/-- With one free byte the quote that closes an empty string is stored behind the buffer. -/
theorem not_encoderStays_emptyString :
    ¬ EncoderStays 8192 8191 [.string (some ⟨1, [] ++ [0]⟩) (nul_mem_block [])] := by
  intro h
  obtain ⟨-, hstays⟩ := h _ (filled_filledSender 8192 8191)
  have hquote := hstays [.reserve 1, .store [34]] [34] ⟨[.reserve 1, .store [10]], rfl⟩ _ rfl rfl
  revert hquote
  decide

end SaneBackends.Sanei
