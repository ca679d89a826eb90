import SaneBackends.Lib.Yields
import SaneBackends.Sanei.AsciiRoundTrip
/-!
# A wire that receives, or has failed to

While the status is 0 the ASCII decoder takes the bytes of its stream one after the other. Once a
read has failed or found the end of the stream it goes on for some bytes more, which are those
that the buffer happens to hold.
-/

namespace SaneBackends.Sanei

open SaneBackends.Lib

/-- A wire that decodes with status 0 and has `n` bytes of its input in the buffer. The block
`owned` is allocated. `works` says that no read fails. -/
structure Listening (works : Prop) (n : Nat) (owned : Option Nat) (input : List UInt8) (w : Wire) :
    Prop where
  decoding : Decoding w
  fine : w.status = 0
  roomy : 16 ≤ w.buffer.size
  ready : w.buffer.curr + n ≤ w.buffer.endPos
  owned : ∀ a ∈ owned, a ∈ w.heap.live
  reads : works → ReadsWork w
  input : w.input = input

/-- A wire with a bad status, whose position may move by `n`. -/
structure Stalled (n : Nat) (owned : Option Nat) (w : Wire) : Prop where
  bad : w.status ≠ 0
  room : w.buffer.curr + n ≤ w.buffer.size
  owned : ∀ a ∈ owned, a ∈ w.heap.live

variable {works : Prop} {n k : Nat} {owned : Option Nat} {input : List UInt8} {w : Wire}

theorem Stalled.mono (hw : Stalled n owned w) (hk : k ≤ n) : Stalled k owned w :=
  ⟨hw.bad, (Nat.add_le_add_left hk _).trans hw.room, hw.owned⟩

theorem Stalled.space (hw : Stalled n owned w) (howmuch : Nat) :
    Yields w (modify (saneiWSpace howmuch) : WireM Unit) fun _ => Stalled n owned := by
  refine ⟨(), saneiWSpace howmuch w, rfl, ?_⟩
  have hsame : saneiWSpace howmuch w = w := if_pos hw.bad
  rw [hsame]
  exact hw

theorem peekByte_run (hroom : w.buffer.curr < w.buffer.size) :
    peekByte.run w = .ok (w.buffer.mem w.buffer.curr, w) := by
  simp only [peekByte, StateT.run_bind, StateT.run_get, pure_bind, if_pos hroom]
  rfl

theorem takeByte_run (hroom : w.buffer.curr < w.buffer.size) :
    takeByte.run w = .ok (w.buffer.mem w.buffer.curr, w.advance 1) := by
  rw [takeByte, run_bind_eq, peekByte_run hroom]
  rfl

theorem takeByte_full (hfull : w.buffer.size ≤ w.buffer.curr) :
    takeByte.run w = .error .outOfBounds := by
  have hpeek : peekByte.run w = .error .outOfBounds := by
    simp only [peekByte, StateT.run_bind, StateT.run_get, pure_bind, if_neg (Nat.not_lt.mpr hfull)]
    rfl
  rw [takeByte, run_bind_eq, hpeek]
  rfl

theorem Stalled.peek (hw : Stalled (n + 1) owned w) :
    Yields w peekByte fun _ => Stalled (n + 1) owned := by
  have hroom := hw.room
  exact ⟨_, w, peekByte_run (by omega), hw⟩

theorem Stalled.take (hw : Stalled (n + 1) owned w) :
    Yields w takeByte fun _ => Stalled n owned := by
  have hroom := hw.room
  refine ⟨_, w.advance 1, takeByte_run (by omega), hw.bad, ?_, hw.owned⟩
  change w.buffer.curr + 1 + n ≤ w.buffer.size
  omega

theorem Stalled.setStatus {status : Nat} (hst : status ≠ 0) (hw : Stalled n owned w) :
    Yields w (Sanei.setStatus status) fun _ => Stalled n owned :=
  ⟨(), { w with status }, rfl, hst, hw.room, hw.owned⟩

theorem Listening.setStatus {status : Nat} (hst : status ≠ 0)
    (hw : Listening works n owned input w) :
    Yields w (Sanei.setStatus status) fun _ =>
      Stalled (w.buffer.size - w.buffer.curr) owned := by
  have hcurr := hw.decoding.sound.curr_le.trans hw.decoding.sound.end_le
  refine ⟨(), { w with status }, rfl, hst, ?_, hw.owned⟩
  exact (Nat.add_sub_cancel' hcurr).le

/-- The bytes asked for are there, where they were or from the start of the buffer on, or a read
failed or found the end of the stream. -/
theorem Listening.space (hw : Listening works n owned input w) {howmuch : Nat}
    (hhowmuch : howmuch ≤ 4) :
    Yields w (modify (saneiWSpace howmuch) : WireM Unit) fun _ w' =>
      Stalled 8 owned w' ∧ (works → input.length < howmuch) ∨
      Listening works howmuch owned input w' ∧ w'.buffer.size = w.buffer.size ∧
        if w.buffer.endPos < w.buffer.curr + howmuch then w'.buffer.curr = 0 else w' = w := by
  obtain ⟨hrec, hsound, hdone⟩ := saneiWSpace_decode hw.decoding.direction hw.decoding.sound howmuch
  have howned : ∀ a ∈ owned, a ∈ (saneiWSpace howmuch w).heap.live := by
    rw [hrec.eq]
    exact hw.owned
  have hcurr : if w.buffer.endPos < w.buffer.curr + howmuch then
      (saneiWSpace howmuch w).buffer.curr = 0 else saneiWSpace howmuch w = w := by
    rw [saneiWSpace_decode_eq hw.decoding.direction hw.decoding.sound hw.fine howmuch]
    split_ifs
    · have hend : w.compact.buffer.endPos ≤ w.compact.buffer.size :=
        (Nat.sub_le ..).trans hw.decoding.sound.end_le
      exact (recvLoop_received (w := w.compact) rfl hend (by omega)).2.1
    · rfl
  refine ⟨(), saneiWSpace howmuch w, rfl, ?_⟩
  by_cases hst : (saneiWSpace howmuch w).status = 0
  · right
    refine ⟨⟨⟨?_, hsound⟩, hst, hrec.size.symm ▸ hw.roomy, (hdone hst).2, howned, ?_,
      hrec.input.trans hw.input⟩, hrec.size, hcurr⟩
    · rw [hrec.eq]
      exact hw.decoding.direction
    · intro hworks i
      rw [hrec.reads]
      exact hw.reads hworks i
  · left
    refine ⟨⟨hst, ?_, howned⟩, ?_⟩
    · have hroomy := hw.roomy
      split_ifs at hcurr
      · rw [hcurr, hrec.size]
        omega
      · rw [hcurr] at hst
        exact absurd hw.fine hst
    · intro hworks
      by_contra hlong
      apply hst
      apply saneiWSpace_decode_status hw.decoding.direction hw.decoding.sound hw.fine
        (hw.reads hworks) (hhowmuch.trans hw.decoding.sound.word_le)
      rw [hw.input]
      exact Nat.le_of_not_lt hlong

/-- The input of a wire with a byte in the buffer starts with that byte. -/
theorem Listening.input_eq (hw : Listening works (n + 1) owned input w) :
    input = w.buffer.mem w.buffer.curr :: (w.advance 1).input := by
  have hready := hw.ready
  have hsplit := input_advance (w := w) (n := 1) (by omega)
  rw [hw.input] at hsplit
  exact hsplit.symm

theorem Listening.room (hw : Listening works (n + 1) owned input w) :
    w.buffer.curr < w.buffer.size := by
  have hready := hw.ready
  have hend := hw.decoding.sound.end_le
  omega

theorem Listening.advance {c : UInt8} (hw : Listening works (n + 1) owned (c :: input) w) :
    Listening works n owned input (w.advance 1) := by
  have hready := hw.ready
  obtain ⟨-, hrest⟩ := List.cons.inj hw.input_eq
  refine ⟨⟨hw.decoding.direction, hw.decoding.sound.advance (by omega)⟩, hw.fine, hw.roomy, ?_,
    hw.owned, hw.reads, hrest.symm⟩
  change w.buffer.curr + 1 + n ≤ w.buffer.endPos
  omega

theorem Listening.peek (hw : Listening works (n + 1) owned input w) :
    Yields w peekByte fun c w' => w' = w ∧ ∃ rest, input = c :: rest :=
  ⟨_, w, peekByte_run hw.room, rfl, _, hw.input_eq⟩

theorem Listening.take (hw : Listening works (n + 1) owned input w) :
    Yields w takeByte fun c w' =>
      w' = w.advance 1 ∧ ∃ rest, input = c :: rest ∧ Listening works n owned rest w' := by
  refine ⟨_, w.advance 1, takeByte_run hw.room, rfl, _, hw.input_eq, ?_⟩
  have hw' := hw
  rw [hw.input_eq] at hw'
  exact hw'.advance

theorem Listening.byteTurns_eq (hw : Listening works n owned input w) :
    byteTurns w = input.length + 1 := by
  rw [← hw.input]
  simp [byteTurns, Wire.input, WireBuffer.window]

/-! ## White space -/

def afterSpace (stream : List UInt8) : List UInt8 := stream.dropWhile isSpace

/-- The number of white space characters in front. -/
def spaces (stream : List UInt8) : Nat := (stream.takeWhile isSpace).length

theorem afterSpace_cons_space {c : UInt8} {rest : List UInt8} (hc : isSpace c) :
    afterSpace (c :: rest) = afterSpace rest := List.dropWhile_cons_of_pos hc

theorem afterSpace_cons {c : UInt8} {rest : List UInt8} (hc : ¬ isSpace c) :
    afterSpace (c :: rest) = c :: rest := List.dropWhile_cons_of_neg hc

/-- From `w` to `w'` the position came to the byte `k` of the input. -/
def Placed (k : Nat) (w w' : Wire) : Prop :=
  w'.buffer.size = w.buffer.size ∧
    if k < w.buffer.endPos - w.buffer.curr then w'.buffer.curr = w.buffer.curr + k
    else w'.buffer.curr ≤ k - (w.buffer.endPos - w.buffer.curr)

theorem Listening.skipWsLoop {fuel : Nat} (hw : Listening works n owned input w)
    (hfuel : input.length < fuel) :
    Yields w (Sanei.skipWsLoop fuel) fun _ w' =>
      Stalled 8 owned w' ∧ (works → afterSpace input = []) ∨
      Listening works 1 owned (afterSpace input) w' ∧ Placed (spaces input) w w' := by
  induction fuel generalizing n input w with
  | zero => omega
  | succ fuel ih =>
      apply (hw.space (by decide)).bind
      rintro _ w₁ (⟨hw₁, hend⟩ | ⟨hw₁, hsize, hcurr⟩)
      · apply Yields.get_bind
        rw [if_pos hw₁.bad]
        refine .pure (.inl ⟨hw₁, fun hworks => ?_⟩)
        have hnil := List.length_eq_zero_iff.mp (Nat.lt_one_iff.mp (hend hworks))
        rw [hnil]
        rfl
      · apply Yields.get_bind
        rw [if_neg (not_not.mpr hw₁.fine)]
        apply hw₁.peek.bind
        rintro c w₁ ⟨rfl, rest, rfl⟩
        by_cases hspace : isSpace c
        · rw [if_pos hspace, afterSpace_cons_space hspace]
          apply hw₁.take.bind
          rintro c' w₂ ⟨rfl, rest', hrest, hw₂⟩
          cases hrest
          apply (ih hw₂ (Nat.lt_of_succ_lt_succ hfuel)).conseq
          rintro _ w' (hw' | ⟨hw', hsize', hplace⟩)
          · exact .inl hw'
          · refine .inr ⟨hw', hsize'.trans hsize, ?_⟩
            have hspaces : spaces (c :: rest) = spaces rest + 1 := by
              simp [spaces, hspace]
            have hready := hw₁.ready
            change (if spaces rest < w₁.buffer.endPos - (w₁.buffer.curr + 1) then
              w'.buffer.curr = w₁.buffer.curr + 1 + spaces rest else
              w'.buffer.curr ≤ spaces rest - (w₁.buffer.endPos - (w₁.buffer.curr + 1))) at hplace
            rw [hspaces]
            by_cases hempty : w.buffer.endPos < w.buffer.curr + 1
            · rw [if_pos hempty] at hcurr
              rw [if_neg (by omega)]
              split_ifs at hplace <;> omega
            · rw [if_neg hempty] at hcurr
              subst hcurr
              split_ifs at hplace ⊢ <;> omega
        · rw [if_neg hspace, afterSpace_cons hspace]
          refine .pure (.inr ⟨hw₁, hsize, ?_⟩)
          have hspaces : spaces (c :: rest) = 0 := by simp [spaces, hspace]
          rw [hspaces]
          by_cases hempty : w.buffer.endPos < w.buffer.curr + 1
          · rw [if_pos hempty] at hcurr
            rw [if_neg (by omega), hcurr]
            exact Nat.zero_le _
          · rw [if_neg hempty] at hcurr
            rw [if_pos (by omega), hcurr]
            rfl

theorem Listening.skipWs (hw : Listening works n owned input w) :
    Yields w Sanei.skipWs fun _ w' =>
      Stalled 8 owned w' ∧ (works → afterSpace input = []) ∨
      Listening works 1 owned (afterSpace input) w' ∧ Placed (spaces input) w w' := by
  apply Yields.get_bind
  rw [hw.byteTurns_eq]
  exact hw.skipWsLoop (Nat.lt_succ_self _)

/-! ## The last cell of the buffer -/

/-- The first `limit` reads deliver one byte each, and the others all that fits. -/
def singlesThenAll (limit size i : Nat) : IoEvent := .moved (if i < limit then 0 else size)

/-- With these reads the byte `k` of the input comes into the last cell: it will be the last of
the bytes that the first large read delivers, or is in the buffer. -/
def Aimed (limit k : Nat) (w : Wire) : Prop :=
  w.io.nreads ≤ limit ∧
      k + w.io.nreads + 1 = w.buffer.endPos - w.buffer.curr + limit + w.buffer.size ∨
    k < w.buffer.endPos - w.buffer.curr ∧ w.buffer.curr + k + 1 = w.buffer.size

theorem Listening.space_works (hw : Listening True n owned input w) {howmuch : Nat}
    (hhowmuch : howmuch ≤ 4) (hlength : howmuch ≤ input.length) :
    Listening True howmuch owned input (saneiWSpace howmuch w) := by
  obtain ⟨_, w', hrun, hw'⟩ := hw.space hhowmuch
  cases hrun
  obtain ⟨-, hshort⟩ | ⟨hlistening, -⟩ := hw'
  · exact absurd (hshort trivial) (Nat.not_lt.mpr hlength)
  · exact hlistening

/-- A byte is asked for when there is none in the buffer. -/
theorem space_refill (hw : Listening works n owned input w) (hinput : input ≠ [])
    (hempty : w.buffer.endPos ≤ w.buffer.curr) {atMost : Nat}
    (hread : w.io.reads w.io.nreads = .moved atMost) :
    saneiWSpace 1 w = w.compact.receive (min (atMost + 1) w.buffer.size) := by
  have hnone : w.buffer.endPos - w.buffer.curr = 0 := by omega
  have hincoming : w.io.incoming ≠ [] := by
    have hall := hw.input
    rw [Wire.input, WireBuffer.window, hnone, slice_zero, List.nil_append] at hall
    rw [hall]
    exact hinput
  have hroomy := hw.roomy
  rw [saneiWSpace_decode_eq hw.decoding.direction hw.decoding.sound hw.fine, if_pos (by omega),
    recvLoop_succ]
  have hread' : w.compact.io.reads w.compact.io.nreads = .moved atMost := hread
  have hroom : w.compact.buffer.size - w.compact.buffer.endPos = w.buffer.size := by
    change w.buffer.size - (w.buffer.endPos - w.buffer.curr) = w.buffer.size
    omega
  rw [hread']
  dsimp only
  rw [hroom]
  have hgot : w.compact.io.incoming.take (min (atMost + 1) w.buffer.size) ≠ [] := by
    apply List.ne_nil_of_length_pos
    have hpos := List.length_pos_iff.mpr hincoming
    rw [List.length_take]
    change 0 < min _ w.io.incoming.length
    omega
  have hfull := receive_endPos_lt hgot
  rw [if_neg hgot, if_neg (by omega)]

/-- Asking for a byte keeps the aim. -/
theorem Aimed.space {limit : Nat} (hw : Listening True n owned input w) (hk : k < input.length)
    (hreads : w.io.reads = singlesThenAll limit w.buffer.size) (haim : Aimed limit k w) :
    Aimed limit k (saneiWSpace 1 w) ∧
      (saneiWSpace 1 w).io.reads = singlesThenAll limit (saneiWSpace 1 w).buffer.size := by
  by_cases hempty : w.buffer.endPos ≤ w.buffer.curr
  · have hnone : w.buffer.endPos - w.buffer.curr = 0 := by omega
    obtain ⟨hle, hcount⟩ : w.io.nreads ≤ limit ∧
        k + w.io.nreads + 1 = limit + w.buffer.size := by
      rcases haim with ⟨hle, hcount⟩ | ⟨hlt, -⟩
      · exact ⟨hle, by omega⟩
      · omega
    have hlength : w.io.incoming.length = input.length := by
      have hall := hw.input
      rw [Wire.input, WireBuffer.window, hnone, slice_zero, List.nil_append] at hall
      rw [hall]
    have hinput : input ≠ [] := List.ne_nil_of_length_pos (by omega)
    have hread : w.io.reads w.io.nreads =
        .moved (if w.io.nreads < limit then 0 else w.buffer.size) := by
      rw [hreads]
      rfl
    have hroomy := hw.roomy
    rw [space_refill hw hinput hempty hread]
    refine ⟨?_, hreads⟩
    have hend : ∀ m, (w.compact.receive m).buffer.endPos = min m input.length := by
      intro m
      change (w.buffer.endPos - w.buffer.curr) + (w.io.incoming.take m).length = _
      rw [hnone, List.length_take, hlength, Nat.zero_add]
    unfold Aimed
    rw [hend]
    change (w.io.nreads + 1 ≤ limit ∧ k + (w.io.nreads + 1) + 1 = _ - 0 + limit + w.buffer.size) ∨
      (k < _ - 0 ∧ 0 + k + 1 = w.buffer.size)
    split_ifs with hsingle
    · left
      omega
    · right
      omega
  · have hsame : saneiWSpace 1 w = w := by
      rw [saneiWSpace_decode_eq hw.decoding.direction hw.decoding.sound hw.fine, if_neg (by omega)]
    rw [hsame]
    exact ⟨haim, hreads⟩

theorem Aimed.skipWsLoop {limit fuel : Nat} (hw : Listening True n owned input w)
    (hreads : w.io.reads = singlesThenAll limit w.buffer.size) (hafter : afterSpace input ≠ [])
    (haim : Aimed limit (spaces input) w) (hfuel : input.length < fuel) :
    Yields w (Sanei.skipWsLoop fuel) fun _ w' =>
      Listening True 1 owned (afterSpace input) w' ∧ w'.buffer.curr + 1 = w'.buffer.size := by
  induction fuel generalizing n input w with
  | zero => omega
  | succ fuel ih =>
      have hsplit :
          (input.takeWhile isSpace).length + (afterSpace input).length = input.length := by
        rw [← List.length_append, afterSpace, List.takeWhile_append_dropWhile]
      have hpos := List.length_pos_iff.mpr hafter
      have hk : spaces input < input.length := by
        unfold spaces
        omega
      have hw₁ := hw.space_works (by decide : 1 ≤ 4) (by omega)
      obtain ⟨haim₁, hreads₁⟩ := haim.space hw hk hreads
      apply Yields.bind (P := fun _ w' => w' = saneiWSpace 1 w) ⟨(), _, rfl, rfl⟩
      rintro _ _ rfl
      generalize saneiWSpace 1 w = w₁ at hw₁ haim₁ hreads₁
      apply Yields.get_bind
      rw [if_neg (not_not.mpr hw₁.fine)]
      apply hw₁.peek.bind
      rintro c w₁ ⟨rfl, rest, rfl⟩
      by_cases hspace : isSpace c
      · rw [if_pos hspace]
        rw [afterSpace_cons_space hspace] at hafter ⊢
        apply hw₁.take.bind
        rintro c' w₂ ⟨rfl, rest', hrest, hw₂⟩
        cases hrest
        apply ih hw₂ hreads₁ hafter _ (Nat.lt_of_succ_lt_succ hfuel)
        have hspaces : spaces (c :: rest) = spaces rest + 1 := by simp [spaces, hspace]
        have hready := hw₁.ready
        rw [hspaces] at haim₁
        change _ ∧ _ = w₁.buffer.endPos - (w₁.buffer.curr + 1) + limit + w₁.buffer.size ∨
          _ < w₁.buffer.endPos - (w₁.buffer.curr + 1) ∧ w₁.buffer.curr + 1 + _ + 1 = w₁.buffer.size
        change w₁.io.nreads ≤ limit ∧ _ + w₁.io.nreads + 1 = _ ∨ _
        unfold Aimed at haim₁
        omega
      · rw [if_neg hspace]
        rw [afterSpace_cons hspace]
        have hspaces : spaces (c :: rest) = 0 := by simp [spaces, hspace]
        have hready := hw₁.ready
        have hroomy := hw₁.roomy
        rw [hspaces] at haim₁
        unfold Aimed at haim₁
        exact .pure ⟨hw₁, by omega⟩

end SaneBackends.Sanei
