import SaneBackends.Lib.Memory
import SaneBackends.Sanei.CodecBin
/-!
# The buffer of the wire

What `sanei_w_space` does to the bytes on their way. Encoding keeps the bytes sent
and those still in the buffer in one sequence; decoding takes bytes off a sequence
that the buffer and the peer hold together.
-/

namespace SaneBackends.Sanei

open SaneBackends.Lib

/-- The positions and the size fit the arithmetic of `sanei_w_space`. -/
structure WireBuffer.Sound (b : WireBuffer) : Prop where
  curr_le : b.curr ≤ b.endPos
  end_le : b.endPos ≤ b.size
  word_le : 4 ≤ b.size
  size_le : b.size ≤ intMax

/-- The bytes received and not yet decoded. -/
def WireBuffer.window (b : WireBuffer) : List UInt8 := slice b.mem b.curr (b.endPos - b.curr)

/-- The bytes yet to be decoded. -/
def Wire.input (w : Wire) : List UInt8 := w.buffer.window ++ w.io.incoming

/-- The bytes encoded so far. -/
def Wire.output (w : Wire) : List UInt8 := w.io.sent ++ slice w.buffer.mem 0 w.buffer.curr

/-- `w'` differs from `w` at most in the status, the buffer and the input side. -/
structure Received (w w' : Wire) : Prop where
  eq : w' = { w with status := w'.status, buffer := w'.buffer, io := w'.io }
  size : w'.buffer.size = w.buffer.size
  input : w'.input = w.input
  io : w'.io = { w.io with nreads := w'.io.nreads, incoming := w'.io.incoming }

theorem Received.refl (w : Wire) : Received w w := ⟨rfl, rfl, rfl, rfl⟩

theorem Received.trans {w w' w'' : Wire} (h : Received w w') (h' : Received w' w'') :
    Received w w'' where
  eq := by
    rw [h'.eq, h.eq]
  size := h'.size.trans h.size
  input := h'.input.trans h.input
  io := by
    rw [h'.io, h.io]

theorem Received.reads {w w' : Wire} (h : Received w w') : w'.io.reads = w.io.reads := by
  rw [h.io]

/-- No call of `io.read` fails. -/
def ReadsWork (w : Wire) : Prop := ∀ i, ∃ n, w.io.reads i = .moved n

/-- The wire after `io.read` has delivered `n` bytes, or fewer at the end of the stream. -/
def Wire.receive (n : Nat) (w : Wire) : Wire :=
  { w with
    buffer := { w.buffer with
      mem := storeBlock w.buffer.mem w.buffer.endPos (w.io.incoming.take n)
      endPos := w.buffer.endPos + (w.io.incoming.take n).length }
    io := { w.io with
      nreads := w.io.nreads + 1
      incoming := w.io.incoming.drop (w.io.incoming.take n).length } }

theorem received_receive {w : Wire} (hcurr : w.buffer.curr ≤ w.buffer.endPos) (n : Nat) :
    Received w (w.receive n) where
  eq := rfl
  size := rfl
  io := rfl
  input := by
    have hwindow : (w.receive n).buffer.window = w.buffer.window ++ w.io.incoming.take n := by
      have happend := slice_storeBlock_append w.buffer.mem w.buffer.curr
        (w.buffer.endPos - w.buffer.curr) (w.io.incoming.take n)
      rw [Nat.add_sub_cancel' hcurr, ← Nat.sub_add_comm hcurr] at happend
      exact happend
    have hrest : (w.receive n).io.incoming = w.io.incoming.drop n := by
      change w.io.incoming.drop (w.io.incoming.take n).length = _
      rw [List.length_take]
      rcases Nat.le_total n w.io.incoming.length with h | h
      · rw [Nat.min_eq_left h]
      · rw [Nat.min_eq_right h, List.drop_length, List.drop_eq_nil_of_le h]
    rw [Wire.input, hwindow, hrest, List.append_assoc, List.take_append_drop]
    rfl

/-- One turn of the loop; `left_over` is where the received bytes end. -/
theorem recvLoop_succ (howmuch fuel : Nat) (w : Wire) :
    recvLoop howmuch (fuel + 1) w.buffer.endPos w =
      match w.io.reads w.io.nreads with
      | .failed errno _ =>
          { w with status := errno, io := { w.io with nreads := w.io.nreads + 1 } }
      | .moved atMost =>
          let n := min (atMost + 1) (w.buffer.size - w.buffer.endPos)
          if w.io.incoming.take n = [] then
            { w with status := einval, io := { w.io with nreads := w.io.nreads + 1 } }
          else if (w.receive n).buffer.endPos < howmuch then
            recvLoop howmuch fuel (w.receive n).buffer.endPos (w.receive n)
          else w.receive n := rfl

theorem receive_endPos_le {w : Wire} {n : Nat} (hn : w.buffer.endPos + n ≤ w.buffer.size) :
    (w.receive n).buffer.endPos ≤ (w.receive n).buffer.size := by
  have hle := List.length_take_le n w.io.incoming
  change w.buffer.endPos + (w.io.incoming.take n).length ≤ w.buffer.size
  omega

theorem receive_endPos_lt {w : Wire} {n : Nat} (hsome : w.io.incoming.take n ≠ []) :
    w.buffer.endPos < (w.receive n).buffer.endPos := by
  have hlen := List.length_pos_iff.mpr hsome
  change w.buffer.endPos < w.buffer.endPos + (w.io.incoming.take n).length
  omega

theorem recvLoop_received {howmuch fuel : Nat} {w : Wire} (hcurr : w.buffer.curr = 0)
    (hsize : w.buffer.endPos ≤ w.buffer.size) (hfuel : howmuch < w.buffer.endPos + fuel) :
    Received w (recvLoop howmuch fuel w.buffer.endPos w) ∧
      (recvLoop howmuch fuel w.buffer.endPos w).buffer.curr = 0 ∧
      (recvLoop howmuch fuel w.buffer.endPos w).buffer.endPos ≤ w.buffer.size ∧
      ((recvLoop howmuch fuel w.buffer.endPos w).status = 0 →
        howmuch ≤ (recvLoop howmuch fuel w.buffer.endPos w).buffer.endPos) := by
  induction fuel generalizing w with
  | zero => exact ⟨.refl w, hcurr, hsize, fun _ => Nat.le_of_lt hfuel⟩
  | succ fuel ih =>
      rw [recvLoop_succ]
      cases w.io.reads w.io.nreads with
      | failed errno hpos =>
          refine ⟨⟨rfl, rfl, rfl, rfl⟩, hcurr, hsize, fun hst => ?_⟩
          exact absurd hst (Nat.pos_iff_ne_zero.mp hpos)
      | moved atMost =>
          dsimp only
          have hn : w.buffer.endPos + min (atMost + 1) (w.buffer.size - w.buffer.endPos) ≤
              w.buffer.size := by omega
          generalize min (atMost + 1) (w.buffer.size - w.buffer.endPos) = n at hn ⊢
          have hstep := received_receive (by omega : w.buffer.curr ≤ w.buffer.endPos) n
          split_ifs with hgot hmore
          · refine ⟨⟨rfl, rfl, rfl, rfl⟩, hcurr, hsize, fun hst => ?_⟩
            change einval = 0 at hst
            exact absurd hst (by decide)
          · have hlt := receive_endPos_lt hgot
            have hrest := ih (w := w.receive n) hcurr (receive_endPos_le hn) (by omega)
            exact ⟨hstep.trans hrest.1, hrest.2⟩
          · exact ⟨hstep, hcurr, receive_endPos_le hn, fun _ => Nat.le_of_not_lt hmore⟩

/-- The loop succeeds if reads work and the bytes it waits for are there. -/
theorem recvLoop_status {howmuch fuel : Nat} {w : Wire} (hcurr : w.buffer.curr = 0)
    (hok : w.status = 0) (hreads : ReadsWork w) (hmore : w.buffer.endPos < howmuch)
    (hsize : howmuch ≤ w.buffer.size) (hinput : howmuch ≤ w.input.length) :
    (recvLoop howmuch fuel w.buffer.endPos w).status = 0 := by
  induction fuel generalizing w with
  | zero => exact hok
  | succ fuel ih =>
      rw [recvLoop_succ]
      obtain ⟨atMost, hmoved⟩ := hreads w.io.nreads
      rw [hmoved]
      dsimp only
      have hlength : w.input.length = w.buffer.endPos + w.io.incoming.length := by
        simp [Wire.input, WireBuffer.window, hcurr]
      have hsome : w.io.incoming.take (min (atMost + 1) (w.buffer.size - w.buffer.endPos)) ≠ [] := by
        apply List.ne_nil_of_length_pos
        rw [List.length_take]
        omega
      generalize min (atMost + 1) (w.buffer.size - w.buffer.endPos) = n at hsome ⊢
      rw [if_neg hsome]
      have hstep := received_receive (by omega : w.buffer.curr ≤ w.buffer.endPos) n
      split_ifs with hagain
      · exact ih (w := w.receive n) hcurr hok hreads hagain hsize (hstep.input ▸ hinput)
      · exact hok

/-- The buffer with the unread bytes moved to its start. -/
def Wire.compact (w : Wire) : Wire :=
  { w with
    buffer := { w.buffer with
      mem := fun i =>
        if i < w.buffer.endPos - w.buffer.curr then w.buffer.mem (w.buffer.curr + i)
        else w.buffer.mem i
      curr := 0
      endPos := w.buffer.endPos - w.buffer.curr } }

theorem received_compact (w : Wire) : Received w w.compact where
  eq := rfl
  size := rfl
  io := rfl
  input := by
    have hwindow : w.compact.buffer.window = w.buffer.window := by
      apply slice_congr
      intro i hi
      have hi' : i < w.buffer.endPos - w.buffer.curr := hi
      change (if 0 + i < w.buffer.endPos - w.buffer.curr then
        w.buffer.mem (w.buffer.curr + (0 + i)) else _) = _
      rw [Nat.zero_add, if_pos hi']
    rw [Wire.input, hwindow]
    rfl

theorem saneiWSpace_decode_eq {w : Wire} (hdir : w.direction = .decode) (hsound : w.buffer.Sound)
    (hok : w.status = 0) (n : Nat) :
    saneiWSpace n w =
      if w.buffer.endPos < w.buffer.curr + n then
        recvLoop n (n + 1) w.compact.buffer.endPos w.compact
      else w := by
  have hsign : ¬ toInt32 ((w.buffer.endPos : Int) - w.buffer.curr) < 0 := by
    have hcurr := hsound.curr_le
    have hend := hsound.end_le
    have hsize := hsound.size_le
    rw [← Nat.cast_sub hcurr, toInt32_of_le (by omega)]
    omega
  rw [saneiWSpace, if_neg (not_not.mpr hok), hdir]
  dsimp only
  rw [if_neg hsign, Wire.compact, hdir]

/-- Decoding: the bytes asked for are in the buffer unless the status is bad. -/
theorem saneiWSpace_decode {w : Wire} (hdir : w.direction = .decode) (hsound : w.buffer.Sound)
    (n : Nat) :
    Received w (saneiWSpace n w) ∧ (saneiWSpace n w).buffer.Sound ∧
      ((saneiWSpace n w).status = 0 → w.status = 0 ∧
        (saneiWSpace n w).buffer.curr + n ≤ (saneiWSpace n w).buffer.endPos) := by
  by_cases hok : w.status = 0
  · rw [saneiWSpace_decode_eq hdir hsound hok]
    split_ifs with hmore
    · have hend : w.compact.buffer.endPos ≤ w.compact.buffer.size :=
        (Nat.sub_le ..).trans hsound.end_le
      obtain ⟨hrec, hcurr, hle, hdone⟩ := recvLoop_received (w := w.compact) rfl hend
        (by omega : n < w.compact.buffer.endPos + (n + 1))
      have hall := (received_compact w).trans hrec
      refine ⟨hall, ⟨hcurr ▸ Nat.zero_le _, ?_, ?_, ?_⟩, fun hst => ⟨hok, ?_⟩⟩
      · rw [hall.size]
        exact hle
      · rw [hall.size]
        exact hsound.word_le
      · rw [hall.size]
        exact hsound.size_le
      · rw [hcurr, Nat.zero_add]
        exact hdone hst
    · exact ⟨.refl w, hsound, fun _ => ⟨hok, Nat.le_of_not_lt hmore⟩⟩
  · have hsame : saneiWSpace n w = w := if_pos hok
    rw [hsame]
    exact ⟨.refl w, hsound, fun hst => absurd hst hok⟩

theorem saneiWSpace_decode_status {w : Wire} (hdir : w.direction = .decode)
    (hsound : w.buffer.Sound) (hok : w.status = 0) (hreads : ReadsWork w) {n : Nat}
    (hsize : n ≤ w.buffer.size) (hinput : n ≤ w.input.length) :
    (saneiWSpace n w).status = 0 := by
  rw [saneiWSpace_decode_eq hdir hsound hok]
  split_ifs with hmore
  · have hcompact : w.compact.buffer.endPos < n := by
      have hcurr := hsound.curr_le
      change w.buffer.endPos - w.buffer.curr < n
      omega
    exact recvLoop_status rfl hok hreads hcompact hsize ((received_compact w).input ▸ hinput)
  · exact hok

/-- The wire with the next `n` bytes taken or stored. -/
def Wire.advance (n : Nat) (w : Wire) : Wire :=
  { w with buffer := { w.buffer with curr := w.buffer.curr + n } }

theorem WireBuffer.Sound.advance {w : Wire} {n : Nat} (h : w.buffer.Sound)
    (hn : w.buffer.curr + n ≤ w.buffer.endPos) : (w.advance n).buffer.Sound :=
  ⟨hn, h.end_le, h.word_le, h.size_le⟩

/-- The bytes under the position are the next ones of the input. -/
theorem input_advance {w : Wire} {n : Nat} (hn : w.buffer.curr + n ≤ w.buffer.endPos) :
    slice w.buffer.mem w.buffer.curr n ++ (w.advance n).input = w.input := by
  have hsplit : w.buffer.endPos - w.buffer.curr = n + (w.buffer.endPos - (w.buffer.curr + n)) := by
    omega
  rw [Wire.input, Wire.input, WireBuffer.window, WireBuffer.window, hsplit, slice_add,
    List.append_assoc]
  rfl

theorem takeBytes_run {w : Wire} {n : Nat} (hroom : w.buffer.curr + n ≤ w.buffer.size) :
    (takeBytes n).run w = .ok (slice w.buffer.mem w.buffer.curr n, w.advance n) := by
  simp only [takeBytes, StateT.run_bind, StateT.run_get, pure_bind, if_neg (Nat.not_lt.mpr hroom)]
  rfl

/-- A scalar is decoded from the bytes at the position, once they are there. -/
theorem binWScalar_run_decode {α : Type} {n : Nat} (put : α → List UInt8)
    (peek : List UInt8 → α) (x : α) {w : Wire} (hdir : w.direction = .decode)
    (hsound : w.buffer.Sound) (hst : (saneiWSpace n w).status = 0) :
    ((binWScalar n put peek).run x).run w =
      .ok (peek (slice (saneiWSpace n w).buffer.mem (saneiWSpace n w).buffer.curr n),
        (saneiWSpace n w).advance n) := by
  obtain ⟨hrec, hsound', hdone⟩ := saneiWSpace_decode hdir hsound n
  have hdir' : (saneiWSpace n w).direction = .decode := by
    rw [hrec.eq]
    exact hdir
  have hroom : (saneiWSpace n w).buffer.curr + n ≤ (saneiWSpace n w).buffer.size :=
    (hdone hst).2.trans hsound'.end_le
  simp [binWScalar, hst, hdir', takeBytes_run hroom]

/-- No call of `io.write` fails. -/
def WritesWork (w : Wire) : Prop := ∀ i, ∃ n, w.io.writes i = .moved n

def IoEvent.Fails (e : IoEvent) : Prop := ∃ errno hpos, e = .failed errno hpos

/-- From `w` to `w'` at most `bytes` were encoded: all of them if the status is good,
and otherwise, from the write on that failed, none. -/
structure Poured (bytes : List UInt8) (w w' : Wire) : Prop where
  eq : w' = { w with status := w'.status, buffer := w'.buffer, io := w'.io }
  size : w'.buffer.size = w.buffer.size
  io : w'.io = { w.io with nwrites := w'.io.nwrites, sent := w'.io.sent }
  nwrites : w.io.nwrites ≤ w'.io.nwrites
  idle : w'.io.nwrites = w.io.nwrites → w'.io.sent = w.io.sent
  stuck : w.status ≠ 0 → w' = w
  done : w'.status = 0 → w'.output = w.output ++ bytes
  cut : w.status = 0 → w'.status ≠ 0 → w'.io.sent <+: w.output ++ bytes
  failed : w.status = 0 → w'.status ≠ 0 →
    w.io.nwrites < w'.io.nwrites ∧ (w.io.writes (w'.io.nwrites - 1)).Fails
  unsent : w.status = 0 → w'.status ≠ 0 → w'.io.nwrites = w.io.nwrites + 1 →
    w'.io.sent = w.io.sent ∧ w'.buffer.curr = 0

namespace Poured

variable {bytes bytes' : List UInt8} {w w' w'' : Wire}

theorem refl (w : Wire) : Poured [] w w where
  eq := rfl
  size := rfl
  io := rfl
  nwrites := Nat.le_refl _
  idle _ := rfl
  stuck _ := rfl
  done _ := (List.append_nil _).symm
  cut hok hbad := absurd hok hbad
  failed hok hbad := absurd hok hbad
  unsent hok hbad := absurd hok hbad

/-- A wire in a bad status takes nothing, whatever was to be encoded. -/
theorem of_bad (hbad : w.status ≠ 0) : Poured bytes w w where
  eq := rfl
  size := rfl
  io := rfl
  nwrites := Nat.le_refl _
  idle _ := rfl
  stuck _ := rfl
  done hok := absurd hok hbad
  cut hok := absurd hok hbad
  failed hok := absurd hok hbad
  unsent hok := absurd hok hbad

theorem fine (h : Poured bytes w w') (hok : w'.status = 0) : w.status = 0 := by
  by_contra hbad
  rw [h.stuck hbad] at hok
  exact hbad hok

theorem writes_eq (h : Poured bytes w w') : w'.io.writes = w.io.writes := by
  rw [h.io]

theorem trans (h : Poured bytes w w') (h' : Poured bytes' w' w'') :
    Poured (bytes ++ bytes') w w'' := by
  by_cases hmid : w'.status = 0
  · have hok := h.fine hmid
    have hout := h.done hmid
    have hle := h.nwrites
    have hle' := h'.nwrites
    constructor
    · rw [h'.eq, h.eq]
    · exact h'.size.trans h.size
    · rw [h'.io, h.io]
    · omega
    · intro hidle
      rw [h'.idle (by omega), h.idle (by omega)]
    · exact fun hbad => absurd hok hbad
    · intro hfine
      rw [h'.done hfine, hout, List.append_assoc]
    · intro _ hbad
      rw [← List.append_assoc, ← hout]
      exact h'.cut hmid hbad
    · intro _ hbad
      obtain ⟨hlt, hfails⟩ := h'.failed hmid hbad
      rw [h.writes_eq] at hfails
      exact ⟨by omega, hfails⟩
    · intro _ hbad hfirst
      have hlt := (h'.failed hmid hbad).1
      obtain ⟨hsent, hcurr⟩ := h'.unsent hmid hbad (by omega)
      exact ⟨hsent.trans (h.idle (by omega)), hcurr⟩
  · obtain rfl := h'.stuck hmid
    refine ⟨h.eq, h.size, h.io, h.nwrites, h.idle, h.stuck, fun hok => absurd hok hmid, ?_, h.failed,
      h.unsent⟩
    intro hok hbad
    rw [← List.append_assoc]
    exact (h.cut hok hbad).trans (List.prefix_append ..)

/-- With writes that work the status stays good. -/
theorem works (h : Poured bytes w w') (hok : w.status = 0) (hwrites : WritesWork w) :
    w'.status = 0 := by
  by_contra hbad
  obtain ⟨errno, hpos, hfails⟩ := (h.failed hok hbad).2
  obtain ⟨n, hmoved⟩ := hwrites (w'.io.nwrites - 1)
  rw [hmoved] at hfails
  cases hfails

end Poured

/-- The wire after `io.write` has taken `n` bytes. -/
def Wire.transmit (n : Nat) (w : Wire) : Wire :=
  { w with
    buffer := { w.buffer with curr := w.buffer.curr + n }
    io := { w.io with
      nwrites := w.io.nwrites + 1
      sent := w.io.sent ++ slice w.buffer.mem w.buffer.curr n } }

theorem sendLoop_succ (fuel nbytes : Nat) (w : Wire) :
    sendLoop (fuel + 1) nbytes w =
      if nbytes = 0 then w
      else
        match w.io.writes w.io.nwrites with
        | .failed errno _ =>
            { w with status := errno, io := { w.io with nwrites := w.io.nwrites + 1 } }
        | .moved atMost =>
            let n := min (atMost + 1) nbytes
            sendLoop fuel (nbytes - n) (w.transmit n) := rfl

/-- The wire after `n` writes took `k` bytes, the last one leaving the status `st`. -/
def Wire.sendMany (st n k : Nat) (w : Wire) : Wire :=
  { w with
    status := st
    buffer := { w.buffer with curr := w.buffer.curr + k }
    io := { w.io with
      nwrites := w.io.nwrites + n
      sent := w.io.sent ++ slice w.buffer.mem w.buffer.curr k } }

theorem sendMany_zero {w : Wire} (hok : w.status = 0) : w.sendMany 0 0 0 = w := by
  have hsame : { w with status := 0 } = w := by rw [← hok]
  rw [Wire.sendMany, slice_zero, List.append_nil]
  exact hsame

theorem sendMany_transmit (st n k m : Nat) (w : Wire) :
    (w.transmit m).sendMany st n k = w.sendMany st (n + 1) (m + k) := by
  simp only [Wire.transmit, Wire.sendMany, slice_add, List.append_assoc, Nat.add_assoc,
    Nat.add_comm 1 n]

/-- How the loop ends: all bytes taken, or a write failed. -/
inductive SendEnd (writes : Nat → IoEvent) (from' nbytes : Nat) : Nat → Nat → Nat → Prop where
  | done {n : Nat} (hidle : n = 0 → nbytes = 0) : SendEnd writes from' nbytes 0 n nbytes
  | failed {st n k : Nat} (hst : st ≠ 0) (hk : k ≤ nbytes) (hfails : (writes (from' + n)).Fails)
      (hfirst : n = 0 → k = 0) : SendEnd writes from' nbytes st (n + 1) k

theorem sendLoop_ends {fuel nbytes : Nat} {w : Wire} (hfuel : nbytes ≤ fuel) (hok : w.status = 0) :
    ∃ st n k, sendLoop fuel nbytes w = w.sendMany st n k ∧
      SendEnd w.io.writes w.io.nwrites nbytes st n k := by
  induction fuel generalizing w nbytes with
  | zero =>
      obtain rfl : nbytes = 0 := by omega
      exact ⟨0, 0, 0, (sendMany_zero hok).symm, .done fun _ => rfl⟩
  | succ fuel ih =>
      rw [sendLoop_succ]
      split_ifs with hzero
      · subst hzero
        exact ⟨0, 0, 0, (sendMany_zero hok).symm, .done fun _ => rfl⟩
      cases hanswer : w.io.writes w.io.nwrites with
      | failed errno hpos =>
          refine ⟨errno, 1, 0, ?_, .failed (Nat.pos_iff_ne_zero.mp hpos) (Nat.zero_le _)
            ⟨errno, hpos, hanswer⟩ fun _ => rfl⟩
          simp [Wire.sendMany]
      | moved atMost =>
          dsimp only
          have hle : min (atMost + 1) nbytes ≤ nbytes := Nat.min_le_right ..
          have hpos : 0 < min (atMost + 1) nbytes := by omega
          generalize min (atMost + 1) nbytes = m at hle hpos ⊢
          obtain ⟨st, n, k, hrun, hend⟩ := ih (w := w.transmit m) (by omega : nbytes - m ≤ fuel) hok
          refine ⟨st, n + 1, m + k, by rw [hrun, sendMany_transmit], ?_⟩
          cases hend with
          | done hidle =>
              rw [Nat.add_sub_cancel' hle]
              exact .done fun h => absurd h (Nat.succ_ne_zero n)
          | @failed st n k hst hk hfails hfirst =>
              refine .failed hst (by omega) ?_ fun h => absurd h (Nat.succ_ne_zero n)
              rw [← Nat.add_assoc, Nat.add_right_comm]
              exact hfails

def Wire.rewind (w : Wire) : Wire := { w with buffer := { w.buffer with curr := 0 } }

/-- The wire with the bytes of its buffer sent, if `io.write` takes them. -/
def Wire.drain (w : Wire) : Wire :=
  let w' := sendLoop w.buffer.curr w.buffer.curr w.rewind
  if w'.status ≠ 0 then w'
  else { w' with buffer := { w'.buffer with curr := 0, endPos := w'.buffer.size } }

theorem poured_drain {w : Wire} (hok : w.status = 0) :
    Poured [] w w.drain ∧ w.drain.buffer.curr ≤ w.buffer.curr ∧
      (w.drain.buffer.endPos = w.buffer.size ∨ w.drain.buffer.endPos = w.buffer.endPos) ∧
      (w.drain.status = 0 → w.drain.buffer.curr = 0 ∧ w.drain.buffer.endPos = w.buffer.size) := by
  obtain ⟨st, n, k, hrun, hend⟩ := sendLoop_ends (w := w.rewind) (Nat.le_refl w.buffer.curr) hok
  unfold Wire.drain
  rw [hrun]
  dsimp only
  cases hend with
  | @done n hidle =>
      have hfine : (w.rewind.sendMany 0 n w.buffer.curr).status = 0 := rfl
      rw [if_neg (not_not.mpr hfine)]
      refine ⟨?_, Nat.zero_le _, .inl rfl, fun _ => ⟨rfl, rfl⟩⟩
      refine ⟨?_, rfl, rfl, Nat.le_add_right .., fun h => ?_, fun h => absurd hok h, fun _ => ?_,
        fun _ h => absurd rfl h, fun _ h => absurd rfl h, fun _ h => absurd rfl h⟩
      · rfl
      · have hn : n = 0 := Nat.left_eq_add.mp h.symm
        change w.io.sent ++ slice w.buffer.mem 0 w.buffer.curr = _
        rw [hidle hn, slice_zero, List.append_nil]
      · change (w.io.sent ++ slice w.buffer.mem 0 w.buffer.curr) ++ [] = w.output ++ []
        rw [Wire.output]
  | @failed st n k hst hk hfails hfirst =>
      have hbad : (w.rewind.sendMany st (n + 1) k).status ≠ 0 := hst
      rw [if_pos hbad]
      refine ⟨?_, ?_, .inr rfl, fun h => absurd h hst⟩
      · refine ⟨rfl, rfl, rfl, Nat.le_add_right .., fun h => ?_, fun h => absurd hok h,
          fun h => absurd h hst, fun _ _ => ?_, fun _ _ => ⟨?_, hfails⟩, fun _ _ h => ?_⟩
        · change w.io.nwrites + (n + 1) = w.io.nwrites at h
          omega
        · change w.io.sent ++ slice w.buffer.mem 0 k <+: w.output ++ []
          rw [List.append_nil, Wire.output, List.prefix_append_right_inj,
            ← Nat.add_sub_cancel' hk, slice_add]
          exact List.prefix_append ..
        · change w.io.nwrites < w.io.nwrites + (n + 1)
          omega
        · change w.io.nwrites + (n + 1) = w.io.nwrites + 1 at h
          have hk0 := hfirst (by omega)
          refine ⟨?_, ?_⟩
          · change w.io.sent ++ slice w.buffer.mem 0 k = _
            rw [hk0, slice_zero, List.append_nil]
          · change 0 + k = 0
            omega
      · change 0 + k ≤ _
        omega

theorem saneiWSpace_encode_eq {w : Wire} (hdir : w.direction = .encode) (hok : w.status = 0)
    (n : Nat) :
    saneiWSpace n w = if w.buffer.endPos < w.buffer.curr + n then w.drain else w := by
  rw [saneiWSpace, if_neg (not_not.mpr hok), hdir]
  unfold Wire.drain Wire.rewind
  rw [hdir]

/-- Encoding: there is room for the bytes asked for unless the status is bad. -/
theorem saneiWSpace_encode {w : Wire} (hdir : w.direction = .encode) (hsound : w.buffer.Sound)
    (hend : w.buffer.endPos = w.buffer.size) (n : Nat) :
    Poured [] w (saneiWSpace n w) ∧ (saneiWSpace n w).buffer.Sound ∧
      (saneiWSpace n w).buffer.endPos = w.buffer.size ∧
      ((saneiWSpace n w).status = 0 →
        (w.buffer.size < n → (saneiWSpace n w).buffer.curr = 0) ∧
        (n ≤ w.buffer.size → (saneiWSpace n w).buffer.curr + n ≤ w.buffer.size)) := by
  by_cases hok : w.status = 0
  · rw [saneiWSpace_encode_eq hdir hok]
    split_ifs with hmore
    · obtain ⟨hpoured, hcurr, hend', hdone⟩ := poured_drain hok
      have hsize := hpoured.size
      have hle := hsound.curr_le
      refine ⟨hpoured, ⟨by omega, by omega, hsize ▸ hsound.word_le, hsize ▸ hsound.size_le⟩,
        by omega, fun hst => ?_⟩
      obtain ⟨hzero, -⟩ := hdone hst
      exact ⟨fun _ => hzero, fun hn => by omega⟩
    · exact ⟨.refl w, hsound, hend, fun _ => ⟨fun hn => by omega, fun hn => by omega⟩⟩
  · have hsame : saneiWSpace n w = w := if_pos hok
    rw [hsame]
    exact ⟨.refl w, hsound, hend, fun hst => absurd hst hok⟩

end SaneBackends.Sanei
