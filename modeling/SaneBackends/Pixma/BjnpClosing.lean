import SaneBackends.Lib.Segments
import SaneBackends.Pixma.Bjnp
/-!
# `pixma_bjnp.c`: the end of a connection

`sanei_bjnp_read_bulk` on a connection that delivers what the scanner sends in any segments and
then stalls, fails, or is closed by the scanner, from which on `recv` returns 0. A wait that is
interrupted is repeated at most three times and is not counted.
-/

namespace SaneBackends.Bjnp.Closing

open SaneBackends.Lib

/-- What the connection does behind the last byte. -/
inductive Ending where
  | stalls
  | fails
  | closes
  deriving DecidableEq, Repr

/-- The fields of `bjnp_device_t` behind reads; `sends` says which of the next requests can be
sent, and `announced` counts the bytes of payload that headers have announced. -/
structure Reader where
  serial : BitVec 16
  lastCmd : UInt8
  scannerDataLeft : Nat
  blocksize : Nat
  lastBlock : Bool
  sends : List Bool
  announced : Nat
  deriving DecidableEq, Repr

structure Connection where
  reader : Reader
  segments : List (Segment UInt8)
  ending : Ending

/-- All bytes that are still delivered. -/
def Connection.bytes (c : Connection) : List UInt8 := joined c.segments

/-! ## The calls -/

/-- `select` and `recv` of at most `len` bytes. -/
def Connection.recv (len : Nat) (c : Connection) : Option (List UInt8) × Connection :=
  if c.segments = [] then (if c.ending = .closes then some [] else none, c)
  else (some (takeSegment len c.segments).1, { c with segments := (takeSegment len c.segments).2 })

/-- `bjnp_send_read_request`, and whether it returns 0. -/
def Reader.request (r : Reader) : Bool × Reader :=
  (r.sends.headD true,
    { r with serial := r.serial + 1, lastCmd := cmdTcpReq, sends := r.sends.tail })

/-- The loop of `bjnp_recv_header`. Each turn adds to the header, so that `headerSize` turns are
enough. -/
def recvHeaderLoop : Nat → List UInt8 → Connection → Option (List UInt8) × Connection
  | 0, header, c => (if headerSize ≤ header.length then some header else none, c)
  | turns + 1, header, c =>
      if headerSize ≤ header.length then (some header, c)
      else
        match c.recv (headerSize - header.length) with
        | (none, c) => (none, c)
        | (some [], c) => (none, c)
        | (some (b :: bytes), c) => recvHeaderLoop turns (header ++ b :: bytes) c

/-- What is made of a header, in `bjnp_recv_header` and behind it. -/
def Reader.accept (r : Reader) (header : List UInt8) : Bool × Reader :=
  if cmdCode header ≠ r.lastCmd then (false, r)
  else if seqNo header ≠ r.serial.toNat then (false, r)
  else
    let left := payloadLen header
    let blocksize := max r.blocksize left
    (true, { r with
      scannerDataLeft := left, blocksize := blocksize,
      lastBlock := r.lastBlock || decide (left < blocksize), announced := r.announced + left })

/-- The part of the loop for a device with no data in flight, and whether it goes on. -/
def requestBlock (c : Connection) : Bool × Connection :=
  let requested := c.reader.request
  let c := { c with reader := requested.2 }
  if requested.1 then
    match recvHeaderLoop headerSize [] c with
    | (none, c) => (false, c)
    | (some header, c) =>
        ((c.reader.accept header).1, { c with reader := (c.reader.accept header).2 })
  else (false, c)

/-- `bjnp_recv_data`: the payload received. -/
def recvData (len : Nat) (c : Connection) : Option (List UInt8) × Connection :=
  if len = 0 then (some [], c) else c.recv (min len ssizeMax)

/-- A turn leaves the loop, with whether that is no error, or goes on. -/
inductive Turn where
  | leaves (good : Bool) (buffer : List UInt8) (c : Connection)
  | goesOn (buffer : List UInt8) (c : Connection)

/-- The part of a turn that reads payload. -/
def payloadPart (requested : Nat) (buffer : List UInt8) (c : Connection) : Turn :=
  match recvData (min c.reader.scannerDataLeft (requested - buffer.length)) c with
  | (none, c) => .leaves false buffer c
  | (some bytes, c) =>
      .goesOn (buffer ++ bytes) { c with
        reader := { c.reader with
          scannerDataLeft := c.reader.scannerDataLeft - bytes.length } }

/-- One turn of the loop of `sanei_bjnp_read_bulk`. -/
def readTurn (requested : Nat) (buffer : List UInt8) (c : Connection) : Turn :=
  if buffer.length < requested ∧ ¬(c.reader.lastBlock = true ∧ c.reader.scannerDataLeft = 0) then
    if c.reader.scannerDataLeft = 0 then
      if (requestBlock c).1 then payloadPart requested buffer (requestBlock c).2
      else .leaves false buffer (requestBlock c).2
    else payloadPart requested buffer c
  else .leaves true buffer c

/-- How the loop of `sanei_bjnp_read_bulk` was left. -/
structure BulkRead where
  good : Bool
  buffer : List UInt8
  connection : Connection

/-- The loop for some turns; `none` stands for one that goes on after them. -/
def readLoop (requested : Nat) : Nat → List UInt8 → Connection → Option BulkRead
  | 0, _, _ => none
  | turns + 1, buffer, c =>
      match readTurn requested buffer c with
      | .leaves good buffer c => some ⟨good, buffer, c⟩
      | .goesOn buffer c => readLoop requested turns buffer c

/-- `sanei_bjnp_read_bulk`: the status, with the bytes read. -/
def BulkRead.status (r : BulkRead) : Status :=
  if r.good then if r.buffer.length = 0 then .eof else .good else .ioError

/-! ## What is claimed of a call -/

/-- The call returns after finitely many turns. If payload is outstanding that will not come, there
is an error or less data than was announced to this call. -/
def ReadEnds (requested : Nat) (c : Connection) : Prop :=
  ∃ turns r, readLoop requested turns [] c = some r ∧
    (r.connection.bytes.length < r.connection.reader.scannerDataLeft →
      r.status = .ioError ∨ r.buffer.length + c.reader.announced <
        c.reader.scannerDataLeft + r.connection.reader.announced)

/-- The bytes end inside of a payload of which the call wants more. -/
inductive CutInside : Nat → Reader → List UInt8 → Prop where
  | here {wanted : Nat} {r : Reader} {bytes : List UInt8} :
      bytes.length < min r.scannerDataLeft wanted → CutInside wanted r bytes
  | payload {wanted n : Nat} {r : Reader} {bytes : List UInt8} :
      n = min r.scannerDataLeft wanted → 0 < n → n ≤ bytes.length →
      CutInside (wanted - n) { r with scannerDataLeft := r.scannerDataLeft - n } (bytes.drop n) →
      CutInside wanted r bytes
  | block {wanted : Nat} {r : Reader} {bytes : List UInt8} :
      0 < wanted → r.scannerDataLeft = 0 → r.lastBlock = false → r.request.1 = true →
      headerSize ≤ bytes.length → (r.request.2.accept (bytes.take headerSize)).1 = true →
      CutInside wanted (r.request.2.accept (bytes.take headerSize)).2 (bytes.drop headerSize) →
      CutInside wanted r bytes

/-! ## Receiving -/

def Turn.buffer : Turn → List UInt8
  | leaves _ buffer _ => buffer
  | goesOn buffer _ => buffer

def Turn.connection : Turn → Connection
  | leaves _ _ c => c
  | goesOn _ c => c

section Recv

variable {c : Connection} {r : Reader} {bytes : List UInt8} {wanted : Nat}

theorem bytes_nil_iff : c.bytes = [] ↔ c.segments = [] := joined_eq_nil_iff

/-- A `recv` takes at least one of the bytes that are to come. -/
theorem recv_bytes (hc : c.segments ≠ []) {len : Nat} (hlen : 0 < len) :
    ∃ b bytes c', c.recv len = (some (b :: bytes), c') ∧ c.bytes = b :: bytes ++ c'.bytes ∧
      (b :: bytes).length ≤ len ∧ c'.reader = c.reader ∧ c'.ending = c.ending := by
  have hne := takeSegment_ne_nil hlen hc
  have happend := takeSegment_append len c.segments
  have hle := takeSegment_length_le len c.segments
  obtain ⟨b, bytes, htaken⟩ := List.exists_cons_of_ne_nil hne
  rw [htaken] at happend hle
  refine ⟨b, bytes, { c with segments := (takeSegment len c.segments).2 }, ?_, happend.symm, hle,
    rfl, rfl⟩
  rw [Connection.recv, if_neg hc, htaken]

theorem recv_end (hc : c.segments = []) (len : Nat) :
    c.recv len = (if c.ending = .closes then some [] else none, c) := if_pos hc

/-- The header is received just if its bytes still come, in whatever segments. -/
theorem recvHeaderLoop_eq (turns : Nat) (header : List UInt8) (c : Connection)
    (hturns : headerSize ≤ header.length + turns) (hheader : header.length ≤ headerSize) :
    (headerSize ≤ header.length + c.bytes.length →
      ∃ c', recvHeaderLoop turns header c =
        (some (header ++ c.bytes.take (headerSize - header.length)), c') ∧
        c'.bytes = c.bytes.drop (headerSize - header.length) ∧ c'.reader = c.reader ∧
        c'.ending = c.ending) ∧
    (header.length + c.bytes.length < headerSize →
      ∃ c', recvHeaderLoop turns header c = (none, c') ∧ c'.reader = c.reader) := by
  induction turns generalizing header c with
  | zero =>
      have hfull : headerSize - header.length = 0 := by omega
      refine ⟨fun _ => ⟨c, ?_, ?_, rfl, rfl⟩, fun h => absurd h (by omega)⟩
      · rw [recvHeaderLoop, if_pos (by omega), hfull, List.take_zero, List.append_nil]
      · rw [hfull, List.drop_zero]
  | succ turns ih =>
      rw [recvHeaderLoop]
      by_cases hfull : headerSize ≤ header.length
      · have hnone : headerSize - header.length = 0 := by omega
        rw [if_pos hfull]
        refine ⟨fun _ => ⟨c, ?_, ?_, rfl, rfl⟩, fun h => absurd h (by omega)⟩
        · rw [hnone, List.take_zero, List.append_nil]
        · rw [hnone, List.drop_zero]
      rw [if_neg hfull]
      by_cases hc : c.segments = []
      · have hnil : c.bytes.length = 0 := by rw [bytes_nil_iff.mpr hc]; rfl
        rw [recv_end hc]
        refine ⟨fun h => absurd h (by omega), fun _ => ⟨c, ?_, rfl⟩⟩
        by_cases hcloses : c.ending = .closes
        · rw [if_pos hcloses]
        · rw [if_neg hcloses]
      · have hlen : 0 < headerSize - header.length := by omega
        obtain ⟨b, bytes, c', hrecv, hbytes, hle, hreader, hending⟩ := recv_bytes hc hlen
        rw [hrecv]
        have hlength : c.bytes.length = (b :: bytes).length + c'.bytes.length := by
          rw [hbytes, List.length_append]
        have hboth : (header ++ b :: bytes).length = header.length + (b :: bytes).length :=
          List.length_append
        have hpos : 0 < (b :: bytes).length := Nat.succ_pos _
        obtain ⟨hreceived, hmissing⟩ := ih (header ++ b :: bytes) c' (by omega) (by omega)
        constructor
        · intro h
          obtain ⟨c'', hloop, hrest, hreader', hending'⟩ := hreceived (by omega)
          have hsub : headerSize - header.length - (b :: bytes).length =
              headerSize - (header ++ b :: bytes).length := by omega
          refine ⟨c'', ?_, ?_, hreader'.trans hreader, hending'.trans hending⟩
          · dsimp only
            rw [hloop, hbytes, List.take_append, List.take_of_length_le hle, hsub,
              List.append_assoc]
          · rw [hrest, hbytes, List.drop_append, List.drop_of_length_le hle, hsub,
              List.nil_append]
        · intro h
          obtain ⟨c'', hloop, hreader'⟩ := hmissing (by omega)
          exact ⟨c'', hloop, hreader'.trans hreader⟩

/-! ## Where the bytes end -/

/-- Whether the bytes end inside of a payload does not depend on how much of it was taken. -/
theorem cutInside_taken {taken rest : List UInt8} (hwanted : 0 < wanted)
    (hleft : 0 < r.scannerDataLeft) (hle : taken.length ≤ min r.scannerDataLeft wanted) :
    CutInside wanted r (taken ++ rest) ↔
      CutInside (wanted - taken.length)
        { r with scannerDataLeft := r.scannerDataLeft - taken.length } rest := by
  have happend : (taken ++ rest).length = taken.length + rest.length := List.length_append
  constructor
  · intro h
    cases h with
    | here hlt =>
        refine .here ?_
        dsimp only
        omega
    | @payload _ n _ _ hn hpos hall hcut =>
        by_cases hend : taken.length = n
        · rw [← hend, List.drop_left] at hcut
          exact hcut
        · refine .payload (n := n - taken.length) ?_ (by omega) (by omega) ?_
          · dsimp only
            omega
          · have hrest : (taken ++ rest).drop n = rest.drop (n - taken.length) := by
              rw [List.drop_append, List.drop_of_length_le (by omega), List.nil_append]
            rw [hrest] at hcut
            dsimp only
            rw [show wanted - taken.length - (n - taken.length) = wanted - n by omega,
              show r.scannerDataLeft - taken.length - (n - taken.length) = r.scannerDataLeft - n
                by omega]
            exact hcut
    | block _ hzero => omega
  · intro h
    by_cases hend : taken.length = min r.scannerDataLeft wanted
    · refine .payload rfl (by omega) (by omega) ?_
      rw [← hend, List.drop_left]
      exact h
    cases h with
    | here hlt =>
        refine .here ?_
        dsimp only at hlt
        omega
    | @payload _ n _ _ hn hpos hall hcut =>
        dsimp only at hn hcut
        refine .payload (n := taken.length + n) (by omega) (by omega) (by omega) ?_
        have hrest : (taken ++ rest).drop (taken.length + n) = rest.drop n := by
          rw [← List.drop_drop, List.drop_left]
        rw [hrest, ← Nat.sub_sub, ← Nat.sub_sub]
        exact hcut
    | block _ hzero =>
        dsimp only at hzero
        omega

/-! ## One turn -/

/-- The connection is closed inside of a payload that is wanted. -/
def Cut (requested : Nat) (buffer : List UInt8) (c : Connection) : Prop :=
  c.ending = .closes ∧ CutInside (requested - buffer.length) c.reader c.bytes

section Payload

variable {requested : Nat} {buffer : List UInt8}

theorem payloadPart_none (h : c.reader.scannerDataLeft = 0) :
    payloadPart requested buffer c = .goesOn buffer c := by
  have hmin : min c.reader.scannerDataLeft (requested - buffer.length) = 0 := by omega
  rw [payloadPart, hmin]
  exact congrArg (Turn.goesOn · c) (List.append_nil buffer)

/-- `recv` is called. -/
theorem recvData_eq (hwanted : buffer.length < requested) (hleft : 0 < c.reader.scannerDataLeft) :
    ∃ len, 0 < len ∧ len ≤ min c.reader.scannerDataLeft (requested - buffer.length) ∧
      recvData (min c.reader.scannerDataLeft (requested - buffer.length)) c = c.recv len := by
  have hpos : 0 < min c.reader.scannerDataLeft (requested - buffer.length) := by omega
  refine ⟨_, ?_, Nat.min_le_left _ ssizeMax, if_neg (Nat.ne_of_gt hpos)⟩
  exact Nat.lt_min.mpr ⟨hpos, by decide⟩

/-- At the end of a connection that is closed, nothing is read and the loop goes on. -/
theorem payloadPart_closed (hwanted : buffer.length < requested) (hc : c.segments = [])
    (hcloses : c.ending = .closes) : payloadPart requested buffer c = .goesOn buffer c := by
  rcases Nat.eq_zero_or_pos c.reader.scannerDataLeft with hzero | hleft
  · exact payloadPart_none hzero
  obtain ⟨len, -, -, hrecv⟩ := recvData_eq hwanted hleft
  rw [payloadPart, hrecv, recv_end hc, if_pos hcloses]
  dsimp only [List.length_nil, Nat.sub_zero]
  rw [List.append_nil]

theorem payloadPart_fails (hwanted : buffer.length < requested) (hc : c.segments = [])
    (hleft : 0 < c.reader.scannerDataLeft) (hending : c.ending ≠ .closes) :
    payloadPart requested buffer c = .leaves false buffer c := by
  obtain ⟨len, -, -, hrecv⟩ := recvData_eq hwanted hleft
  rw [payloadPart, hrecv, recv_end hc, if_neg hending]

/-- Some bytes of the payload are taken. -/
theorem payloadPart_takes (hwanted : buffer.length < requested) (hc : c.segments ≠ [])
    (hleft : 0 < c.reader.scannerDataLeft) :
    ∃ taken c', taken ≠ [] ∧ payloadPart requested buffer c = .goesOn (buffer ++ taken) c' ∧
      c.bytes = taken ++ c'.bytes ∧
      taken.length ≤ min c.reader.scannerDataLeft (requested - buffer.length) ∧
      c'.reader = { c.reader with
        scannerDataLeft := c.reader.scannerDataLeft - taken.length } ∧
      c'.ending = c.ending := by
  obtain ⟨len, hlen, hmin, hrecv⟩ := recvData_eq hwanted hleft
  obtain ⟨b, bytes, c', htaken, hbytes, hle, hreader, hending⟩ := recv_bytes hc hlen
  refine ⟨b :: bytes, { c' with
      reader := { c'.reader with
        scannerDataLeft := c'.reader.scannerDataLeft - (b :: bytes).length } },
    List.cons_ne_nil _ _, ?_, hbytes, hle.trans hmin, ?_, hending⟩
  · rw [payloadPart, hrecv, htaken]
  · rw [hreader]

theorem wanted_append (requested : Nat) (buffer taken : List UInt8) :
    requested - (buffer ++ taken).length = requested - buffer.length - taken.length := by
  rw [List.length_append, Nat.sub_sub]

theorem payloadPart_cut (hwanted : buffer.length < requested) (hcut : Cut requested buffer c) :
    ∃ buffer' c', payloadPart requested buffer c = .goesOn buffer' c' ∧
      Cut requested buffer' c' := by
  by_cases hc : c.segments = []
  · exact ⟨buffer, c, payloadPart_closed hwanted hc hcut.1, hcut⟩
  rcases Nat.eq_zero_or_pos c.reader.scannerDataLeft with hzero | hleft
  · exact ⟨buffer, c, payloadPart_none hzero, hcut⟩
  obtain ⟨taken, c', -, hturn, hbytes, hle, hreader, hending⟩ :=
    payloadPart_takes hwanted hc hleft
  obtain ⟨hcloses, hinside⟩ := hcut
  rw [hbytes, cutInside_taken (Nat.sub_pos_of_lt hwanted) hleft hle, ← hreader,
    ← wanted_append] at hinside
  exact ⟨_, c', hturn, hending.trans hcloses, hinside⟩

/-- Elsewhere the part is the last one, takes bytes, or has nothing to take. -/
theorem payloadPart_uncut (hwanted : buffer.length < requested) (hcut : ¬ Cut requested buffer c) :
    payloadPart requested buffer c = .leaves false buffer c ∨
      payloadPart requested buffer c = .goesOn buffer c ∧ c.reader.scannerDataLeft = 0 ∨
      ∃ buffer' c', payloadPart requested buffer c = .goesOn buffer' c' ∧
        ¬ Cut requested buffer' c' ∧ c'.bytes.length < c.bytes.length := by
  rcases Nat.eq_zero_or_pos c.reader.scannerDataLeft with hzero | hleft
  · exact .inr (.inl ⟨payloadPart_none hzero, hzero⟩)
  by_cases hc : c.segments = []
  · refine .inl (payloadPart_fails hwanted hc hleft fun hcloses => hcut ⟨hcloses, .here ?_⟩)
    rw [bytes_nil_iff.mpr hc, List.length_nil]
    omega
  obtain ⟨taken, c', hne, hturn, hbytes, hle, hreader, hending⟩ :=
    payloadPart_takes hwanted hc hleft
  refine .inr (.inr ⟨_, c', hturn, ?_, ?_⟩)
  · rintro ⟨hcloses, hinside⟩
    rw [wanted_append, hreader, ← cutInside_taken (Nat.sub_pos_of_lt hwanted) hleft hle,
      ← hbytes] at hinside
    exact hcut ⟨hending.symm.trans hcloses, hinside⟩
  · have hpos := List.length_pos_iff.mpr hne
    rw [hbytes, List.length_append]
    omega

end Payload

/-- A request is answered just if it can be sent and a header that is accepted still comes. -/
theorem requestBlock_cases (c : Connection) :
    ((requestBlock c).1 = false ∧
      (requestBlock c).2.reader.scannerDataLeft = c.reader.scannerDataLeft ∧
      (requestBlock c).2.reader.announced = c.reader.announced ∧
      ¬ (c.reader.request.1 = true ∧ headerSize ≤ c.bytes.length ∧
        (c.reader.request.2.accept (c.bytes.take headerSize)).1 = true)) ∨
    ((requestBlock c).1 = true ∧ c.reader.request.1 = true ∧ headerSize ≤ c.bytes.length ∧
      (c.reader.request.2.accept (c.bytes.take headerSize)).1 = true ∧
      (requestBlock c).2.reader = (c.reader.request.2.accept (c.bytes.take headerSize)).2 ∧
      (requestBlock c).2.bytes = c.bytes.drop headerSize ∧
      (requestBlock c).2.ending = c.ending) := by
  rw [requestBlock]
  by_cases hsent : c.reader.request.1 = true
  · rw [if_pos hsent]
    obtain ⟨hreceived, hmissing⟩ := recvHeaderLoop_eq headerSize []
      { c with reader := c.reader.request.2 } (by decide) (by decide)
    by_cases hlength : headerSize ≤ c.bytes.length
    · obtain ⟨c', hloop, hrest, hreader, hending⟩ :=
        hreceived (by rw [List.length_nil, Nat.zero_add]; exact hlength)
      rw [hloop]
      dsimp only [List.nil_append, List.length_nil, Nat.sub_zero] at hrest hreader ⊢
      have hbytes : ({ c with reader := c.reader.request.2 } : Connection).bytes = c.bytes := rfl
      rw [hbytes] at hrest ⊢
      rw [hreader]
      cases haccept : (c.reader.request.2.accept (c.bytes.take headerSize)).1 with
      | true => exact .inr ⟨rfl, hsent, hlength, rfl, rfl, hrest, hending⟩
      | false =>
          have hsame : (c.reader.request.2.accept (c.bytes.take headerSize)).2 =
              c.reader.request.2 := by
            rw [Reader.accept] at haccept ⊢
            split_ifs at haccept ⊢ <;> rfl
          rw [hsame]
          exact .inl ⟨rfl, rfl, rfl, fun h => Bool.false_ne_true h.2.2⟩
    · obtain ⟨c', hloop, hreader⟩ :=
        hmissing (by rw [List.length_nil, Nat.zero_add]; exact Nat.lt_of_not_le hlength)
      rw [hloop]
      dsimp only at hreader ⊢
      rw [hreader]
      exact .inl ⟨rfl, rfl, rfl, fun h => hlength h.2.1⟩
  · rw [if_neg hsent]
    exact .inl ⟨rfl, rfl, rfl, fun h => hsent h.1⟩

section Turns

variable {requested : Nat} {buffer : List UInt8}

theorem cutInside_wanted (h : CutInside wanted r bytes) :
    0 < wanted ∧ ¬(r.lastBlock = true ∧ r.scannerDataLeft = 0) := by
  cases h with
  | here hlt => omega
  | payload hn hpos => omega
  | block hwanted _ hlast =>
      refine ⟨hwanted, fun h => ?_⟩
      rw [hlast] at h
      exact Bool.false_ne_true h.1

theorem readTurn_wanted (hwanted : buffer.length < requested)
    (hdata : ¬(c.reader.lastBlock = true ∧ c.reader.scannerDataLeft = 0)) :
    readTurn requested buffer c =
      if c.reader.scannerDataLeft = 0 then
        if (requestBlock c).1 then payloadPart requested buffer (requestBlock c).2
        else .leaves false buffer (requestBlock c).2
      else payloadPart requested buffer c := if_pos ⟨hwanted, hdata⟩

/-- A connection that is closed inside of a payload stays so, turn after turn. -/
theorem readTurn_cut (hcut : Cut requested buffer c) :
    ∃ buffer' c', readTurn requested buffer c = .goesOn buffer' c' ∧ Cut requested buffer' c' := by
  obtain ⟨hpos, hdata⟩ := cutInside_wanted hcut.2
  have hwanted : buffer.length < requested := Nat.lt_of_sub_pos hpos
  rw [readTurn_wanted hwanted hdata]
  by_cases hleft : c.reader.scannerDataLeft = 0
  · rw [if_pos hleft]
    obtain ⟨hcloses, hinside⟩ := hcut
    cases hinside with
    | here hlt => omega
    | payload hn hsome => omega
    | block _ _ _ hsent hlength haccept hnext =>
        rcases requestBlock_cases c with ⟨-, -, -, hnot⟩ |
          ⟨hgoes, -, -, -, hreader, hrest, hending⟩
        · exact absurd ⟨hsent, hlength, haccept⟩ hnot
        · rw [if_pos hgoes]
          rw [← hreader, ← hrest] at hnext
          exact payloadPart_cut hwanted ⟨hending.trans hcloses, hnext⟩
  · rw [if_neg hleft]
    exact payloadPart_cut hwanted hcut

/-- Elsewhere a turn is the last one or takes bytes. -/
theorem readTurn_uncut (hcut : ¬ Cut requested buffer c) :
    (∃ good buffer' c', readTurn requested buffer c = .leaves good buffer' c') ∨
      ∃ buffer' c', readTurn requested buffer c = .goesOn buffer' c' ∧
        ¬ Cut requested buffer' c' ∧ c'.bytes.length < c.bytes.length := by
  by_cases hmore : buffer.length < requested ∧
      ¬(c.reader.lastBlock = true ∧ c.reader.scannerDataLeft = 0)
  · obtain ⟨hwanted, hdata⟩ := hmore
    rw [readTurn_wanted hwanted hdata]
    by_cases hleft : c.reader.scannerDataLeft = 0
    · rw [if_pos hleft]
      rcases requestBlock_cases c with ⟨hstops, -⟩ |
        ⟨hgoes, hsent, hlength, haccept, hreader, hrest, hending⟩
      · rw [if_neg (by rw [hstops]; exact Bool.false_ne_true)]
        exact .inl ⟨false, buffer, _, rfl⟩
      rw [if_pos hgoes]
      have hlast : c.reader.lastBlock = false := by
        by_contra h
        exact hdata ⟨Bool.eq_true_of_not_eq_false h, hleft⟩
      have hnext : ¬ Cut requested buffer (requestBlock c).2 := by
        rintro ⟨hcloses, hinside⟩
        rw [hreader, hrest] at hinside
        exact hcut ⟨hending.symm.trans hcloses, .block (Nat.sub_pos_of_lt hwanted) hleft hlast
          hsent hlength haccept hinside⟩
      have hshort : (requestBlock c).2.bytes.length < c.bytes.length := by
        have hpos : 0 < headerSize := by decide
        rw [hrest, List.length_drop]
        omega
      rcases payloadPart_uncut hwanted hnext with hturn | ⟨hturn, -⟩ |
        ⟨buffer', c', hturn, hcut', hlt⟩
      · exact .inl ⟨false, buffer, _, hturn⟩
      · exact .inr ⟨buffer, _, hturn, hnext, hshort⟩
      · exact .inr ⟨buffer', c', hturn, hcut', hlt.trans hshort⟩
    · rw [if_neg hleft]
      rcases payloadPart_uncut hwanted hcut with hturn | ⟨-, hzero⟩ | hturn
      · exact .inl ⟨false, buffer, c, hturn⟩
      · exact absurd hzero hleft
      · exact .inr hturn
  · exact .inl ⟨true, buffer, c, if_neg hmore⟩

/-! ## The whole call -/

theorem readLoop_cut (hcut : Cut requested buffer c) (turns : Nat) :
    readLoop requested turns buffer c = none := by
  induction turns generalizing buffer c with
  | zero => rfl
  | succ turns ih =>
      obtain ⟨buffer', c', hturn, hcut'⟩ := readTurn_cut hcut
      rw [readLoop, hturn]
      exact ih hcut'

theorem readLoop_uncut (hcut : ¬ Cut requested buffer c) :
    ∃ turns r, readLoop requested turns buffer c = some r := by
  induction hn : c.bytes.length using Nat.strong_induction_on generalizing buffer c with
  | _ n ih =>
      rcases readTurn_uncut hcut with ⟨good, buffer', c', hturn⟩ | ⟨buffer', c', hturn, hcut', hlt⟩
      · exact ⟨1, ⟨good, buffer', c'⟩, by rw [readLoop, hturn]⟩
      · obtain ⟨turns, r, hloop⟩ := ih _ (hn ▸ hlt) hcut' rfl
        exact ⟨turns + 1, r, by rw [readLoop, hturn]; exact hloop⟩

/-! ## What is returned -/

/-- What is read and what is left come to what was announced. -/
def Balanced (buffer : List UInt8) (c : Connection) (buffer' : List UInt8) (c' : Connection) :
    Prop :=
  buffer'.length + c'.reader.scannerDataLeft + c.reader.announced =
    buffer.length + c.reader.scannerDataLeft + c'.reader.announced

theorem payloadPart_balanced (hwanted : buffer.length < requested) :
    Balanced buffer c (payloadPart requested buffer c).buffer
      (payloadPart requested buffer c).connection := by
  rcases Nat.eq_zero_or_pos c.reader.scannerDataLeft with hzero | hleft
  · rw [payloadPart_none hzero]
    rfl
  by_cases hc : c.segments = []
  · by_cases hcloses : c.ending = .closes
    · rw [payloadPart_closed hwanted hc hcloses]
      rfl
    · rw [payloadPart_fails hwanted hc hleft hcloses]
      rfl
  obtain ⟨taken, c', -, hturn, -, hle, hreader, -⟩ := payloadPart_takes hwanted hc hleft
  rw [hturn]
  have hleft' : c'.reader.scannerDataLeft = c.reader.scannerDataLeft - taken.length := by
    rw [hreader]
  have hannounced : c'.reader.announced = c.reader.announced := by rw [hreader]
  change (buffer ++ taken).length + c'.reader.scannerDataLeft + c.reader.announced =
    buffer.length + c.reader.scannerDataLeft + c'.reader.announced
  rw [hleft', hannounced, List.length_append]
  omega

theorem requestBlock_balanced (buffer : List UInt8) (hleft : c.reader.scannerDataLeft = 0) :
    Balanced buffer c buffer (requestBlock c).2 := by
  rw [Balanced]
  rcases requestBlock_cases c with ⟨-, hsame, hannounced, -⟩ | ⟨-, -, -, haccept, hreader, -⟩
  · rw [hsame, hannounced]
  · have hcounts : (c.reader.request.2.accept (c.bytes.take headerSize)).2.announced =
        c.reader.announced +
          (c.reader.request.2.accept (c.bytes.take headerSize)).2.scannerDataLeft := by
      rw [Reader.accept] at haccept ⊢
      split_ifs at haccept ⊢
      rfl
    rw [hreader, hcounts]
    omega

theorem readTurn_balanced (requested : Nat) (buffer : List UInt8) (c : Connection) :
    Balanced buffer c (readTurn requested buffer c).buffer
      (readTurn requested buffer c).connection := by
  rw [readTurn]
  split_ifs with hmore hleft hgoes
  · have hrequest := requestBlock_balanced buffer hleft
    have hpayload := payloadPart_balanced (c := (requestBlock c).2) hmore.1
    rw [Balanced] at hrequest hpayload ⊢
    omega
  · exact requestBlock_balanced buffer hleft
  · exact payloadPart_balanced hmore.1
  · rfl

theorem readLoop_balanced {turns : Nat} {result : BulkRead}
    (h : readLoop requested turns buffer c = some result) :
    Balanced buffer c result.buffer result.connection := by
  induction turns generalizing buffer c with
  | zero => cases h
  | succ turns ih =>
      have hturn := readTurn_balanced requested buffer c
      rw [readLoop] at h
      cases hresult : readTurn requested buffer c with
      | leaves good buffer' c' =>
          rw [hresult] at h hturn
          rw [← Option.some.inj h]
          exact hturn
      | goesOn buffer' c' =>
          rw [hresult] at h hturn
          have hrest := ih h
          rw [Balanced] at hrest hturn ⊢
          dsimp only [Turn.buffer, Turn.connection] at hturn
          omega

end Turns

end Recv

/-- The call ends just if the connection is not closed inside of a payload of which it wants
more. -/
theorem readEnds_iff (requested : Nat) (c : Connection) :
    ReadEnds requested c ↔ ¬ (c.ending = .closes ∧ CutInside requested c.reader c.bytes) := by
  constructor
  · rintro ⟨turns, r, hloop, -⟩ hcut
    have hclosed : Cut requested [] c := hcut
    cases hloop.symm.trans (readLoop_cut hclosed turns)
  · intro hcut
    have hopen : ¬ Cut requested [] c := hcut
    obtain ⟨turns, r, hloop⟩ := readLoop_uncut hopen
    refine ⟨turns, r, hloop, fun hmissing => .inr ?_⟩
    have hbalanced := readLoop_balanced hloop
    rw [Balanced, List.length_nil] at hbalanced
    omega

/-- A scanner that announces two bytes, sends one of them and closes the connection. -/
def closedInside : Connection where
  reader := ⟨0, 0, 2, blocksizeStart, true, [], 0⟩
  segments := [⟨[7], List.cons_ne_nil 7 []⟩]
  ending := .closes

theorem not_readEnds_closed : ¬ ∀ requested c, ReadEnds requested c := by
  intro h
  refine (readEnds_iff 2 closedInside).mp (h 2 closedInside) ⟨rfl, .here ?_⟩
  decide

end SaneBackends.Bjnp.Closing
