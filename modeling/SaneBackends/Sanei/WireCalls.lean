import SaneBackends.Lib.Transition
import SaneBackends.Sanei.Decoding
import SaneBackends.Sanei.Encoding
/-!
# Calls and replies over the life of a wire

Each call sends one message. As long as no message was cut off by a write that failed
after some of its bytes had been accepted, the stream is a sequence of whole messages:
what the next call sends starts a new one.
-/

namespace SaneBackends.Sanei

open SaneBackends.Lib

/-- The arguments and replies of the calls: a message, or one of the plain values some
procedures take or answer with. -/
inductive WirePayload where
  | void
  | word (v : SaneWord)
  | string (s : SaneString)
  | message (m : NetMessage)
  deriving DecidableEq, Repr

def transferPayload (codec : Codec) : WirePayload → WireM WirePayload
  | .void => (fun _ => .void) <$> saneiWVoid.run ()
  | .word v => .word <$> (saneiWWord codec).run v
  | .string s => .string <$> (saneiWString codec).run s
  | .message m => .message <$> transferMessage codec m

def payloadSending (version : Int) : WirePayload → Sending
  | .void => ⟨[], 0, True⟩
  | .word v => wordSending v
  | .string s => stringSending s
  | .message m => messageSending version m

inductive WireCall where
  | call (procnum : SaneWord) (arg reply : WirePayload)
  | reply (reply : WirePayload)
  deriving DecidableEq, Repr

/-- The wire after a call of `sanei_w_call` or `sanei_w_reply`. -/
def WireCall.run (c : WireCall) (w : Wire) : Except Fault Wire :=
  Prod.snd <$>
    match c with
    | .call procnum arg answer =>
        (saneiWCall binCodec procnum (transferPayload binCodec) arg (transferPayload binCodec)
          answer).run w
    | .reply answer => (saneiWReply (transferPayload binCodec) answer).run w

/-- The message the call sends. -/
def WireCall.sending (version : Int) : WireCall → Sending
  | .call procnum arg _ => wordSending procnum ++ payloadSending version arg
  | .reply answer => payloadSending version answer

variable {version : Int}

theorem Emits.map {α β : Type} {f : α → β} {m : WireM α} {bytes : List UInt8} {post : α → Prop}
    (h : Emits version m bytes post) : Emits version (f <$> m) bytes fun _ => True :=
  Graded.Triple.map h fun _ _ h => ⟨h.1, trivial⟩

theorem sends_payload : Sends version (transferPayload binCodec) (payloadSending version) := by
  intro payload hheld
  cases payload with
  | void =>
      have hvoid : Emits version (saneiWVoid.run ()) [] fun _ => True := .pure trivial
      exact hvoid.map
  | word v => exact (emits_word v).map
  | string s => exact (sends_string s hheld).map
  | message m => exact (sends_message m hheld).map

/-- Decoding a payload ends without a fault and leaves the output side alone. -/
theorem decodes_payload (payload : WirePayload) {w : Wire} (hw : Decoding w) :
    ∃ y w', (transferPayload binCodec payload).run w = .ok (y, w') ∧ Decoding w' ∧
      w'.io = { w.io with nreads := w'.io.nreads, incoming := w'.io.incoming } := by
  have hmap : ∀ {α : Type} {f : α → WirePayload} {m : WireM α} {inv : Wire → Prop}
      {post : α → List Charge → Prop}, charging.Triple inv Fine m post → inv w →
      (∀ w', inv w' → Decoding w') →
      ∃ y w', (f <$> m).run w = .ok (y, w') ∧ Decoding w' ∧
        w'.io = { w.io with nreads := w'.io.nreads, incoming := w'.io.incoming } := by
    intro α f m inv post h hinv hdecoding
    obtain ⟨a, w', cs, hrun, hw', hcharged, -⟩ := h.map (f := f) (Q := fun _ _ => True)
      (fun _ _ _ => trivial) w hinv
    exact ⟨a, w', hrun, hdecoding w' hw', hcharged.io⟩
  cases payload with
  | void => exact hmap (decodes_void ()) hw fun _ h => h
  | word v => exact hmap (decodes_word v) hw fun _ h => h
  | string s => exact hmap (decodes_string s) hw fun _ h => h
  | message m => exact hmap (decodes_message w.version m) ⟨hw, rfl⟩ fun _ h => h.1

/-- Nothing waits to be sent. -/
structure Idle (w : Wire) : Prop where
  sound : w.buffer.Sound
  empty : w.direction = .decode ∨
    w.direction = .encode ∧ w.buffer.curr = 0 ∧ w.buffer.endPos = w.buffer.size

theorem idle_saneiWInit (io : WireIo) (heap : Heap) (mem : Nat → UInt8) (stale : SaneWord) :
    Idle (saneiWInit version io heap mem stale) where
  sound := ⟨Nat.zero_le _, Nat.le_refl _, by simp [saneiWInit], by simp [saneiWInit, intMax]⟩
  empty := .inr ⟨rfl, rfl, rfl⟩

/-- The wire once a call has set it to encode. -/
def Wire.opened (w : Wire) : Wire :=
  { w with
    status := 0
    direction := .encode
    buffer := { w.buffer with curr := 0, endPos := w.buffer.size } }

theorem flush_encode_empty {w : Wire} (hdir : w.direction = .encode) (hok : w.status = 0)
    (hcurr : w.buffer.curr = 0) (hend : w.buffer.endPos ≤ w.buffer.size) :
    flush w = { w with buffer := { w.buffer with curr := 0, endPos := w.buffer.size } } := by
  have hflush : flush w = saneiWSpace (w.buffer.size + 1) w := by
    rw [flush, hdir]
  have hdrain : w.drain =
      { w with buffer := { w.buffer with curr := 0, endPos := w.buffer.size } } := by
    have hsend : sendLoop w.buffer.curr w.buffer.curr w.rewind = w.rewind := by
      rw [hcurr]
      rfl
    have hfine : ¬ w.rewind.status ≠ 0 := not_not.mpr hok
    unfold Wire.drain
    rw [hsend]
    exact if_neg hfine
  rw [hflush, saneiWSpace_encode_eq hdir hok]
  rw [if_pos (by omega)]
  exact hdrain

theorem Idle.saneiWSetDir {w : Wire} (h : Idle w) :
    saneiWSetDir .encode { w with status := 0 } = w.opened := by
  rcases h.empty with hdir | ⟨hdir, hcurr, hend⟩
  · have hfirst : flush { w with status := 0 } =
        { w with status := 0, buffer := { w.buffer with curr := 0, endPos := 0 } } := by
      simp only [flush, hdir]
    rw [Sanei.saneiWSetDir, hfirst, flush_encode_empty rfl rfl rfl (Nat.zero_le _)]
    rfl
  · rw [Sanei.saneiWSetDir, flush_encode_empty (w := { w with status := 0 }) hdir rfl hcurr
      hend.le, flush_encode_empty rfl rfl rfl (Nat.le_refl _)]
    rfl

/-- What `io.write` answered from one wire to the other. -/
def writeAnswers (w w' : Wire) : List IoEvent :=
  (List.range' w.io.nwrites (w'.io.nwrites - w.io.nwrites)).map w.io.writes

/-- A write failed after the first one had accepted bytes. -/
def CutOff (answers : List IoEvent) : Prop := ∃ e ∈ answers.tail, e.Fails

/-- What one call does to the stream: it sends its message or a first part of it, and
unless that was cut off it sends all or nothing and leaves nothing to be sent. -/
structure Conveyed (bytes : List UInt8) (w w' : Wire) : Prop where
  sent : w'.io.sent <+: w.io.sent ++ bytes
  whole : ¬ CutOff (writeAnswers w w') →
    Idle w' ∧ (w'.io.sent = w.io.sent ∨ w'.io.sent = w.io.sent ++ bytes)

/-- A failure that cut nothing off was that of the first write. -/
theorem Poured.first_of_not_cutOff {bytes : List UInt8} {w w' : Wire} (h : Poured bytes w w')
    (hok : w.status = 0) (hbad : w'.status ≠ 0) (hcut : ¬ CutOff (writeAnswers w w')) :
    w'.io.nwrites = w.io.nwrites + 1 := by
  obtain ⟨hlt, hfails⟩ := h.failed hok hbad
  by_contra hmore
  apply hcut
  refine ⟨_, ?_, hfails⟩
  obtain ⟨n, hn⟩ : ∃ n, w'.io.nwrites - w.io.nwrites = n + 2 :=
    ⟨w'.io.nwrites - w.io.nwrites - 2, by omega⟩
  rw [writeAnswers, hn, List.range'_succ, List.map_cons, List.tail_cons]
  apply List.mem_map_of_mem
  rw [List.mem_range'_1]
  omega

/-- The two ways in which a message that was not cut off was poured. -/
theorem Poured.all_or_none {bytes : List UInt8} {w w' : Wire} (h : Poured bytes w w')
    (hok : w.status = 0) (hcurr : w.buffer.curr = 0) (hdone : w'.status = 0 → w'.buffer.curr = 0)
    (hcut : ¬ CutOff (writeAnswers w w')) :
    w'.buffer.curr = 0 ∧ (w'.io.sent = w.io.sent ∨ w'.io.sent = w.io.sent ++ bytes) := by
  by_cases hst : w'.status = 0
  · have hsent := h.sent hst (hdone hst)
    rw [Wire.output, hcurr, slice_zero, List.append_nil] at hsent
    exact ⟨hdone hst, .inr hsent⟩
  · obtain ⟨hsent, hcurr'⟩ := h.unsent hok hst (h.first_of_not_cutOff hok hst hcut)
    exact ⟨hcurr', .inl hsent⟩

theorem Poured.sent_prefix {bytes : List UInt8} {w w' : Wire} (h : Poured bytes w w')
    (hok : w.status = 0) (hcurr : w.buffer.curr = 0) : w'.io.sent <+: w.io.sent ++ bytes := by
  have hempty : w.output = w.io.sent := by
    rw [Wire.output, hcurr, slice_zero, List.append_nil]
  rw [← hempty]
  by_cases hst : w'.status = 0
  · rw [← h.done hst, Wire.output]
    exact List.prefix_append ..
  · exact h.cut hok hst

theorem Idle.streaming {w : Wire} (h : Idle w) : Streaming w.version w.opened where
  version := rfl
  direction := rfl
  sound := ⟨Nat.zero_le _, Nat.le_refl _, h.sound.word_le, h.sound.size_le⟩
  room := rfl

/-- The encoding half of a call. -/
theorem Idle.poured {α : Type} {m : WireM α} {bytes : List UInt8} {post : α → Prop} {w : Wire}
    (h : Idle w) (hm : Emits w.version m bytes post) :
    ∃ a w', m.run w.opened = .ok (a, w') ∧ Streaming w.version w' ∧ Poured bytes w.opened w' := by
  obtain ⟨a, w', bs, hrun, hw', hpoured, hpost⟩ := hm w.opened h.streaming
  obtain ⟨-, rfl, -⟩ := hpost trivial
  exact ⟨a, w', hrun, hw', hpoured⟩

theorem WireCall.run_reply {answer : WirePayload} {w : Wire} (hidle : Idle w)
    (hheld : (payloadSending w.version answer).held) :
    ∃ w', (WireCall.reply answer).run w = .ok w' ∧
      Conveyed (payloadSending w.version answer).bytes w w' := by
  obtain ⟨a, w₁, hrun, hw₁, hpoured⟩ := hidle.poured (sends_payload answer hheld)
  obtain ⟨hflush, hw₂, hcurr⟩ := flush_encode hw₁
  have hall := hpoured.trans hflush
  rw [List.append_nil] at hall
  refine ⟨flush w₁, ?_, ⟨hall.sent_prefix rfl rfl, fun hcut => ?_⟩⟩
  · simp only [run, saneiWReply, StateT.run_bind, StateT.run_modify, pure_bind,
      hidle.saneiWSetDir, hrun]
    rfl
  · obtain ⟨hzero, hsent⟩ := hall.all_or_none rfl rfl hcurr hcut
    exact ⟨⟨hw₂.sound, .inr ⟨hw₂.direction, hzero, hw₂.room⟩⟩, hsent⟩

/-- Turning an encoding wire to decode sends what it holds and empties the buffer. -/
theorem Streaming.saneiWSetDir {w : Wire} (hw : Streaming version w) :
    Decoding (saneiWSetDir .decode w) ∧ (saneiWSetDir .decode w).version = version ∧
      (saneiWSetDir .decode w).io = (flush w).io := by
  obtain ⟨-, hw', -⟩ := flush_encode hw
  exact ⟨⟨rfl, ⟨Nat.le_refl 0, Nat.zero_le _, hw'.sound.word_le, hw'.sound.size_le⟩⟩, hw'.version, rfl⟩

theorem WireCall.run_call {procnum : SaneWord} {arg answer : WirePayload} {w : Wire}
    (hidle : Idle w) (hheld : (payloadSending w.version arg).held) :
    ∃ w', (WireCall.call procnum arg answer).run w = .ok w' ∧
      Conveyed (wordBytes procnum ++ (payloadSending w.version arg).bytes) w w' := by
  obtain ⟨a, w₁, bs, hword, hw₁, hpoured, hpost⟩ := emits_word procnum w.opened hidle.streaming
  obtain ⟨-, rfl, -⟩ := hpost trivial
  obtain ⟨b, w₂, bs, harg, hw₂, hpoured₂, hpost⟩ := sends_payload arg hheld w₁ hw₁
  obtain ⟨-, rfl, -⟩ := hpost trivial
  have hrequest := hpoured.trans hpoured₂
  have hrun : (WireCall.call procnum arg answer).run w =
      Prod.snd <$> (if w₂.status = 0 then
        (transferPayload binCodec answer).run (Sanei.saneiWSetDir .decode w₂)
      else .ok (answer, w₂)) := by
    have hproc : ((saneiWWord binCodec).run procnum).run w.opened = .ok (a, w₁) := hword
    simp only [run, saneiWCall, StateT.run_bind, StateT.run_modify, pure_bind,
      hidle.saneiWSetDir, hproc, ok_bind, harg, StateT.run_get]
    split_ifs <;> rfl
  by_cases hst : w₂.status = 0
  · obtain ⟨hdecoding, -, hio⟩ := hw₂.saneiWSetDir
    obtain ⟨y, w₄, hreply, hw₄, hread⟩ := decodes_payload answer hdecoding
    obtain ⟨hflush, -, hcurr⟩ := flush_encode hw₂
    have hall := hrequest.trans hflush
    rw [List.append_nil] at hall
    have hsent : w₄.io.sent = (flush w₂).io.sent := by rw [hread, hio]
    have hnwrites : w₄.io.nwrites = (flush w₂).io.nwrites := by rw [hread, hio]
    have hanswers : writeAnswers w w₄ = writeAnswers w.opened (flush w₂) := by
      rw [writeAnswers, hnwrites]
      rfl
    refine ⟨w₄, ?_, ⟨hsent ▸ hall.sent_prefix rfl rfl, fun hcut => ⟨⟨hw₄.sound, .inl hw₄.direction⟩, ?_⟩⟩⟩
    · rw [hrun, if_pos hst, hreply]
      rfl
    · rw [hanswers] at hcut
      rw [hsent]
      exact (hall.all_or_none rfl rfl hcurr hcut).2
  · refine ⟨w₂, ?_, ⟨hrequest.sent_prefix rfl rfl, fun hcut => ?_⟩⟩
    · rw [hrun, if_neg hst]
      rfl
    · obtain ⟨hzero, hsent⟩ := hrequest.all_or_none rfl rfl (fun hok => absurd hok hst) hcut
      exact ⟨⟨hw₂.sound, .inr ⟨hw₂.direction, hzero, hw₂.room⟩⟩, hsent⟩

/-- A call on an idle wire runs without a fault and conveys its message. -/
theorem WireCall.run_conveyed (c : WireCall) {w : Wire} (hidle : Idle w)
    (hheld : (c.sending w.version).held) :
    ∃ w', c.run w = .ok w' ∧ Conveyed (c.sending w.version).bytes w w' := by
  cases c with
  | call procnum arg answer => exact run_call hidle hheld.2
  | reply answer => exact run_reply hidle hheld

/-- A wire with the messages of the calls made on it and what `io.write` answered during
the last one. -/
structure Session where
  wire : Wire
  messages : List (List UInt8)
  answers : List IoEvent

/-- Any calls, each in the protocol version its caller has set, with messages that can be
encoded. -/
def wireCalls : System Session (Int × WireCall) where
  init s := ∃ version io heap mem stale, io.sent = [] ∧
    s = ⟨saneiWInit version io heap mem stale, [], []⟩
  step s i s' := (i.2.sending i.1).held ∧ ∃ w',
    i.2.run { s.wire with version := i.1 } = .ok w' ∧
      s' = ⟨w', s.messages ++ [(i.2.sending i.1).bytes], writeAnswers s.wire w'⟩

/-- The stream is the beginning of a sequence of whole messages, in the order of their
calls. -/
def StreamIntact (s : Session) : Prop :=
  ∃ ms : List (List UInt8), ms.Sublist s.messages ∧ s.wire.io.sent <+: ms.flatten

/-- What holds as long as nothing was cut off before the last call. -/
structure Intact (s : Session) : Prop where
  stream : StreamIntact s
  whole : ¬ CutOff s.answers →
    Idle s.wire ∧ ∃ ms : List (List UInt8), ms.Sublist s.messages ∧ s.wire.io.sent = ms.flatten

theorem Intact.next {s s' : Session} {i : Int × WireCall} (h : Intact s) (hcut : ¬ CutOff s.answers)
    (hstep : wireCalls.step s i s') : Intact s' := by
  obtain ⟨version, c⟩ := i
  obtain ⟨hheld, w', hrun, rfl⟩ := hstep
  obtain ⟨hidle, ms, hms, hsent⟩ := h.whole hcut
  have hidle' : Idle { s.wire with version := version } := ⟨hidle.sound, hidle.empty⟩
  obtain ⟨w₂, hrun₂, hconveyed⟩ := c.run_conveyed hidle' hheld
  rw [hrun] at hrun₂
  cases hrun₂
  have hlast : (ms ++ [(c.sending version).bytes]).Sublist
      (s.messages ++ [(c.sending version).bytes]) := hms.append_right _
  have hflatten : (ms ++ [(c.sending version).bytes]).flatten =
      s.wire.io.sent ++ (c.sending version).bytes := by simp [hsent]
  constructor
  · exact ⟨_, hlast, hflatten ▸ hconveyed.sent⟩
  · intro hnot
    obtain ⟨hdone, hnone | hall⟩ := hconveyed.whole hnot
    · exact ⟨hdone, ms, hms.trans (List.sublist_append_left ..), hnone.trans hsent⟩
    · exact ⟨hdone, _, hlast, hall.trans hflatten.symm⟩

/-- The stream stays intact along every run in which no call follows one whose message
was cut off. -/
theorem streamIntact_of_reach {s : Session}
    (h : wireCalls.Reach (fun s _ => ¬ CutOff s.answers) s) : StreamIntact s := by
  have hintact : Intact s := by
    apply h.invariant
    · rintro s ⟨version, io, heap, mem, stale, hsent, rfl⟩
      have hempty : io.sent <+: [].flatten := by simp [hsent]
      exact ⟨⟨[], List.Sublist.refl _, hempty⟩,
        fun _ => ⟨idle_saneiWInit io heap mem stale, [], List.Sublist.refl _, hsent⟩⟩
    · intro s i s' _ hs hcut hstep
      exact hs.next hcut hstep
  exact hintact.stream

/-- A connection that accepts as many bytes at each write as the schedule says. -/
def writingTo (writes : Nat → IoEvent) : WireIo where
  reads := fun _ => .moved 8191
  writes
  nreads := 0
  nwrites := 0
  incoming := []
  sent := []

def emptyHeap : Heap where
  live := []
  next := 0
  asked := 0
  grant := fun _ => true
  nodup := List.nodup_nil
  fresh := Heap.fresh_nil

theorem streamIntact_of_reach_oneReply :
    ∃ s, wireCalls.Reach (fun s _ => ¬ CutOff s.answers) s ∧ s.wire.io.sent = [0, 0, 0, 7] ∧
      StreamIntact s := by
  let w := saneiWInit 3 (writingTo fun _ => .moved 0) emptyHeap (fun _ => 0) 0
  have hrun : (match (WireCall.reply (.word 7)).run w with
      | .ok w' => w'.io.sent == [0, 0, 0, 7]
      | .error _ => false) = true := by decide
  split at hrun
  · next w' hreply =>
      have hreach : wireCalls.Reach (fun s _ => ¬ CutOff s.answers)
          ⟨w', [[0, 0, 0, 7]], writeAnswers w w'⟩ := by
        apply System.Reach.next (s := ⟨w, [], []⟩) (i := (3, .reply (.word 7)))
        · exact .start ⟨3, _, _, _, _, rfl, rfl⟩
        · rintro ⟨e, he, -⟩
          cases he
        · exact ⟨trivial, w', hreply, rfl⟩
      exact ⟨_, hreach, eq_of_beq hrun, streamIntact_of_reach hreach⟩
  · cases hrun

/-- After a reply of which two bytes were accepted, the next reply starts by sending
these two bytes again. -/
theorem not_streamIntact_resent : ∃ s, wireCalls.Reachable s ∧
    s.wire.io.sent = [1, 2, 1, 2, 5, 6, 7, 8] ∧ ¬ StreamIntact s := by
  let writes : Nat → IoEvent := fun i =>
    if i = 0 then .moved 1 else if i = 1 then .failed 32 (by decide) else .moved 8191
  let w := saneiWInit 3 (writingTo writes) emptyHeap (fun _ => 0) 0
  have hrun : (match (WireCall.reply (.word 0x01020304)).run w with
      | .ok w' =>
          (match (WireCall.reply (.word 0x05060708)).run { w' with version := 3 } with
          | .ok w'' => w''.io.sent == [1, 2, 1, 2, 5, 6, 7, 8]
          | .error _ => false)
      | .error _ => false) = true := by decide
  split at hrun
  · next w' hfirst =>
      split at hrun
      · next w'' hsecond =>
          have hsent := eq_of_beq hrun
          refine ⟨⟨w'', [[1, 2, 3, 4], [5, 6, 7, 8]], writeAnswers w' w''⟩, ?_, hsent, ?_⟩
          · apply System.Reach.next (s := ⟨w', [[1, 2, 3, 4]], writeAnswers w w'⟩)
              (i := (3, .reply (.word 0x05060708)))
            · apply System.Reach.next (s := ⟨w, [], []⟩) (i := (3, .reply (.word 0x01020304)))
              · exact .start ⟨3, _, _, _, _, rfl, rfl⟩
              · trivial
              · exact ⟨trivial, w', hfirst, rfl⟩
            · trivial
            · exact ⟨trivial, w'', hsecond, rfl⟩
          · rintro ⟨ms, hms, hstream⟩
            change w''.io.sent <+: ms.flatten at hstream
            rw [hsent] at hstream
            have hnone : ∀ ms ∈ List.sublists [[1, 2, 3, 4], [5, 6, 7, 8]],
                ¬ ([1, 2, 1, 2, 5, 6, 7, 8] : List UInt8) <+: ms.flatten := by decide
            exact hnone ms (List.mem_sublists.mpr hms) hstream
      · cases hrun
  · cases hrun

end SaneBackends.Sanei
