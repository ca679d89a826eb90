import SaneBackends.Sanei.RoundTrip
import SaneBackends.Sanei.WireCalls
/-!
# The conversation of a client with the server

Two wires joined by a connection: the client makes one call after the other, the
server takes each request as `process_request` does and answers it. Both free what
they decoded, so that only the single message has to fit into `MAX_MEM`. No call here
asks for an authorization.
-/

namespace SaneBackends.Sanei

open SaneBackends.Lib

/-- A call as the functions of `net.c` make it: unless it failed, the reply is freed
after use. -/
def makeCall (procnum : SaneWord) (arg reply : WirePayload) : WireM (Option WirePayload) := do
  let reply ← saneiWCall binCodec procnum (transferPayload binCodec) arg
    (transferPayload binCodec) reply
  if (← get).status ≠ 0 then pure none
  else do
    saneiWFree (transferPayload binCodec) reply
    pure (some reply)

/-- How `process_request` uses the wire for a procedure with an answer. `arg` is the
variable for the argument of each procedure; `answer` is what it makes of the argument. What
some procedures do with a request that cannot be decoded is left out: that is `none`. -/
def serveRequest (arg : SaneWord → WirePayload) (answer : SaneWord → WirePayload → WirePayload) :
    WireM (Option (SaneWord × WirePayload)) := do
  modify (saneiWSetDir .decode)
  let word ← (saneiWWord binCodec).run (← get).stale
  if (← get).status ≠ 0 then pure none
  else do
    let arg ← transferPayload binCodec (arg word)
    if (← get).status ≠ 0 then pure none
    else do
      let _ ← saneiWReply (transferPayload binCodec) (answer word arg)
      saneiWFree (transferPayload binCodec) arg
      pure (some (word, arg))

def payloadShape (version : Int) : WirePayload → WirePayload
  | .string s => .string (stringShape s)
  | .message m => .message (messageShape version m)
  | payload => payload

def payloadHolding (version : Int) : WirePayload → Holding
  | .void => .empty
  | .word _ => .empty
  | .string s => stringHolding s
  | .message m => messageHolding version m

/-- Two payloads that one transfer function takes. -/
inductive SameKind : WirePayload → WirePayload → Prop
  | void : SameKind .void .void
  | word (v v₀ : SaneWord) : SameKind (.word v) (.word v₀)
  | string (s s₀ : SaneString) : SameKind (.string s) (.string s₀)
  | message {m m₀ : NetMessage} : SameType m m₀ → SameKind (.message m) (.message m₀)

variable {version : Int}

/-! The payloads. -/

theorem receives_payload {x x₀ : WirePayload} (hkind : SameKind x x₀)
    (hfit : (payloadSending version x).Fit) :
    Absorbs version (transferPayload binCodec x₀) (payloadSending version x).bytes
      (payloadSending version x).cost (Copy (payloadShape version) (payloadHolding version) x) := by
  cases hkind with
  | void =>
      have hvoid : Absorbs version (saneiWVoid.run ()) [] 0 fun _ => True := .pure trivial
      exact hvoid.map fun _ _ => ⟨rfl, freeable_empty⟩
  | word v v₀ =>
      apply (absorbs_word v₀ v).map
      rintro _ rfl
      exact ⟨rfl, freeable_empty⟩
  | string s s₀ =>
      exact (receives_string s hfit s₀).map fun _ h => ⟨congrArg WirePayload.string h.1.1, h.1.2⟩
  | message htype =>
      exact (receives_message htype hfit).map fun _ h => ⟨congrArg WirePayload.message h.1, h.2⟩

theorem accounts_payload (x : WirePayload) :
    charging.Triple (DecodingAt version) Fine (transferPayload binCodec x) fun y cs =>
      Accounts (payloadHolding version y) cs := by
  cases x with
  | void => exact ((decodes_void ()).at version).map fun _ _ h => h
  | word v =>
      apply ((decodes_word v).at version).map
      rintro _ _ rfl
      exact .empty
  | string s => exact ((decodes_string s).at version).map fun _ _ h => h
  | message m => exact (decodes_message version m).map fun _ _ h => h

theorem lawful_payload (x : WirePayload) : (payloadHolding version x).Lawful := by
  cases x with
  | void => exact .empty
  | word v => exact .empty
  | string s => exact lawful_string s
  | message m => exact lawful_message version m

theorem frees_payload {x : WirePayload} (hdecoded : (payloadHolding version x).decoded) :
    Follows freeAct (FreeingAt version) (transferPayload binCodec x) x
      (payloadHolding version x).acts := by
  cases x with
  | void => exact ((frees_void ()).mono fun _ => And.left).map
  | word v => exact ((frees_word v).mono fun _ => And.left).map
  | string s => exact ((frees_string s).mono fun _ => And.left).map
  | message m => exact (frees_message version m hdecoded).map

theorem saneiWFree_payload {x : WirePayload} {w : Wire} (hversion : w.version = version)
    (hdecoded : (payloadHolding version x).decoded) :
    (saneiWFree (transferPayload binCodec) x).run w =
      (exec freeAct (payloadHolding version x).acts { w with direction := .free } >>= fun w' =>
        .ok ((), { w' with direction := w.direction })) := by
  have hfrees := frees_payload hdecoded { w with direction := .free } ⟨rfl, hversion⟩
  simp only [saneiWFree, StateT.run_bind, StateT.run_get, pure_bind, StateT.run_modify, hfrees]
  cases exec freeAct (payloadHolding version x).acts { w with direction := .free } with
  | error f => rfl
  | ok w' => rfl

/-- Freeing changes the heap and `allocated_memory` only. -/
theorem exec_freeAct_eq {acts : List FreeAct} {w w' : Wire} (h : exec freeAct acts w = .ok w') :
    w' = { w with heap := w'.heap, allocatedMemory := w'.allocatedMemory } ∧
      w'.heap.grant = w.heap.grant := by
  have hstable : Follows.Stable freeAct fun v =>
      v = { w with heap := v.heap, allocatedMemory := v.allocatedMemory } ∧
        v.heap.grant = w.heap.grant := by
    rintro (⟨addr, bytes⟩ | f) v v' ⟨hv, hgrant⟩ hact
    · simp only [freeAct] at hact
      split_ifs at hact
      cases hact
      exact ⟨by rw [hv], hgrant⟩
    · cases hact
  exact hstable.exec ⟨rfl, rfl⟩ h

/-- A payload that is all there is to decode is decoded to a copy. This can be freed, now or
after something has been sent. -/
theorem decodes_copy {x x₀ : WirePayload} (hkind : SameKind x x₀)
    (hfit : (payloadSending version x).Fit) {w : Wire} (hw : Receiving version w)
    (hinput : w.input = (payloadSending version x).bytes)
    (hroom : w.allocatedMemory.toInt + (payloadSending version x).cost ≤ maxMem) :
    ∃ y w', (transferPayload binCodec x₀).run w = .ok (y, w') ∧ Receiving version w' ∧
      w'.io = { w.io with nreads := w'.io.nreads, incoming := [] } ∧
      payloadShape version y = payloadShape version x ∧
      ∀ v : Wire, v.version = version → v.heap = w'.heap →
        v.allocatedMemory = w'.allocatedMemory →
        ∃ heap, (saneiWFree (transferPayload binCodec) y).run v =
            .ok ((), { v with heap, allocatedMemory := w.allocatedMemory }) ∧
          (∀ i, heap.grant i) ∧ ∀ a, a ∈ heap.live ↔ a ∈ w.heap.live := by
  obtain ⟨y, w', hrun, hw', hrest, -, hshape, hfree⟩ := receives_payload hkind hfit w [] hw
    (hinput.trans (List.append_nil _).symm) hroom
  obtain ⟨y₂, w₂, cs, hrun₂, -, hcharged, haccounts⟩ :=
    accounts_payload x₀ w ⟨hw.decoding, hw.version⟩
  rw [hrun] at hrun₂
  cases hrun₂
  obtain ⟨hdecoded, howned⟩ := (haccounts hw'.fine).2
  have hnothing := (List.append_eq_nil_iff.mp hrest).2
  refine ⟨y, w', hrun, hw', hnothing ▸ hcharged.io, hshape, fun v hversion hheap halloc => ?_⟩
  have haddrs : cs.map Charge.addr = (payloadHolding version y).blocks.map Owned.addr := by
    rw [← howned, List.map_map]
    rfl
  have hlive : v.heap.live =
      ((payloadHolding version y).blocks.map Owned.addr).reverse ++ w.heap.live := by
    rw [hheap, hcharged.live, haddrs]
  have hnodup := v.heap.nodup
  rw [hlive, List.nodup_append', List.nodup_reverse] at hnodup
  obtain ⟨w₃, hexec, hback, htotal⟩ := (exec_freeAct_iff { v with direction := .free } w.heap.live
    w.allocatedMemory (lawful_payload y) hnodup.1
    (fun a ha => hnodup.2.2 (List.mem_reverse.mpr ha)) (fun a => by simp [hlive])
    (by rw [← howned, ← chargedBytes_eq_ownedBytes, ← hcharged.total, halloc])).mpr hfree
  obtain ⟨hrest, hgrant⟩ := exec_freeAct_eq hexec
  refine ⟨w₃.heap, ?_, ?_, hback⟩
  · rw [saneiWFree_payload hversion hdecoded, hexec, hrest, htotal]
    rfl
  · rw [hgrant, hheap]
    exact hw'.grants

/-! One message from an idle wire. -/

/-- `w'` comes from `w` by sending `bytes`. -/
structure Delivered (bytes : List UInt8) (w w' : Wire) : Prop where
  eq : w' = { w with
    status := 0
    direction := w'.direction
    buffer := w'.buffer
    io := { w.io with nwrites := w'.io.nwrites, sent := w.io.sent ++ bytes } }

/-- What is encoded on an idle wire and flushed is sent. -/
theorem Idle.delivers {α : Type} {m : WireM α} {bytes : List UInt8} {post : α → Prop} {w : Wire}
    (h : Idle w) (hwrites : WritesWork w) (hm : Emits w.version m bytes post) :
    ∃ a w', m.run w.opened = .ok (a, w') ∧ w'.status = 0 ∧ Streaming w.version w' ∧
      Delivered bytes w (flush w') ∧ Idle (flush w') := by
  obtain ⟨a, w₁, hrun, hw₁, hpoured⟩ := h.poured hm
  obtain ⟨hflush, hw₂, hcurr⟩ := flush_encode hw₁
  have hall := hpoured.trans hflush
  rw [List.append_nil] at hall
  have hst := hall.works rfl hwrites
  have hsent := hall.sent hst (hcurr hst)
  rw [Wire.output, show w.opened.buffer.curr = 0 from rfl, slice_zero, List.append_nil] at hsent
  refine ⟨a, w₁, hrun, hflush.fine hst, hw₁, ⟨?_⟩,
    ⟨hw₂.sound, .inr ⟨hw₂.direction, hcurr hst, hw₂.room⟩⟩⟩
  rw [hall.eq, hst, hall.io, hsent]
  rfl

theorem Idle.saneiWReply {answer : WirePayload} {w : Wire} (h : Idle w) (hwrites : WritesWork w)
    (hheld : (payloadSending w.version answer).held) :
    ∃ a w', (saneiWReply (transferPayload binCodec) answer).run w = .ok (a, w') ∧
      Delivered (payloadSending w.version answer).bytes w w' ∧ Idle w' := by
  obtain ⟨a, w₁, hrun, -, -, hdelivered⟩ := h.delivers hwrites (sends_payload answer hheld)
  refine ⟨a, flush w₁, ?_, hdelivered⟩
  simp only [Sanei.saneiWReply, StateT.run_bind, StateT.run_modify, pure_bind, h.saneiWSetDir, hrun]
  rfl

/-! Both parties between two calls. -/

/-- A wire between two calls: idle, with nothing on its way, in a protocol version, and
with reads, writes and allocations that work. -/
structure Quiet (version : Int) (w : Wire) : Prop where
  idle : Idle w
  version : w.version = version
  fine : w.status = 0
  reads : ReadsWork w
  writes : WritesWork w
  grants : ∀ i, w.heap.grant i
  nonneg : 0 ≤ w.allocatedMemory.toInt
  nothing : w.io.incoming = []

/-- The wire for which the peer has sent some bytes. -/
def Wire.supplied (bytes : List UInt8) (w : Wire) : Wire :=
  { w with io := { w.io with incoming := w.io.incoming ++ bytes } }

/-- The bytes of a request. -/
def requestBytes (version : Int) (procnum : SaneWord) (arg : WirePayload) : List UInt8 :=
  wordBytes procnum ++ (payloadSending version arg).bytes

/-- `sanei_w_call` sends its request, whatever is sent back, and goes on to decode that. -/
theorem Quiet.saneiWCall {w : Wire} (hw : Quiet version w) (procnum : SaneWord)
    {arg : WirePayload} (hheld : (payloadSending version arg).held) (reply : WirePayload)
    (bytes : List UInt8) :
    ∃ w', (saneiWCall binCodec procnum (transferPayload binCodec) arg (transferPayload binCodec)
        reply).run (w.supplied bytes) = (transferPayload binCodec reply).run w' ∧
      Delivered (requestBytes version procnum arg) (w.supplied bytes) w' ∧ Decoding w' ∧
      w'.input = bytes := by
  obtain rfl := hw.version
  have hidle : Idle (w.supplied bytes) := ⟨hw.idle.sound, hw.idle.empty⟩
  have hrequest : Emits w.version ((saneiWWord binCodec).run procnum >>= fun _ =>
      transferPayload binCodec arg) (requestBytes w.version procnum arg) fun _ => True :=
    Emits.bind (emits_word procnum) fun _ _ => sends_payload arg hheld
  obtain ⟨a, w₁, hrun, hst, hw₁, ⟨heq⟩, -⟩ := hidle.delivers hw.writes hrequest
  obtain ⟨hdecoding, -, hio⟩ := hw₁.saneiWSetDir
  have hturned : Sanei.saneiWSetDir .decode w₁ =
      { flush w₁ with
        direction := .decode
        buffer := { (flush w₁).buffer with curr := 0, endPos := 0 } } := rfl
  refine ⟨Sanei.saneiWSetDir .decode w₁, ?_, ⟨?_⟩, hdecoding, ?_⟩
  · rw [run_bind_eq] at hrun
    obtain ⟨⟨_, w₀⟩, hproc, harg⟩ := bind_eq_ok.mp hrun
    dsimp only at harg
    simp only [Sanei.saneiWCall, StateT.run_bind, StateT.run_modify, pure_bind,
      hidle.saneiWSetDir, hproc, ok_bind, harg, StateT.run_get, if_pos hst]
  · rw [hturned, heq]
  · rw [Wire.input, hio, heq]
    exact (congrArg (· ++ _) (slice_zero _ 0)).trans (congrArg (· ++ bytes) hw.nothing)

/-- Turning an idle wire to decode empties its buffer. -/
theorem Idle.turned {w : Wire} (h : Idle w) (hok : w.status = 0) :
    Sanei.saneiWSetDir .decode w =
      { w with direction := .decode, buffer := { w.buffer with curr := 0, endPos := 0 } } := by
  rcases h.empty with hdir | ⟨hdir, hcurr, hend⟩
  · simp only [Sanei.saneiWSetDir, flush, hdir]
  · rw [Sanei.saneiWSetDir, flush_encode_empty hdir hok hcurr hend.le]
    rfl

/-- The wire after its part of a call: `bytes` were sent and everything that was decoded is
freed. -/
structure Rested (version : Int) (bytes : List UInt8) (w w' : Wire) : Prop where
  quiet : Quiet version w'
  sent : w'.io.sent = w.io.sent ++ bytes
  live : ∀ a, a ∈ w'.heap.live ↔ a ∈ w.heap.live
  memory : w'.allocatedMemory = w.allocatedMemory

/-- The client gets a copy of the answer. -/
theorem makeCall_run {w : Wire} (hw : Quiet version w) (procnum : SaneWord)
    {arg answer reply : WirePayload} (harg : (payloadSending version arg).held)
    (hkind : SameKind answer reply) (hanswer : (payloadSending version answer).Fit)
    (hroom : w.allocatedMemory.toInt + (payloadSending version answer).cost ≤ maxMem) :
    ∃ y w', (makeCall procnum arg reply).run (w.supplied (payloadSending version answer).bytes) =
        .ok (some y, w') ∧
      payloadShape version y = payloadShape version answer ∧
      Rested version (requestBytes version procnum arg) w w' := by
  obtain ⟨w₁, hcall, ⟨heq⟩, hdecoding, hinput⟩ := hw.saneiWCall procnum harg reply
    (payloadSending version answer).bytes
  have hheap : w₁.heap = w.heap := by
    rw [heq]
    rfl
  have halloc : w₁.allocatedMemory = w.allocatedMemory := by
    rw [heq]
    rfl
  have hw₁ : Receiving version w₁ := by
    refine ⟨hdecoding, ?_, ?_, ?_, hheap ▸ hw.grants, halloc ▸ hw.nonneg⟩ <;> rw [heq]
    · exact hw.version
    · exact hw.reads
  obtain ⟨y, w₂, hrun, hw₂, hio, hshape, hfrees⟩ :=
    decodes_copy hkind hanswer hw₁ hinput (halloc ▸ hroom)
  obtain ⟨heap, hfreed, hgrants, hlive⟩ := hfrees w₂ hw₂.version rfl rfl
  refine ⟨y, { w₂ with heap, allocatedMemory := w₁.allocatedMemory }, ?_, hshape,
    ⟨⟨⟨hw₂.decoding.sound, .inl hw₂.decoding.direction⟩, hw₂.version, hw₂.fine, hw₂.reads, ?_,
      hgrants, halloc ▸ hw.nonneg, ?_⟩, ?_, fun a => hheap ▸ hlive a, halloc⟩⟩
  · simp only [makeCall, run_bind_eq, hcall, hrun, ok_bind, StateT.run_get, pure_bind,
      if_neg hw₂.not_bad, hfreed]
    rfl
  all_goals dsimp only [WritesWork]; rw [hio]
  · rw [heq]
    exact hw.writes
  · rw [heq]
    rfl

/-- The server gets a copy of the argument and answers. -/
theorem serveRequest_run {w : Wire} (hw : Quiet version w) (procnum : SaneWord) {arg : WirePayload}
    {arg₀ : SaneWord → WirePayload} {answer : SaneWord → WirePayload → WirePayload}
    (hkind : SameKind arg (arg₀ procnum)) (harg : (payloadSending version arg).Fit)
    (hroom : w.allocatedMemory.toInt + (payloadSending version arg).cost ≤ maxMem)
    (hanswer : ∀ x, payloadShape version x = payloadShape version arg →
      (payloadSending version (answer procnum x)).held) :
    ∃ x w', (serveRequest arg₀ answer).run (w.supplied (requestBytes version procnum arg)) =
        .ok (some (procnum, x), w') ∧
      payloadShape version x = payloadShape version arg ∧
      Rested version (payloadSending version (answer procnum x)).bytes w w' := by
  obtain rfl := hw.version
  let w₀ : Wire := { w.supplied (requestBytes w.version procnum arg) with
    direction := .decode
    buffer := { w.buffer with curr := 0, endPos := 0 } }
  have hturned : saneiWSetDir .decode (w.supplied (requestBytes w.version procnum arg)) = w₀ :=
    Idle.turned ⟨hw.idle.sound, hw.idle.empty⟩ hw.fine
  have hw₀ : Receiving w.version w₀ :=
    ⟨⟨rfl, Nat.le_refl 0, Nat.zero_le _, hw.idle.sound.word_le, hw.idle.sound.size_le⟩, rfl,
      hw.fine, hw.reads, hw.grants, hw.nonneg⟩
  have hinput : w₀.input = requestBytes w.version procnum arg :=
    (congrArg (· ++ _) (slice_zero _ 0)).trans (congrArg (· ++ _) hw.nothing)
  obtain ⟨word, w₁, hword, hw₁, hinput₁, hcost, hsame⟩ := absorbs_word w₀.stale procnum w₀ _ hw₀
    hinput (show w.allocatedMemory.toInt + 0 ≤ maxMem by omega)
  obtain rfl : procnum = word := hsame.symm
  obtain ⟨v, w₁', cs, hword', -, hcharged, hnone⟩ := decodes_word w₀.stale w₀ hw₀.decoding
  rw [hword] at hword'
  cases hword'
  obtain rfl := (hnone hw₁.fine).2
  have halloc : w₁.allocatedMemory = w.allocatedMemory := by
    rw [hcharged.total]
    exact BitVec.add_zero _
  obtain ⟨x, w₂, hrun, hw₂, hio, hshape, hfrees⟩ := decodes_copy hkind harg hw₁ hinput₁
    (by rw [halloc]; omega)
  have hwrites : w₂.io.writes = w.io.writes := by
    rw [hio, hcharged.io]
    rfl
  have hidle : Idle w₂ := ⟨hw₂.decoding.sound, .inl hw₂.decoding.direction⟩
  obtain ⟨a, w₃, hreply, ⟨heq⟩, hidle₃⟩ := hidle.saneiWReply (fun i => hwrites ▸ hw.writes i)
    (hw₂.version ▸ hanswer x hshape)
  obtain ⟨heap, hfreed, hgrants, hlive⟩ := hfrees w₃ (by rw [heq]; exact hw₂.version)
    (by rw [heq]) (by rw [heq])
  refine ⟨x, { w₃ with heap, allocatedMemory := w₁.allocatedMemory }, ?_, hshape,
    ⟨⟨⟨hidle₃.sound, hidle₃.empty⟩, ?_, ?_, ?_, ?_, hgrants, halloc ▸ hw.nonneg, ?_⟩, ?_,
      fun a => ?_, halloc⟩⟩
  · have hproc : ((saneiWWord binCodec).run w₀.stale).run w₀ = .ok (procnum, w₁) := hword
    simp only [serveRequest, run_bind_eq, StateT.run_modify, pure_bind, StateT.run_get, hturned,
      hproc, ok_bind, if_neg hw₁.not_bad, hrun, if_neg hw₂.not_bad, hreply, hfreed]
    rfl
  all_goals dsimp only [ReadsWork, WritesWork]
  · rw [heq]
    exact hw₂.version
  · rw [heq]
  · rw [heq, hio, hcharged.io]
    exact hw.reads
  · rw [heq]
    exact hwrites ▸ hw.writes
  · rw [heq, hio]
  · rw [heq, hio, hcharged.io, hw₂.version]
    rfl
  · exact (hlive a).trans (by rw [hcharged.live]; rfl)

/-- The client has sent its request whatever it got for an answer. -/
theorem makeCall_sent {w w' : Wire} (hw : Quiet version w) {procnum : SaneWord}
    {arg reply : WirePayload} {y : Option WirePayload} {bytes : List UInt8}
    (harg : (payloadSending version arg).held)
    (hrun : (makeCall procnum arg reply).run (w.supplied bytes) = .ok (y, w')) :
    w'.io.sent = w.io.sent ++ requestBytes version procnum arg := by
  obtain ⟨w₁, hcall, ⟨heq⟩, hdecoding, -⟩ := hw.saneiWCall procnum harg reply bytes
  have hversion : w₁.version = version := by
    rw [heq]
    exact hw.version
  obtain ⟨x, w₂, cs, hreply, -, hcharged, haccounts⟩ :=
    accounts_payload reply w₁ ⟨hdecoding, hversion⟩
  have hall : w₂.io.sent = w.io.sent ++ requestBytes version procnum arg := by
    rw [hcharged.io, heq]
    rfl
  simp only [makeCall, run_bind_eq, hcall, hreply, ok_bind, StateT.run_get, pure_bind] at hrun
  split_ifs at hrun with hbad
  · cases hrun
    exact hall
  · rw [run_bind_eq, saneiWFree_payload (hcharged.version.trans hversion)
      (haccounts (not_not.mp hbad)).2.1] at hrun
    obtain ⟨_, hfreed, hdone⟩ := bind_eq_ok.mp hrun
    obtain ⟨w₃, hexec, hback⟩ := bind_eq_ok.mp hfreed
    cases hback
    cases hdone
    dsimp only
    rw [(exec_freeAct_eq hexec).1]
    exact hall

/-! Whole conversations. -/

/-- A call and what the server makes of it; `reply` and `arg₀` are the variables of the
client and the server for what they decode. -/
structure Exchange where
  procnum : SaneWord
  arg : WirePayload
  reply : WirePayload
  arg₀ : SaneWord → WirePayload
  answer : SaneWord → WirePayload → WirePayload

/-- A call with what the server received, its answer and what the client received, each
unless something failed. -/
structure Exchanged where
  call : SaneWord × WirePayload
  heard : Option (SaneWord × WirePayload)
  answer : Option WirePayload
  got : Option WirePayload

structure Parties where
  client : Wire
  server : Wire
  log : List Exchanged

/-- In each step both functions run, each being sent what the other one sends. -/
def conversation (client server : Wire) : System Parties Exchange where
  init p := p = ⟨client, server, []⟩
  step p e p' := ∃ request answer got client' heard server',
    (makeCall e.procnum e.arg e.reply).run (p.client.supplied answer) = .ok (got, client') ∧
    client'.io.sent = p.client.io.sent ++ request ∧
    (serveRequest e.arg₀ e.answer).run (p.server.supplied request) = .ok (heard, server') ∧
    server'.io.sent = p.server.io.sent ++ answer ∧
    p' = ⟨client', server',
      p.log ++ [⟨(e.procnum, e.arg), heard, heard.map fun q => e.answer q.1 q.2, got⟩]⟩

/-- Both parties agree on the types, and each message can be encoded and fits by itself
into what the receiver may allocate. -/
structure Exchange.Fits (version : Int) (client server : Wire) (e : Exchange) : Prop where
  kind : SameKind e.arg (e.arg₀ e.procnum)
  held : (payloadSending version e.arg).held
  room : server.allocatedMemory.toInt + (payloadSending version e.arg).cost ≤ maxMem
  answer : ∀ x, payloadShape version x = payloadShape version e.arg →
    SameKind (e.answer e.procnum x) e.reply ∧
    (payloadSending version (e.answer e.procnum x)).held ∧
    client.allocatedMemory.toInt + (payloadSending version (e.answer e.procnum x)).cost ≤ maxMem

/-- Nothing failed and each message was received as far as it is transmitted; nothing else
was sent, both wires are idle, and all that was decoded is freed. -/
structure InStep (version : Int) (client server : Wire) (p : Parties) : Prop where
  client : Rested version (p.log.flatMap fun r => requestBytes version r.call.1 r.call.2) client
    p.client
  server : Rested version ((p.log.filterMap Exchanged.answer).flatMap fun x =>
    (payloadSending version x).bytes) server p.server
  log : ∀ r ∈ p.log, ∃ x answer y, r = ⟨r.call, some (r.call.1, x), some answer, some y⟩ ∧
    payloadShape version x = payloadShape version r.call.2 ∧
    payloadShape version y = payloadShape version answer

theorem Rested.trans {bytes bytes' : List UInt8} {w w' w'' : Wire} (h : Rested version bytes w w')
    (h' : Rested version bytes' w' w'') : Rested version (bytes ++ bytes') w w'' where
  quiet := h'.quiet
  sent := by rw [h'.sent, h.sent, List.append_assoc]
  live a := (h'.live a).trans (h.live a)
  memory := h'.memory.trans h.memory

variable {client server : Wire} {p p' : Parties} {e : Exchange}

/-- What fits can be exchanged, and any way to do it leaves the parties in step. -/
theorem InStep.next (h : InStep version client server p) (hfits : e.Fits version client server) :
    (∃ p', (conversation client server).step p e p') ∧
      ∀ p', (conversation client server).step p e p' → InStep version client server p' := by
  have hc := h.client.quiet.nonneg
  have hs := h.server.quiet.nonneg
  have hroom := h.server.memory ▸ hfits.room
  obtain ⟨x, server₁, hserve, hx, hserver⟩ := serveRequest_run h.server.quiet e.procnum
    hfits.kind ⟨hfits.held, by omega⟩ hroom fun x hx => (hfits.answer x hx).2.1
  obtain ⟨hkind, hheld, hroom⟩ := hfits.answer x hx
  rw [← h.client.memory] at hroom
  obtain ⟨y, client₁, hcall, hy, hclient⟩ := makeCall_run h.client.quiet e.procnum hfits.held hkind
    ⟨hheld, by omega⟩ hroom
  refine ⟨⟨_, _, _, _, _, _, _, hcall, hclient.sent, hserve, hserver.sent, rfl⟩, ?_⟩
  rintro _ ⟨request, answer, y', client', heard, server', hcall', hrequest, hserve', hanswer, rfl⟩
  -- the request does not depend on the answer, so these are the runs above
  obtain rfl := List.append_cancel_left
    (hrequest.symm.trans (makeCall_sent h.client.quiet hfits.held hcall'))
  rw [hserve] at hserve'
  cases hserve'
  obtain rfl := List.append_cancel_left (hanswer.symm.trans hserver.sent)
  rw [hcall] at hcall'
  cases hcall'
  refine ⟨by simpa using h.client.trans hclient, by simpa using h.server.trans hserver, ?_⟩
  intro r hr
  rcases List.mem_append.mp hr with hr | hr
  · exact h.log r hr
  · obtain rfl := List.mem_singleton.mp hr
    exact ⟨x, _, y, rfl, hx, hy⟩

/-- Client and server stay in step over any sequence of calls, however long, and never get
stuck in one. -/
theorem conversation_inStep (hclient : Quiet version client) (hserver : Quiet version server)
    (h : (conversation client server).Reach (fun _ e => e.Fits version client server) p) :
    InStep version client server p ∧
      ∀ e : Exchange, e.Fits version client server →
        ∃ p', (conversation client server).step p e p' := by
  have hinStep : InStep version client server p := by
    apply h.invariant
    · rintro _ rfl
      exact ⟨⟨hclient, (List.append_nil _).symm, fun _ => Iff.rfl, rfl⟩,
        ⟨hserver, (List.append_nil _).symm, fun _ => Iff.rfl, rfl⟩, fun _ hr => by cases hr⟩
    · intro p e p' _ hp hfits hstep
      exact (hp.next hfits).2 p' hstep
  exact ⟨hinStep, fun e hfits => (hinStep.next hfits).1⟩

theorem quiet_saneiWInit (io : WireIo) (hreads : ∀ i, ∃ n, io.reads i = .moved n)
    (hwrites : ∀ i, ∃ n, io.writes i = .moved n) (hnothing : io.incoming = [])
    (mem : Nat → UInt8) (stale : SaneWord) :
    Quiet version (saneiWInit version io emptyHeap mem stale) :=
  ⟨idle_saneiWInit .., rfl, rfl, hreads, hwrites, fun _ => rfl, Int.le_refl 0, hnothing⟩

/-- Opening the device `a`. -/
theorem conversation_inStep_open :
    let wire := saneiWInit 3 (writingTo fun _ => .moved 0) emptyHeap (fun _ => 0) 0
    ∃ p, (conversation wire wire).Reach (fun _ e => e.Fits 3 wire wire) p ∧ p.log ≠ [] ∧
      InStep 3 wire wire p := by
  intro wire
  have hquiet : Quiet 3 wire :=
    quiet_saneiWInit _ (fun _ => ⟨_, rfl⟩) (fun _ => ⟨_, rfl⟩) rfl _ _
  let e : Exchange := ⟨2, .string (some ⟨7, [97, 0]⟩), .message (.openReply ⟨0, 0, none⟩),
    fun _ => .string none, fun _ _ => .message (.openReply ⟨0, 1, none⟩)⟩
  have hfits : e.Fits 3 wire wire := by
    have hname : (stringSending (some ⟨7, [97, 0]⟩)).held :=
      ⟨⟨by decide, by decide, fun _ _ => trivial⟩, fun _ => by decide⟩
    have hnone : (stringSending none).held :=
      ⟨⟨by decide, by decide, fun _ hx => by cases hx⟩, fun hne => absurd rfl hne⟩
    have hroom :
        (0 : Int) + (payloadSending 3 (.message (.openReply ⟨0, 1, none⟩))).cost ≤ maxMem := by
      decide
    exact ⟨.string _ _, hname, by decide,
      fun _ _ => ⟨.message (.openReply _ _), ⟨trivial, trivial, hnone⟩, hroom⟩⟩
  obtain ⟨p, hstep⟩ := (conversation_inStep hquiet hquiet (.start rfl)).2 e hfits
  have hreach : (conversation wire wire).Reach (fun _ e => e.Fits 3 wire wire) p :=
    .next (.start rfl) hfits hstep
  refine ⟨p, hreach, ?_, (conversation_inStep hquiet hquiet hreach).1⟩
  obtain ⟨_, _, _, _, _, _, -, -, -, -, rfl⟩ := hstep
  exact List.cons_ne_nil _ _

end SaneBackends.Sanei
