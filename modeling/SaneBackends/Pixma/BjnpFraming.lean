import SaneBackends.Pixma.Bjnp
/-!
# Headers on a BJNP connection

A device whose user takes each block to its end before it writes stands at the end of a
response whenever it parses a header. A write that comes earlier takes bytes of the block for
a header.
-/

namespace SaneBackends.Bjnp

open SaneBackends.Lib

/-- The scanner places a header, or nothing more, at a position of the stream. -/
def Boundary (responses : List Response) (position : Nat) : Prop :=
  ∃ done rest, responses = done ++ rest ∧ position = (stream done).length

/-- All headers were parsed where the scanner placed one. -/
def HeadersFramed (responses : List Response) (events : List Event) : Prop :=
  ∀ position, .header position ∈ events → Boundary responses position

/-- Whether a response answers a read request. -/
def Response.isBlock (r : Response) : Bool := cmdCode r.header == cmdTcpReq

/-- The payloads of the blocks among some responses. -/
def blockData (responses : List Response) : List UInt8 :=
  (responses.filter Response.isBlock).flatMap Response.payload

/-- A device that took some responses, the last of them up to some bytes of a block. What its
user was returned are the blocks up to there. -/
structure Flow (responses done rest : List Response) (block returned : List UInt8)
    (d : Device) : Prop where
  split : responses = done ++ rest
  incoming : d.incoming = block ++ stream rest
  left : block.length = d.scannerDataLeft
  position : d.taken + block.length = (stream done).length
  returned_block : returned ++ block = blockData done

@[simp] theorem stream_nil : stream [] = [] := rfl

@[simp] theorem stream_cons (r : Response) (responses : List Response) :
    stream (r :: responses) = r.header ++ (r.payload ++ stream responses) := by
  simp [stream]

@[simp] theorem stream_append (done rest : List Response) :
    stream (done ++ rest) = stream done ++ stream rest := by
  simp [stream]

@[simp] theorem blockData_append (done rest : List Response) :
    blockData (done ++ rest) = blockData done ++ blockData rest := by
  simp [blockData]

section Received

variable {d d' d'' : Device} {bytes bytes' : List UInt8}

/-- Some bytes of the connection were taken and nothing else changed. -/
structure Received (bytes : List UInt8) (d d' : Device) : Prop where
  incoming : d.incoming = bytes ++ d'.incoming
  taken : d'.taken = d.taken + bytes.length
  frame : d' = { d with recvs := d'.recvs, incoming := d'.incoming, taken := d'.taken }

theorem Received.refl (d : Device) : Received [] d d := ⟨rfl, rfl, rfl⟩

theorem Received.trans (h : Received bytes d d') (h' : Received bytes' d' d'') :
    Received (bytes ++ bytes') d d'' where
  incoming := by rw [h.incoming, h'.incoming, List.append_assoc]
  taken := by rw [h'.taken, h.taken, List.length_append, Nat.add_assoc]
  frame := by rw [h'.frame, h.frame]

theorem Received.lastCmd (h : Received bytes d d') : d'.lastCmd = d.lastCmd := by rw [h.frame]

theorem Received.left (h : Received bytes d d') :
    d'.scannerDataLeft = d.scannerDataLeft := by rw [h.frame]

theorem Received.events (h : Received bytes d d') : d'.events = d.events := by rw [h.frame]

theorem Received.blocksize (h : Received bytes d d') : d'.blocksize = d.blocksize := by
  rw [h.frame]

theorem Received.lastBlock (h : Received bytes d d') : d'.lastBlock = d.lastBlock := by
  rw [h.frame]

/-- A `recv` takes the next bytes of the connection, no more than asked for. -/
theorem recv_received {len : Nat} {r : Option (List UInt8)} (h : recv len d = (r, d')) :
    Received (r.getD []) d d' ∧ (r.getD []).length ≤ len := by
  unfold recv at h
  split at h
  · cases h
    exact ⟨.refl _, Nat.zero_le _⟩
  · cases h
    exact ⟨⟨rfl, rfl, rfl⟩, Nat.zero_le _⟩
  · cases h
    refine ⟨⟨(List.take_append_drop _ _).symm, rfl, rfl⟩, ?_⟩
    exact (List.length_take_le _ _).trans (Nat.min_le_left _ _)

theorem recvHeaderLoop_received {turns : Nat} {header : List UInt8} {r : Option (List UInt8)}
    (hheader : header.length ≤ headerSize) (h : recvHeaderLoop turns header d = (r, d')) :
    ∃ bytes, Received bytes d d' ∧
      ∀ all ∈ r, all = header ++ bytes ∧ all.length = headerSize := by
  induction turns generalizing header d with
  | zero =>
      simp only [recvHeaderLoop, Prod.mk.injEq] at h
      obtain ⟨rfl, rfl⟩ := h
      refine ⟨[], .refl _, ?_⟩
      intro all hall
      split_ifs at hall with hlen
      · cases hall
        exact ⟨(List.append_nil _).symm, Nat.le_antisymm hheader hlen⟩
      · cases hall
  | succ turns ih =>
      unfold recvHeaderLoop at h
      split_ifs at h with hlen
      · cases h
        refine ⟨[], .refl _, ?_⟩
        intro all hall
        cases hall
        exact ⟨(List.append_nil _).symm, Nat.le_antisymm hheader hlen⟩
      · generalize hrecv : recv (headerSize - header.length) d = result at h
        obtain ⟨received, d₁⟩ := result
        obtain ⟨hreceived, hle⟩ := recv_received hrecv
        match received, h with
        | none, h =>
            cases h
            exact ⟨[], hreceived, by simp⟩
        | some [], h =>
            cases h
            exact ⟨[], hreceived, by simp⟩
        | some (b :: bytes), h =>
            have hmore : (header ++ b :: bytes).length ≤ headerSize := by
              simp only [Option.getD_some] at hle
              rw [List.length_append]
              omega
            obtain ⟨bytes', hbytes', hall⟩ := ih hmore h
            refine ⟨b :: bytes ++ bytes', hreceived.trans hbytes', ?_⟩
            intro all hmem
            rw [← List.append_assoc]
            exact hall all hmem

/-- A header is logged where it was taken from; if it is accepted, it answers the last
command. -/
theorem bjnpRecvHeader_cases {r : Option Nat} (h : bjnpRecvHeader d = (r, d')) :
    (r = none ∧ ∃ bytes, Received bytes d d') ∨
    ∃ header d₁, header.length = headerSize ∧ Received header d d₁ ∧
      d' = d₁.log (.header d.taken) ∧
      ∀ left ∈ r, left = payloadLen header ∧ cmdCode header = d.lastCmd := by
  unfold bjnpRecvHeader at h
  generalize hloop : recvHeaderLoop headerSize [] d = result at h
  obtain ⟨received, d₁⟩ := result
  obtain ⟨bytes, hbytes, hall⟩ := recvHeaderLoop_received (Nat.zero_le _) hloop
  cases received with
  | none =>
      cases h
      exact .inl ⟨rfl, bytes, hbytes⟩
  | some header =>
      obtain ⟨rfl, hlen⟩ := hall header rfl
      refine .inr ⟨header, d₁, hlen, hbytes, ?_⟩
      dsimp only at h
      split_ifs at h with hcmd hseq
      · cases h
        exact ⟨rfl, by simp⟩
      · cases h
        exact ⟨rfl, by simp⟩
      · cases h
        refine ⟨rfl, ?_⟩
        intro left hleft
        cases hleft
        have hcmd : cmdCode header = d₁.lastCmd := not_not.mp hcmd
        exact ⟨rfl, hcmd.trans hbytes.lastCmd⟩

/-- Receiving a header keeps what is known of the blocks. -/
theorem bjnpRecvHeader_keeps {r : Option Nat} (h : bjnpRecvHeader d = (r, d')) :
    d'.scannerDataLeft = d.scannerDataLeft ∧ d'.blocksize = d.blocksize ∧
      d'.lastBlock = d.lastBlock := by
  rcases bjnpRecvHeader_cases h with ⟨_, bytes, hbytes⟩ | ⟨header, d₁, _, hheader, rfl, _⟩
  · exact ⟨hbytes.left, hbytes.blocksize, hbytes.lastBlock⟩
  · exact ⟨hheader.left, hheader.blocksize, hheader.lastBlock⟩

theorem bjnpRecvData_received {len : Nat} {r : Option (List UInt8)}
    (h : bjnpRecvData len d = (r, d')) :
    Received (r.getD []) d d' ∧ (r.getD []).length ≤ len := by
  unfold bjnpRecvData at h
  split_ifs at h with hlen
  · cases h
    exact ⟨.refl _, Nat.zero_le _⟩
  · obtain ⟨hreceived, hle⟩ := recv_received h
    exact ⟨hreceived, hle.trans (Nat.min_le_left _ _)⟩

theorem send_eq {len : Nat} {r : Option Nat} (h : send len d = (r, d')) :
    d' = { d with sends := d'.sends } := by
  unfold send at h
  split at h
  all_goals
    cases h
    rfl

theorem bjnpWrite_eq {count : Nat} {r : Option Nat} (h : bjnpWrite count d = (r, d')) :
    d' = { (setCmdForDev cmdTcpSend d).log .write with sends := d'.sends } := by
  unfold bjnpWrite at h
  generalize hsend : send (headerSize + count) ((setCmdForDev cmdTcpSend d).log .write) = result
    at h
  obtain ⟨sent, d₁⟩ := result
  have hd₁ := send_eq hsend
  cases sent with
  | none =>
      cases h
      exact hd₁
  | some sent =>
      dsimp only at h
      split_ifs at h
      all_goals
        cases h
        exact hd₁

end Received

section Returns

variable {d d' : Device}

/-- A `recv` that succeeds was waited for. -/
theorem recv_waits {len : Nat} {bytes : List UInt8} (h : recv len d = (some bytes, d')) :
    d'.recvs.length < d.recvs.length := by
  cases hrecvs : d.recvs with
  | nil =>
      simp only [recv, hrecvs] at h
      cases h
  | cons r recvs =>
      cases r with
      | none =>
          simp only [recv, hrecvs] at h
          cases h
      | some most =>
          simp only [recv, hrecvs] at h
          cases h
          exact Nat.lt_succ_self _

theorem bjnpRecvData_waits {len : Nat} {bytes : List UInt8}
    (h : bjnpRecvData len d = (some bytes, d')) :
    d'.recvs.length ≤ d.recvs.length ∧ (0 < len → d'.recvs.length < d.recvs.length) := by
  unfold bjnpRecvData at h
  split_ifs at h with hlen
  · cases h
    exact ⟨le_rfl, fun hpos => absurd hpos (by omega)⟩
  · have hwaits := recv_waits h
    exact ⟨by omega, fun _ => hwaits⟩

theorem recvHeaderLoop_waits {turns : Nat} {header all : List UInt8}
    (h : recvHeaderLoop turns header d = (some all, d')) :
    d'.recvs.length ≤ d.recvs.length ∧
      (header.length < headerSize → d'.recvs.length < d.recvs.length) := by
  induction turns generalizing header d with
  | zero =>
      simp only [recvHeaderLoop, Prod.mk.injEq, Option.ite_none_right_eq_some] at h
      obtain ⟨⟨hlen, -⟩, rfl⟩ := h
      exact ⟨le_rfl, fun hshort => absurd hshort (by omega)⟩
  | succ turns ih =>
      unfold recvHeaderLoop at h
      split_ifs at h with hlen
      · cases h
        exact ⟨le_rfl, fun hshort => absurd hshort (by omega)⟩
      · generalize hrecv : recv (headerSize - header.length) d = result at h
        obtain ⟨received, d₁⟩ := result
        match received, h with
        | some (b :: bytes), h =>
            have hwaits := recv_waits hrecv
            have hrest := (ih h).1
            exact ⟨by omega, fun _ => by omega⟩

theorem requestBlock_waits (h : requestBlock d = (true, d')) :
    d'.recvs.length < d.recvs.length := by
  unfold requestBlock bjnpSendReadRequest at h
  generalize hsend : send headerSize ((setCmdForDev cmdTcpReq d).log .readRequest) = result at h
  obtain ⟨sent, d₁⟩ := result
  have hd₁ : d₁.recvs = d.recvs := by rw [send_eq hsend]; rfl
  cases sent with
  | none => cases h
  | some sent =>
      dsimp only [bjnpRecvHeader] at h
      generalize hloop : recvHeaderLoop headerSize [] d₁ = result at h
      obtain ⟨received, d₂⟩ := result
      cases received with
      | none => cases h
      | some header =>
          have hwaits := (recvHeaderLoop_waits hloop).2 (by decide)
          rw [hd₁] at hwaits
          dsimp only at h
          split_ifs at h with hcmd hseq
          · cases h
          · cases h
          · cases h
            exact hwaits

/-- A loop that is given a turn more than there are waits comes to its end. -/
theorem readLoop_returns {requested turns : Nat} {buffer : List UInt8}
    (h : d.recvs.length < turns) : ∃ result, readLoop requested turns buffer d = some result := by
  induction turns generalizing buffer d with
  | zero => cases h
  | succ turns ih =>
      unfold readLoop
      split_ifs with hmore hzero
      · generalize hblock : requestBlock d = result
        obtain ⟨ok, d₁⟩ := result
        cases ok with
        | false => exact ⟨_, rfl⟩
        | true =>
            have hwaits := requestBlock_waits hblock
            dsimp only
            generalize hdata : bjnpRecvData _ d₁ = result
            obtain ⟨r, d₂⟩ := result
            cases r with
            | none => exact ⟨_, rfl⟩
            | some bytes =>
                have hdata' := (bjnpRecvData_waits hdata).1
                refine ih ?_
                dsimp only
                omega
      · dsimp only
        generalize hdata : bjnpRecvData _ d = result
        obtain ⟨r, d₂⟩ := result
        cases r with
        | none => exact ⟨_, rfl⟩
        | some bytes =>
            have hdata' := (bjnpRecvData_waits hdata).2 (by omega)
            refine ih ?_
            dsimp only
            omega
      · exact ⟨_, rfl⟩

/-- A read returns, whatever becomes of the calls it makes. -/
theorem readBulk_returns (size : Nat) (d : Device) : ∃ result, readBulk size d = some result := by
  obtain ⟨⟨ok, buffer, d'⟩, hloop⟩ :=
    @readLoop_returns d size _ [] (Nat.lt_succ_self d.recvs.length)
  unfold readBulk
  rw [hloop]
  cases ok with
  | false => exact ⟨_, rfl⟩
  | true => exact ⟨_, rfl⟩

end Returns

section ReadLoop

variable {requested : Nat} {P : Bool → List UInt8 → Device → Prop}

/-- What a request for a block and the receipt of some bytes keep, a read keeps. -/
theorem readLoop_rule
    (hrequest : ∀ buffer d ok d', P true buffer d → d.lastBlock = false →
      d.scannerDataLeft = 0 → requestBlock d = (ok, d') → P ok buffer d')
    (hdata : ∀ buffer d r d', P true buffer d →
      bjnpRecvData (min d.scannerDataLeft (requested - buffer.length)) d = (r, d') →
      P r.isSome (buffer ++ r.getD [])
        { d' with scannerDataLeft := d'.scannerDataLeft - (r.getD []).length })
    {turns : Nat} {buffer buffer' : List UInt8} {d d' : Device} {ok : Bool}
    (h : P true buffer d) (hrun : readLoop requested turns buffer d = some (ok, buffer', d')) :
    P ok buffer' d' := by
  induction turns generalizing buffer d with
  | zero => cases hrun
  | succ turns ih =>
      unfold readLoop at hrun
      split_ifs at hrun with hmore hzero
      · have hlast : d.lastBlock = false := by
          have := hmore.2
          simp_all
        generalize hblock : requestBlock d = result at hrun
        obtain ⟨ok₁, d₁⟩ := result
        have h₁ := hrequest buffer d ok₁ d₁ h hlast hzero hblock
        cases ok₁ with
        | false =>
            cases hrun
            exact h₁
        | true =>
            dsimp only at hrun
            generalize hrecv : bjnpRecvData _ d₁ = result at hrun
            obtain ⟨r, d₂⟩ := result
            have h₂ := hdata buffer d₁ r d₂ h₁ hrecv
            cases r with
            | none =>
                cases hrun
                rw [Option.getD_none, List.append_nil] at h₂
                exact h₂
            | some bytes => exact ih h₂ hrun
      · dsimp only at hrun
        generalize hrecv : bjnpRecvData _ d = result at hrun
        obtain ⟨r, d₂⟩ := result
        have h₂ := hdata buffer d r d₂ h hrecv
        cases r with
        | none =>
            cases hrun
            rw [Option.getD_none, List.append_nil] at h₂
            exact h₂
        | some bytes => exact ih h₂ hrun
      · cases hrun
        exact h

end ReadLoop

section Flow

variable {responses done rest : List Response} {block returned : List UInt8}
  {d d' : Device}

/-- A header parsed between two responses is that of the next one. -/
theorem Flow.next {header : List UInt8} (h : Flow responses done rest [] returned d)
    (hheader : Received header d d') (hlen : header.length = headerSize) :
    ∃ r rest', rest = r :: rest' ∧ header = r.header ∧
      d'.incoming = r.payload ++ stream rest' := by
  have hincoming : stream rest = header ++ d'.incoming := by
    rw [← hheader.incoming, h.incoming, List.nil_append]
  cases rest with
  | nil =>
      have : header.length = 0 := by
        have := congrArg List.length hincoming
        simp only [stream_nil, List.length_nil, List.length_append] at this
        omega
      rw [hlen] at this
      cases this
  | cons r rest =>
      rw [stream_cons] at hincoming
      obtain ⟨hhead, htail⟩ := List.append_inj hincoming (r.length_header.trans hlen.symm)
      exact ⟨r, rest, rfl, hhead.symm, htail.symm⟩

theorem Flow.boundary (h : Flow responses done rest [] returned d) :
    Boundary responses d.taken := ⟨done, rest, h.split, h.position⟩

theorem HeadersFramed.append {events : List Event} (h : HeadersFramed responses events)
    {e : Event} (he : ∀ position, e = .header position → Boundary responses position) :
    HeadersFramed responses (events ++ [e]) := by
  intro position hposition
  rcases List.mem_append.mp hposition with hold | hnew
  · exact h position hold
  · exact he position (List.mem_singleton.mp hnew).symm

/-- A header parsed between two responses answers the last command sent, and leaves the
device before the payload. -/
theorem Flow.recvHeader {r : Option Nat} (h : Flow responses done rest [] returned d)
    (hframed : HeadersFramed responses d.events) (hrun : bjnpRecvHeader d = (r, d')) :
    HeadersFramed responses d'.events ∧ ∀ left ∈ r, ∃ response rest',
      rest = response :: rest' ∧ left = response.payload.length ∧
      cmdCode response.header = d.lastCmd ∧ d'.incoming = response.payload ++ stream rest' ∧
      d'.taken = d.taken + headerSize ∧ d'.events = d.events ++ [Event.header d.taken] := by
  rcases bjnpRecvHeader_cases hrun with ⟨rfl, bytes, hbytes⟩ | ⟨header, d₁, hlen, hheader, rfl, hr⟩
  · rw [hbytes.events]
    exact ⟨hframed, by simp⟩
  · have hevents : (d₁.log (.header d.taken)).events = d.events ++ [Event.header d.taken] := by
      rw [Device.log, hheader.events]
    constructor
    · rw [hevents]
      refine hframed.append ?_
      intro position heq
      cases heq
      exact h.boundary
    · intro left hleft
      obtain ⟨response, rest', hrest, rfl, hincoming⟩ := h.next hheader hlen
      obtain ⟨rfl, hcmd⟩ := hr left hleft
      have htaken : d₁.taken = d.taken + headerSize := by rw [hheader.taken, hlen]
      exact ⟨response, rest', hrest, response.announced, hcmd, hincoming, htaken, hevents⟩

/-- A flow does not depend on what is pending or logged. -/
theorem Flow.congr (h : Flow responses done rest block returned d)
    (hincoming : d'.incoming = d.incoming) (hleft : d'.scannerDataLeft = d.scannerDataLeft)
    (htaken : d'.taken = d.taken) : Flow responses done rest block returned d' where
  split := h.split
  incoming := hincoming.trans h.incoming
  left := h.left.trans hleft.symm
  position := by rw [htaken, h.position]
  returned_block := h.returned_block

theorem blockData_singleton {r : Response} (h : cmdCode r.header = cmdTcpReq) :
    blockData [r] = r.payload := by
  simp [blockData, Response.isBlock, h]

/-- A response that was taken up to its payload, if that is a block. -/
theorem Flow.enter {response : Response} (h : Flow responses done (response :: rest) [] returned d)
    (hcmd : cmdCode response.header = cmdTcpReq)
    (hincoming : d'.incoming = response.payload ++ stream rest)
    (hleft : d'.scannerDataLeft = response.payload.length)
    (htaken : d'.taken = d.taken + headerSize) :
    Flow responses (done ++ [response]) rest response.payload returned d' where
  split := by rw [h.split, List.append_assoc, List.singleton_append]
  incoming := hincoming
  left := hleft.symm
  position := by
    have hposition := h.position
    simp only [stream_append, stream_cons, stream_nil, List.length_append, List.append_nil,
      response.length_header, List.length_nil] at hposition ⊢
    omega
  returned_block := by
    have hreturned := h.returned_block
    rw [List.append_nil] at hreturned
    rw [blockData_append, blockData_singleton hcmd, hreturned]

/-- What a read request that succeeds does: the next response is a block. -/
structure Requested (response : Response) (d d' : Device) : Prop where
  isBlock : response.isBlock = true
  events : d'.events = d.events ++
    [Event.readRequest, Event.header d.taken, Event.block response.payload.length]
  blocksize : d'.blocksize = max d.blocksize response.payload.length
  lastBlock : d'.lastBlock =
    (d.lastBlock || decide (response.payload.length < max d.blocksize response.payload.length))

/-- A read request takes the header of the next response. -/
theorem Flow.requestBlock {ok : Bool} (h : Flow responses done rest [] returned d)
    (hframed : HeadersFramed responses d.events) (hrun : requestBlock d = (ok, d')) :
    HeadersFramed responses d'.events ∧ (ok = true → ∃ response rest',
      Flow responses (done ++ [response]) rest' response.payload returned d' ∧
      Requested response d d') := by
  unfold Bjnp.requestBlock bjnpSendReadRequest at hrun
  generalize hsend : send headerSize ((setCmdForDev cmdTcpReq d).log .readRequest) = result at hrun
  obtain ⟨sent, d₁⟩ := result
  have hd₁ := send_eq hsend
  have hevents : d₁.events = d.events ++ [Event.readRequest] := by rw [hd₁]; rfl
  have hframed₁ : HeadersFramed responses d₁.events := by
    rw [hevents]
    exact hframed.append fun _ heq => nomatch heq
  cases sent with
  | none =>
      cases hrun
      exact ⟨hframed₁, by simp⟩
  | some sent =>
      dsimp only at hrun
      have h₁ : Flow responses done rest [] returned d₁ := by
        rw [hd₁]
        exact h.congr rfl rfl rfl
      generalize hheader : bjnpRecvHeader d₁ = result at hrun
      obtain ⟨r, d₂⟩ := result
      obtain ⟨hframed₂, hr⟩ := h₁.recvHeader hframed₁ hheader
      cases r with
      | none =>
          cases hrun
          exact ⟨hframed₂, by simp⟩
      | some left =>
          obtain ⟨response, rest', rfl, rfl, hcmd, hincoming, htaken, hevents₂⟩ := hr left rfl
          have hcmd₁ : cmdCode response.header = cmdTcpReq := by rw [hcmd, hd₁]; rfl
          have hkept := bjnpRecvHeader_keeps hheader
          cases hrun
          constructor
          · exact hframed₂.append fun _ heq => nomatch heq
          · intro _
            refine ⟨response, rest', h₁.enter hcmd₁ hincoming rfl htaken, ?_⟩
            refine ⟨beq_iff_eq.mpr hcmd₁, ?_, ?_, ?_⟩
            · have htaken₁ : d₁.taken = d.taken := by rw [hd₁]; rfl
              rw [Device.log, hevents₂, hevents, htaken₁, List.append_assoc, List.append_assoc]
              rfl
            · have hblocksize₁ : d₁.blocksize = d.blocksize := by rw [hd₁]; rfl
              rw [hkept.2.1, hblocksize₁]
            · have hblocksize₁ : d₁.blocksize = d.blocksize := by rw [hd₁]; rfl
              have hlastBlock₁ : d₁.lastBlock = d.lastBlock := by rw [hd₁]; rfl
              rw [hkept.2.1, hkept.2.2, hblocksize₁, hlastBlock₁]

/-- The bytes received go on from the block to the user. -/
theorem Flow.receive {r : Option (List UInt8)} {len : Nat}
    (h : Flow responses done rest block returned d) (hle : len ≤ d.scannerDataLeft)
    (hrun : bjnpRecvData len d = (r, d')) :
    ∃ block', Flow responses done rest block' (returned ++ r.getD [])
      { d' with scannerDataLeft := d'.scannerDataLeft - (r.getD []).length } := by
  obtain ⟨hreceived, hlen⟩ := bjnpRecvData_received hrun
  generalize r.getD [] = bytes at hreceived hlen ⊢
  have hincoming : block ++ stream rest = bytes ++ d'.incoming := by
    rw [← h.incoming, hreceived.incoming]
  have hshort : bytes.length ≤ block.length := by
    rw [h.left]
    exact hlen.trans hle
  obtain ⟨block', rfl, htail⟩ : ∃ block', block = bytes ++ block' ∧
      d'.incoming = block' ++ stream rest := by
    have hprefix : bytes <+: block :=
      List.prefix_of_prefix_length_le ⟨_, hincoming.symm⟩ (List.prefix_append _ _) hshort
    obtain ⟨block', rfl⟩ := hprefix
    rw [List.append_assoc] at hincoming
    exact ⟨block', rfl, (List.append_cancel_left hincoming).symm⟩
  have hposition := h.position
  have hleft := h.left
  rw [List.length_append] at hposition hleft
  refine ⟨block', h.split, htail, ?_, ?_, ?_⟩
  · dsimp only
    rw [hreceived.left]
    omega
  · dsimp only
    rw [hreceived.taken]
    omega
  · rw [List.append_assoc]
    exact h.returned_block

theorem Flow.nil_of_left (h : Flow responses done rest block returned d)
    (hleft : d.scannerDataLeft = 0) : Flow responses done rest [] returned d := by
  have hblock : block = [] := List.eq_nil_of_length_eq_zero (h.left.trans hleft)
  rw [← hblock]
  exact h

/-- A device whose connection is in flow, with a block taken for each read request. -/
def InFlow (responses : List Response) (returned : List UInt8) (d : Device) : Prop :=
  ∃ done rest block, Flow responses done rest block returned d ∧
    d.events.count .readRequest = (done.filter Response.isBlock).length

/-- A read leaves the connection in flow. -/
theorem InFlow.readBulk {size : Nat} {status : Status} {buffer : List UInt8}
    (h : InFlow responses returned d) (hframed : HeadersFramed responses d.events)
    (hrun : readBulk size d = some (status, buffer, d')) :
    HeadersFramed responses d'.events ∧
      (status ≠ .ioError → InFlow responses (returned ++ buffer) d') := by
  have hrule := @readLoop_rule size
    (fun ok buffer d => HeadersFramed responses d.events ∧
      (ok = true → InFlow responses (returned ++ buffer) d)) ?_ ?_
  · unfold Bjnp.readBulk at hrun
    generalize hloop : readLoop size (d.recvs.length + 1) [] d = result at hrun
    match result, hrun with
    | some (false, buffer, d'), hrun =>
        cases hrun
        exact ⟨(hrule ⟨hframed, fun _ => by rwa [List.append_nil]⟩ hloop).1, by simp⟩
    | some (true, buffer, d'), hrun =>
        cases hrun
        obtain ⟨hframed', hflow⟩ := hrule ⟨hframed, fun _ => by rwa [List.append_nil]⟩ hloop
        exact ⟨hframed', fun _ => hflow rfl⟩
  · rintro buffer d ok d' ⟨hframed, hflow⟩ _ hleft hrun
    obtain ⟨done, rest, block, hflow, hcount⟩ := hflow rfl
    obtain ⟨hframed', hok⟩ := (hflow.nil_of_left hleft).requestBlock hframed hrun
    refine ⟨hframed', ?_⟩
    intro heq
    obtain ⟨response, rest', hflow', hrequested⟩ := hok heq
    refine ⟨_, rest', _, hflow', ?_⟩
    rw [hrequested.events, List.count_append, hcount, List.filter_append, List.length_append,
      List.filter_singleton, hrequested.isBlock]
    rfl
  · rintro buffer d r d' ⟨hframed, hflow⟩ hrun
    obtain ⟨done, rest, block, hflow, hcount⟩ := hflow rfl
    rw [← (bjnpRecvData_received hrun).1.events] at hframed hcount
    refine ⟨hframed, ?_⟩
    intro _
    obtain ⟨block', hflow'⟩ := hflow.receive (Nat.min_le_left _ _) hrun
    rw [List.append_assoc] at hflow'
    exact ⟨done, rest, block', hflow', hcount⟩

/-- A response that was taken to its end, if that is no block. -/
theorem Flow.pass {response : Response} (h : Flow responses done (response :: rest) [] returned d)
    (hcmd : cmdCode response.header ≠ cmdTcpReq) (hincoming : d'.incoming = stream rest)
    (hleft : d'.scannerDataLeft = 0)
    (htaken : d'.taken = d.taken + headerSize + response.payload.length) :
    Flow responses (done ++ [response]) rest [] returned d' where
  split := by rw [h.split, List.append_assoc, List.singleton_append]
  incoming := hincoming
  left := hleft.symm
  position := by
    have hposition := h.position
    simp only [stream_append, stream_cons, stream_nil, List.length_append, List.append_nil,
      response.length_header, List.length_nil] at hposition ⊢
    omega
  returned_block := by
    have hblock : response.isBlock = false := beq_eq_false_iff_ne.mpr hcmd
    rw [blockData_append, h.returned_block, blockData, blockData, List.filter_cons, hblock]
    simp

/-- A write behind a block that was taken to its end leaves the connection in flow. -/
theorem InFlow.writeBulk {size : Nat} {status : Status} (h : InFlow responses returned d)
    (hleft : d.scannerDataLeft = 0) (hframed : HeadersFramed responses d.events)
    (hrun : writeBulk size d = (status, d')) :
    HeadersFramed responses d'.events ∧ (status ≠ .ioError → InFlow responses returned d') := by
  obtain ⟨done, rest, block, h, hcount⟩ := h
  replace h := h.nil_of_left hleft
  unfold Bjnp.writeBulk at hrun
  generalize hwrite : bjnpWrite size d = result at hrun
  obtain ⟨sent, d₁⟩ := result
  have hd₁ := bjnpWrite_eq hwrite
  have hframed₁ : HeadersFramed responses d₁.events := by
    rw [hd₁]
    exact hframed.append fun _ heq => nomatch heq
  have h₁ : Flow responses done rest [] returned d₁ := by
    rw [hd₁]
    exact h.congr rfl rfl rfl
  have hcmd₁ : d₁.lastCmd = cmdTcpSend := by rw [hd₁]; rfl
  have hleft₁ : d₁.scannerDataLeft = 0 := h₁.left.symm
  cases sent with
  | none =>
      cases hrun
      exact ⟨hframed₁, by simp⟩
  | some sent =>
      dsimp only at hrun
      split_ifs at hrun with hsent
      · cases hrun
        exact ⟨hframed₁, by simp⟩
      generalize hheader : bjnpRecvHeader d₁ = result at hrun
      obtain ⟨r, d₂⟩ := result
      obtain ⟨hframed₂, hr⟩ := h₁.recvHeader hframed₁ hheader
      cases r with
      | none =>
          cases hrun
          exact ⟨hframed₂, by simp⟩
      | some payloadSize =>
          obtain ⟨response, rest', rfl, rfl, hcmd, hincoming, htaken, hevents⟩ := hr _ rfl
          have hanswer : cmdCode response.header ≠ cmdTcpReq := by
            rw [hcmd, hcmd₁]
            decide
          dsimp only at hrun
          split_ifs at hrun with hfour
          · cases hrun
            exact ⟨hframed₂, by simp⟩
          generalize hdata : bjnpRecvData response.payload.length d₂ = result at hrun
          obtain ⟨r, d₃⟩ := result
          obtain ⟨hreceived, -⟩ := bjnpRecvData_received hdata
          have hframed₃ : HeadersFramed responses d₃.events := by
            rw [hreceived.events]
            exact hframed₂
          cases r with
          | none =>
              cases hrun
              exact ⟨hframed₃, by simp⟩
          | some buf =>
              dsimp only at hrun
              split_ifs at hrun with hall hconfirmed
              · cases hrun
                exact ⟨hframed₃, by simp⟩
              · cases hrun
                exact ⟨hframed₃, by simp⟩
              · cases hrun
                refine ⟨hframed₃, ?_⟩
                intro _
                have hbuf : buf.length = response.payload.length := not_not.mp hall
                have hrest : d₃.incoming = stream rest' := by
                  have hsame := hreceived.incoming
                  rw [hincoming] at hsame
                  exact (List.append_inj_right hsame hbuf.symm).symm
                refine ⟨_, rest', _, h₁.pass hanswer hrest ?_ ?_, ?_⟩
                · dsimp only
                  rw [hreceived.left, (bjnpRecvHeader_keeps hheader).1, hleft₁]
                · dsimp only
                  rw [hreceived.taken, htaken, Option.getD_some, hbuf]
                · have hblock : response.isBlock = false := beq_eq_false_iff_ne.mpr hanswer
                  have hevents₁ : d₁.events = d.events ++ [Event.write] := by rw [hd₁]; rfl
                  dsimp only
                  rw [hreceived.events, hevents, hevents₁, List.count_append, List.count_append,
                    hcount, List.filter_append, List.filter_singleton, hblock]
                  simp

end Flow

/-- A write comes when the device has taken the block before to its end. -/
def Drained (l : Link) : Call → Prop
  | .readBulk _ => True
  | .writeBulk _ => l.device.scannerDataLeft = 0

instance (l : Link) (c : Call) : Decidable (Drained l c) := by
  cases c
  · exact .isTrue trivial
  · exact inferInstanceAs (Decidable (_ = _))

section Runs

variable {responses : List Response} {l l' : Link} {c : Call}

/-- All headers were framed, and behind calls that did not fail the connection is in flow. -/
structure Sound (responses : List Response) (l : Link) : Prop where
  framed : HeadersFramed responses l.device.events
  inFlow : l.failed = false → InFlow responses l.returned l.device

theorem Sound.opened (serial : BitVec 16) (lastCmd : UInt8) (recvs sends : List (Option Nat)) :
    Sound responses (Link.opened (stream responses) serial lastCmd recvs sends) where
  framed := fun _ hmem => nomatch hmem
  inFlow := fun _ => ⟨[], responses, [], ⟨rfl, rfl, rfl, rfl, rfl⟩, rfl⟩

theorem Sound.call (h : Sound responses l) (hdrained : Drained l c)
    (hcall : l.call c = some l') : Sound responses l' := by
  cases c with
  | readBulk size =>
      simp only [Link.call, Option.ite_none_left_eq_some] at hcall
      obtain ⟨hfailed, hcall⟩ := hcall
      generalize hread : readBulk size l.device = result at hcall
      match result, hcall with
      | some (status, buffer, d), hcall =>
          cases hcall
          have hok : l.failed = false := Bool.eq_false_of_not_eq_true hfailed
          obtain ⟨hframed, hflow⟩ := (h.inFlow hok).readBulk h.framed hread
          exact ⟨hframed, fun hstatus => hflow (of_decide_eq_false hstatus)⟩
  | writeBulk size =>
      simp only [Link.call, Option.ite_none_left_eq_some] at hcall
      obtain ⟨hfailed, hcall⟩ := hcall
      generalize hwrite : writeBulk size l.device = result at hcall
      obtain ⟨status, d⟩ := result
      cases hcall
      have hok : l.failed = false := Bool.eq_false_of_not_eq_true fun heq => hfailed (.inl heq)
      obtain ⟨hframed, hflow⟩ := (h.inFlow hok).writeBulk hdrained h.framed hwrite
      exact ⟨hframed, fun hstatus => hflow (of_decide_eq_false hstatus)⟩

theorem sound_of_reach (h : (bulk responses).Reach Drained l) : Sound responses l := by
  refine h.invariant ?_ ?_
  · rintro l ⟨serial, lastCmd, recvs, sends, rfl⟩
    exact .opened serial lastCmd recvs sends
  · intro l c l' _ hsound hdrained hcall
    exact hsound.call hdrained hcall

/-- In a run that writes only behind blocks taken to their end, each header that is parsed is
one of the scanner's. -/
theorem headersFramed_of_reach (h : (bulk responses).Reach Drained l) :
    HeadersFramed responses l.device.events := (sound_of_reach h).framed

end Runs

theorem boundary_iff {responses : List Response} {position : Nat} :
    Boundary responses position ↔
      ∃ n ∈ List.range (responses.length + 1), position = (stream (responses.take n)).length := by
  constructor
  · rintro ⟨done, rest, rfl, hposition⟩
    refine ⟨done.length, ?_, ?_⟩
    · simp
    · rw [List.take_left, hposition]
  · rintro ⟨n, -, hposition⟩
    exact ⟨_, _, (List.take_append_drop n responses).symm, hposition⟩

instance (responses : List Response) (position : Nat) :
    Decidable (Boundary responses position) := decidable_of_iff _ boundary_iff.symm

/-- The header of a response of the scanner. -/
def responseHeader (cmd seq : UInt8) (length : Nat) : List UInt8 :=
  [66, 74, 78, 80, 0x82, cmd, 0, 0, 0, seq, 0, 0,
    0, 0, UInt8.ofNat (length / 256), UInt8.ofNat length]

/-- A block of 24 bytes in which the response to a write of five bytes can be read, and the
response to that write. -/
def misleading : List Response := [
  { header := responseHeader cmdTcpReq 1 24
    payload := [1, 2, 3, 4] ++ responseHeader cmdTcpSend 2 4 ++ [0, 0, 0, 5]
    length_header := by decide
    announced := by decide },
  { header := responseHeader cmdTcpSend 2 4
    payload := [0, 0, 0, 5]
    length_header := by decide
    announced := by decide }]

theorem bulk_step {responses : List Response} (l : Link) (c : Call) (l' : Link)
    (h : l.call c = some l') : (bulk responses).step l c l' := h

theorem bulk_init (responses : List Response) (recvs : List (Option Nat)) :
    (bulk responses).init (Link.opened (stream responses) 0 0 recvs []) :=
  ⟨0, 0, recvs, [], rfl⟩

/-- The block is read to its end, in two parts, before the write. -/
theorem headersFramed_of_reach_drained : ∃ l,
    (bulk misleading).Reach Drained l ∧ HeadersFramed misleading l.device.events := by
  obtain ⟨l, hreach, -⟩ := System.exists_reach_runSteps (C := Drained)
    (Q := fun _ => True) bulk_step
    (bulk_init misleading [some 9, some 7, some 4, some 20, some 16, some 4])
    [.readBulk 4, .readBulk 100, .writeBulk 5] (by decide)
  exact ⟨l, hreach, headersFramed_of_reach hreach⟩

/-- The write comes when four bytes of the block were read, and succeeds. -/
theorem not_headersFramed_inBlock : ¬ ∀ responses l, (bulk responses).Reachable l →
    l.failed = false → HeadersFramed responses l.device.events := by
  intro h
  obtain ⟨l, hreach, hfailed, hparsed⟩ := System.exists_reach_runSteps
    (C := fun _ _ => True) (Q := fun l => l.failed = false ∧ Event.header 20 ∈ l.device.events) bulk_step
    (bulk_init misleading [some 16, some 4, some 16, some 4])
    [.readBulk 4, .writeBulk 5] (by decide)
  exact absurd (h misleading l hreach hfailed 20 hparsed) (by decide)

end SaneBackends.Bjnp
