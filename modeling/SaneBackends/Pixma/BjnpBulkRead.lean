import SaneBackends.Lib.Logged
import SaneBackends.Pixma.BjnpFraming
/-!
# What bulk reads return on a BJNP connection

Reads return the payloads of the blocks, one after the other. The driver takes a block for
the last one of an answer if it is shorter than one before, so that a short block that comes
first is followed by another read request.
-/

namespace SaneBackends.Bjnp

open SaneBackends.Lib

/-- The longer of a length and of a block. -/
def longer (n : Nat) : Event → Nat
  | .block length => max n length
  | _ => n

/-- The longest block so far, with the size that is assumed before any. -/
def longest (events : List Event) : Nat := events.foldl longer blocksizeStart

/-- Behind a block whose length is short, read requests wait for the next write. -/
def StopsAtShort (short : List Event → Nat → Prop) (events : List Event) : Prop :=
  ∀ before length between after,
    events = before ++ Event.block length :: (between ++ Event.readRequest :: after) →
    Event.write ∉ between → ¬ short before length

/-- What was returned, and what is left of the block at hand, are the blocks that the scanner
sent, one for each read request. -/
def Delivered (responses : List Response) (l : Link) : Prop :=
  ∃ done rest block, responses = done ++ rest ∧
    l.device.incoming = block ++ stream rest ∧ block.length = l.device.scannerDataLeft ∧
    l.returned ++ block = blockData done ∧
    l.device.events.count .readRequest = (done.filter Response.isBlock).length

/-- What a user of bulk reads relies on. -/
structure BulkRead (responses : List Response) (short : List Event → Nat → Prop)
    (l : Link) : Prop where
  delivered : l.failed = false → Delivered responses l
  atMost : ∀ asked returned, (asked, returned) ∈ l.reads → returned ≤ asked
  stops : StopsAtShort short l.device.events

/-- The longest block so far, and whether a shorter one ended the answer. -/
def stopStep : Nat × Bool → Event → Option (Nat × Bool)
  | (longest, ended), .readRequest => if ended then none else some (longest, false)
  | (longest, _), .write => some (longest, false)
  | (longest, ended), .header _ => some (longest, ended)
  | (longest, ended), .block length =>
      some (max longest length, ended || decide (length < max longest length))

section Monitor

variable {events : List Event} {m m' : Nat × Bool}

theorem stopStep_longest {e : Event} (h : stopStep m e = some m') :
    m'.1 = longer m.1 e := by
  obtain ⟨n, ended⟩ := m
  cases e with
  | readRequest =>
      simp only [stopStep, Option.ite_none_left_eq_some, Option.some.injEq] at h
      rw [← h.2]
      rfl
  | write | header _ | block _ =>
      cases h
      rfl

theorem watch_longest (h : watch stopStep m events = some m') :
    m'.1 = events.foldl longer m.1 := by
  induction events generalizing m with
  | nil =>
      cases h
      rfl
  | cons e events ih =>
      rw [watch_cons] at h
      obtain ⟨m₁, hm₁, h⟩ := Option.bind_eq_some_iff.mp h
      rw [ih h, stopStep_longest hm₁, List.foldl_cons]

/-- An answer that has ended stays so until a write. -/
theorem watch_ended (hended : m.2 = true) (hwrite : Event.write ∉ events)
    (h : watch stopStep m events = some m') : m'.2 = true := by
  induction events generalizing m with
  | nil =>
      cases h
      exact hended
  | cons e events ih =>
      rw [watch_cons] at h
      obtain ⟨m₁, hm₁, h⟩ := Option.bind_eq_some_iff.mp h
      obtain ⟨hne, hwrite⟩ := List.ne_and_not_mem_of_not_mem_cons hwrite
      refine ih ?_ hwrite h
      obtain ⟨n, ended⟩ := m
      cases hended
      cases e with
      | readRequest => simp [stopStep] at hm₁
      | write => exact absurd rfl hne
      | header _ | block _ =>
          cases hm₁
          rfl

theorem stopsAtShort_of_watch (h : watch stopStep (blocksizeStart, false) events = some m) :
    StopsAtShort (fun before length => length < longest before) events := by
  rintro before length between after rfl hwrite hshort
  obtain ⟨⟨n, ended⟩, hbefore, h⟩ := watch_of_append h
  have hn : n = longest before := watch_longest hbefore
  rw [watch_cons] at h
  obtain ⟨m₁, hm₁, h⟩ := Option.bind_eq_some_iff.mp h
  have hended : m₁.2 = true := by
    cases hm₁
    have : length < max n length := by omega
    simp [this]
  obtain ⟨⟨n₂, ended₂⟩, hbetween, h⟩ := watch_of_append h
  have hended₂ : ended₂ = true := watch_ended hended hwrite hbetween
  cases hended₂
  cases h

end Monitor

section Watched

variable {d d' : Device}

/-- The events so far are accepted, and the device knows the longest block. -/
def Watched (ended : Bool) (d : Device) : Prop :=
  watch stopStep (blocksizeStart, false) d.events = some (d.blocksize, ended)

/-- A device that knows of an answer that has ended. -/
def Stopping (d : Device) : Prop := ∃ ended, Watched ended d ∧ (ended = true → d.lastBlock = true)

theorem watch_log {m m' m₀ : Nat × Bool} {e : Event} (h : watch stopStep m₀ d.events = some m)
    (he : stopStep m e = some m') : watch stopStep m₀ (d.log e).events = some m' := by
  rw [Device.log, watch_append, h]
  simp [watch_cons, he]

theorem Watched.received {ended : Bool} {bytes : List UInt8} (h : Watched ended d)
    (hbytes : Received bytes d d') : Watched ended d' := by
  unfold Watched
  rw [hbytes.events, hbytes.blocksize]
  exact h

theorem Watched.recvHeader {ended : Bool} {r : Option Nat} (h : Watched ended d)
    (hrun : bjnpRecvHeader d = (r, d')) : Watched ended d' := by
  rcases bjnpRecvHeader_cases hrun with ⟨_, bytes, hbytes⟩ | ⟨header, d₁, _, hheader, rfl, _⟩
  · exact h.received hbytes
  · exact watch_log (h.received hheader) rfl

theorem Stopping.requestBlock {ok : Bool} (h : Stopping d) (hlast : d.lastBlock = false)
    (hrun : requestBlock d = (ok, d')) : Stopping d' := by
  unfold Bjnp.requestBlock bjnpSendReadRequest at hrun
  generalize hsend : send headerSize ((setCmdForDev cmdTcpReq d).log .readRequest) = result at hrun
  obtain ⟨sent, d₁⟩ := result
  have hd₁ := send_eq hsend
  have h₁ : Watched false d₁ := by
    obtain ⟨ended, hwatch, hended⟩ := h
    have hgoes : ended = false := by
      by_contra hne
      rw [hended (Bool.eq_true_of_not_eq_false hne)] at hlast
      cases hlast
    subst hgoes
    rw [hd₁]
    exact @watch_log (setCmdForDev cmdTcpReq d) _ _ _ _ hwatch rfl
  cases sent with
  | none =>
      cases hrun
      exact ⟨false, h₁, fun heq => nomatch heq⟩
  | some sent =>
      dsimp only at hrun
      generalize hheader : bjnpRecvHeader d₁ = result at hrun
      obtain ⟨r, d₂⟩ := result
      have h₂ := h₁.recvHeader hheader
      cases r with
      | none =>
          cases hrun
          exact ⟨false, h₂, fun heq => nomatch heq⟩
      | some left =>
          cases hrun
          refine ⟨_, watch_log h₂ rfl, ?_⟩
          intro hends
          rw [Bool.false_or] at hends
          dsimp only
          rw [hends, Bool.or_true]

/-- A read stops at a short block, and returns no more than asked for. -/
theorem Stopping.readBulk {size : Nat} {status : Status} {buffer : List UInt8} (h : Stopping d)
    (hrun : readBulk size d = some (status, buffer, d')) :
    Stopping d' ∧ buffer.length ≤ size := by
  have hrule := @readLoop_rule size (fun _ buffer d => Stopping d ∧ buffer.length ≤ size) ?_ ?_
  · unfold Bjnp.readBulk at hrun
    generalize hloop : readLoop size (d.recvs.length + 1) [] d = result at hrun
    match result, hrun with
    | some (false, buffer, d'), hrun =>
        cases hrun
        exact hrule ⟨h, Nat.zero_le _⟩ hloop
    | some (true, buffer, d'), hrun =>
        cases hrun
        exact hrule ⟨h, Nat.zero_le _⟩ hloop
  · rintro buffer d ok d' ⟨h, hle⟩ hlast _ hrun
    exact ⟨h.requestBlock hlast hrun, hle⟩
  · rintro buffer d r d' ⟨⟨ended, h, hended⟩, hle⟩ hrun
    obtain ⟨hreceived, hlen⟩ := bjnpRecvData_received hrun
    have hwatched := h.received hreceived
    refine ⟨⟨ended, hwatched, ?_⟩, ?_⟩
    · dsimp only
      rw [hreceived.lastBlock]
      exact hended
    · rw [List.length_append]
      omega

theorem Stopping.writeBulk {size : Nat} {status : Status} (h : Stopping d)
    (hrun : writeBulk size d = (status, d')) : Stopping d' := by
  have goes : ∀ {d : Device}, Watched false d → Stopping d :=
    fun h => ⟨false, h, fun heq => nomatch heq⟩
  unfold Bjnp.writeBulk at hrun
  generalize hwrite : bjnpWrite size d = result at hrun
  obtain ⟨sent, d₁⟩ := result
  have hd₁ := bjnpWrite_eq hwrite
  have h₁ : Watched false d₁ := by
    obtain ⟨ended, hwatch, -⟩ := h
    rw [hd₁]
    exact @watch_log (setCmdForDev cmdTcpSend d) _ _ _ _ hwatch rfl
  cases sent with
  | none =>
      cases hrun
      exact goes h₁
  | some sent =>
      dsimp only at hrun
      split_ifs at hrun
      · cases hrun
        exact goes h₁
      generalize hheader : bjnpRecvHeader d₁ = result at hrun
      obtain ⟨r, d₂⟩ := result
      have h₂ := h₁.recvHeader hheader
      cases r with
      | none =>
          cases hrun
          exact goes h₂
      | some payloadSize =>
          dsimp only at hrun
          split_ifs at hrun
          · cases hrun
            exact goes h₂
          generalize hdata : bjnpRecvData payloadSize d₂ = result at hrun
          obtain ⟨r, d₃⟩ := result
          have h₃ := h₂.received (bjnpRecvData_received hdata).1
          cases r with
          | none =>
              cases hrun
              exact goes h₃
          | some buf =>
              dsimp only at hrun
              split_ifs at hrun
              all_goals
                cases hrun
                exact goes h₃

end Watched

section Runs

variable {responses : List Response} {l l' : Link} {c : Call}

/-- What reads return is bounded, and the device stops at short blocks. -/
structure Bounded (l : Link) : Prop where
  stopping : Stopping l.device
  atMost : ∀ asked returned, (asked, returned) ∈ l.reads → returned ≤ asked

theorem Bounded.call (h : Bounded l) (hcall : l.call c = some l') : Bounded l' := by
  cases c with
  | readBulk size =>
      simp only [Link.call, Option.ite_none_left_eq_some] at hcall
      obtain ⟨-, hcall⟩ := hcall
      generalize hread : readBulk size l.device = result at hcall
      cases result with
      | none => cases hcall
      | some result =>
          obtain ⟨status, buffer, d⟩ := result
          cases hcall
          obtain ⟨hstopping, hle⟩ := h.stopping.readBulk hread
          refine ⟨hstopping, ?_⟩
          intro asked returned hmem
          rcases List.mem_append.mp hmem with hold | hnew
          · exact h.atMost asked returned hold
          · cases List.mem_singleton.mp hnew
            exact hle
  | writeBulk size =>
      simp only [Link.call, Option.ite_none_left_eq_some] at hcall
      obtain ⟨-, hcall⟩ := hcall
      generalize hwrite : writeBulk size l.device = result at hcall
      obtain ⟨status, d⟩ := result
      cases hcall
      exact ⟨h.stopping.writeBulk hwrite, h.atMost⟩

theorem bounded_of_reach (h : (bulk responses).Reach Drained l) : Bounded l := by
  refine h.invariant ?_ ?_
  · rintro l ⟨serial, lastCmd, recvs, sends, rfl⟩
    exact ⟨⟨false, rfl, fun heq => nomatch heq⟩, fun _ _ hmem => nomatch hmem⟩
  · intro l c l' _ hbounded _ hcall
    exact hbounded.call hcall

/-- In a run that writes only behind blocks taken to their end, reads return the payloads of
the blocks, and no block is asked for behind one that is shorter than one before. -/
theorem bulkRead_of_reach (h : (bulk responses).Reach Drained l) :
    BulkRead responses (fun before length => length < longest before) l where
  delivered := by
    intro hok
    obtain ⟨done, rest, block, hflow, hcount⟩ := (sound_of_reach h).inFlow hok
    exact ⟨done, rest, block, hflow.split, hflow.incoming, hflow.left, hflow.returned_block, hcount⟩
  atMost := (bounded_of_reach h).atMost
  stops := by
    obtain ⟨ended, hwatch, -⟩ := (bounded_of_reach h).stopping
    exact stopsAtShort_of_watch hwatch

end Runs

/-- An answer of one short block. -/
def shortFirst : List Response := [
  { header := responseHeader cmdTcpReq 1 600
    payload := List.replicate 600 7
    length_header := by decide
    announced := by
      rw [List.length_replicate]
      decide },
  { header := responseHeader cmdTcpReq 2 0
    payload := []
    length_header := by decide
    announced := by decide }]

theorem bulkRead_of_reach_twoReads : ∃ l, (bulk shortFirst).Reach Drained l ∧
    BulkRead shortFirst (fun before length => length < longest before) l := by
  obtain ⟨l, hreach, -⟩ := System.exists_reach_runSteps (C := Drained) (Q := fun _ => True)
    bulk_step (bulk_init shortFirst [some 16, some 300, some 600, some 10, some 6])
    [.readBulk 200, .readBulk 1000] (by decide +kernel)
  exact ⟨l, hreach, bulkRead_of_reach hreach⟩

/-- The first block of the device is shorter than its blocks may be, but longer than the size
that is assumed. -/
theorem not_bulkRead_shortFirst : ¬ ∀ limit responses l,
    (∀ r ∈ responses, r.payload.length ≤ limit) → (bulk responses).Reach Drained l →
    l.failed = false → BulkRead responses (fun _ length => length < limit) l := by
  intro h
  obtain ⟨l, hreach, hfailed, hevents⟩ := System.exists_reach_runSteps (C := Drained)
    (Q := fun l => l.failed = false ∧ l.device.events = [Event.readRequest, Event.header 0] ++
      Event.block 600 :: ([] ++ Event.readRequest :: [Event.header 616, Event.block 0]))
    bulk_step (bulk_init shortFirst [some 16, some 600, some 16])
    [.readBulk 601] (by decide +kernel)
  have hread := h 65536 shortFirst l (by decide +kernel) hreach hfailed
  exact hread.stops _ 600 [] _ hevents (by simp) (by decide)

end SaneBackends.Bjnp
