import SaneBackends.Sanei.DecodeMemory
import SaneBackends.Sanei.WireCalls
/-!
# `saned.c`: `auth_callback`

In the middle of a request the client is asked for a user name and a password. They are
copied as they come off the wire into two buffers of the caller, `sanei_authorize`.
-/

namespace SaneBackends.Saned

open SaneBackends.Lib SaneBackends.Sanei

def maxUsernameLen : Nat := 128
def maxPasswordLen : Nat := 128

/-- The procedure numbers `auth_callback` knows. -/
def netOpen : SaneWord := 2
def netControlOption : SaneWord := 5
def netStart : SaneWord := 7
def netAuthorize : SaneWord := 9

/-- The buffers `sanei_authorize` provides. -/
structure Credentials where
  username : List UInt8
  password : List UInt8
  deriving DecidableEq, Repr

def Credentials.cleared : Credentials where
  username := List.replicate maxUsernameLen 0
  password := List.replicate maxPasswordLen 0

/-- `strcpy`, which must not leave the buffer. -/
def strcpy (buf src : List UInt8) : Except Fault (List UInt8) := do
  let n ← strlen src
  if buf.length < n + 1 then .error .outOfBounds
  else .ok (src.take (n + 1) ++ buf.drop (n + 1))

/-- `if (src) strcpy (buf, src)`. -/
def strcpyIf (buf : List UInt8) : SaneString → Except Fault (List UInt8)
  | none => .ok buf
  | some block => strcpy buf block.val

def storeCredentials (buffers : Credentials) (req : SaneAuthorizationReq) :
    Except Fault Credentials := do
  let username ← strcpyIf buffers.username req.username
  let password ← strcpyIf buffers.password req.password
  .ok { username, password }

/-- The reply to the current request that asks for the authorization. -/
def challenge (currentRequest : SaneWord) (res : SaneString) : Option NetMessage :=
  if currentRequest = netOpen then
    some (.openReply { status := 0, handle := 0, resourceToAuthorize := res })
  else if currentRequest = netControlOption then
    some (.controlOptionReply {
      status := 0
      info := 0
      valueType := 0
      valueSize := 0
      value := none
      resourceToAuthorize := res })
  else if currentRequest = netStart then
    some (.startReply { status := 0, port := 0, byteOrder := 0, resourceToAuthorize := res })
  else none

def sendChallenge (currentRequest : SaneWord) (res : SaneString) : WireM Unit :=
  match challenge currentRequest res with
  | some m => do
      let _ ← saneiWReply (transferMessage binCodec) m
      pure ()
  | none => pure ()

/-- The answer of the client; `stale` is what the uninitialised request holds. -/
def receiveAnswer (stale : SaneAuthorizationReq) : WireM (Option SaneAuthorizationReq) := do
  modify (saneiWSetDir .decode)
  let word ← (saneiWWord binCodec).run (← get).stale
  if (← get).status ≠ 0 then pure none
  else if word ≠ netAuthorize then pure none
  else do
    let req ← saneiWAuthorizationReq binCodec stale
    if (← get).status ≠ 0 then pure none else pure (some req)

/-- `auth_callback` up to the copies: the answer, unless it returns early. -/
def authAnswer (canAuthorize : Bool) (currentRequest : SaneWord) (res : SaneString)
    (stale : SaneAuthorizationReq) : WireM (Option SaneAuthorizationReq) := do
  if canAuthorize = false then pure none
  else if (← get).status ≠ 0 then pure none
  else do
    sendChallenge currentRequest res
    if (← get).status ≠ 0 then pure none else receiveAnswer stale

/-- `auth_callback`, with what it leaves in the buffers. -/
def authCallback (canAuthorize : Bool) (currentRequest : SaneWord) (res : SaneString)
    (stale : SaneAuthorizationReq) : WireM Credentials := do
  match ← authAnswer canAuthorize currentRequest res stale with
  | none => pure .cleared
  | some req => do
      let credentials ← liftM (storeCredentials .cleared req)
      saneiWFree (transferMessage binCodec) (.authorizationReq req)
      let _ ← saneiWReply (saneiWWord binCodec).run 0
      pure credentials

/-- A string that is absent or shorter than `size`. -/
def ShorterThan (size : Nat) (s : SaneString) : Prop := ∀ block ∈ s, block.val.idxOf 0 < size

/-- The name and the password leave room for their terminators. -/
def FitsBuffers (req : SaneAuthorizationReq) : Prop :=
  ShorterThan maxUsernameLen req.username ∧ ShorterThan maxPasswordLen req.password

/-! The copies. -/

section Copies

variable {buf : List UInt8} {s : SaneString}

theorem strcpyIf_ok_iff (hs : ∀ block ∈ s, 0 ∈ block.val) :
    (∃ buf', strcpyIf buf s = .ok buf') ↔ ShorterThan buf.length s := by
  cases s with
  | none => exact iff_of_true ⟨buf, rfl⟩ fun block h => by cases h
  | some block =>
      have hlen : strlen block.val = .ok (block.val.idxOf 0) := if_pos (hs block rfl)
      have hshort : ShorterThan buf.length (some block) ↔ block.val.idxOf 0 < buf.length := by
        constructor
        · intro h
          exact h block rfl
        · rintro h _ ⟨⟩
          exact h
      rw [hshort, strcpyIf, strcpy, hlen, ok_bind]
      split_ifs with hlong
      · exact iff_of_false (fun ⟨_, h⟩ => by cases h) (by omega)
      · exact iff_of_true ⟨_, rfl⟩ (by omega)

/-- The copies stay inside the buffers just if both strings leave room for the
terminator. -/
theorem storeCredentials_ok_iff {req : SaneAuthorizationReq}
    (hname : ∀ block ∈ req.username, 0 ∈ block.val)
    (hpassword : ∀ block ∈ req.password, 0 ∈ block.val) :
    (∃ credentials, storeCredentials .cleared req = .ok credentials) ↔ FitsBuffers req := by
  have hfirst := @strcpyIf_ok_iff Credentials.cleared.username _ hname
  have hsecond := @strcpyIf_ok_iff Credentials.cleared.password _ hpassword
  have husername : Credentials.cleared.username.length = maxUsernameLen := List.length_replicate
  have hpwd : Credentials.cleared.password.length = maxPasswordLen := List.length_replicate
  rw [husername] at hfirst
  rw [hpwd] at hsecond
  rw [FitsBuffers, ← hfirst, ← hsecond]
  constructor
  · rintro ⟨credentials, h⟩
    obtain ⟨username, husername, hrest⟩ := bind_eq_ok.mp h
    obtain ⟨password, hpassword, -⟩ := bind_eq_ok.mp hrest
    exact ⟨⟨username, husername⟩, password, hpassword⟩
  · rintro ⟨⟨username, husername⟩, password, hpassword⟩
    refine ⟨⟨username, password⟩, ?_⟩
    rw [storeCredentials, husername, ok_bind, hpassword, ok_bind]

end Copies

/-! The exchange on the wire. -/

/-- A reply on an idle wire is sent, or cut off, without a fault. -/
theorem saneiWReply_run {α : Type} {wReply : α → WireM α} {reply : α} {bytes : List UInt8}
    {post : α → Prop} {w : Wire} (hidle : Idle w) (hm : Emits w.version (wReply reply) bytes post) :
    ∃ a w', (saneiWReply wReply reply).run w = .ok (a, w') ∧ Streaming w.version w' := by
  obtain ⟨a, w₁, hrun, hw₁, -⟩ := hidle.poured hm
  obtain ⟨-, hw₂, -⟩ := flush_encode hw₁
  refine ⟨a, flush w₁, ?_, hw₂⟩
  simp only [saneiWReply, StateT.run_bind, StateT.run_modify, pure_bind, hidle.saneiWSetDir, hrun]
  rfl

theorem decoding_of_idle {w : Wire} (h : Idle w) : Decoding (saneiWSetDir .decode w) := by
  cases h.empty with
  | inl hdir =>
      have hflush : flush w = { w with buffer := { w.buffer with curr := 0, endPos := 0 } } := by
        rw [flush, hdir]
      rw [saneiWSetDir, hflush]
      exact ⟨rfl, Nat.le_refl 0, Nat.zero_le _, h.sound.word_le, h.sound.size_le⟩
  | inr hencode =>
      have hstreaming : Streaming w.version w := ⟨rfl, hencode.1, h.sound, hencode.2.2⟩
      exact hstreaming.saneiWSetDir.1

/-- The cleared value of a reply holds nothing. -/
theorem novalue_held : (optionValueSending 0 0 none).held := by
  have hzero : (0 : SaneWord).sdiv (BitVec.ofNat 32 sizeofWord) = 0 := by decide
  rw [optionValueSending, if_pos (.inl rfl), hzero]
  exact ⟨by decide, by decide, Nat.le_refl 0, fun x h => by cases h⟩

theorem challenge_held {version : Int} {currentRequest : SaneWord} {res : SaneString}
    (hres : (stringSending res).held) {m : NetMessage}
    (hm : challenge currentRequest res = some m) :
    (messageSending version m).held := by
  unfold challenge at hm
  split_ifs at hm
  · cases hm
    exact ⟨trivial, trivial, hres⟩
  · cases hm
    exact ⟨trivial, trivial, trivial, trivial, novalue_held, hres⟩
  · cases hm
    exact ⟨trivial, trivial, trivial, hres⟩

/-- After the challenge the wire can be turned to the answer. -/
theorem sendChallenge_run {w : Wire} (hidle : Idle w) (currentRequest : SaneWord)
    {res : SaneString} (hres : (stringSending res).held) :
    ∃ w', (sendChallenge currentRequest res).run w = .ok ((), w') ∧
      Decoding (saneiWSetDir .decode w') := by
  unfold sendChallenge
  cases hm : challenge currentRequest res with
  | none => exact ⟨w, rfl, decoding_of_idle hidle⟩
  | some m =>
      obtain ⟨a, w', hrun, hw'⟩ :=
        saneiWReply_run hidle (sends_message m (@challenge_held w.version _ _ hres _ hm))
      refine ⟨w', ?_, hw'.saneiWSetDir.1⟩
      dsimp only
      rw [run_bind_eq, hrun]
      rfl

/-- What is known of an answer once it is decoded. -/
structure AnswerDecoded (req : SaneAuthorizationReq) (w : Wire) : Prop where
  decoding : Decoding w
  decoded : (messageHolding w.version (.authorizationReq req)).decoded
  live : ∀ a ∈ (messageHolding w.version (.authorizationReq req)).blocks.map Owned.addr,
    a ∈ w.heap.live
  nodup : ((messageHolding w.version (.authorizationReq req)).blocks.map Owned.addr).Nodup

theorem answerDecoded_of_charged {req : SaneAuthorizationReq} {cs : List Charge} {w w' : Wire}
    (hw' : Decoding w') (hcharged : Charged cs w w')
    (haccounts : Accounts (messageHolding w'.version (.authorizationReq req)) cs) :
    AnswerDecoded req w' := by
  obtain ⟨hdecoded, howned⟩ := haccounts
  have haddrs : cs.map Charge.addr =
      (messageHolding w'.version (.authorizationReq req)).blocks.map Owned.addr := by
    rw [← howned, List.map_map]
    rfl
  have hnodup := w'.heap.nodup
  rw [hcharged.live, haddrs, List.nodup_append', List.nodup_reverse] at hnodup
  refine ⟨hw', hdecoded, fun a ha => ?_, hnodup.1⟩
  rw [hcharged.live, haddrs, List.mem_append, List.mem_reverse]
  exact .inl ha

theorem receiveAnswer_run {w : Wire} (hw : Decoding (saneiWSetDir .decode w))
    (stale : SaneAuthorizationReq) :
    ∃ r w', (receiveAnswer stale).run w = .ok (r, w') ∧ ∀ req ∈ r, AnswerDecoded req w' := by
  obtain ⟨word, w₁, -, hword, hw₁, -, -⟩ := decodes_word (saneiWSetDir .decode w).stale _ hw
  have hproc : ((saneiWWord binCodec).run (saneiWSetDir .decode w).stale).run
      (saneiWSetDir .decode w) = .ok (word, w₁) := hword
  simp only [receiveAnswer, run_bind_eq, StateT.run_modify, pure_bind, StateT.run_get, hproc,
    ok_bind]
  split_ifs with hst hnum
  · exact ⟨none, w₁, rfl, fun req h => by cases h⟩
  · exact ⟨none, w₁, rfl, fun req h => by cases h⟩
  · obtain ⟨req, w₂, cs, hreq, hw₂, hcharged, hpost⟩ :=
      decodes_authorizationReq w₁.version stale w₁ hw₁
    simp only [run_bind_eq, hreq, ok_bind, StateT.run_get, pure_bind]
    split_ifs with hbad
    · exact ⟨none, w₂, rfl, fun req h => by cases h⟩
    · refine ⟨some req, w₂, rfl, ?_⟩
      rintro _ ⟨⟩
      exact answerDecoded_of_charged hw₂ hcharged (hpost (not_not.mp hbad)).2

theorem authAnswer_run {w : Wire} (hidle : Idle w) (canAuthorize : Bool)
    (currentRequest : SaneWord) {res : SaneString} (hres : (stringSending res).held)
    (stale : SaneAuthorizationReq) :
    ∃ r w', (authAnswer canAuthorize currentRequest res stale).run w = .ok (r, w') ∧
      ∀ req ∈ r, AnswerDecoded req w' := by
  unfold authAnswer
  split_ifs with hcan
  · exact ⟨none, w, rfl, fun req h => by cases h⟩
  · obtain ⟨w₁, hsent, hw₁⟩ := sendChallenge_run hidle currentRequest hres
    simp only [run_bind_eq, StateT.run_get, pure_bind]
    split_ifs with hst
    · exact ⟨none, w, rfl, fun req h => by cases h⟩
    · simp only [run_bind_eq, hsent, ok_bind, StateT.run_get, pure_bind]
      split_ifs with hbad
      · exact ⟨none, w₁, rfl, fun req h => by cases h⟩
      · exact receiveAnswer_run hw₁ stale

/-- Freeing does not touch the buffer. -/
theorem exec_freeAct_buffer {acts : List FreeAct} {w w' : Wire}
    (h : exec freeAct acts w = .ok w') : w'.buffer = w.buffer := by
  have hstable : Follows.Stable freeAct fun v => v.buffer = w.buffer := by
    intro act v v' hv hact
    cases act with
    | release addr bytes =>
        simp only [freeAct] at hact
        split_ifs at hact
        cases hact
        exact hv
    | fault f => cases hact
  exact hstable.exec rfl h

/-- The walk that frees a decoded string stays inside of it. -/
theorem walkable_string {s : SaneString} (h : (stringHolding s).decoded) :
    (stringHolding s).walkable := by
  cases s with
  | none => exact ⟨0, rfl, fun block h => by cases h⟩
  | some block =>
      have hlen : strlen block.val = .ok (block.val.idxOf 0) := if_pos (h block rfl).1
      refine ⟨BitVec.ofNat 32 (block.val.idxOf 0 + 1), ?_, fun _ _ _ => ?_⟩
      · rw [stringLen, hlen, ok_bind]
      · exact ⟨.inl rfl, fun _ _ => trivial⟩

/-- The answer is freed without a fault, and the wire is idle again. -/
theorem AnswerDecoded.saneiWFree_run {req : SaneAuthorizationReq} {w : Wire}
    (h : AnswerDecoded req w) :
    ∃ w', (saneiWFree (transferMessage binCodec) (.authorizationReq req)).run w = .ok ((), w') ∧
      Idle w' := by
  have hlawful := lawful_message w.version (.authorizationReq req)
  have hwalkable : (messageHolding w.version (.authorizationReq req)).walkable :=
    ⟨⟨walkable_string h.decoded.1.1, walkable_string h.decoded.1.2⟩, walkable_string h.decoded.2⟩
  have hsubperm := hlawful.subperm hwalkable
  have hnodup : (freed (messageHolding w.version (.authorizationReq req)).acts).Nodup := by
    obtain ⟨l, hperm, hsub⟩ := hsubperm
    exact hperm.nodup_iff.mp (h.nodup.sublist hsub)
  obtain ⟨w', hexec⟩ := exists_exec_free (w := { w with direction := .free })
    (hlawful.noFault.mpr hwalkable) hnodup fun a ha => h.live a (hsubperm.subset ha)
  refine ⟨{ w' with direction := w.direction }, ?_, ?_, .inl h.decoding.direction⟩
  · rw [Sanei.saneiWFree_run rfl h.decoded, hexec]
    rfl
  · have hbuffer := exec_freeAct_buffer hexec
    dsimp only at hbuffer ⊢
    rw [hbuffer]
    exact h.decoding.sound

/-- `auth_callback` stays inside the two buffers just if the name and the password of the
answer, when there is one, are shorter than these. -/
theorem authCallback_bounded_iff {w : Wire} (hidle : Idle w) (canAuthorize : Bool)
    (currentRequest : SaneWord) {res : SaneString} (hres : (stringSending res).held)
    (stale : SaneAuthorizationReq) :
    (∃ credentials w',
        (authCallback canAuthorize currentRequest res stale).run w = .ok (credentials, w')) ↔
      ∀ req w', (authAnswer canAuthorize currentRequest res stale).run w = .ok (some req, w') →
        FitsBuffers req := by
  obtain ⟨r, w₁, hanswer, hanswered⟩ := authAnswer_run hidle canAuthorize currentRequest hres stale
  rw [authCallback, run_bind_eq, hanswer, ok_bind]
  cases r with
  | none => exact iff_of_true ⟨.cleared, w₁, rfl⟩ fun req w' h => by cases h
  | some req =>
      have h := hanswered req rfl
      have hcopies := @storeCredentials_ok_iff req
        (fun block hb => (h.decoded.1.2 block hb).1) fun block hb => (h.decoded.2 block hb).1
      have honly : (∀ req' w', (Except.ok (some req, w₁) : Except Fault _) = .ok (some req', w') →
          FitsBuffers req') ↔ FitsBuffers req := by
        constructor
        · intro hall
          exact hall req w₁ rfl
        · rintro hfits _ _ ⟨⟩
          exact hfits
      rw [honly, ← hcopies]
      constructor
      · rintro ⟨credentials, w', hrun⟩
        obtain ⟨⟨stored, w₂⟩, hstored, -⟩ := bind_eq_ok.mp hrun
        cases hstore : storeCredentials .cleared req with
        | error f =>
            rw [hstore] at hstored
            cases hstored
        | ok credentials => exact ⟨credentials, rfl⟩
      · rintro ⟨credentials, hstore⟩
        obtain ⟨w₂, hfree, hidle₂⟩ := h.saneiWFree_run
        obtain ⟨a, w₃, hreply, -⟩ := saneiWReply_run hidle₂ (@emits_word w₂.version 0)
        refine ⟨credentials, w₃, ?_⟩
        have hstored : (liftM (storeCredentials .cleared req) : WireM Credentials).run w₁ =
            .ok (credentials, w₁) := by
          rw [hstore]
          rfl
        have hack : (saneiWReply (saneiWWord binCodec).run 0).run w₂ = .ok (a, w₃) := hreply
        dsimp only
        rw [run_bind_eq, hstored, ok_bind, run_bind_eq, hfree, ok_bind, run_bind_eq, hack]
        rfl

/-- An answer for the resource `p` without a password, with a name of `n` characters. -/
def answerOf (n : Nat) : List UInt8 :=
  wordBytes netAuthorize ++ wordBytes 2 ++ [112, 0] ++ wordBytes (BitVec.ofNat 32 (n + 1)) ++
    List.replicate n 97 ++ [0] ++ wordBytes 0

theorem authCallback_bounded_iff_shortName :
    (∃ credentials w', (authCallback true netOpen (some ⟨0, [112, 0]⟩) ⟨none, none, none⟩).run
        (freshWire 3 (answerOf 3)) = .ok (credentials, w')) ↔
      ∀ req w', (authAnswer true netOpen (some ⟨0, [112, 0]⟩) ⟨none, none, none⟩).run
        (freshWire 3 (answerOf 3)) = .ok (some req, w') → FitsBuffers req :=
  have hres : (stringSending (some ⟨0, [112, 0]⟩)).held :=
    ⟨⟨by decide, by decide, fun _ _ => trivial⟩, by decide⟩
  authCallback_bounded_iff ⟨(decoding_freshWire _ _).sound, .inl rfl⟩ true netOpen hres _

/-- A name of 128 characters is copied into the 128 bytes of its buffer, and its terminator
behind them. -/
theorem not_authCallback_bounded_longName :
    ¬ ∃ credentials w', (authCallback true netOpen (some ⟨0, [112, 0]⟩) ⟨none, none, none⟩).run
      (freshWire 3 (answerOf 128)) = .ok (credentials, w') := by
  have hfault : (match (authCallback true netOpen (some ⟨0, [112, 0]⟩) ⟨none, none, none⟩).run
      (freshWire 3 (answerOf 128)) with
      | .ok _ => false
      | .error f => f == .outOfBounds) = true := by decide +kernel
  rintro ⟨credentials, w', hrun⟩
  rw [hrun] at hfault
  cases hfault

end SaneBackends.Saned
