import SaneBackends.Saned.HandleUse
/-!
# `saned.c`: when `can_authorize` is set

Two handlers set the flag that lets `auth_callback` challenge the client, and clear it before
they reply. `SANE_NET_OPEN` has two ways out in between that leave it set.
-/

namespace SaneBackends.Saned

open SaneBackends.Lib HandleTable

/-- What the handler of `SANE_NET_OPEN` is given: the name, unless it cannot be decoded or is
`NULL`, the names of the devices `sane_get_devices` lists, unless it fails, and the answers of
`sanei_authorize` and `sane_open`. -/
structure OpenInput where
  name : Option (Option (List UInt8))
  devices : Option (List (List UInt8))
  authorized : Bool
  opened : Option SaneHandle

/-- `SANE_NET_OPEN` from `sanei_authorize` on. -/
def OpenInput.accessAnswer (input : OpenInput) : OpenAnswer :=
  if input.authorized = false then .denied
  else
    match input.opened with
    | none => .failed
    | some be => .opened be

/-- How the handler of `SANE_NET_OPEN` goes. -/
def OpenInput.answer (input : OpenInput) : OpenAnswer :=
  match input.name with
  | none => .undecoded
  | some none => .noName
  | some (some []) =>
      match input.devices with
      | none => .noDevice
      | some [] => .noDevice
      | some (_ :: _) => input.accessAnswer
  | some (some (_ :: _)) => input.accessAnswer

/-- Whose code is being executed. -/
inductive Handler where
  | netOpen | netControlOption | other
  deriving DecidableEq, Repr

/-- Where the flag is looked at: at a call out of `saned` and where `process_request` or
`do_scan` returns. -/
inductive Visit where
  | call (handler : Handler) (canAuthorize : Bool)
  | returned (canAuthorize : Bool)
  deriving DecidableEq, Repr

/-- `SANE_NET_OPEN` from `sanei_authorize` to where the flag is cleared. -/
def accessHandler (canAuthorize : Bool) (input : OpenInput) : List Visit × Bool :=
  if input.authorized = false then ([.call .netOpen canAuthorize], false)
  else ([.call .netOpen canAuthorize, .call .netOpen canAuthorize], false)

/-- The calls of `SANE_NET_OPEN` and the flag it leaves. -/
def openHandler (canAuthorize : Bool) (input : OpenInput) : List Visit × Bool :=
  match input.name with
  | none => ([], canAuthorize)
  | some none => ([], canAuthorize)
  | some (some name) =>
      let canAuthorize := true
      match name with
      | [] =>
          let listing := .call .netOpen canAuthorize
          match input.devices with
          | none => ([listing], canAuthorize)
          | some [] => ([listing], canAuthorize)
          | some (_ :: _) =>
              let (visits, canAuthorize) := accessHandler canAuthorize input
              (listing :: visits, canAuthorize)
      | _ :: _ => accessHandler canAuthorize input

/-- `SANE_NET_CONTROL_OPTION`, which returns early if the request is not executed. -/
def controlOptionHandler (canAuthorize executed : Bool) : List Visit × Bool :=
  if executed then
    let canAuthorize := true
    ([.call .netControlOption canAuthorize], false)
  else ([], canAuthorize)

/-- A request with what `SANE_NET_OPEN` is given. -/
inductive AuthRequest where
  | netOpen (input : OpenInput)
  | other (r : Request) (hother : ∀ answer, r ≠ .netOpen answer)

def AuthRequest.request : AuthRequest → Request
  | .netOpen input => .netOpen input.answer
  | .other r _ => r

/-- The calls of a handler and the flag it leaves. -/
def authHandler (canAuthorize : Bool) (t : HandleTable) : AuthRequest → List Visit × Bool
  | .netOpen input => openHandler canAuthorize input
  | .other (.netControlOption word memory) _ =>
      controlOptionHandler canAuthorize ((t.decodeHandle word).isSome && memory)
  | .other .netGetDevices _ => ([.call .other canAuthorize], canAuthorize)
  | .other r _ => ((processRequest t r).2.1.map fun _ => .call .other canAuthorize, canAuthorize)

/-- A connection with the static `can_authorize`. -/
structure AuthSession where
  session : Session
  canAuthorize : Bool

inductive AuthEvent where
  | request (r : AuthRequest)
  | turn (input : ScanInput) (rpc : Bool)

def AuthEvent.event : AuthEvent → Event
  | .request r => .request r.request
  | .turn input rpc => .turn input rpc

section Step

variable (bufferSize : Nat)

/-- `serve`. Only `SANE_NET_OPEN` can be caught in a call, and it is where the flag is set. -/
def authServe (s : AuthSession) (r : AuthRequest) : AuthSession × List Visit :=
  let (t, _, served) := processRequest s.session.table r.request
  let (visits, canAuthorize) := authHandler s.canAuthorize s.session.table r
  match served with
  | .hung => (⟨⟨t, s.session.frames, .lost⟩, true⟩, visits)
  | .returned code =>
      let (session, calls) := returnTo t code s.session.frames
      (⟨session, canAuthorize⟩,
        visits ++ .returned canAuthorize :: calls.map fun _ => .call .other canAuthorize)
  | .scanning h answer =>
      let (session, calls) := enterScan t h answer s.session.frames
      (⟨session, canAuthorize⟩, visits ++ calls.map (fun _ => .call .other canAuthorize) ++
        if answer.buf = none then [.returned canAuthorize] else [])

/-- `scanTurn`. The scans whose frames are gone have returned. -/
def authTurn (canAuthorize : Bool) (t : HandleTable) (f : Frame) (frames : List Frame)
    (input : ScanInput) (rpc : Bool) : AuthSession × List Visit :=
  let (session, calls) := scanTurn bufferSize t f frames input rpc
  (⟨session, canAuthorize⟩, calls.map (fun _ => .call .other canAuthorize) ++
    if session.frames.length ≤ frames.length then [.returned canAuthorize] else [])

def AuthSession.step (s : AuthSession) : AuthEvent → Option (AuthSession × List Visit)
  | .request r => if s.session.control = .request then some (authServe s r) else none
  | .turn input rpc =>
      match s.session.control, s.session.frames with
      | .turn, f :: frames =>
          some (authTurn bufferSize s.canAuthorize s.session.table f frames input rpc)
      | _, _ => none

/-- A run of a connection, with everything visited on the way. -/
def AuthSession.run (s : AuthSession) : List AuthEvent → Option (AuthSession × List Visit)
  | [] => some (s, [])
  | e :: es =>
      match s.step bufferSize e with
      | none => none
      | some (s, visits) =>
          match s.run es with
          | none => none
          | some (s, visits') => some (s, visits ++ visits')

end Step

def AuthSession.start : AuthSession := ⟨Session.start, false⟩

/-- For an empty name the first device is looked up, and there is none. -/
def OpenInput.Abandons (input : OpenInput) : Prop :=
  input.name = some (some []) ∧ (input.devices = none ∨ input.devices = some [])

/-- The flag is set only at calls of the two handlers. -/
def Visit.Allowed : Visit → Prop
  | .call handler canAuthorize => canAuthorize = true → handler ≠ .other
  | .returned canAuthorize => canAuthorize = false

/-- An `SANE_NET_OPEN` that finds no first device. -/
def AuthEvent.Abandons : AuthEvent → Prop
  | .request (.netOpen input) => input.Abandons
  | _ => False

/-! The session below the flag is that of `Session.step`. -/

theorem authServe_session (s : AuthSession) (r : AuthRequest) :
    (authServe s r).1.session = (serve s.session r.request).1 := by
  unfold authServe serve
  obtain ⟨t, calls, served⟩ := processRequest s.session.table r.request
  cases served with
  | hung => rfl
  | returned code => rfl
  | scanning h answer => rfl

theorem step_session (bufferSize : Nat) (s : AuthSession) (e : AuthEvent) :
    (s.step bufferSize e).map (fun p => p.1.session) =
      (s.session.step bufferSize e.event).map Prod.fst := by
  cases e with
  | request r =>
      rw [AuthSession.step, AuthEvent.event, Session.step]
      split_ifs
      · exact congrArg some (authServe_session s r)
      · rfl
  | turn input rpc =>
      obtain ⟨⟨t, frames, control⟩, canAuthorize⟩ := s
      cases control with
      | turn =>
          cases frames with
          | nil => rfl
          | cons f frames => rfl
      | request => rfl
      | finished => rfl
      | lost => rfl

/-! One step. -/

section Handlers

variable {t : HandleTable} {r : AuthRequest} {input : OpenInput}

theorem accessHandler_allowed (input : OpenInput) :
    (∀ v ∈ (accessHandler true input).1, v.Allowed) ∧ (accessHandler true input).2 = false := by
  have hcall : (Visit.call .netOpen true).Allowed := fun _ => by decide
  unfold accessHandler
  split_ifs
  · exact ⟨List.forall_mem_singleton.mpr hcall, rfl⟩
  · exact ⟨List.forall_mem_cons.mpr ⟨hcall, List.forall_mem_singleton.mpr hcall⟩, rfl⟩

/-- `SANE_NET_OPEN` leaves the flag set just if it finds no device. -/
theorem openHandler_allowed : (∀ v ∈ (openHandler false input).1, v.Allowed) ∧
    ((openHandler false input).2 = true ↔ input.Abandons) := by
  have hcall : (Visit.call .netOpen true).Allowed := fun _ => by decide
  obtain ⟨haccess, hflag⟩ := accessHandler_allowed input
  have hclear : ¬ (accessHandler true input).2 = true := by
    rw [hflag]
    exact Bool.false_ne_true
  unfold openHandler OpenInput.Abandons
  cases input.name with
  | none => simp
  | some name =>
      cases name with
      | none => simp
      | some name =>
          cases name with
          | cons c cs => exact ⟨haccess, iff_of_false hclear fun h => by cases h.1⟩
          | nil =>
              cases input.devices with
              | none =>
                  exact ⟨List.forall_mem_singleton.mpr hcall, iff_of_true rfl ⟨rfl, .inl rfl⟩⟩
              | some devices =>
                  cases devices with
                  | nil =>
                      exact ⟨List.forall_mem_singleton.mpr hcall, iff_of_true rfl ⟨rfl, .inr rfl⟩⟩
                  | cons d ds =>
                      refine ⟨List.forall_mem_cons.mpr ⟨hcall, haccess⟩, iff_of_false hclear ?_⟩
                      rintro ⟨-, h | h⟩ <;> cases h

theorem controlOptionHandler_allowed (executed : Bool) :
    (∀ v ∈ (controlOptionHandler false executed).1, v.Allowed) ∧
      (controlOptionHandler false executed).2 = false := by
  cases executed with
  | true =>
      refine ⟨fun v hv => ?_, rfl⟩
      obtain rfl := List.mem_singleton.mp hv
      exact fun _ => by decide
  | false => exact ⟨fun v hv => absurd hv List.not_mem_nil, rfl⟩

theorem allowed_other {calls : List BackendCall} :
    ∀ v ∈ calls.map fun _ => Visit.call .other false, v.Allowed := by
  intro v hv
  obtain ⟨_, -, rfl⟩ := List.mem_map.mp hv
  exact fun h => by cases h

theorem allowed_returned {p : Prop} [Decidable p] :
    ∀ v ∈ if p then [Visit.returned false] else [], v.Allowed := by
  intro v hv
  split at hv
  · obtain rfl := List.mem_singleton.mp hv
    rfl
  · cases hv

theorem not_allowed_returned : ¬ (Visit.returned true).Allowed := Bool.true_eq_false.mp

/-- With the flag clear a handler makes only calls it may make, and leaves it set just if it
is one that abandons. -/
theorem authHandler_allowed :
    (∀ v ∈ (authHandler false t r).1, v.Allowed) ∧
      ((authHandler false t r).2 = true ↔ (AuthEvent.request r).Abandons) := by
  cases r with
  | netOpen input => exact openHandler_allowed
  | other r hother =>
      have hquiet : ∀ calls : List BackendCall,
          (∀ v ∈ calls.map fun _ => Visit.call .other false, v.Allowed) ∧
            (false = true ↔ (AuthEvent.request (.other r hother)).Abandons) :=
        fun _ => ⟨allowed_other, iff_of_false Bool.false_ne_true id⟩
      cases r with
      | netControlOption word memory =>
          obtain ⟨hallowed, hflag⟩ :=
            controlOptionHandler_allowed ((t.decodeHandle word).isSome && memory)
          refine ⟨hallowed, iff_of_false ?_ id⟩
          rw [authHandler, hflag]
          exact Bool.false_ne_true
      | netGetDevices => exact hquiet [.saneClose 0]
      | netOpen answer => exact absurd rfl (hother answer)
      | undecoded => exact hquiet _
      | netClose => exact hquiet _
      | netGetOptionDescriptors => exact hquiet _
      | netGetParameters => exact hquiet _
      | netStart => exact hquiet _
      | netCancel => exact hquiet _
      | netExit => exact hquiet _
      | unexpected => exact hquiet _

/-- An abandoned `SANE_NET_OPEN` returns. -/
theorem processRequest_abandons (t : HandleTable) (habandons : input.Abandons) :
    processRequest t (.netOpen input.answer) = (t, [], .returned 0) := by
  have hanswer : input.answer = .noDevice := by
    unfold OpenInput.answer
    rw [habandons.1]
    cases habandons.2 with
    | inl h => rw [h]
    | inr h => rw [h]
  rw [hanswer]
  rfl

end Handlers

/-- The flag between two requests, unless the connection is caught in `SANE_NET_OPEN`. -/
def FlagClear (s : AuthSession) : Prop := s.session.control = .lost ∨ s.canAuthorize = false

/-- A request keeps the flag to the two handlers just if it is none that abandons. -/
theorem authServe_allowed {s : AuthSession} (hclear : s.canAuthorize = false) (r : AuthRequest) :
    ((∀ v ∈ (authServe s r).2, v.Allowed) ↔ ¬ (AuthEvent.request r).Abandons) ∧
      (¬ (AuthEvent.request r).Abandons → FlagClear (authServe s r).1) := by
  obtain ⟨hvisits, hflag⟩ := @authHandler_allowed s.session.table r
  by_cases habandons : (AuthEvent.request r).Abandons
  · refine ⟨iff_of_false (fun hall => ?_) (not_not.mpr habandons), fun h => absurd habandons h⟩
    cases r with
    | other r hother => exact habandons
    | netOpen input =>
        have hset := hflag.mpr habandons
        have hret : Visit.returned true ∈ (authServe s (.netOpen input)).2 := by
          unfold authServe
          rw [AuthRequest.request, processRequest_abandons _ habandons, hclear]
          dsimp only
          rw [hset]
          exact List.mem_append_right _ (.head _)
        exact not_allowed_returned (hall _ hret)
  · have hkept : (authHandler false s.session.table r).2 = false := by
      rw [← Bool.not_eq_true, hflag]
      exact habandons
    have hall : (∀ v ∈ (authServe s r).2, v.Allowed) ∧ FlagClear (authServe s r).1 := by
      unfold authServe
      rw [hclear]
      obtain ⟨t, calls, served⟩ := processRequest s.session.table r.request
      dsimp only
      rw [hkept]
      cases served with
      | hung => exact ⟨hvisits, .inl rfl⟩
      | returned code =>
          refine ⟨List.forall_mem_append.mpr ⟨hvisits, ?_⟩, .inr rfl⟩
          exact List.forall_mem_cons.mpr ⟨rfl, allowed_other⟩
      | scanning h answer =>
          have hcalls := List.forall_mem_append.mpr
            ⟨hvisits, @allowed_other (enterScan t h answer s.session.frames).2⟩
          exact ⟨List.forall_mem_append.mpr ⟨hcalls, allowed_returned⟩, .inr rfl⟩
    exact ⟨iff_of_true hall.1 habandons, fun _ => hall.2⟩

/-- A turn of a scan does not touch the flag. -/
theorem authTurn_allowed (bufferSize : Nat) (t : HandleTable) (f : Frame) (frames : List Frame)
    (input : ScanInput) (rpc : Bool) :
    (∀ v ∈ (authTurn bufferSize false t f frames input rpc).2, v.Allowed) ∧
      FlagClear (authTurn bufferSize false t f frames input rpc).1 :=
  ⟨List.forall_mem_append.mpr ⟨allowed_other, allowed_returned⟩, .inr rfl⟩

theorem step_allowed {bufferSize : Nat} {s s' : AuthSession} {e : AuthEvent}
    {visits : List Visit} (hclear : FlagClear s)
    (hstep : s.step bufferSize e = some (s', visits)) :
    ((∀ v ∈ visits, v.Allowed) ↔ ¬ e.Abandons) ∧ (¬ e.Abandons → FlagClear s') := by
  cases e with
  | request r =>
      rw [AuthSession.step, Option.ite_none_right_eq_some, Option.some.injEq] at hstep
      obtain ⟨hcontrol, hserve⟩ := hstep
      have hflag : s.canAuthorize = false := by
        refine hclear.resolve_left fun hlost => ?_
        rw [hcontrol] at hlost
        cases hlost
      have hall := authServe_allowed hflag r
      rwa [hserve] at hall
  | turn input rpc =>
      obtain ⟨⟨t, frames, control⟩, canAuthorize⟩ := s
      cases control with
      | turn =>
          cases frames with
          | nil => cases hstep
          | cons f frames =>
              obtain rfl : canAuthorize = false := hclear.resolve_left nofun
              cases hstep
              obtain ⟨hall, hnext⟩ := authTurn_allowed bufferSize t f frames input rpc
              exact ⟨iff_of_true hall id, fun _ => hnext⟩
      | request => cases hstep
      | finished => cases hstep
      | lost => cases hstep

theorem run_allowed {bufferSize : Nat} {s s' : AuthSession} {es : List AuthEvent}
    {visits : List Visit} (hclear : FlagClear s) (hrun : s.run bufferSize es = some (s', visits)) :
    (∀ v ∈ visits, v.Allowed) ↔ ∀ e ∈ es, ¬ e.Abandons := by
  induction es generalizing s visits with
  | nil =>
      cases hrun
      exact iff_of_true (fun v h => by cases h) fun e h => by cases h
  | cons e es ih =>
      rw [AuthSession.run] at hrun
      cases hstep : s.step bufferSize e with
      | none =>
          rw [hstep] at hrun
          cases hrun
      | some p =>
          obtain ⟨s₁, first⟩ := p
          rw [hstep] at hrun
          dsimp only at hrun
          cases hrest : s₁.run bufferSize es with
          | none =>
              rw [hrest] at hrun
              cases hrun
          | some q =>
              rw [hrest] at hrun
              cases hrun
              obtain ⟨hiff, hnext⟩ := step_allowed hclear hstep
              rw [List.forall_mem_append, List.forall_mem_cons, hiff]
              exact and_congr_right fun habandons => ih (hnext habandons) hrest

/-- Over a run the flag is set at calls of the two handlers only, and clear wherever
`process_request` or `do_scan` returns, just if no `SANE_NET_OPEN` with an empty name finds
that there is no device. -/
theorem authorizeWindow_iff (bufferSize : Nat) (es : List AuthEvent) {s' : AuthSession}
    {visits : List Visit} (hrun : AuthSession.start.run bufferSize es = some (s', visits)) :
    (∀ v ∈ visits, v.Allowed) ↔ ∀ e ∈ es, ¬ e.Abandons :=
  run_allowed (.inr rfl) hrun

/-- A device that is opened and then closed. -/
theorem authorizeWindow_iff_openClose :
    ∃ s' visits, AuthSession.start.run 1
        [.request (.netOpen ⟨some (some [116]), none, true, some 1⟩),
          .request (.other (.netClose (some 0)) nofun)] = some (s', visits) ∧
      ((∀ v ∈ visits, v.Allowed) ↔
        ∀ e ∈ [AuthEvent.request (.netOpen ⟨some (some [116]), none, true, some 1⟩),
          .request (.other (.netClose (some 0)) nofun)], ¬ e.Abandons) :=
  ⟨_, _, rfl, authorizeWindow_iff 1 _ rfl⟩

/-- Without a device to open the flag stays set, also while the next request is served. -/
theorem not_authorizeWindow_noDevice :
    ∃ s' visits, AuthSession.start.run 1
        [.request (.netOpen ⟨some (some []), some [], true, none⟩),
          .request (.other .netGetDevices nofun)] = some (s', visits) ∧
      visits = [.call .netOpen true, .returned true, .call .other true, .returned true] ∧
      ¬ ∀ v ∈ visits, v.Allowed := by
  refine ⟨_, _, rfl, rfl, fun hall => ?_⟩
  exact not_allowed_returned (hall _ (.tail _ (.head _)))

end SaneBackends.Saned
