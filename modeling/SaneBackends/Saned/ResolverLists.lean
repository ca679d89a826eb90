import SaneBackends.Saned.AccessDecision
/-!
# The lists of the resolver in `check_host`

`check_host` once more, with the lists that `getaddrinfo` hands out, the variable `res` and the
pointer `sin`. The answers may differ from line to line: `rs 0` answers in front of the files,
`rs (i + 1)` at their `i`-th line. A line looks up at most one thing in `check_host` and one
other thing in a subnet check, so that every sequence of answers is one of these.
-/

namespace SaneBackends.Saned.ResolverLists

open SaneBackends.Sanei

/-- A pointer to a list of the resolver; `wild` points to nothing the resolver ever gave. -/
inductive ListPtr where
  | null | wild | list (id : Nat)
  deriving DecidableEq, Repr

/-- A free of what is no list that is held, a use of `sin` behind the free of its list, and the
store of `check_v6_in_range` behind its mask. -/
inductive Trap where
  | badFree | dangling | maskStore
  deriving DecidableEq, Repr

/-- The pointer `sin`; the address is the one found in the list. -/
inductive SinPtr where
  | null | remote | intoList (id : Nat) (addr : BitVec 32)
  deriving DecidableEq, Repr

/-- The variables, how many lists were handed out, and which of them are not freed. -/
structure Locals where
  accessOk : Bool := false
  res : ListPtr
  sin : SinPtr := .null
  taken : Nat := 0
  live : List Nat := []
  deriving DecidableEq, Repr

/-- A successful `getaddrinfo` stores a new list. -/
def Locals.obtained (s : Locals) : Locals :=
  { s with res := .list s.taken, taken := s.taken + 1, live := s.taken :: s.live }

def freeaddrinfo (p : ListPtr) (s : Locals) : Except Trap Locals :=
  match p with
  | .list id =>
      if id ∈ s.live then .ok { s with live := s.live.erase id } else .error .badFree
  | .null => .error .badFree
  | .wild => .error .badFree

/-- `freeaddrinfo (res); res = NULL`. -/
def Locals.releaseRes (s : Locals) : Except Trap Locals := do
  let s ← freeaddrinfo s.res s
  .ok { s with res := .null }

/-- The address `sin` points to. -/
def Locals.sinAddr (peer : Peer) (s : Locals) : Except Trap (BitVec 32) :=
  match s.sin with
  | .null => .error .dangling
  | .remote =>
      match peer.address with
      | .v4 a => .ok a
      | .v6 _ => .ok peer.flowinfo
  | .intoList id a => if id ∈ s.live then .ok a else .error .dangling

/-- The address of an IPv4-mapped peer is looked at and dropped again. -/
def checkMapped (peer : Peer) (s : Locals) : Except Trap (Bool × Locals) :=
  match peer.ipv4Map with
  | none => .ok (false, s)
  | some a => do
      let id := s.taken
      let s := { s.obtained with sin := .intoList id a }
      let sin ← s.sinAddr peer
      let s ← freeaddrinfo (.list id) s
      .ok (inLoopback sin, s)

/-- `sin` is made to point to the IPv4 address of an IPv4-mapped peer. -/
def redirectSin (r : Resolver) (peer : Peer) (s : Locals) : Locals :=
  if peer.ipv4Map.isSome then
    match r.numericInet peer.remoteIpv4 with
    | none => s
    | some a => { s.obtained with sin := .intoList s.taken a }
  else s

/-- The branch for a line with a slash. -/
def checkRange (r : Resolver) (peer : Peer) (name netmask : List UInt8) (s : Locals) :
    Except Trap Locals :=
  if 58 ∈ name then
    match peer.address with
    | .v4 _ => .ok s
    | .v6 a =>
        match checkV6InRange r a name netmask with
        | .error _ => .error .maskStore
        | .ok inRange => .ok (if inRange then { s with accessOk := true } else s)
  else
    let s := redirectSin r peer s
    if peer.address.isInet || peer.ipv4Map.isSome then do
      let sin ← s.sinAddr peer
      let s : Locals :=
        if checkV4InRange r sin name netmask then { s with accessOk := true }
        else { s with sin := .remote }
      if s.res ≠ .null then s.releaseRes else .ok s
    else .ok s

/-- The branch for a line without one. -/
def checkName (r : Resolver) (peer : Peer) (name : List UInt8) (s : Locals) :
    Except Trap Locals :=
  match r.getaddrinfo name with
  | .error _ => .ok s
  | .ok addrs =>
      let s := s.obtained
      { s with accessOk := s.accessOk || anySame r peer addrs }.releaseRes

/-- The body of the loop over the lines. -/
def checkLine (r : Resolver) (peer : Peer) (line : List UInt8) (s : Locals) :
    Except Trap Locals :=
  match hostEntry line with
  | none => .ok s
  | some (name, netmask) =>
      if name = [43] then .ok { s with accessOk := true }
      else if peer.hasText name then .ok { s with accessOk := true }
      else
        match netmask with
        | some netmask => checkRange r peer name netmask s
        | none => checkName r peer name s

section Loops

variable (rs : Nat → Resolver)

/-- The loop over the lines of one file, the first of which is the `i`-th of all. -/
def checkLines (peer : Peer) : Nat → List (List UInt8) → Locals → Except Trap Locals
  | _, [], s => .ok s
  | i, line :: lines, s =>
      if s.accessOk then .ok s
      else do
        let s ← checkLine (rs (i + 1)) peer line s
        checkLines peer (i + 1) lines s

/-- The loop over the files. -/
def checkFiles (peer : Peer) : Nat → List (Option (List UInt8)) → Locals → Except Trap Locals
  | _, [], s => .ok s
  | i, none :: files, s => checkFiles peer i files s
  | i, some stream :: files, s => do
      let lines := hostLines stream.length stream
      let s ← checkLines rs peer i lines s
      checkFiles peer (i + lines.length) files s

/-- The part of `check_host` behind the checks for the local host. -/
def readFiles (peer : Peer) (files : List (Option (List UInt8))) (s : Locals) :
    Except Trap SaneStatus := do
  let s ← checkFiles rs peer 0 files s
  .ok (if s.accessOk then .good else .accessDenied)

/-- `check_host`; the variable `res` is not set at first, and need not be `NULL`. -/
def checkHost (w : HostAnswers) (isNull : Bool) : Except Trap SaneStatus :=
  match w.getpeername with
  | none => .ok .inval
  | some address =>
      match (rs 0).getnameinfo address with
      | none => .ok .inval
      | some remoteIp => do
          let peer := findPeer (rs 0) address w.flowinfo remoteIp
          let (mappedLoopback, s) ← checkMapped peer { res := if isNull then .null else .wild }
          if mappedLoopback then .ok .good
          else
            let s := { s with sin := .remote }
            if address.isLoopback then .ok .good
            else
              match w.gethostname with
              | none => .ok .inval
              | some hostname =>
                  match (rs 0).getaddrinfo hostname with
                  | .error .other => .ok .inval
                  | .error .noname => readFiles rs peer w.files s
                  | .ok addrs => do
                      let s ← s.obtained.releaseRes
                      if anySame (rs 0) peer addrs then .ok .good
                      else readFiles rs peer w.files s

end Loops

/-! ## The lines -/

/-- The line is read without a store to `res` and without a free. -/
def KeepsRes (r : Resolver) (peer : Peer) (line : List UInt8) : Prop :=
  match hostEntry line with
  | none => True
  | some (name, netmask) =>
      name ≠ [43] ∧ peer.hasText name = false ∧
        match netmask with
        | none => ∃ e, r.getaddrinfo name = .error e
        | some netmask =>
            if 58 ∈ name then
              ∀ a, peer.address = .v6 a → checkV6InRange r a name netmask = .ok false
            else peer.address.isInet = false ∧ peer.ipv4Map = none

/-- The line is an IPv4 range that is compared with the peer without a new lookup of its
address. -/
def FreesRes (r : Resolver) (peer : Peer) (line : List UInt8) : Prop :=
  ∃ name netmask, hostEntry line = some (name, some netmask) ∧
    name ≠ [43] ∧ peer.hasText name = false ∧ 58 ∉ name ∧
    (peer.address.isInet = true ∨ peer.ipv4Map.isSome = true) ∧
    (peer.ipv4Map.isSome = true → r.numericInet peer.remoteIpv4 = none)

/-- Between two lines nothing is held. -/
structure Clean (s : Locals) : Prop where
  accessOk : s.accessOk = false
  res : s.res = .null
  sin : s.sin = .remote

/-- Between two lines, as long as `res` is not set or was freed. -/
structure Stale (s : Locals) : Prop where
  accessOk : s.accessOk = false
  res : s.res ≠ .null
  freed : ∀ id, s.res = .list id → id ∉ s.live
  sin : s.sin = .remote

/-- Neither a wrong free nor a wrong use. -/
def Sound {α : Type} (outcome : Except Trap α) : Prop :=
  outcome ≠ .error .badFree ∧ outcome ≠ .error .dangling

/-- The line ends the run, or grants access, or leaves nothing held. -/
def Settles (outcome : Except Trap Locals) : Prop :=
  outcome = .error .maskStore ∨
    ∃ s, outcome = .ok s ∧ (s.accessOk = true ∨ Clean s)

section Lines

variable {r : Resolver} {peer : Peer} {s : Locals}

theorem releaseRes_of_stale (hres : s.res ≠ .null) (hfreed : ∀ id, s.res = .list id → id ∉ s.live) :
    s.releaseRes = .error .badFree := by
  unfold Locals.releaseRes
  cases hlist : s.res with
  | null => exact absurd hlist hres
  | wild => rfl
  | list id =>
      rw [freeaddrinfo, if_neg (hfreed id hlist)]
      rfl

/-- A list that was just handed out can be freed. -/
theorem releaseRes_head {id : Nat} {live : List Nat} (hres : s.res = .list id)
    (hlive : s.live = id :: live) :
    s.releaseRes = .ok { s with res := .null, live := live } := by
  simp [Locals.releaseRes, freeaddrinfo, hres, hlive, bind, Except.bind]

theorem exists_sinAddr (peer : Peer) (hsin : s.sin = .remote) :
    ∃ addr, s.sinAddr peer = .ok addr := by
  rw [Locals.sinAddr, hsin]
  cases peer.address with
  | v4 a => exact ⟨a, rfl⟩
  | v6 a => exact ⟨peer.flowinfo, rfl⟩

theorem checkLine_of_keepsRes {line : List UInt8} (h : KeepsRes r peer line) :
    checkLine r peer line s = .ok s := by
  unfold KeepsRes at h
  unfold checkLine
  cases hentry : hostEntry line with
  | none => rfl
  | some entry =>
      obtain ⟨name, netmask⟩ := entry
      rw [hentry] at h
      obtain ⟨hplus, htext, h⟩ := h
      dsimp only
      rw [if_neg hplus, if_neg (by simp [htext])]
      cases netmask with
      | none =>
          obtain ⟨e, he⟩ := h
          simp only [checkName, he]
      | some netmask =>
          dsimp only at h ⊢
          unfold checkRange
          split_ifs at h with hcolon
          · rw [if_pos hcolon]
            cases haddress : peer.address with
            | v4 a => rfl
            | v6 a =>
                dsimp only
                rw [h a haddress]
                rfl
          · rw [if_neg hcolon]
            simp [h.1, h.2, redirectSin]

/-- The comparison with an IPv4 range. -/
theorem checkRange_of_compared {name : List UInt8} (netmask : List UInt8) (hcolon : 58 ∉ name)
    (hcompared : peer.address.isInet = true ∨ peer.ipv4Map.isSome = true) {addr : BitVec 32}
    (haddr : (redirectSin r peer s).sinAddr peer = .ok addr) :
    ∃ ok sin, (ok = true ∨ ok = (redirectSin r peer s).accessOk ∧ sin = .remote) ∧
      checkRange r peer name netmask s =
        let s' := { redirectSin r peer s with accessOk := ok, sin := sin }
        if s'.res ≠ .null then s'.releaseRes else .ok s' := by
  have hbranch : (peer.address.isInet || peer.ipv4Map.isSome) = true := by
    rw [Bool.or_eq_true]
    exact hcompared
  unfold checkRange
  rw [if_neg hcolon]
  dsimp only
  rw [if_pos hbranch, haddr]
  by_cases hin : checkV4InRange r addr name netmask = true
  · refine ⟨true, (redirectSin r peer s).sin, .inl rfl, ?_⟩
    simp only [bind, Except.bind, if_pos hin]
  · refine ⟨(redirectSin r peer s).accessOk, .remote, .inr ⟨rfl, rfl⟩, ?_⟩
    simp only [bind, Except.bind, if_neg hin]

theorem redirectSin_of_none (h : peer.ipv4Map.isSome = true → r.numericInet peer.remoteIpv4 = none) :
    redirectSin r peer s = s := by
  unfold redirectSin
  split_ifs with hmap
  · rw [h hmap]
  · rfl

theorem checkLine_of_freesRes {line : List UInt8} (h : FreesRes r peer line) (hs : Stale s) :
    checkLine r peer line s = .error .badFree := by
  obtain ⟨name, netmask, hentry, hplus, htext, hcolon, hcompared, hlookup⟩ := h
  have hredirect : redirectSin r peer s = s := redirectSin_of_none hlookup
  obtain ⟨addr, haddr⟩ := exists_sinAddr peer hs.sin
  rw [← hredirect] at haddr
  obtain ⟨ok, sin, -, hrange⟩ := checkRange_of_compared netmask hcolon hcompared haddr
  unfold checkLine
  rw [hentry]
  dsimp only
  rw [if_neg hplus, if_neg (by simp [htext]), hrange, hredirect]
  dsimp only
  rw [if_pos hs.res]
  exact releaseRes_of_stale hs.res hs.freed

theorem checkName_settles {name : List UInt8} (hsin : s.sin = .remote)
    {addrs : List Address} (hlookup : r.getaddrinfo name = .ok addrs) :
    Settles (checkName r peer name s) := by
  unfold checkName
  rw [hlookup]
  dsimp only
  rw [releaseRes_head rfl rfl]
  refine .inr ⟨_, rfl, ?_⟩
  cases hok : (s.obtained.accessOk || anySame r peer addrs) with
  | true => exact .inl rfl
  | false => exact .inr ⟨rfl, rfl, hsin⟩

/-- A range that is compared settles, if `res` is `NULL` or the address is looked up again. -/
theorem checkRange_settles {name : List UInt8} (netmask : List UInt8) (hcolon : 58 ∉ name)
    (hcompared : peer.address.isInet = true ∨ peer.ipv4Map.isSome = true)
    (hok : s.accessOk = false) (hsin : s.sin = .remote)
    (h : s.res = .null ∨ peer.ipv4Map.isSome = true ∧ r.numericInet peer.remoteIpv4 ≠ none) :
    Settles (checkRange r peer name netmask s) := by
  by_cases hlookup : peer.ipv4Map.isSome = true → r.numericInet peer.remoteIpv4 = none
  · have hredirect : redirectSin r peer s = s := redirectSin_of_none hlookup
    have hres : s.res = .null := h.resolve_right fun hagain => hagain.2 (hlookup hagain.1)
    obtain ⟨addr, haddr⟩ := exists_sinAddr peer hsin
    rw [← hredirect] at haddr
    obtain ⟨ok, sin, hgranted, hrange⟩ := checkRange_of_compared netmask hcolon hcompared haddr
    rw [hrange, hredirect]
    dsimp only
    rw [if_neg (by simp [hres])]
    refine .inr ⟨_, rfl, hgranted.imp id fun hremote => ?_⟩
    rw [hredirect] at hremote
    exact ⟨hremote.1.trans hok, hres, hremote.2⟩
  · obtain ⟨hmap, hagain⟩ := Classical.not_imp.mp hlookup
    obtain ⟨a, ha⟩ := Option.ne_none_iff_exists'.mp hagain
    have hredirect : redirectSin r peer s = { s.obtained with sin := .intoList s.taken a } := by
      rw [redirectSin, if_pos hmap, ha]
    have haddr : (redirectSin r peer s).sinAddr peer = .ok a := by
      rw [hredirect]
      exact if_pos (List.mem_cons_self ..)
    obtain ⟨ok, sin, hgranted, hrange⟩ := checkRange_of_compared netmask hcolon hcompared haddr
    rw [hrange, hredirect]
    dsimp only
    rw [if_pos (by simp [Locals.obtained]), releaseRes_head rfl rfl]
    refine .inr ⟨_, rfl, hgranted.imp id fun hremote => ?_⟩
    rw [hredirect] at hremote
    exact ⟨hremote.1.trans hok, rfl, hremote.2⟩

theorem checkLine_settles {line : List UInt8} (hok : s.accessOk = false) (hsin : s.sin = .remote)
    (h : s.res = .null ∨ ¬ KeepsRes r peer line ∧ ¬ FreesRes r peer line) :
    Settles (checkLine r peer line s) := by
  by_cases hkeeps : KeepsRes r peer line
  · have hclean : Clean s := ⟨hok, h.resolve_right fun hneither => hneither.1 hkeeps, hsin⟩
    exact .inr ⟨s, checkLine_of_keepsRes hkeeps, .inr hclean⟩
  · unfold KeepsRes at hkeeps
    unfold checkLine
    cases hentry : hostEntry line with
    | none =>
        rw [hentry] at hkeeps
        exact absurd trivial hkeeps
    | some entry =>
        obtain ⟨name, netmask⟩ := entry
        rw [hentry] at hkeeps
        dsimp only at hkeeps ⊢
        split_ifs with hplus htext
        · exact .inr ⟨_, rfl, .inl rfl⟩
        · exact .inr ⟨_, rfl, .inl rfl⟩
        · have htext' : peer.hasText name = false := by simpa using htext
          have hkeeps' := fun hrest => hkeeps ⟨hplus, htext', hrest⟩
          cases netmask with
          | none =>
              cases hlookup : r.getaddrinfo name with
              | error e => exact absurd ⟨e, hlookup⟩ hkeeps'
              | ok addrs => exact checkName_settles hsin hlookup
          | some netmask =>
              dsimp only at hkeeps' ⊢
              by_cases hcolon : 58 ∈ name
              · rw [if_pos hcolon] at hkeeps'
                unfold checkRange
                rw [if_pos hcolon]
                cases haddress : peer.address with
                | v4 a => exact absurd (fun a' h' => by rw [haddress] at h'; cases h') hkeeps'
                | v6 a =>
                    dsimp only
                    cases hrange : checkV6InRange r a name netmask with
                    | error e => exact .inl rfl
                    | ok inRange =>
                        cases inRange with
                        | true => exact .inr ⟨_, rfl, .inl rfl⟩
                        | false =>
                            refine absurd (fun a' h' => ?_) hkeeps'
                            rw [haddress] at h'
                            cases h'
                            exact hrange
              · rw [if_neg hcolon] at hkeeps'
                have hcompared : peer.address.isInet = true ∨ peer.ipv4Map.isSome = true := by
                  by_contra hneither
                  simp only [not_or, Bool.not_eq_true, Option.isSome_eq_false_iff,
                    Option.isNone_iff_eq_none] at hneither
                  exact hkeeps' hneither
                refine checkRange_settles netmask hcolon hcompared hok hsin (h.imp_right ?_)
                intro hneither
                by_contra hagain
                refine hneither.2 ⟨name, netmask, hentry, hplus, htext', hcolon, hcompared, ?_⟩
                intro hmap
                by_contra hfound
                exact hagain ⟨hmap, hfound⟩

end Lines

/-! ## The run -/

section Run

variable (rs : Nat → Resolver)

/-- From the `i`-th line on, one is reached that frees `res` before any has stored to it. -/
def FreesStale (peer : Peer) : Nat → List (List UInt8) → Prop
  | _, [] => False
  | i, line :: lines =>
      FreesRes (rs (i + 1)) peer line ∨
        KeepsRes (rs (i + 1)) peer line ∧ FreesStale peer (i + 1) lines

variable {rs} {peer : Peer} {s : Locals}

theorem checkLines_of_accessOk (i : Nat) (lines : List (List UInt8)) (h : s.accessOk = true) :
    checkLines rs peer i lines s = .ok s := by
  cases lines with
  | nil => rfl
  | cons line lines => rw [checkLines, if_pos h]

theorem checkLines_cons (i : Nat) (line : List UInt8) (lines : List (List UInt8))
    (h : s.accessOk = false) :
    checkLines rs peer i (line :: lines) s =
      checkLine (rs (i + 1)) peer line s >>= checkLines rs peer (i + 1) lines := by
  rw [checkLines, if_neg (by simp [h])]

theorem Settles.checkLines {outcome : Except Trap Locals} (h : Settles outcome) (i : Nat)
    (lines : List (List UInt8)) : Settles (outcome >>= checkLines rs peer i lines) := by
  induction lines generalizing i outcome with
  | nil =>
      cases h with
      | inl hmask => exact .inl (by rw [hmask]; rfl)
      | inr hok =>
          obtain ⟨s, rfl, hs⟩ := hok
          exact .inr ⟨s, rfl, hs⟩
  | cons line lines ih =>
      cases h with
      | inl hmask => exact .inl (by rw [hmask]; rfl)
      | inr hok =>
          obtain ⟨s, rfl, hs⟩ := hok
          change Settles (ResolverLists.checkLines rs peer i (line :: lines) s)
          cases hs with
          | inl hgranted =>
              rw [checkLines_of_accessOk i _ hgranted]
              exact .inr ⟨s, rfl, .inl hgranted⟩
          | inr hclean =>
              rw [checkLines_cons i line lines hclean.accessOk]
              exact ih (checkLine_settles hclean.accessOk hclean.sin (.inl hclean.res)) (i + 1)

/-- A run that begins with a stale `res` goes wrong exactly if such a line is reached. -/
theorem checkLines_of_stale (i : Nat) (lines : List (List UInt8)) (hs : Stale s) :
    (FreesStale rs peer i lines → checkLines rs peer i lines s = .error .badFree) ∧
      (¬ FreesStale rs peer i lines → checkLines rs peer i lines s = .ok s ∨
        Settles (checkLines rs peer i lines s)) := by
  induction lines generalizing i with
  | nil => exact ⟨False.elim, fun _ => .inl rfl⟩
  | cons line lines ih =>
      rw [checkLines_cons i line lines hs.accessOk]
      constructor
      · intro hstale
        cases hstale with
        | inl hfrees =>
            rw [checkLine_of_freesRes hfrees hs]
            rfl
        | inr hlater =>
            rw [checkLine_of_keepsRes hlater.1]
            exact (ih (i + 1)).1 hlater.2
      · intro hstale
        obtain ⟨hfrees, hlater⟩ := not_or.mp hstale
        by_cases hkeeps : KeepsRes (rs (i + 1)) peer line
        · rw [checkLine_of_keepsRes hkeeps]
          exact (ih (i + 1)).2 fun hrest => hlater ⟨hkeeps, hrest⟩
        · have hsettles := checkLine_settles hs.accessOk hs.sin (.inr ⟨hkeeps, hfrees⟩)
          exact .inr (hsettles.checkLines (i + 1) lines)

theorem checkLines_append (i : Nat) (lines lines' : List (List UInt8)) (s : Locals) :
    checkLines rs peer i (lines ++ lines') s =
      checkLines rs peer i lines s >>= checkLines rs peer (i + lines.length) lines' := by
  induction lines generalizing i s with
  | nil => rfl
  | cons line lines ih =>
      cases hok : s.accessOk with
      | true =>
          rw [checkLines_of_accessOk i _ hok, checkLines_of_accessOk i _ hok]
          exact (checkLines_of_accessOk _ lines' hok).symm
      | false =>
          rw [List.cons_append, checkLines_cons i _ _ hok, checkLines_cons i _ _ hok, bind_assoc,
            List.length_cons, Nat.add_comm lines.length 1, ← Nat.add_assoc]
          exact congrArg _ (funext fun s' => ih (i + 1) s')

theorem checkFiles_eq (i : Nat) (files : List (Option (List UInt8))) (s : Locals) :
    checkFiles rs peer i files s = checkLines rs peer i (fileLines files) s := by
  induction files generalizing i s with
  | nil => rfl
  | cons file files ih =>
      rw [fileLines, List.flatMap_cons]
      cases file with
      | none => exact ih i s
      | some stream =>
          rw [checkFiles, Option.map_some, Option.getD_some, checkLines_append]
          exact congrArg _ (funext fun s' => ih _ s')

theorem sound_ok {α : Type} (a : α) : Sound (.ok a) :=
  ⟨fun h => (by cases h), fun h => (by cases h)⟩

theorem Settles.sound {outcome : Except Trap Locals} (h : Settles outcome) (f : Locals → SaneStatus) :
    Sound (outcome >>= fun s => .ok (f s)) := by
  cases h with
  | inl hmask =>
      rw [hmask]
      exact ⟨fun hbad => (by cases hbad), fun hbad => (by cases hbad)⟩
  | inr hok =>
      obtain ⟨s, rfl, -⟩ := hok
      exact sound_ok (f s)

theorem readFiles_of_clean (files : List (Option (List UInt8))) (hs : Clean s) :
    Sound (readFiles rs peer files s) := by
  have hstart : Settles (.ok s) := .inr ⟨s, rfl, .inr hs⟩
  rw [readFiles, checkFiles_eq]
  exact (hstart.checkLines 0 (fileLines files)).sound _

theorem readFiles_of_stale (files : List (Option (List UInt8))) (hs : Stale s) :
    Sound (readFiles rs peer files s) ↔ ¬ FreesStale rs peer 0 (fileLines files) := by
  obtain ⟨hbad, hgood⟩ := @checkLines_of_stale rs peer s 0 (fileLines files) hs
  rw [readFiles, checkFiles_eq]
  constructor
  · intro hsound hstale
    rw [hbad hstale] at hsound
    exact hsound.1 rfl
  · intro hstale
    cases hgood hstale with
    | inl hsame =>
        rw [hsame]
        exact sound_ok _
    | inr hsettles => exact hsettles.sound _

end Run

/-! ## `check_host` -/

/-- The files are read although the name of the host is not known, `res` is not `NULL` then, and a
line is reached that frees it before any has stored to it. -/
def StaleRes (rs : Nat → Resolver) (w : HostAnswers) (isNull : Bool) : Prop :=
  ∃ address remoteIp hostname, w.getpeername = some address ∧
    (rs 0).getnameinfo address = some remoteIp ∧ w.gethostname = some hostname ∧
    (rs 0).getaddrinfo hostname = .error .noname ∧
    let peer := findPeer (rs 0) address w.flowinfo remoteIp
    address.isLoopback = false ∧ peer.ipv4Map.any inLoopback = false ∧
      (isNull = false ∨ peer.ipv4Map.isSome = true) ∧
      FreesStale rs peer 0 (fileLines w.files)

/-- What the check for an IPv4-mapped peer leaves behind. -/
theorem checkMapped_spec (peer : Peer) (isNull : Bool) :
    ∃ s, checkMapped peer { res := if isNull then .null else .wild } =
        .ok (peer.ipv4Map.any inLoopback, s) ∧
      (isNull = false ∨ peer.ipv4Map.isSome = true → Stale { s with sin := .remote }) ∧
      (¬ (isNull = false ∨ peer.ipv4Map.isSome = true) → Clean { s with sin := .remote }) := by
  cases hmap : peer.ipv4Map with
  | none =>
      refine ⟨_, by rw [checkMapped, hmap]; rfl, ?_, ?_⟩
      · intro hset
        have hnull : isNull = false := by simpa using hset
        rw [hnull]
        exact ⟨rfl, fun h => (by cases h), fun id h => (by cases h), rfl⟩
      · intro hset
        have hnull : isNull = true := by simpa using hset
        rw [hnull]
        exact ⟨rfl, rfl, rfl⟩
  | some a =>
      refine ⟨{ res := .list 0, sin := .intoList 0 a, taken := 1, live := [] }, ?_, ?_, ?_⟩
      · simp [checkMapped, hmap, Locals.obtained, Locals.sinAddr, freeaddrinfo, bind, Except.bind]
      · exact fun _ => ⟨rfl, fun h => (by cases h), fun id _ => List.not_mem_nil, rfl⟩
      · exact fun hset => absurd (.inr rfl) hset

section Outcome

variable {rs : Nat → Resolver} {w : HostAnswers} {isNull : Bool} {address : Address}
  {remoteIp : List UInt8}

theorem StaleRes.named (h : StaleRes rs w isNull) :
    ∃ address, w.getpeername = some address ∧ (rs 0).getnameinfo address ≠ none := by
  obtain ⟨address, remoteIp, -, hpeer, hname, -⟩ := h
  exact ⟨address, hpeer, by simp [hname]⟩

/-- What the run has passed when it reads the files with a stale `res`. -/
theorem StaleRes.passed (h : StaleRes rs w isNull) (hpeer : w.getpeername = some address)
    (hname : (rs 0).getnameinfo address = some remoteIp) :
    (∃ hostname, w.gethostname = some hostname ∧
        (rs 0).getaddrinfo hostname = .error .noname) ∧
      address.isLoopback = false ∧
      (findPeer (rs 0) address w.flowinfo remoteIp).ipv4Map.any inLoopback = false ∧
      (isNull = false ∨ (findPeer (rs 0) address w.flowinfo remoteIp).ipv4Map.isSome = true) ∧
      FreesStale rs (findPeer (rs 0) address w.flowinfo remoteIp) 0 (fileLines w.files) := by
  obtain ⟨address', remoteIp', hostname, hpeer', hname', hhost, hlookup, hrest⟩ := h
  rw [hpeer] at hpeer'
  cases hpeer'
  rw [hname] at hname'
  cases hname'
  exact ⟨⟨hostname, hhost, hlookup⟩, hrest⟩

/-- The part of `check_host` behind the look at an IPv4-mapped peer. -/
theorem checkHost_eq (hpeer : w.getpeername = some address)
    (hname : (rs 0).getnameinfo address = some remoteIp) {s : Locals}
    (hchecked : checkMapped (findPeer (rs 0) address w.flowinfo remoteIp)
        { res := if isNull then .null else .wild } =
      .ok ((findPeer (rs 0) address w.flowinfo remoteIp).ipv4Map.any inLoopback, s)) :
    checkHost rs w isNull =
      let peer := findPeer (rs 0) address w.flowinfo remoteIp
      if peer.ipv4Map.any inLoopback then .ok .good
      else if address.isLoopback then .ok .good
      else
        match w.gethostname with
        | none => .ok .inval
        | some hostname =>
            match (rs 0).getaddrinfo hostname with
            | .error .other => .ok .inval
            | .error .noname => readFiles rs peer w.files { s with sin := .remote }
            | .ok addrs =>
                if anySame (rs 0) peer addrs then .ok .good
                else readFiles rs peer w.files { s with res := .null, sin := .remote,
                                                        taken := s.taken + 1 } := by
  have hrelease : ({ s with sin := SinPtr.remote } : Locals).obtained.releaseRes =
      .ok { s with res := .null, sin := .remote, taken := s.taken + 1 } := releaseRes_head rfl rfl
  rw [checkHost, hpeer]
  dsimp only
  rw [hname]
  dsimp only
  rw [hchecked]
  dsimp only [bind, Except.bind]
  rw [hrelease]

end Outcome

end SaneBackends.Saned.ResolverLists
