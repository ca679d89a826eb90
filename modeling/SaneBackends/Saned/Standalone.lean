import Mathlib.Tactic
/-!
# `saned.c`: the event loop of `run_standalone`

The linked lists of descriptors and children are lists, and `poll_set` is the list of
its entries. One turn of the loop is a function of what the kernel and the allocator
answer in it; what the child processes do with a connection is no part of it.
-/

namespace SaneBackends.Saned

inductive SanedFdType where
  | listener | process
  deriving DecidableEq, Repr

/-- `struct saned_fd`. -/
structure SanedFd where
  type : SanedFdType
  fd : Int
  interestingEvents : Nat
  deriving DecidableEq, Repr

inductive SanedChildType where
  | client | avahi
  deriving DecidableEq, Repr

/-- `struct saned_child`; `pidfd` is -1 if there is none. -/
structure SanedChild where
  type : SanedChildType
  pid : Nat
  pidfd : Int
  deriving DecidableEq, Repr

/-- `struct pollfd`, as far as it is an input of `poll`. -/
structure Pollfd where
  fd : Int
  events : Nat
  deriving DecidableEq, Repr

def pollin : Nat := 1

/-- The lists of `saned` and the variables of `run_standalone` that outlive a turn. -/
structure Standalone where
  sanedFds : List SanedFd
  numSanedFds : Nat
  children : List SanedChild
  numchildren : Int
  pollSet : List Pollfd
  pollSetValid : Bool
  running : Bool
  deriving DecidableEq, Repr

/-- `add_fd`; without memory for the entry the descriptor is closed. -/
def addFd (memory : Bool) (fd : Int) (type : SanedFdType) (interestingEvents : Nat)
    (s : Standalone) : Standalone :=
  if memory then
    { s with
      sanedFds := ⟨type, fd, interestingEvents⟩ :: s.sanedFds
      numSanedFds := s.numSanedFds + 1 }
  else s

/-- `close_fds`. -/
def closeFds (typeMask : SanedFdType → Bool) (specificFd : Int) (s : Standalone) : Standalone :=
  let closed (f : SanedFd) : Bool := typeMask f.type || specificFd == f.fd
  { s with
    sanedFds := s.sanedFds.filter fun f => !closed f
    numSanedFds := s.numSanedFds - s.sanedFds.countP closed }

/-- What `add_child` is answered: memory for the child, `pidfd_open`, and memory for the
entry of the descriptor. -/
structure ChildAnswer where
  memory : Bool
  pidfd : Int
  fdMemory : Bool
  deriving DecidableEq, Repr

/-- `add_child`; without memory the child is killed. -/
def addChild (answer : ChildAnswer) (pid : Nat) (type : SanedChildType) (s : Standalone) :
    Standalone :=
  if answer.memory = false then s
  else
    let s := if answer.pidfd = -1 then s else addFd answer.fdMemory answer.pidfd .process pollin s
    { s with
      children := ⟨type, pid, answer.pidfd⟩ :: s.children
      numchildren := s.numchildren + 1 }

/-- `wait_child` behind a `waitpid` that returned a child. -/
def waitChild (ret : Nat) (s : Standalone) : Standalone :=
  match s.children.find? (·.pid = ret) with
  | none => s
  | some c =>
      closeFds (fun _ => false) c.pidfd
        { s with
          children := s.children.eraseP (·.pid = ret)
          numchildren := s.numchildren - 1 }

/-- `revents`: `POLLIN`, and whether any of `POLLERR`, `POLLHUP` and `POLLNVAL` is set. -/
structure Revents where
  pollin : Bool
  error : Bool
  deriving DecidableEq, Repr

def Revents.isZero (r : Revents) : Bool := !r.pollin && !r.error

/-- What `poll` returns. -/
inductive PollAnswer where
  | interrupted
  | failed
  | events (revents : List Revents)
  deriving DecidableEq, Repr

/-- What `accept` returns, and `fork` and `add_child` for an accepted connection. -/
inductive AcceptAnswer where
  | failed
  | accepted (fork : Option (Nat × ChildAnswer))
  deriving DecidableEq, Repr

/-- What the calls of one turn are answered: the allocation of the poll set, `poll`,
`accept` at each position of the poll set, the listeners bound by `do_bindings` with the
memory for their entries, and the children returned by `waitpid` until there is none. -/
structure Turn where
  memory : Bool
  poll : PollAnswer
  accept : List AcceptAnswer
  bindings : Option (List (Int × Bool))
  waits : List Nat

/-- How a turn ends the program. -/
inductive Abort where
  | assertion | outOfBounds | bailOut
  deriving DecidableEq, Repr

/-- The parent's side of `handle_client`. -/
def handleClient (fork : Option (Nat × ChildAnswer)) (s : Standalone) : Standalone :=
  match fork with
  | none => s
  | some (pid, answer) => addChild answer pid .client s

/-- The variables of the loop over the events. -/
structure Events where
  s : Standalone
  ret : Nat
  doRebind : Bool
  doReap : Bool

section Loop

variable (runOnce : Bool)

/-- The `switch` over the type of an entry with events. -/
def handleEvent (accept : AcceptAnswer) (sfd : SanedFd) (revents : Revents) (e : Events) :
    Events :=
  match sfd.type with
  | .listener =>
      if revents.error then { e with doRebind := true }
      else if revents.pollin then
        match accept with
        | .failed => e
        | .accepted fork =>
            let s := { handleClient fork e.s with pollSetValid := false }
            { e with s := if runOnce then { s with running := false } else s }
      else e
  | .process =>
      if revents.pollin then { e with s := { e.s with pollSetValid := false }, doReap := true }
      else e

/-- The loop over the events, from position `i` of the poll set and the entries left of
the list. -/
def eventLoop (accept : List AcceptAnswer) (revents : List Revents) :
    Nat → List SanedFd → Events → Except Abort Events
  | i, [], e => if e.ret = 0 ∨ e.s.numSanedFds ≤ i then .ok e else .error .assertion
  | i, sfd :: sfds, e =>
      if e.ret = 0 ∨ e.s.numSanedFds ≤ i then .ok e
      else
        match e.s.pollSet[i]?, revents[i]? with
        | some pfd, some r =>
            if sfd.fd ≠ pfd.fd then .error .assertion
            else if r.isZero then eventLoop accept revents (i + 1) sfds e
            else
              eventLoop accept revents (i + 1) sfds
                (handleEvent runOnce ((accept[i]?).getD .failed) sfd r { e with ret := e.ret - 1 })
        | _, _ => .error .outOfBounds

def SanedFd.toPollfd (f : SanedFd) : Pollfd := ⟨f.fd, f.interestingEvents⟩

/-- The poll set is made anew unless it is valid. -/
def preparePollSet (memory : Bool) (s : Standalone) : Except Abort Standalone :=
  if s.pollSetValid then .ok s
  else if memory = false ∧ s.numSanedFds ≠ 0 then .error .bailOut
  else if s.sanedFds.length ≠ s.numSanedFds then .error .assertion
  else .ok { s with pollSet := s.sanedFds.map SanedFd.toPollfd, pollSetValid := true }

/-- `do_bindings`. -/
def doBindings (bindings : Option (List (Int × Bool))) (s : Standalone) :
    Except Abort Standalone :=
  match bindings with
  | none => .error .bailOut
  | some fds => .ok (fds.foldl (fun s fd => addFd fd.2 fd.1 .listener pollin s) s)

def rebind (bindings : Option (List (Int × Bool))) (s : Standalone) : Except Abort Standalone := do
  let s ← doBindings bindings (closeFds (· == .listener) (-1) s)
  .ok { s with pollSetValid := false }

def reap (waits : List Nat) (s : Standalone) : Standalone :=
  waits.foldl (fun s ret => waitChild ret s) s

def timeoutNeeded (s : Standalone) : Bool := s.children.any (·.pidfd == -1)

/-- One turn of the loop, and whether it reaped. -/
def turn (t : Turn) (s : Standalone) : Except Abort (Standalone × Bool) := do
  let doReap := timeoutNeeded s
  let s ← preparePollSet t.memory s
  match t.poll with
  | .interrupted => .ok (s, false)
  | .failed => .error .bailOut
  | .events revents =>
      let ret := revents.countP (!·.isZero)
      let e ← eventLoop runOnce t.accept revents 0 s.sanedFds ⟨s, ret, false, doReap⟩
      let s ← if e.doRebind then rebind t.bindings e.s else .ok e.s
      .ok (if e.doReap then reap t.waits s else s, e.doReap)

end Loop

/-- The state in which the loop is entered: the listeners are bound and the Avahi process,
if there is one, is a child. -/
def startStandalone (listeners : List (Int × Bool)) (avahi : Option (Nat × ChildAnswer)) :
    Standalone :=
  let s := listeners.foldl (fun s fd => addFd fd.2 fd.1 .listener pollin s)
    ⟨[], 0, [], 0, [], false, true⟩
  match avahi with
  | none => s
  | some (pid, answer) => addChild answer pid .avahi s

end SaneBackends.Saned
