import SaneBackends.Pixma.Bjnp
/-!
# `pixma_bjnp.c`: commands over UDP

`udp_command`: a command is sent and the first datagram that arrives is taken for the response, in
at most three tries. The sequence numbers are compared while nothing has arrived.
-/

namespace SaneBackends.Bjnp

/-! ## A try -/

/-- `errno`, as far as it is asked for. -/
inductive Errno where
  | eintr
  | other
  deriving DecidableEq, Repr

inductive SelectResult where
  | ready
  | timeout
  | failed (errno : Errno)
  deriving DecidableEq, Repr

/-- What the calls of one try come to: what `send` returns and leaves in `errno`, the calls of
`select`, and the datagram or the error that `recv` has. -/
structure UdpTry where
  sent : Int
  sendErrno : Option Errno
  selects : Nat → SelectResult
  received : Except Errno (List UInt8)

/-- `BJNP_UDP_RETRY_MAX`. -/
def udpRetryMax : Nat := 3

/-- `BJNP_MAX_SELECT_ATTEMPTS`. -/
def maxSelectAttempts : Nat := 3

/-- What a `select` leaves in `errno`. -/
def SelectResult.errno (r : SelectResult) (errno : Errno) : Errno :=
  match r with
  | failed e => e
  | _ => errno

/-- The loop around `select`, with the attempts that are left; `differ` says that the sequence
numbers do. -/
def selectLoop (differ : Bool) (selects : Nat → SelectResult) : Nat → Nat → Errno → Bool × Errno
  | 0, attempt, errno => (selects attempt = .ready, (selects attempt).errno errno)
  | left + 1, attempt, errno =>
      if selects attempt ≠ .ready ∧ (selects attempt).errno errno = .eintr ∧ differ then
        selectLoop differ selects left (attempt + 1) ((selects attempt).errno errno)
      else (selects attempt = .ready, (selects attempt).errno errno)

/-- One turn of the loop: the datagram, or `errno` as it is when the next turn begins. -/
def udpTry (command response : List UInt8) (t : UdpTry) (errno : Errno) :
    Except Errno (List UInt8) :=
  let errno := t.sendErrno.getD errno
  if t.sent ≠ command.length then .error errno
  else
    let waited := selectLoop (decide (seqNo response ≠ seqNo command)) t.selects maxSelectAttempts
      0 errno
    if waited.1 then t.received else .error waited.2

/-! ## The command -/

/-- `recv` of a datagram into the buffer; what does not fit is lost. -/
def receiveInto (response datagram : List UInt8) : Int × List UInt8 :=
  let bytes := datagram.take response.length
  (bytes.length, bytes ++ response.drop bytes.length)

/-- The loop of `udp_command`, with the tries that are left. -/
def udpTries (command response : List UInt8) (tries : Nat → UdpTry) :
    Nat → Nat → Errno → Int × List UInt8
  | 0, _, _ => (-1, response)
  | left + 1, k, errno =>
      match udpTry command response (tries k) errno with
      | .error errno => udpTries command response tries left (k + 1) errno
      | .ok datagram => receiveInto response datagram

/-- `udp_command`: what it returns and the buffer for the response, of `resp_len` bytes. -/
def udpCommand (socket : Bool) (command response : List UInt8) (tries : Nat → UdpTry)
    (errno : Errno) : Int × List UInt8 :=
  if socket then udpTries command response tries udpRetryMax 0 errno else (-1, response)

/-- Where a response is returned, it carries the number of the command, and it fits. -/
def Paired (command response : List UInt8) (result : Int × List UInt8) : Prop :=
  0 < result.1 → seqNo result.2 = seqNo command ∧ result.1 ≤ response.length

/-- The first datagram that is received, in one of the tries that are left. -/
inductive ReceivedFirst (command response : List UInt8) (tries : Nat → UdpTry) :
    Nat → Nat → Errno → List UInt8 → Prop where
  | now {left k : Nat} {errno : Errno} {datagram : List UInt8} :
      udpTry command response (tries k) errno = .ok datagram →
      ReceivedFirst command response tries (left + 1) k errno datagram
  | later {left k : Nat} {errno errno' : Errno} {datagram : List UInt8} :
      udpTry command response (tries k) errno = .error errno' →
      ReceivedFirst command response tries left (k + 1) errno' datagram →
      ReceivedFirst command response tries (left + 1) k errno datagram

/-- The datagram has nothing that is kept, or the buffer has the number of the command when the
datagram lies over what was there. -/
def Answers (command response datagram : List UInt8) : Prop :=
  datagram.take response.length = [] ∨
    seqNo (receiveInto response datagram).2 = seqNo command

theorem not_pos_failed : ¬ (0 : Int) < -1 := by decide

theorem receiveInto_paired (command response datagram : List UInt8) :
    Paired command response (receiveInto response datagram) ↔
      Answers command response datagram := by
  have hfits : (receiveInto response datagram).1 ≤ response.length := by
    rw [receiveInto, List.length_take]
    omega
  have hpos : 0 < (receiveInto response datagram).1 ↔ datagram.take response.length ≠ [] := by
    rw [receiveInto, Int.natCast_pos, List.length_pos_iff]
  rw [Paired, hpos, Answers]
  constructor
  · intro h
    by_cases hnil : datagram.take response.length = []
    · exact .inl hnil
    · exact .inr (h hnil).1
  · rintro (hnil | hseq) hne
    · exact absurd hnil hne
    · exact ⟨hseq, hfits⟩

/-- Over the tries that are left. -/
theorem udpTries_paired (command response : List UInt8) (tries : Nat → UdpTry) (left k : Nat)
    (errno : Errno) :
    Paired command response (udpTries command response tries left k errno) ↔
      ∀ datagram, ReceivedFirst command response tries left k errno datagram →
        Answers command response datagram := by
  induction left generalizing k errno with
  | zero =>
      refine iff_of_true (fun h => absurd h not_pos_failed) fun datagram h => ?_
      cases h
  | succ left ih =>
      rw [udpTries]
      cases htry : udpTry command response (tries k) errno with
      | error errno' =>
          dsimp only
          rw [ih]
          constructor
          · intro h datagram hfirst
            cases hfirst with
            | now hnow => cases htry.symm.trans hnow
            | later hlater hrest =>
                obtain rfl := Except.error.inj (htry.symm.trans hlater)
                exact h datagram hrest
          · exact fun h datagram hfirst => h datagram (.later htry hfirst)
      | ok datagram =>
          dsimp only
          rw [receiveInto_paired]
          constructor
          · intro h other hfirst
            cases hfirst with
            | now hnow =>
                obtain rfl := Except.ok.inj (htry.symm.trans hnow)
                exact h
            | later hlater _ => cases htry.symm.trans hlater
          · exact fun h => h datagram (.now htry)

/-- A command and its response are paired just if the first datagram that is received answers the
command. -/
theorem udpCommand_paired_iff (socket : Bool) (command response : List UInt8)
    (tries : Nat → UdpTry) (errno : Errno) :
    Paired command response (udpCommand socket command response tries errno) ↔
      (socket = true → ∀ datagram,
        ReceivedFirst command response tries udpRetryMax 0 errno datagram →
          Answers command response datagram) := by
  rw [udpCommand]
  cases socket with
  | false => exact iff_of_true (fun h => absurd h not_pos_failed) fun h => absurd h Bool.false_ne_true
  | true =>
      rw [if_pos rfl, udpTries_paired]
      exact ⟨fun h _ => h, fun h => h rfl⟩

/-- A command with the number 2, and a late response to the one with the number 1. -/
def lateTry : UdpTry where
  sent := 16
  sendErrno := none
  selects _ := .ready
  received := .ok [66, 74, 78, 80, 130, 48, 0, 0, 0, 1, 0, 0, 0, 0, 0, 0]

def secondCommand : List UInt8 := [66, 74, 78, 80, 2, 48, 0, 0, 0, 2, 0, 0, 0, 0, 0, 0]

theorem not_paired_late :
    ¬ ∀ socket command response tries errno,
      Paired command response (udpCommand socket command response tries errno) := by
  intro h
  have hpaired := h true secondCommand (List.replicate 16 0) (fun _ => lateTry) .other
  exact absurd (hpaired (by decide)).1 (by decide)

end SaneBackends.Bjnp
