import SaneBackends.Lib.Result
import SaneBackends.Lib.TextBlock
import SaneBackends.Lib.TextStream
import SaneBackends.Pixma.BjnpIdentity
import SaneBackends.Saned.CheckHost
import SaneBackends.Saned.Numerals
/-!
# `pixma_bjnp.c`: addresses of scanners

`split_uri`, which cuts a URI at its separators, and `add_timeout_to_uri`, which puts the parts
together again. A string that is copied into an array has to fit there.
-/

namespace SaneBackends.Bjnp

open SaneBackends.Lib
open SaneBackends.Saned (Numeral NoDigit Sign decimalNumber cInt)

/-- `BJNP_METHOD_MAX`. -/
def methodMax : Nat := 16

/-- `BJNP_HOST_MAX`. -/
def hostMax : Nat := 128

/-- `BJNP_PORT_MAX`. -/
def portMax : Nat := 64

/-- `BJNP_ARGS_MAX`. -/
def argsMax : Nat := 128

/-- The size of `copy`. -/
def copyMax : Nat := 1024

/-- `://` -/
def methodEnd : List UInt8 := [58, 47, 47]

/-- `timeout=` -/
def timeoutKey : List UInt8 :=
  ['t', 'i', 'm', 'e', 'o', 'u', 't', '='].map fun c => UInt8.ofNat c.toNat

/-- `strcpy` into an array. -/
def strcpyInto (size : Nat) (text : List UInt8) : Except TextFault (List UInt8) :=
  if text.length < size then .ok text else .error .outOfBounds

/-! ## Cutting -/

/-- A part that was cut out, with the character behind it, which is gone, and what is left. -/
structure UriPart where
  text : List UInt8
  next : Option UInt8
  rest : List UInt8
  deriving DecidableEq, Repr

structure UriParts where
  method : List UInt8
  host : List UInt8
  port : List UInt8
  args : List UInt8
  deriving DecidableEq, Repr

def splitMethod (copy : List UInt8) : Except TextFault (Option UriPart) :=
  let i := (copy.takeWhile (· ≠ 58)).length
  if ¬ methodEnd <+: copy.drop i ∨ methodMax - 1 < i then .ok none
  else do
    let method ← strcpyInto methodMax (copy.take i)
    .ok (some ⟨method, some 58, copy.drop (i + 3)⟩)

/-- What a host without brackets goes on with. -/
def inHost (c : UInt8) : Bool := c ≠ 47 ∧ c ≠ 58

def splitHost (start : List UInt8) : Except TextFault (Option UriPart) :=
  if start.head? = some 91 then
    match firstIndex 93 start with
    | none => .ok none
    | some endOfAddress =>
        let next := (start.drop (endOfAddress + 1)).head?
        if next ≠ some 58 ∧ next ≠ some 47 ∧ next ≠ none ∨ hostMax ≤ endOfAddress then .ok none
        else do
          let host ← strcpyInto hostMax ((start.take endOfAddress).drop 1)
          .ok (some ⟨host, next, start.drop (endOfAddress + 2)⟩)
  else
    let i := (start.takeWhile inHost).length
    if i = 0 ∨ hostMax ≤ i then .ok none
    else do
      let host ← strcpyInto hostMax (start.take i)
      .ok (some ⟨host, (start.drop i).head?, start.drop (i + 1)⟩)

def splitPort (next : Option UInt8) (start : List UInt8) : Except TextFault (Option UriPart) :=
  if next ≠ some 58 then .ok (some ⟨[], next, start⟩)
  else
    let i := (start.takeWhile (· ≠ 47)).length
    if i = 0 ∨ portMax ≤ i then .ok none
    else do
      let port ← strcpyInto portMax (start.take i)
      .ok (some ⟨port, (start.drop i).head?, start.drop (i + 1)⟩)

def splitArgs (next : Option UInt8) (start : List UInt8) : Except TextFault (Option (List UInt8)) :=
  if next = some 47 then
    if argsMax ≤ start.length then .ok none
    else do
      let args ← strcpyInto argsMax start
      .ok (some args)
  else .ok (some [])

/-- `split_uri`; `none` is -1. -/
def splitUri (devname : List UInt8) : Except TextFault (Option UriParts) := do
  match ← splitMethod (devname.take (copyMax - 1)) with
  | none => .ok none
  | some method =>
    match ← splitHost method.rest with
    | none => .ok none
    | some host =>
      match ← splitPort host.next host.rest with
      | none => .ok none
      | some port =>
        match ← splitArgs port.next port.rest with
        | none => .ok none
        | some args => .ok (some ⟨method.text, host.text, port.text, args⟩)

/-! ## Joining -/

def atoi (str : List UInt8) : Int := ((decimalNumber str).map cInt).getD 0

/-- `get_protocol_by_method`, as far as the default port goes; 0 if there is none. -/
def defaultPort (method : List UInt8) : Int :=
  if method = ['b', 'j', 'n', 'p'].map (fun c => UInt8.ofNat c.toNat) then 8612
  else if method = ['m', 'f', 'n', 'p'].map (fun c => UInt8.ofNat c.toNat) then 8610
  else 0

/-- The port that is printed. -/
def printedPort (parts : UriParts) : Int :=
  if atoi parts.port = 0 then defaultPort parts.method else atoi parts.port

/-- The arguments that are printed. -/
def timeoutArgs (args : List UInt8) (timeout : BitVec 32) : List UInt8 :=
  if timeoutKey <:+: args then args else timeoutKey ++ writeSigned timeout.toInt

/-- `%s://%s:%d/%s` -/
def printUri (method host : List UInt8) (port : Int) (args : List UInt8) : List UInt8 :=
  method ++ methodEnd ++ (host ++ 58 :: (writeSigned port ++ 47 :: args))

/-- `snprintf`, of a text. -/
def snprintf (block : List UInt8) (n : Nat) (text : List UInt8) :
    Except TextFault (List UInt8) :=
  if n = 0 then .ok block else setBytes block 0 (text.take (n - 1) ++ [0])

/-- `add_timeout_to_uri`, for a buffer of `max_len` bytes. -/
def addTimeoutToUri (uri : List UInt8) (timeout : BitVec 32) :
    Except TextFault (Int × List UInt8) := do
  match ← splitUri (← stringAt uri 0) with
  | none => .ok (-1, uri)
  | some parts =>
    let args ←
      if timeoutKey <:+: parts.args then .ok parts.args
      else strcpyInto hostMax (timeoutArgs parts.args timeout)
    let uri ← snprintf uri (uri.length - 1)
      (printUri parts.method parts.host (printedPort parts) args)
    let uri ← setByte uri (uri.length - 1) 0
    .ok (0, uri)

/-! ## What is claimed -/

/-- The port that a connection is made to; the default if none is given. -/
def effectivePort (parts : UriParts) : Int :=
  if parts.port = [] then defaultPort parts.method else atoi parts.port

/-- The URI that shall result. -/
def timeoutUri (parts : UriParts) (timeout : BitVec 32) : List UInt8 :=
  printUri parts.method parts.host (printedPort parts) (timeoutArgs parts.args timeout)

/-- A buffer with a string. -/
structure UriBuffer where
  block : List UInt8
  terminated : 0 ∈ block

def UriBuffer.text (b : UriBuffer) : List UInt8 := b.block.takeWhile (· ≠ 0)

/-- Nothing is written outside of a buffer, and a URI that is accepted and fits with its timeout
results in one that is accepted with the same parts. -/
def UriKept (b : UriBuffer) (timeout : BitVec 32) : Prop :=
  ∃ split result, splitUri b.text = .ok split ∧ addTimeoutToUri b.block timeout = .ok result ∧
    result.2.length = b.block.length ∧
    ∀ parts, split = some parts → (timeoutUri parts timeout).length + 1 ≤ b.block.length →
      ∃ text parts', result.1 = 0 ∧ stringAt result.2 0 = .ok text ∧
        splitUri text = .ok (some parts') ∧ parts'.method = parts.method ∧
        parts'.host = parts.host ∧ effectivePort parts' = effectivePort parts ∧
        parts'.args = timeoutArgs parts.args timeout

/-- A host that is found again where it stands without brackets. -/
def PlainHost (host : List UInt8) : Prop :=
  host ≠ [] ∧ 58 ∉ host ∧ 47 ∉ host ∧ host.head? ≠ some 91

/-- No port is given, or its number is not zero, or the method has no default. -/
def PortKept (parts : UriParts) : Prop :=
  parts.port = [] ∨ atoi parts.port ≠ 0 ∨ defaultPort parts.method = 0

/-! ## The parts -/

section Parts

variable {method host port args copy start rest : List UInt8} {next : Option UInt8}

theorem strcpyInto_ok {size : Nat} {text : List UInt8} (h : text.length < size) :
    strcpyInto size text = .ok text := if_pos h

theorem take_takeWhile_length (p : UInt8 → Bool) (text : List UInt8) :
    text.take (text.takeWhile p).length = text.takeWhile p :=
  (List.prefix_iff_eq_take.mp (List.takeWhile_prefix p)).symm

/-- The method is in front of the first `://`, and short. -/
theorem splitMethod_cases (copy : List UInt8) :
    splitMethod copy = .ok none ∨
      ∃ method rest, splitMethod copy = .ok (some ⟨method, some 58, rest⟩) ∧
        copy = method ++ methodEnd ++ rest ∧ 58 ∉ method ∧ method.length < methodMax := by
  rw [splitMethod]
  by_cases h : ¬ methodEnd <+: copy.drop (copy.takeWhile (· ≠ 58)).length ∨
      methodMax - 1 < (copy.takeWhile (· ≠ 58)).length
  · exact .inl (if_pos h)
  · have hmax : methodMax = 16 := rfl
    obtain ⟨hend, hlength⟩ := not_or.mp h
    obtain ⟨rest, hrest⟩ := not_not.mp hend
    have hshort : (copy.takeWhile (· ≠ 58)).length < methodMax := by omega
    refine .inr ⟨copy.takeWhile (· ≠ 58), copy.drop ((copy.takeWhile (· ≠ 58)).length + 3), ?_,
      ?_, fun hmem => ?_, hshort⟩
    · rw [if_neg h, take_takeWhile_length, strcpyInto_ok hshort, ok_bind]
    · rw [← List.drop_drop, ← hrest, List.append_assoc,
        show (methodEnd ++ rest).drop 3 = rest from rfl, hrest, ← take_takeWhile_length,
        List.length_take_of_le (List.takeWhile_prefix _).length_le, List.take_append_drop]
    · have hne := List.mem_takeWhile_imp hmem
      exact absurd rfl (of_decide_eq_true hne)

theorem splitMethod_append (hcolon : 58 ∉ method) (hlength : method.length < methodMax)
    (rest : List UInt8) :
    splitMethod (method ++ methodEnd ++ rest) = .ok (some ⟨method, some 58, rest⟩) := by
  have hmax : methodMax = 16 := rfl
  have htake : (method ++ methodEnd ++ rest).takeWhile (· ≠ 58) = method := by
    rw [List.append_assoc]
    exact takeWhile_ne hcolon
  have hdrop : (method ++ methodEnd ++ rest).drop method.length = methodEnd ++ rest := by
    rw [List.append_assoc, List.drop_left]
  have hfound : ¬ (¬ methodEnd <+: methodEnd ++ rest ∨ methodMax - 1 < method.length) := by
    rw [not_or, not_not]
    exact ⟨List.prefix_append _ _, by omega⟩
  rw [splitMethod, htake, hdrop, if_neg hfound, List.append_assoc, List.take_left,
    strcpyInto_ok hlength, ok_bind, ← List.drop_drop, List.drop_left]
  rfl

theorem splitHost_cases (start : List UInt8) :
    splitHost start = .ok none ∨
      ∃ host next rest, splitHost start = .ok (some ⟨host, next, rest⟩) ∧
        host.length < hostMax ∧ (PlainHost host ∨ 93 ∉ host) ∧ (∀ c ∈ host, c ∈ start) ∧
        rest <:+ start := by
  rw [splitHost]
  by_cases hbracket : start.head? = some 91
  · rw [if_pos hbracket]
    cases hend : firstIndex 93 start with
    | none => exact .inl rfl
    | some n =>
        dsimp only
        split_ifs with hbad
        · exact .inl rfl
        · obtain ⟨-, hlength⟩ := not_or.mp hbad
          have hle : ((start.take n).drop 1).length < hostMax := by
            rw [List.length_drop, List.length_take]
            omega
          refine .inr ⟨(start.take n).drop 1, (start.drop (n + 1)).head?, start.drop (n + 2), ?_, hle,
            .inr ?_, fun c hc => List.mem_of_mem_take (List.mem_of_mem_drop hc),
            List.drop_suffix _ _⟩
          · rw [strcpyInto_ok hle, ok_bind]
          · intro hmem
            have hmem := List.mem_of_mem_drop hmem
            rw [firstIndex] at hend
            split_ifs at hend
            rw [← Option.some.inj hend, take_takeWhile_length] at hmem
            have hne := List.mem_takeWhile_imp hmem
            exact absurd rfl (of_decide_eq_true hne)
  · rw [if_neg hbracket]
    dsimp only
    split_ifs with hbad
    · exact .inl rfl
    · obtain ⟨hne, hlength⟩ := not_or.mp hbad
      have hle : (start.takeWhile inHost).length < hostMax :=
        Nat.lt_of_not_le hlength
      refine .inr ⟨start.takeWhile inHost, (start.drop (start.takeWhile inHost).length).head?,
        start.drop ((start.takeWhile inHost).length + 1), ?_, hle, .inl ?_,
        fun c hc => (List.takeWhile_prefix _).subset hc, List.drop_suffix _ _⟩
      · rw [take_takeWhile_length, strcpyInto_ok hle, ok_bind]
      · have hplain : ∀ c ∈ start.takeWhile inHost, c ≠ 47 ∧ c ≠ 58 := by
          intro c hc
          have hin : inHost c = true := List.mem_takeWhile_imp hc
          exact of_decide_eq_true hin
        refine ⟨fun hnil => hne (congrArg List.length hnil), fun hc => (hplain 58 hc).2 rfl,
          fun hc => (hplain 47 hc).1 rfl, fun hhead => hbracket ?_⟩
        obtain ⟨after, hafter⟩ :=
          List.takeWhile_prefix inHost (l := start)
        rw [← hafter, List.head?_append, hhead]
        rfl

/-- A plain host is found in front of the colon. -/
theorem splitHost_plain (hplain : PlainHost host) (hlength : host.length < hostMax)
    (rest : List UInt8) :
    splitHost (host ++ 58 :: rest) = .ok (some ⟨host, some 58, rest⟩) := by
  obtain ⟨hne, hcolon, hslash, hhead⟩ := hplain
  have hstart : (host ++ 58 :: rest).head? ≠ some 91 := by
    obtain ⟨c, cs, rfl⟩ := List.exists_cons_of_ne_nil hne
    exact hhead
  have htake : (host ++ 58 :: rest).takeWhile inHost = host := by
    have hall : ∀ c ∈ host, inHost c = true := fun c hc =>
      decide_eq_true ⟨fun h => hslash (h ▸ hc), fun h => hcolon (h ▸ hc)⟩
    rw [List.takeWhile_append_of_pos hall, List.takeWhile_cons_of_neg (by decide),
      List.append_nil]
  have hok : ¬ (host.length = 0 ∨ hostMax ≤ host.length) :=
    not_or.mpr ⟨fun h => hne (List.eq_nil_of_length_eq_zero h), Nat.not_le.mpr hlength⟩
  rw [splitHost, if_neg hstart, htake]
  dsimp only
  rw [if_neg hok, List.take_left, strcpyInto_ok hlength, ok_bind, List.drop_left,
    ← List.drop_drop, List.drop_left]
  rfl

/-- The text in front of the first character that a host ends with, where there is one in it. -/
theorem takeWhile_length_lt {p : UInt8 → Bool} {text : List UInt8} {c : UInt8} (hc : c ∈ text)
    (hp : p c = false) (rest : List UInt8) :
    ((text ++ rest).takeWhile p).length < text.length := by
  obtain ⟨before, behind, rfl⟩ := List.append_of_mem hc
  have hle : ((before ++ c :: behind ++ rest).takeWhile p).length ≤ before.length := by
    induction before with
    | nil =>
        rw [List.nil_append, List.cons_append, List.takeWhile_cons_of_neg (by rw [hp]; decide)]
    | cons b before ih =>
        rw [List.cons_append, List.cons_append, List.takeWhile_cons]
        split_ifs
        · exact Nat.succ_le_succ (ih (List.mem_append_right _ List.mem_cons_self))
        · exact Nat.zero_le _
  rw [List.length_append, List.length_cons]
  omega

/-- Another host is not found again. -/
theorem splitHost_not_plain (hplain : ¬ PlainHost host) (hbracket : 93 ∉ host)
    (rest : List UInt8) {part : UriPart}
    (h : splitHost (host ++ 58 :: rest) = .ok (some part)) : part.text ≠ host := by
  rw [splitHost] at h
  by_cases hhead : (host ++ 58 :: rest).head? = some 91
  · rw [if_pos hhead] at h
    obtain ⟨c, cs, rfl⟩ : ∃ c cs, host = c :: cs := by
      cases host with
      | nil => cases hhead
      | cons c cs => exact ⟨c, cs, rfl⟩
    obtain rfl : c = 91 := Option.some.inj hhead
    cases hend : firstIndex 93 (91 :: cs ++ 58 :: rest) with
    | none =>
        rw [hend] at h
        cases h
    | some n =>
        rw [hend] at h
        dsimp only at h
        split_ifs at h
        · cases h
        obtain ⟨text, htext, h⟩ := bind_eq_ok.mp h
        have hpart := Option.some.inj (Except.ok.inj h)
        have hcopied : text = ((91 :: cs ++ 58 :: rest).take n).drop 1 := by
          rw [strcpyInto] at htext
          split_ifs at htext
          exact (Except.ok.inj htext).symm
        rw [← hpart]
        dsimp only
        rw [hcopied]
        intro hsame
        -- the bracket is behind the colon, so the colon is in what is found
        have hlt : (91 :: cs).length < n := by
          rw [firstIndex] at hend
          split_ifs at hend
          have hlong : (91 :: cs ++ 58 :: rest).takeWhile (· ≠ 93) =
              91 :: cs ++ 58 :: rest.takeWhile (· ≠ 93) := by
            rw [List.takeWhile_append_of_pos (forall_ne hbracket),
              List.takeWhile_cons_of_pos (by decide)]
          have hn := Option.some.inj hend
          rw [hlong] at hn
          simp only [List.length_append, List.length_cons] at hn ⊢
          omega
        have htake : (91 :: cs ++ 58 :: rest).take n =
            91 :: cs ++ (58 :: rest).take (n - (91 :: cs).length) := by
          rw [List.take_append, List.take_of_length_le hlt.le]
        rw [htake, List.cons_append, List.drop_one, List.tail_cons,
          show n - (91 :: cs).length = n - (91 :: cs).length - 1 + 1 by omega,
          List.take_succ_cons] at hsame
        have hlength := congrArg List.length hsame
        have hnil : rest.take (n - (91 :: cs).length - 1) = [] := by
          apply List.eq_nil_of_length_eq_zero
          simp only [List.length_append, List.length_cons] at hlength ⊢
          omega
        rw [hnil] at hsame
        have hcount := congrArg (List.count 91) hsame
        rw [List.count_append, List.count_singleton, List.count_cons_self] at hcount
        exact absurd hcount (Nat.ne_of_lt (Nat.lt_succ_self _))
  · rw [if_neg hhead] at h
    dsimp only at h
    split_ifs at h with hbad
    · cases h
    obtain ⟨text, htext, h⟩ := bind_eq_ok.mp h
    have hpart := Option.some.inj (Except.ok.inj h)
    have hcopied : text = (host ++ 58 :: rest).takeWhile inHost := by
      rw [strcpyInto] at htext
      split_ifs at htext
      rw [← Except.ok.inj htext, take_takeWhile_length]
    rw [← hpart]
    dsimp only
    rw [hcopied]
    intro hsame
    have hlength := congrArg List.length hsame
    have hne : host ≠ [] := by
      rintro rfl
      exact hbad (.inl hlength)
    have hnot91 : host.head? ≠ some 91 := by
      intro h91
      rw [List.head?_append, h91] at hhead
      exact hhead rfl
    have hsome : 58 ∈ host ∨ 47 ∈ host := by
      by_contra hnone
      obtain ⟨hcolon, hslash⟩ := not_or.mp hnone
      exact hplain ⟨hne, hcolon, hslash, hnot91⟩
    rcases hsome with hmem | hmem
    · exact absurd hlength (Nat.ne_of_lt (takeWhile_length_lt hmem rfl _))
    · exact absurd hlength (Nat.ne_of_lt (takeWhile_length_lt hmem rfl _))

theorem splitPort_cases (next : Option UInt8) (start : List UInt8) :
    splitPort next start = .ok none ∨
      ∃ port next' rest, splitPort next start = .ok (some ⟨port, next', rest⟩) ∧
        rest <:+ start := by
  rw [splitPort]
  split_ifs with hnext
  · exact .inr ⟨[], next, start, rfl, List.suffix_refl _⟩
  · dsimp only
    split_ifs with hbad
    · exact .inl rfl
    · obtain ⟨-, hlength⟩ := not_or.mp hbad
      refine .inr ⟨start.takeWhile (· ≠ 47), (start.drop (start.takeWhile (· ≠ 47)).length).head?,
        start.drop ((start.takeWhile (· ≠ 47)).length + 1), ?_, List.drop_suffix _ _⟩
      rw [take_takeWhile_length, strcpyInto_ok (Nat.lt_of_not_le hlength), ok_bind]

theorem splitPort_append (hne : port ≠ []) (hslash : 47 ∉ port) (hlength : port.length < portMax)
    (rest : List UInt8) :
    splitPort (some 58) (port ++ 47 :: rest) = .ok (some ⟨port, some 47, rest⟩) := by
  have hok : ¬ (port.length = 0 ∨ portMax ≤ port.length) :=
    not_or.mpr ⟨fun h => hne (List.eq_nil_of_length_eq_zero h), Nat.not_le.mpr hlength⟩
  rw [splitPort, if_neg (fun h => h rfl), takeWhile_ne hslash]
  dsimp only
  rw [if_neg hok, List.take_left, strcpyInto_ok hlength, ok_bind, List.drop_left,
    ← List.drop_drop, List.drop_left]
  rfl

theorem splitArgs_cases (next : Option UInt8) (start : List UInt8) :
    splitArgs next start = .ok none ∨
      ∃ args, splitArgs next start = .ok (some args) ∧ args.length < argsMax ∧
        ∀ c ∈ args, c ∈ start := by
  rw [splitArgs]
  split_ifs with hnext hlong
  · exact .inl rfl
  · have hlength := Nat.lt_of_not_le hlong
    exact .inr ⟨start, by rw [strcpyInto_ok hlength, ok_bind], hlength, fun _ hc => hc⟩
  · exact .inr ⟨[], rfl, by decide, fun _ hc => absurd hc List.not_mem_nil⟩

theorem splitArgs_slash (hlength : args.length < argsMax) :
    splitArgs (some 47) args = .ok (some args) := by
  rw [splitArgs, if_pos rfl, if_neg (Nat.not_le.mpr hlength), strcpyInto_ok hlength, ok_bind]

end Parts

/-! ## The whole URI -/

/-- No copy is too long for its array, and what is accepted has short parts. -/
theorem splitUri_cases (devname : List UInt8) :
    splitUri devname = .ok none ∨
      ∃ parts, splitUri devname = .ok (some parts) ∧ 58 ∉ parts.method ∧
        parts.method.length < methodMax ∧ parts.host.length < hostMax ∧
        (PlainHost parts.host ∨ 93 ∉ parts.host) ∧ parts.args.length < argsMax ∧
        ∀ c ∈ parts.method ++ parts.host ++ parts.args, c ∈ devname := by
  rw [splitUri]
  rcases splitMethod_cases (devname.take (copyMax - 1)) with hmethod |
    ⟨method, start, hmethod, hcopy, hcolon, hmethodLength⟩
  · exact .inl (by rw [hmethod]; rfl)
  rw [hmethod, ok_bind]
  dsimp only
  rcases splitHost_cases start with hhost |
    ⟨host, next, hostRest, hhost, hhostLength, hplain, hhostMem, hhostRest⟩
  · exact .inl (by rw [hhost]; rfl)
  rw [hhost, ok_bind]
  dsimp only
  rcases splitPort_cases next hostRest with hport | ⟨port, next', portRest, hport, hportRest⟩
  · exact .inl (by rw [hport]; rfl)
  rw [hport, ok_bind]
  dsimp only
  rcases splitArgs_cases next' portRest with hargs | ⟨args, hargs, hargsLength, hargsMem⟩
  · exact .inl (by rw [hargs]; rfl)
  have hstart : ∀ c ∈ start, c ∈ devname := fun c hc =>
    List.mem_of_mem_take (hcopy ▸ List.mem_append_right _ hc)
  refine .inr ⟨⟨method, host, port, args⟩, by rw [hargs]; rfl, hcolon, hmethodLength, hhostLength,
    hplain, hargsLength, fun c hc => ?_⟩
  rcases List.mem_append.mp hc with hc | hc
  · rcases List.mem_append.mp hc with hc | hc
    · exact List.mem_of_mem_take
        (hcopy ▸ List.mem_append_left _ (List.mem_append_left _ hc))
    · exact hstart c (hhostMem c hc)
  · exact hstart c (hhostRest.subset (hportRest.subset (hargsMem c hc)))

section Joined

variable {method host port args : List UInt8}

/-- Parts that are put together are found again, where the host is plain. -/
theorem splitUri_joined (hcolon : 58 ∉ method) (hmethod : method.length < methodMax)
    (hplain : PlainHost host) (hhost : host.length < hostMax) (hne : port ≠ [])
    (hslash : 47 ∉ port) (hport : port.length < portMax) (hargs : args.length < argsMax) :
    splitUri (method ++ methodEnd ++ (host ++ 58 :: (port ++ 47 :: args))) =
      .ok (some ⟨method, host, port, args⟩) := by
  have hshort : (method ++ methodEnd ++ (host ++ 58 :: (port ++ 47 :: args))).length ≤
      copyMax - 1 := by
    simp only [List.length_append, List.length_cons, methodEnd, List.length_nil]
    simp only [methodMax, hostMax, portMax, argsMax, copyMax] at *
    omega
  rw [splitUri, List.take_of_length_le hshort, splitMethod_append hcolon hmethod, ok_bind]
  dsimp only
  rw [splitHost_plain hplain hhost, ok_bind]
  dsimp only
  rw [splitPort_append hne hslash hport, ok_bind]
  dsimp only
  rw [splitArgs_slash hargs, ok_bind]

/-- With another host, another one is found. -/
theorem splitUri_not_plain (hcolon : 58 ∉ method) (hmethod : method.length < methodMax)
    (hplain : ¬ PlainHost host) (hbracket : 93 ∉ host) {tail : List UInt8}
    (hshort : (method ++ methodEnd ++ (host ++ 58 :: tail)).length ≤ copyMax - 1)
    {parts : UriParts}
    (h : splitUri (method ++ methodEnd ++ (host ++ 58 :: tail)) = .ok (some parts)) :
    parts.host ≠ host := by
  rw [splitUri, List.take_of_length_le hshort, splitMethod_append hcolon hmethod, ok_bind] at h
  dsimp only at h
  obtain ⟨hostPart, hhost, h⟩ := bind_eq_ok.mp h
  cases hostPart with
  | none => cases h
  | some hostPart =>
      dsimp only at h
      obtain ⟨portPart, -, h⟩ := bind_eq_ok.mp h
      cases portPart with
      | none => cases h
      | some portPart =>
          dsimp only at h
          obtain ⟨args, -, h⟩ := bind_eq_ok.mp h
          cases args with
          | none => cases h
          | some args =>
              rw [← Option.some.inj (Except.ok.inj h)]
              exact splitHost_not_plain hplain hbracket tail hhost

end Joined

/-! ## Ports -/

section Numbers

variable {n : Int}

/-- The printed number, as a numeral. -/
def intNumeral (n : Int) : Numeral where
  sign := if n < 0 then .minus else .absent
  digits := decimal n.natAbs
  digits_ne_nil := decimal_ne_nil _
  digit_of_mem := fun _ hc => digit_of_mem_decimal hc

theorem intNumeral_text (n : Int) : (intNumeral n).text = writeSigned n := by
  rw [writeSigned, Numeral.text, intNumeral]
  split_ifs <;> rfl

theorem intNumeral_value (n : Int) : (intNumeral n).value = n := by
  rw [Numeral.value, intNumeral]
  dsimp only
  rw [decimalFold_decimal]
  split_ifs with hneg
  · change -((n.natAbs : Nat) : Int) = n
    omega
  · change ((n.natAbs : Nat) : Int) = n
    omega

theorem atoi_writeSigned (hlo : -2 ^ 31 ≤ n) (hhi : n < 2 ^ 31) : atoi (writeSigned n) = n := by
  have hend : NoDigit [] := fun _ hc => by cases hc
  have hread := (intNumeral n).decimalNumber_text hend
  rw [List.append_nil, intNumeral_text, intNumeral_value] at hread
  have hclamp : max (-2 ^ 63) (min (2 ^ 63 - 1) n) = n := by omega
  rw [atoi, hread, Option.map_some, Option.getD_some, cInt, hclamp, toInt32_eq_self hlo hhi]

theorem writeSigned_ne_nil (n : Int) : writeSigned n ≠ [] := by
  rw [writeSigned]
  split_ifs
  · exact List.cons_ne_nil _ _
  · exact decimal_ne_nil _

theorem writeSigned_mem {c : UInt8} (hc : c ∈ writeSigned n) : c ≠ 0 ∧ c ≠ 47 := by
  have hdigit : ∀ d ∈ decimal n.natAbs, d ≠ 0 ∧ d ≠ 47 := fun d hd => by
    have hlo := UInt8.le_iff_toNat_le.mp (digit_of_mem_decimal hd).1
    constructor
    · rintro rfl
      exact absurd hlo (by decide)
    · rintro rfl
      exact absurd hlo (by decide)
  rw [writeSigned] at hc
  split_ifs at hc
  · rcases List.mem_cons.mp hc with rfl | hc
    · decide
    · exact hdigit c hc
  · exact hdigit c hc

theorem writeSigned_length (hlo : -2 ^ 31 ≤ n) (hhi : n < 2 ^ 31) :
    (writeSigned n).length ≤ 11 := by
  have hdigits := length_decimal_le (show 0 < 10 by decide)
    (show n.natAbs < 10 ^ 10 by omega)
  rw [writeSigned]
  split_ifs
  · rw [List.length_cons]
    omega
  · omega

theorem printedPort_bounds (parts : UriParts) :
    -2 ^ 31 ≤ printedPort parts ∧ printedPort parts < 2 ^ 31 := by
  have hatoi : -2 ^ 31 ≤ atoi parts.port ∧ atoi parts.port < 2 ^ 31 := by
    rw [atoi]
    cases decimalNumber parts.port with
    | none => decide
    | some m => exact ⟨le_toInt32 _, toInt32_lt _⟩
  have hdefault : -2 ^ 31 ≤ defaultPort parts.method ∧ defaultPort parts.method < 2 ^ 31 := by
    rw [defaultPort]
    split_ifs <;> decide
  rw [printedPort]
  split_ifs
  · exact hdefault
  · exact hatoi

/-- The printed port is the effective one just where the port is kept. -/
theorem atoi_printedPort (parts : UriParts) :
    atoi (writeSigned (printedPort parts)) = effectivePort parts ↔ PortKept parts := by
  obtain ⟨hlo, hhi⟩ := printedPort_bounds parts
  have hempty : parts.port = [] → atoi parts.port = 0 := fun h => by rw [h]; rfl
  rw [atoi_writeSigned hlo hhi, printedPort, effectivePort, PortKept]
  by_cases hport : parts.port = []
  · rw [if_pos (hempty hport), if_pos hport]
    exact iff_of_true rfl (.inl hport)
  rw [if_neg hport]
  by_cases hzero : atoi parts.port = 0
  · rw [if_pos hzero, hzero]
    constructor
    · exact fun h => .inr (.inr h)
    · rintro (h | h | h)
      · exact absurd h hport
      · exact absurd rfl h
      · exact h
  · rw [if_neg hzero]
    exact iff_of_true rfl (.inr (.inl hzero))

end Numbers

/-! ## Arguments -/

theorem timeoutArgs_length_of_not {args : List UInt8} (h : ¬ timeoutKey <:+: args)
    (timeout : BitVec 32) : (timeoutArgs args timeout).length < hostMax := by
  have hlo : -2 ^ 31 ≤ timeout.toInt := BitVec.le_toInt timeout
  have hhi : timeout.toInt < 2 ^ 31 := BitVec.toInt_lt
  have hnumber := writeSigned_length hlo hhi
  have hkey : timeoutKey.length = 8 := rfl
  rw [timeoutArgs, if_neg h, List.length_append, hkey, hostMax]
  omega

/-! ## The buffer -/

theorem UriBuffer.stringAt_text (b : UriBuffer) : stringAt b.block 0 = .ok b.text := if_pos b.terminated

/-- A text that is printed into a buffer, up to the last byte but one. -/
theorem snprintf_setByte {block text : List UInt8} (hblock : block ≠ []) (htext : 0 ∉ text) :
    ∃ printed result, snprintf block (block.length - 1) text = .ok printed ∧
      setByte printed (printed.length - 1) 0 = .ok result ∧ result.length = block.length ∧
      stringAt result 0 = .ok (text.take (block.length - 2)) := by
  have hpos := List.length_pos_iff.mpr hblock
  by_cases hone : block.length - 1 = 0
  · have hlast : block.length - 1 < block.length := by omega
    refine ⟨block, block.set (block.length - 1) 0, if_pos hone, setByte_ok hlast 0,
      List.length_set, ?_⟩
    obtain ⟨b, rfl⟩ := List.length_eq_one_iff.mp (show block.length = 1 by omega)
    exact stringAt_append List.not_mem_nil [] []
  · have hshort : (text.take (block.length - 2)).length ≤ block.length - 2 :=
      List.length_take_le _ _
    have hzero : (0 : UInt8) ∉ text.take (block.length - 2) := fun h =>
      htext (List.mem_of_mem_take h)
    have hsub : block.length - 1 - 1 = block.length - 2 := by omega
    rw [snprintf, if_neg hone, hsub]
    generalize text.take (block.length - 2) = shown at hshort hzero ⊢
    have hfits : 0 + (shown ++ [0]).length ≤ block.length := by
      rw [List.length_append, List.length_singleton]
      omega
    have hprinted : setBytes block 0 (shown ++ [0]) =
        .ok (shown ++ [0] ++ block.drop (0 + (shown ++ [0]).length)) := by
      rw [setBytes, if_pos hfits, List.take_zero, List.nil_append]
    have hlength : (shown ++ [(0 : UInt8)] ++ block.drop (0 + (shown ++ [0]).length)).length =
        block.length := by
      rw [List.length_append, List.length_drop]
      omega
    refine ⟨_, _, hprinted, setByte_ok (by omega) 0, ?_, ?_⟩
    · rw [List.length_set, hlength]
    · rw [hlength, List.set_append_right _ _ (by
        rw [List.length_append, List.length_singleton]
        omega), List.append_assoc]
      exact stringAt_append hzero [] _

/-- The new URI is printed as far as the buffer goes. -/
theorem addTimeoutToUri_accepted {b : UriBuffer} {timeout : BitVec 32} {parts : UriParts}
    (hsplit : splitUri b.text = .ok (some parts))
    (hmem : ∀ c ∈ parts.method ++ parts.host ++ parts.args, c ∈ b.text) :
    ∃ result, addTimeoutToUri b.block timeout = .ok (0, result) ∧
      result.length = b.block.length ∧
      stringAt result 0 = .ok ((timeoutUri parts timeout).take (b.block.length - 2)) := by
  have hzero : 0 ∉ timeoutUri parts timeout := by
    have htext : (0 : UInt8) ∉ b.text := fun h => by
      have hne := List.mem_takeWhile_imp h
      exact absurd rfl (of_decide_eq_true hne)
    have hparts : (0 : UInt8) ∉ parts.method ++ parts.host ++ parts.args := fun h =>
      htext (hmem 0 h)
    simp only [List.mem_append, not_or] at hparts
    have hargs : (0 : UInt8) ∉ timeoutArgs parts.args timeout := by
      rw [timeoutArgs]
      split_ifs
      · exact hparts.2
      · intro h
        rcases List.mem_append.mp h with h | h
        · exact absurd h (by decide)
        · exact (writeSigned_mem h).1 rfl
    intro h
    simp only [timeoutUri, printUri, List.mem_append, List.mem_cons] at h
    rcases h with (h | h) | h | h | h | h | h
    · exact hparts.1.1 h
    · exact absurd h (by decide)
    · exact hparts.1.2 h
    · cases h
    · exact (writeSigned_mem h).1 rfl
    · cases h
    · exact hargs h
  have hblock : b.block ≠ [] := by
    intro h
    have hterminated := b.terminated
    rw [h] at hterminated
    cases hterminated
  obtain ⟨printed, result, hprint, hend, hlength, hresult⟩ := snprintf_setByte hblock hzero
  refine ⟨result, ?_, hlength, hresult⟩
  rw [addTimeoutToUri, b.stringAt_text, ok_bind, hsplit, ok_bind]
  dsimp only
  by_cases hkey : timeoutKey <:+: parts.args
  · have huri : printUri parts.method parts.host (printedPort parts) parts.args =
        timeoutUri parts timeout := by
      rw [timeoutUri, timeoutArgs, if_pos hkey]
    rw [if_pos hkey, ok_bind, huri, hprint, ok_bind, hend, ok_bind]
  · rw [if_neg hkey, strcpyInto_ok (timeoutArgs_length_of_not hkey timeout), ok_bind]
    change (snprintf b.block (b.block.length - 1) (timeoutUri parts timeout) >>= _) = _
    rw [hprint, ok_bind, hend, ok_bind]

/-! ## Both parts -/

section Kept

variable {parts : UriParts} {timeout : BitVec 32}

theorem timeoutArgs_ne_nil (args : List UInt8) (timeout : BitVec 32) :
    timeoutArgs args timeout ≠ [] := by
  rw [timeoutArgs]
  split_ifs with hkey
  · rintro rfl
    exact absurd (List.infix_nil.mp hkey) (by decide)
  · exact List.append_ne_nil_of_left_ne_nil (by decide) _

theorem timeoutArgs_length {args : List UInt8} (h : args.length < argsMax) (timeout : BitVec 32) :
    (timeoutArgs args timeout).length < argsMax := by
  by_cases hkey : timeoutKey <:+: args
  · rw [timeoutArgs, if_pos hkey]
    exact h
  · exact timeoutArgs_length_of_not hkey timeout

/-- What is shown of a URI that fits is all of it, or all but the last character. -/
theorem timeoutUri_take {size : Nat} (hfits : (timeoutUri parts timeout).length + 1 ≤ size) :
    ∃ args, (timeoutUri parts timeout).take (size - 2) =
        printUri parts.method parts.host (printedPort parts) args ∧
      args.length ≤ (timeoutArgs parts.args timeout).length ∧
      (args = timeoutArgs parts.args timeout ↔ (timeoutUri parts timeout).length + 2 ≤ size) := by
  have hne := timeoutArgs_ne_nil parts.args timeout
  by_cases hall : (timeoutUri parts timeout).length + 2 ≤ size
  · refine ⟨timeoutArgs parts.args timeout, List.take_of_length_le (by omega), Nat.le_refl _,
      iff_of_true rfl hall⟩
  · have hlast : size - 2 = (timeoutUri parts timeout).length - 1 := by omega
    refine ⟨(timeoutArgs parts.args timeout).dropLast, ?_, ?_, iff_of_false (fun h => ?_) hall⟩
    · rw [hlast, ← List.dropLast_eq_take, timeoutUri, printUri, printUri,
        List.dropLast_append_of_ne_nil (List.append_ne_nil_of_right_ne_nil _
          (List.cons_ne_nil _ _)),
        List.dropLast_append_of_ne_nil (List.cons_ne_nil _ _),
        List.dropLast_cons_of_ne_nil (List.append_ne_nil_of_right_ne_nil _
          (List.cons_ne_nil _ _)),
        List.dropLast_append_of_ne_nil (List.cons_ne_nil _ _), List.dropLast_cons_of_ne_nil hne]
    · rw [List.length_dropLast]
      exact Nat.sub_le _ _
    · have hlength := congrArg List.length h
      have hpos := List.length_pos_iff.mpr hne
      rw [List.length_dropLast] at hlength
      omega

theorem splitUri_printUri (hcolon : 58 ∉ parts.method) (hmethod : parts.method.length < methodMax)
    (hplain : PlainHost parts.host) (hhost : parts.host.length < hostMax) {args : List UInt8}
    (hargs : args.length < argsMax) :
    splitUri (printUri parts.method parts.host (printedPort parts) args) =
      .ok (some ⟨parts.method, parts.host, writeSigned (printedPort parts), args⟩) := by
  obtain ⟨hlo, hhi⟩ := printedPort_bounds parts
  have hport : (writeSigned (printedPort parts)).length < portMax :=
    (writeSigned_length hlo hhi).trans_lt (by decide)
  exact splitUri_joined hcolon hmethod hplain hhost (writeSigned_ne_nil _)
    (fun h => (writeSigned_mem h).2 rfl) hport hargs

/-- A URI is kept just if, where it is accepted and fits with its timeout, its host is plain, its
port is no zero, and the buffer has one more byte. -/
theorem uriKept_iff (b : UriBuffer) (timeout : BitVec 32) :
    UriKept b timeout ↔
      ∀ parts, splitUri b.text = .ok (some parts) →
        (timeoutUri parts timeout).length + 1 ≤ b.block.length →
        PlainHost parts.host ∧ PortKept parts ∧
          (timeoutUri parts timeout).length + 2 ≤ b.block.length := by
  rcases splitUri_cases b.text with hnone |
    ⟨parts, hsplit, hcolon, hmethod, hhost, hbracket, hargs, hmem⟩
  · refine iff_of_true ⟨none, (-1, b.block), hnone, ?_, rfl, fun _ h => by cases h⟩
      fun parts h => by cases hnone.symm.trans h
    rw [addTimeoutToUri, b.stringAt_text, ok_bind, hnone]
    rfl
  obtain ⟨result, hrun, hlength, hshown⟩ := @addTimeoutToUri_accepted b timeout parts hsplit hmem
  have hargs' := timeoutArgs_length hargs timeout
  constructor
  · rintro ⟨split, result', hsplit', hrun', -, hkept⟩ parts' hparts' hfits
    obtain rfl := Option.some.inj (Except.ok.inj (hsplit.symm.trans hparts'))
    obtain ⟨args, htake, hargsLe, hargsAll⟩ := timeoutUri_take hfits
    obtain ⟨text, found, -, htext, hfound, -, hfoundHost, hfoundPort, hfoundArgs⟩ :=
      hkept parts (Except.ok.inj (hsplit'.symm.trans hsplit)) hfits
    obtain rfl := Except.ok.inj (hrun.symm.trans hrun')
    obtain rfl := Except.ok.inj (hshown.symm.trans htext)
    rw [htake] at hfound
    have hplain : PlainHost parts.host := by
      by_contra hnot
      have hshort : (printUri parts.method parts.host (printedPort parts) args).length ≤
          copyMax - 1 := by
        obtain ⟨hlo, hhi⟩ := printedPort_bounds parts
        have hport := writeSigned_length hlo hhi
        simp only [printUri, List.length_append, List.length_cons, methodEnd, List.length_nil]
        simp only [methodMax, hostMax, argsMax, copyMax] at *
        omega
      exact splitUri_not_plain hcolon hmethod hnot (hbracket.resolve_left hnot) hshort hfound
        hfoundHost
    rw [splitUri_printUri hcolon hmethod hplain hhost (hargsLe.trans_lt hargs')] at hfound
    have hparts := Option.some.inj (Except.ok.inj hfound)
    rw [← hparts] at hfoundPort hfoundArgs
    refine ⟨hplain, (atoi_printedPort parts).mp ?_, hargsAll.mp hfoundArgs⟩
    rw [← hfoundPort, effectivePort, if_neg (writeSigned_ne_nil _)]
  · intro h
    refine ⟨some parts, (0, result), hsplit, hrun, hlength, fun parts' hparts' hfits => ?_⟩
    obtain rfl := Option.some.inj hparts'
    obtain ⟨hplain, hport, hall⟩ := h parts hsplit hfits
    rw [List.take_of_length_le (by omega)] at hshown
    refine ⟨_, _, rfl, hshown, splitUri_printUri hcolon hmethod hplain hhost hargs', rfl, rfl, ?_,
      rfl⟩
    rw [← atoi_printedPort parts] at hport
    rw [← hport, effectivePort, if_neg (writeSigned_ne_nil _)]

end Kept

/-- `bjnp://[::1]`, in a buffer of 64 bytes. -/
def bracketedUri : List UInt8 :=
  [98, 106, 110, 112, 58, 47, 47, 91, 58, 58, 49, 93] ++ List.replicate 52 0

theorem bracketedUri_terminated : 0 ∈ bracketedUri := by decide

theorem not_uriKept_bracketed : ¬ ∀ b timeout, UriKept b timeout := by
  intro h
  have hkept := (uriKept_iff ⟨bracketedUri, bracketedUri_terminated⟩ 10000).mp (h _ _)
  obtain ⟨hplain, -⟩ := hkept ⟨[98, 106, 110, 112], [58, 58, 49], [], []⟩ (by decide) (by decide)
  exact hplain.2.1 (by decide)

end SaneBackends.Bjnp
