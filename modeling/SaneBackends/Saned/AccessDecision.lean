import SaneBackends.Lib.Result
import SaneBackends.Saned.CheckHost
/-!
# Which hosts may connect

A host is let in if it is the local one or a line of a file matches it. `check_host`
decides this unless a line trips it: a prefix of 128 bits stores behind the mask, and a
range of IPv4 addresses frees a pointer that was never set if the name of the host is not
resolved. Numbers that wrap to a small `int` are taken for that.
-/

namespace SaneBackends.Saned

open SaneBackends.Lib SaneBackends.Sanei

/-- The IPv4 address of an IPv4-mapped one. -/
def Address.embedded : Address → Option (BitVec 32)
  | .v4 _ => none
  | .v6 a => if (Address.v6 a).isV4Mapped then some (a.setWidth 32) else none

/-- The address of the peer, or the IPv4 address it maps. -/
def SameHost (remote a : Address) : Prop := a = remote ∨ ∃ b, remote.embedded = some b ∧ a = .v4 b

section Rules

variable (r : Resolver) (remote : Address)

/-- The text is that of the peer's address. -/
def IsAddress (name : List UInt8) : Prop :=
  (∃ text, r.getnameinfo remote = some text ∧ strcasecmpEq name text = true) ∨
    ∃ b, remote.embedded = some b ∧ r.getnameinfo (.v4 b) = some name

/-- The subnet of `n` bits with this base has the peer in it. -/
def InSubnet (name : List UInt8) (n : Int) : Prop :=
  0 ≤ n ∧ ((∃ base a, r.numericInet6 name = some base ∧ remote = .v6 a ∧ n ≤ 128 ∧
      AgreeOn n.toNat base a) ∨
    ∃ base a, r.numericInet name = some base ∧ (remote = .v4 a ∨ remote.embedded = some a) ∧
      n ≤ 32 ∧ AgreeOn n.toNat base a)

/-- An entry lets the peer in, if the number behind its slash is read by `read`. -/
def EntryAdmits (read : Int → Int) (name : List UInt8) (netmask : Option (List UInt8)) : Prop :=
  name = [43] ∨ IsAddress r remote name ∨
    (∃ text n, netmask = some text ∧ decimalNumber text = some n ∧
      InSubnet r remote name (read n)) ∨
    netmask = none ∧ ∃ addrs, r.getaddrinfo name = .ok addrs ∧ ∃ a ∈ addrs, SameHost remote a

/-- A line is not skipped, and its entry is of some kind. -/
def OfEntry (p : List UInt8 → Option (List UInt8) → Prop) (line : List UInt8) : Prop :=
  ∃ name netmask, hostEntry line = some (name, netmask) ∧ p name netmask

/-- A line matches the peer. -/
def Matches (line : List UInt8) : Prop := OfEntry (EntryAdmits r remote id) line

/-- A line whose number wraps to the size of a subnet that has the peer in it. -/
def Wraps (line : List UInt8) : Prop :=
  OfEntry (fun name netmask => ∃ text n, netmask = some text ∧ decimalNumber text = some n ∧
    cInt n ≠ n ∧ InSubnet r remote name (cInt n)) line

/-- A line is a range that neither matches any host nor names the peer. -/
def RangeLine (p : List UInt8 → List UInt8 → Prop) (line : List UInt8) : Prop :=
  OfEntry (fun name netmask => name ≠ [43] ∧ ¬ IsAddress r remote name ∧
    ∃ text, netmask = some text ∧ p name text) line

/-- A range of IPv6 addresses of 128 bits, looked at for a peer that has one. -/
def WritesBehind (line : List UInt8) : Prop :=
  (∃ a, remote = .v6 a) ∧ RangeLine r remote (fun name text => 58 ∈ name ∧
    ∃ n, decimalNumber text = some n ∧ cInt n = 128) line

/-- A range of IPv4 addresses, looked at for a peer that has one. -/
def FreesUnset (line : List UInt8) : Prop :=
  (∃ a, remote = .v4 a) ∧ RangeLine r remote (fun name _ => 58 ∉ name) line

/-- A name that is resolved. -/
def Resolves (line : List UInt8) : Prop :=
  OfEntry (fun name netmask => netmask = none ∧ name ≠ [43] ∧ ¬ IsAddress r remote name ∧
    ∃ addrs, r.getaddrinfo name = .ok addrs) line

/-- A line is reached that stores behind the mask, or that frees `res` while it is unset. -/
def Stumbles (unset : Prop) (lines : List (List UInt8)) : Prop :=
  ∃ pre line post, lines = pre ++ line :: post ∧
    (∀ l ∈ pre, ¬ Matches r remote l ∧ ¬ Wraps r remote l) ∧
    (WritesBehind r remote line ∨
      unset ∧ (∀ l ∈ pre, ¬ Resolves r remote l) ∧ FreesUnset r remote line)

/-- The peer is the local host. -/
def IsLocal (w : HostAnswers) : Prop :=
  remote.isLoopback = true ∨ (∃ b, remote.embedded = some b ∧ inLoopback b = true) ∨
    ∃ hostname addrs, w.gethostname = some hostname ∧ r.getaddrinfo hostname = .ok addrs ∧
      ∃ a ∈ addrs, SameHost remote a

end Rules

/-- The lines of the files that can be opened. -/
def fileLines (files : List (Option (List UInt8))) : List (List UInt8) :=
  files.flatMap fun file => (file.map fun stream => hostLines stream.length stream).getD []

/-- Who is to be let in. -/
def Grants (r : Resolver) (w : HostAnswers) (remote : Address) : Prop :=
  IsLocal r remote w ∨ ∃ line ∈ fileLines w.files, Matches r remote line

/-- The name of the local host is not resolved. -/
def NameUnresolved (r : Resolver) (w : HostAnswers) : Prop :=
  ∃ hostname, w.gethostname = some hostname ∧ r.getaddrinfo hostname = .error .noname

/-- A line is reached that trips the check, or one that wraps is the only one to match. -/
def Trips (r : Resolver) (w : HostAnswers) (remote : Address) : Prop :=
  ¬ IsLocal r remote w ∧
    (Stumbles r remote (NameUnresolved r w) (fileLines w.files) ∨
      (∃ line ∈ fileLines w.files, Wraps r remote line) ∧
        ¬ ∃ line ∈ fileLines w.files, Matches r remote line)

/-- The resolver gives each address a text of its own, and that of an IPv4-mapped one ends in
that of the address it maps; only texts of IPv6 addresses have colons. -/
structure Resolver.Lawful (r : Resolver) (remote : Address) (text : List UInt8) : Prop where
  named : r.getnameinfo remote = some text
  total : ∀ a, r.getnameinfo a ≠ none
  names : ∀ a t, r.getnameinfo a = some t → strcasecmpEq t text = true → a = remote
  mapped : ∀ b, remote.embedded = some b → r.numericInet (text.drop 7) = some b ∧
    ∀ a t, r.getnameinfo a = some t → (t = text.drop 7 ↔ a = .v4 b)
  inet : ∀ t b, r.numericInet t = some b → 58 ∉ t
  inet6 : ∀ t b, r.numericInet6 t = some b → 58 ∈ t

/-- No call fails, but that the name of the local host may be unknown. -/
structure Answered (r : Resolver) (w : HostAnswers) (remote : Address) : Prop where
  peer : w.getpeername = some remote
  named : ∃ hostname, w.gethostname = some hostname ∧ r.getaddrinfo hostname ≠ .error .other

section Masks

theorem v4Mask_isPrefixMask {n : Nat} (h : n ≤ 32) : IsPrefixMask n (v4Mask n 3) := by
  have hall : ∀ n : Fin 33, IsPrefixMask n (v4Mask n 3) := by decide +kernel
  exact hall ⟨n, by omega⟩

/-- The byte of a mask in which `n` bits are still to be set. -/
def maskByte (n : Nat) : BitVec 8 := cidrtomask (min n 8)

theorem maskByte_isPrefixMask (n : Nat) : IsPrefixMask n (maskByte n) := by
  have hall : ∀ n < 9, IsPrefixMask n (cidrtomask n) := by decide
  intro i hi
  rw [maskByte, hall (min n 8) (by omega) i hi]
  exact decide_eq_decide.mpr (by omega)

theorem getD_set {mask : List (BitVec 8)} {i : Nat} (hi : i < mask.length) (v : BitVec 8)
    (j : Nat) : (mask.set i v).getD j 0 = if i = j then v else mask.getD j 0 := by
  rw [List.getD_eq_getElem?_getD, List.getElem?_set]
  by_cases hij : i = j
  · subst hij
    rw [if_pos rfl, if_pos rfl, if_pos hi, Option.getD_some]
  · rw [if_neg hij, if_neg hij, ← List.getD_eq_getElem?_getD]

theorem v6Mask_ok {cidr i : Nat} {mask : List (BitVec 8)} (h : cidr < 8 * (mask.length - i))
    (hzero : ∀ j, i ≤ j → mask.getD j 0 = 0) :
    ∃ mask', v6Mask cidr i mask = .ok mask' ∧
      ∀ j, mask'.getD j 0 = if j < i then mask.getD j 0 else maskByte (cidr - 8 * (j - i)) := by
  induction cidr, i, mask using v6Mask.induct with
  | case1 cidr i mask ih =>
      have hi : i < mask.length := by omega
      obtain ⟨mask', hok, hbytes⟩ := ih (mask.set i 0xff)
        (by rw [List.length_set]; omega) fun j hj => by
          rw [getD_set hi, if_neg (by omega)]
          exact hzero j (by omega)
      refine ⟨mask', ?_, fun j => ?_⟩
      · rw [v6Mask, setMask, if_pos hi, ok_bind, hok]
      · rw [hbytes j, getD_set hi]
        rcases Nat.lt_trichotomy j i with hlt | rfl | hgt
        · rw [if_pos (by omega), if_neg (by omega), if_pos hlt]
        · have hfull : min (cidr + 8 - 8 * (j - j)) 8 = 8 := by omega
          rw [if_pos (by omega), if_pos rfl, if_neg (by omega), maskByte, hfull]
          rfl
        · have hleft : cidr + 8 - 8 * (j - i) = cidr - 8 * (j - (i + 1)) := by omega
          rw [if_neg (by omega), if_neg (by omega), hleft]
  | case2 cidr i mask hsmall =>
      have hi : i < mask.length := by omega
      have hlt : cidr < 8 := by
        by_contra hge
        exact hsmall (cidr - 8) (by omega)
      refine ⟨mask.set i (cidrtomask cidr), ?_, fun j => ?_⟩
      · rw [v6Mask, setMask, if_pos hi]
        exact hsmall
      · rw [getD_set hi]
        rcases Nat.lt_trichotomy j i with hlt' | rfl | hgt
        · rw [if_neg (by omega), if_pos hlt']
        · have hsmall' : min (cidr - 8 * (j - j)) 8 = cidr := by omega
          rw [if_pos rfl, if_neg (by omega), maskByte, hsmall']
        · have hnone : min (cidr - 8 * (j - i)) 8 = 0 := by omega
          rw [if_neg (by omega), if_neg (by omega), hzero j (by omega), maskByte, hnone]
          rfl

/-- A mask of 128 bits has no byte for what is behind the last one. -/
theorem v6Mask_full : v6Mask 128 0 (.replicate 16 0) = .error .outOfBounds := rfl

theorem readCidr_eq_some {bound cidr : Nat} {text : List UInt8} :
    readCidr bound text = some cidr ↔
      ∃ n, decimalNumber text = some n ∧ cInt n = cidr ∧ cidr ≤ bound := by
  unfold readCidr
  cases decimalNumber text with
  | none => simp
  | some n =>
      dsimp only
      rw [Option.ite_none_left_eq_some, Option.some.injEq]
      constructor
      · rintro ⟨hin, rfl⟩
        exact ⟨n, rfl, by omega, by omega⟩
      · rintro ⟨n', heq, hcidr, hbound⟩
        obtain rfl := Option.some.inj heq
        omega

theorem readCidr_eq_none {bound : Nat} {text : List UInt8} (h : readCidr bound text = none)
    {n : Int} (hnumber : decimalNumber text = some n) (hlo : 0 ≤ cInt n) : bound < cInt n := by
  by_contra hhi
  have hsome := readCidr_eq_some.mpr ⟨n, hnumber, (Int.toNat_of_nonneg hlo).symm,
    (show (cInt n).toNat ≤ bound by omega)⟩
  rw [h] at hsome
  cases hsome

end Masks

section Ranges

variable {r : Resolver} {remote : Address} {text : List UInt8}

theorem checkV4InRange_iff {sin : BitVec 32} {name netmask : List UInt8} :
    checkV4InRange r sin name netmask = true ↔
      ∃ n base, decimalNumber netmask = some n ∧ 0 ≤ cInt n ∧ cInt n ≤ 32 ∧
        r.numericInet name = some base ∧ AgreeOn (cInt n).toNat base sin := by
  unfold checkV4InRange
  cases hcidr : readCidr 32 netmask with
  | none =>
      refine iff_of_false nofun ?_
      rintro ⟨n, base, hnumber, hlo, hhi, -, -⟩
      exact absurd (readCidr_eq_none hcidr hnumber hlo) (not_lt.mpr hhi)
  | some cidr =>
      obtain ⟨n, hnumber, hread, hbound⟩ := readCidr_eq_some.mp hcidr
      rw [hnumber]
      cases r.numericInet name with
      | none => simp
      | some base =>
          dsimp only
          rw [beq_iff_eq, and_eq_and_iff_agreeOn (v4Mask_isPrefixMask hbound)]
          constructor
          · intro hagree
            exact ⟨n, base, rfl, by omega, by omega, rfl, by rwa [hread, Int.toNat_natCast]⟩
          · rintro ⟨n', base', hn, -, -, hbase, hagree⟩
            obtain rfl := Option.some.inj hn
            obtain rfl := Option.some.inj hbase
            rwa [hread, Int.toNat_natCast] at hagree

/-- The check of an IPv6 range, unless it has 128 bits. -/
theorem checkV6InRange_ok {sin6 : BitVec 128} {name netmask : List UInt8}
    (hbits : ∀ n, decimalNumber netmask = some n → cInt n ≠ 128) :
    ∃ inRange, checkV6InRange r sin6 name netmask = .ok inRange ∧ (inRange = true ↔
      ∃ n base, decimalNumber netmask = some n ∧ 0 ≤ cInt n ∧ cInt n ≤ 128 ∧
        r.numericInet6 name = some base ∧ AgreeOn (cInt n).toNat base sin6) := by
  unfold checkV6InRange
  cases hcidr : readCidr 128 netmask with
  | none =>
      refine ⟨false, rfl, iff_of_false nofun ?_⟩
      rintro ⟨n, base, hnumber, hlo, hhi, -, -⟩
      exact absurd (readCidr_eq_none hcidr hnumber hlo) (not_lt.mpr hhi)
  | some cidr =>
      obtain ⟨n, hnumber, hread, hbound⟩ := readCidr_eq_some.mp hcidr
      have hne := hbits n hnumber
      obtain ⟨mask, hmask, hbytes⟩ := @v6Mask_ok cidr 0 (.replicate 16 0)
        (by rw [List.length_replicate]; omega) fun j _ => by
          rw [List.getD_eq_getElem?_getD, List.getElem?_replicate]
          split <;> rfl
      have hbyte : ∀ i, IsPrefixMask (cidr - 8 * i) (mask.getD i 0) := by
        intro i
        rw [hbytes i, if_neg (Nat.not_lt_zero i)]
        exact maskByte_isPrefixMask _
      dsimp only
      rw [hmask, ok_bind, hnumber]
      cases r.numericInet6 name with
      | none => exact ⟨false, rfl, by simp⟩
      | some base =>
          refine ⟨_, rfl, ?_⟩
          have hall : ((List.range 16).all fun i =>
              byteAt (k := 16) base i &&& mask.getD i 0 ==
                byteAt (k := 16) sin6 i &&& mask.getD i 0) = true ↔ AgreeOn cidr base sin6 := by
            rw [← agreeOn_bytes (k := 16) cidr base sin6, List.all_eq_true]
            refine ⟨fun h i hi => ?_, fun h i hi => ?_⟩
            · have hsame := h i (List.mem_range.mpr hi)
              rw [beq_iff_eq] at hsame
              exact (and_eq_and_iff_agreeOn (hbyte i) _ _).mp hsame
            · rw [beq_iff_eq]
              exact (and_eq_and_iff_agreeOn (hbyte i) _ _).mpr (h i (List.mem_range.mp hi))
          rw [hall]
          constructor
          · intro hagree
            exact ⟨n, base, rfl, by omega, by omega, rfl, by rwa [hread, Int.toNat_natCast]⟩
          · rintro ⟨n', base', hn, -, -, hbase, hagree⟩
            obtain rfl := Option.some.inj hn
            obtain rfl := Option.some.inj hbase
            rwa [hread, Int.toNat_natCast] at hagree

end Ranges

section Peer

variable {r : Resolver} {remote : Address} {text : List UInt8}

theorem findPeer_ipv4Map (hlaw : r.Lawful remote text) (flowinfo : BitVec 32) :
    (findPeer r remote flowinfo text).ipv4Map = remote.embedded := by
  unfold findPeer
  dsimp only
  cases remote with
  | v4 a => rfl
  | v6 a =>
      by_cases hmapped : (Address.v6 a).isV4Mapped = true
      · have hembedded : (Address.v6 a).embedded = some (a.setWidth 32) := if_pos hmapped
        rw [if_pos hmapped, (hlaw.mapped _ hembedded).1, hembedded]
      · rw [if_neg hmapped, Address.embedded, if_neg hmapped]

theorem hasText_iff (hlaw : r.Lawful remote text) (flowinfo : BitVec 32) (name : List UInt8) :
    (findPeer r remote flowinfo text).hasText name = true ↔ IsAddress r remote name := by
  rw [Peer.hasText, Bool.or_eq_true, Bool.and_eq_true, findPeer_ipv4Map hlaw, beq_iff_eq,
    IsAddress, hlaw.named, Option.isSome_iff_exists]
  have hsecond : (∃ b, remote.embedded = some b) ∧ name = (findPeer r remote flowinfo text).remoteIpv4 ↔
      ∃ b, remote.embedded = some b ∧ r.getnameinfo (.v4 b) = some name := by
    constructor
    · rintro ⟨⟨b, hb⟩, rfl⟩
      have hnamed := Option.ne_none_iff_exists'.mp (hlaw.total (.v4 b))
      obtain ⟨t, ht⟩ := hnamed
      have htext := ((hlaw.mapped b hb).2 _ t ht).mpr rfl
      exact ⟨b, hb, ht.trans (congrArg some htext)⟩
    · rintro ⟨b, hb, hname⟩
      exact ⟨⟨b, hb⟩, ((hlaw.mapped b hb).2 _ _ hname).mpr rfl⟩
  rw [hsecond]
  simp [findPeer]

theorem anySame_iff (hlaw : r.Lawful remote text) (flowinfo : BitVec 32) (addrs : List Address) :
    anySame r (findPeer r remote flowinfo text) addrs = true ↔ ∃ a ∈ addrs, SameHost remote a := by
  rw [anySame, List.any_eq_true]
  refine exists_congr fun a => and_congr_right fun _ => ?_
  obtain ⟨t, ht⟩ := Option.ne_none_iff_exists'.mp (hlaw.total a)
  rw [ht, Option.getD_some, hasText_iff hlaw]
  constructor
  · rintro (⟨t', ht', hsame⟩ | ⟨b, hb, hname⟩)
    · obtain rfl := Option.some.inj (hlaw.named.symm.trans ht')
      exact .inl (hlaw.names a t ht hsame)
    · exact .inr ⟨b, hb, ((hlaw.mapped b hb).2 a t ht).mp (((hlaw.mapped b hb).2 _ _ hname).mpr rfl)⟩
  · rintro (rfl | ⟨b, hb, rfl⟩)
    · refine .inl ⟨text, hlaw.named, ?_⟩
      obtain rfl := Option.some.inj (hlaw.named.symm.trans ht)
      exact beq_self_eq_true _
    · exact .inr ⟨b, hb, ht⟩

end Peer

section Lines

variable {r : Resolver} {remote : Address} {text : List UInt8}

theorem cInt_of_inSubnet {name : List UInt8} {n : Int} (h : InSubnet r remote name n) :
    cInt n = n := by
  obtain ⟨hlo, ⟨_, _, -, -, hhi, -⟩ | ⟨_, _, -, -, hhi, -⟩⟩ := h
  all_goals
    have hclamp : max (-2 ^ 63) (min (2 ^ 63 - 1) n) = n := by omega
    rw [cInt, hclamp]
    exact toInt32_eq_self (by omega) (by omega)

/-- What the code takes a line for: one that matches, or one that wraps. -/
theorem matches_or_wraps_iff (line : List UInt8) :
    Matches r remote line ∨ Wraps r remote line ↔ OfEntry (EntryAdmits r remote cInt) line := by
  constructor
  · rintro (⟨name, netmask, hentry, hadmits⟩ | ⟨name, netmask, hentry, t, n, hmask, hn, -, hin⟩)
    · refine ⟨name, netmask, hentry, hadmits.imp_right (.imp_right (.imp_left ?_))⟩
      rintro ⟨t, n, hmask, hn, hin⟩
      have hsame : cInt n = id n := cInt_of_inSubnet hin
      exact ⟨t, n, hmask, hn, hsame ▸ hin⟩
    · exact ⟨name, netmask, hentry, .inr (.inr (.inl ⟨t, n, hmask, hn, hin⟩))⟩
  · rintro ⟨name, netmask, hentry, hplus | haddress | ⟨t, n, hmask, hn, hin⟩ | hname⟩
    · exact .inl ⟨name, netmask, hentry, .inl hplus⟩
    · exact .inl ⟨name, netmask, hentry, .inr (.inl haddress)⟩
    · by_cases hsame : cInt n = n
      · exact .inl ⟨name, netmask, hentry, .inr (.inr (.inl ⟨t, n, hmask, hn, hsame ▸ hin⟩))⟩
      · exact .inr ⟨name, netmask, hentry, t, n, hmask, hn, hsame, hin⟩
    · exact .inl ⟨name, netmask, hentry, .inr (.inr (.inr hname))⟩

/-- The variables between two lines, while the peer is not let in. For a peer of `AF_INET` the
pointer `res` is unset or `NULL`. -/
structure Between (remote : Address) (unset : Prop) (s : Access) : Prop where
  accessOk : s.accessOk = false
  sin : s.sin = .remote
  res : (∃ a, remote = .v4 a) → s.res = .unset ∧ unset ∨ s.res = .null ∧ ¬ unset

/-- What a line does to the variables: it trips the check, or lets the peer in just if it
`admits` it. -/
def Decided (remote : Address) (stuck admits unset : Prop) (result : Except Fault Access) : Prop :=
  (stuck → ∃ fault, result = .error fault) ∧
    (¬ stuck → ∃ s, result = .ok s ∧
      (admits → s.accessOk = true) ∧ (¬ admits → Between remote unset s))

/-- A range of IPv6 addresses. -/
theorem checkRange_colon (hlaw : r.Lawful remote text) (flowinfo : BitVec 32) {unset : Prop}
    {s : Access} (h : Between remote unset s) {name : List UInt8} (netmask : List UInt8)
    (hcolon : 58 ∈ name) :
    Decided remote ((∃ a, remote = .v6 a) ∧ ∃ n, decimalNumber netmask = some n ∧ cInt n = 128)
      (∃ n, decimalNumber netmask = some n ∧ InSubnet r remote name (cInt n)) unset
      (checkRange r (findPeer r remote flowinfo text) name netmask s) := by
  have hnot : ∀ b, r.numericInet name ≠ some b := fun b hb => hlaw.inet name b hb hcolon
  unfold checkRange
  rw [if_pos hcolon]
  cases remote with
  | v4 a =>
      refine ⟨fun hstuck => absurd hstuck.1.choose_spec nofun, fun _ => ⟨s, rfl, ?_, fun _ => h⟩⟩
      rintro ⟨n, -, -, ⟨_, _, -, hremote, -⟩ | ⟨b, _, hb, -⟩⟩
      · cases hremote
      · exact absurd hb (hnot b)
  | v6 a =>
      constructor
      · rintro ⟨-, n, hn, hfull⟩
        refine ⟨.outOfBounds, ?_⟩
        have hcidr : readCidr 128 netmask = some 128 :=
          readCidr_eq_some.mpr ⟨n, hn, hfull, Nat.le_refl _⟩
        change (checkV6InRange r a name netmask >>= _) = _
        rw [checkV6InRange, hcidr]
        rfl
      · intro hstuck
        obtain ⟨inRange, hok, hin⟩ := @checkV6InRange_ok r a name netmask
          fun n hn hfull => hstuck ⟨⟨a, rfl⟩, n, hn, hfull⟩
        change ∃ s', (checkV6InRange r a name netmask >>= _) = .ok s' ∧ _
        rw [hok, ok_bind]
        have hadmits : inRange = true ↔
            ∃ n, decimalNumber netmask = some n ∧ InSubnet r (.v6 a) name (cInt n) := by
          rw [hin]
          constructor
          · rintro ⟨n, base, hn, hlo, hhi, hbase, hagree⟩
            exact ⟨n, hn, hlo, .inl ⟨base, a, hbase, rfl, hhi, hagree⟩⟩
          · rintro ⟨n, hn, hlo, ⟨base, a', hbase, hremote, hhi, hagree⟩ | ⟨b, _, hb, -⟩⟩
            · cases hremote
              exact ⟨n, base, hn, hlo, hhi, hbase, hagree⟩
            · exact absurd hb (hnot b)
        rw [← hadmits]
        cases inRange with
        | true => exact ⟨_, rfl, fun _ => rfl, fun hfalse => absurd rfl hfalse⟩
        | false => exact ⟨_, rfl, nofun, fun _ => h⟩

/-- The IPv4 check answers for the address the peer has or embeds. -/
theorem checkV4InRange_admits_iff (hlaw : r.Lawful remote text) {name : List UInt8}
    (netmask : List UInt8) (hcolon : 58 ∉ name) {sin : BitVec 32}
    (hsin : remote = .v4 sin ∨ remote.embedded = some sin) :
    checkV4InRange r sin name netmask = true ↔
      ∃ n, decimalNumber netmask = some n ∧ InSubnet r remote name (cInt n) := by
  rw [checkV4InRange_iff]
  constructor
  · rintro ⟨n, base, hn, hlo, hhi, hbase, hagree⟩
    exact ⟨n, hn, hlo, .inr ⟨base, sin, hbase, hsin, hhi, hagree⟩⟩
  · rintro ⟨n, hn, hlo, ⟨b, _, hb, -⟩ | ⟨base, sin', hbase, hsin', hhi, hagree⟩⟩
    · exact absurd (hlaw.inet6 name b hb) hcolon
    · have hsame : sin' = sin := by
        rcases hsin with rfl | hsin <;> rcases hsin' with hsin' | hsin'
        · cases hsin'
          rfl
        · cases hsin'
        · subst hsin'
          cases hsin
        · exact Option.some.inj (hsin'.symm.trans hsin)
      exact ⟨n, base, hn, hlo, hhi, hbase, hsame ▸ hagree⟩

theorem redirectSin_of_none {peer : Peer} (hmap : peer.ipv4Map = none) (s : Access) :
    redirectSin r peer s = s := by
  rw [redirectSin, hmap]
  rfl

theorem redirectSin_of_some {peer : Peer} {a b : BitVec 32} (hmap : peer.ipv4Map = some a)
    (hnumeric : r.numericInet peer.remoteIpv4 = some b) (s : Access) :
    redirectSin r peer s = { s with res := .list, sin := .resolved b } := by
  rw [redirectSin, hmap, hnumeric]
  rfl

/-- A range of IPv4 addresses, and a peer of `AF_INET`. -/
theorem checkRange_v4 {a : BitVec 32} (hlaw : r.Lawful (.v4 a) text) (flowinfo : BitVec 32)
    {unset : Prop} {s : Access} (h : Between (.v4 a) unset s) {name : List UInt8}
    (netmask : List UInt8) (hcolon : 58 ∉ name) :
    Decided (.v4 a) unset
      (∃ n, decimalNumber netmask = some n ∧ InSubnet r (.v4 a) name (cInt n)) unset
      (checkRange r (findPeer r (.v4 a) flowinfo text) name netmask s) := by
  have hnone : (findPeer r (.v4 a) flowinfo text).ipv4Map = none := findPeer_ipv4Map hlaw flowinfo
  have haddr : s.sinAddr (findPeer r (.v4 a) flowinfo text) = .ok a := by
    rw [Access.sinAddr, h.sin]
    rfl
  have hbranch : ((findPeer r (.v4 a) flowinfo text).address.isInet ||
      (findPeer r (.v4 a) flowinfo text).ipv4Map.isSome) = true := rfl
  unfold checkRange
  rw [if_neg hcolon]
  dsimp only
  rw [if_pos hbranch, redirectSin_of_none hnone, haddr, ok_bind,
    ← checkV4InRange_admits_iff hlaw netmask hcolon (.inl rfl)]
  rcases h.res ⟨a, rfl⟩ with ⟨hres, hunset⟩ | ⟨hres, hset⟩
  · refine ⟨fun _ => ⟨.badFree, ?_⟩, fun hstuck => absurd hunset hstuck⟩
    rw [Access.dropRes]
    split_ifs <;> rw [hres]
  · refine ⟨fun hstuck => absurd hstuck hset, fun _ => ?_⟩
    by_cases hin : checkV4InRange r a name netmask = true
    · rw [if_pos hin, Access.dropRes, hres]
      exact ⟨_, rfl, fun _ => rfl, fun hfalse => absurd hin hfalse⟩
    · rw [if_neg hin, Access.dropRes, hres]
      exact ⟨_, rfl, fun htrue => absurd htrue hin,
        fun _ => ⟨h.accessOk, rfl, fun _ => .inr ⟨rfl, hset⟩⟩⟩

/-- A range of IPv4 addresses, and a peer of `AF_INET6`. -/
theorem checkRange_v6 {a : BitVec 128} (hlaw : r.Lawful (.v6 a) text) (flowinfo : BitVec 32)
    {unset : Prop} {s : Access} (h : Between (.v6 a) unset s) {name : List UInt8}
    (netmask : List UInt8) (hcolon : 58 ∉ name) :
    ∃ s', checkRange r (findPeer r (.v6 a) flowinfo text) name netmask s = .ok s' ∧
      ((∃ n, decimalNumber netmask = some n ∧ InSubnet r (.v6 a) name (cInt n)) →
        s'.accessOk = true) ∧
      ((¬ ∃ n, decimalNumber netmask = some n ∧ InSubnet r (.v6 a) name (cInt n)) →
        Between (.v6 a) unset s') := by
  have hmap := findPeer_ipv4Map hlaw flowinfo
  unfold checkRange
  rw [if_neg hcolon]
  cases hembedded : (Address.v6 a).embedded with
  | none =>
      rw [hembedded] at hmap
      dsimp only
      rw [redirectSin_of_none hmap, hmap]
      refine ⟨s, rfl, ?_, fun _ => h⟩
      rintro ⟨n, -, -, ⟨b, _, hb, -⟩ | ⟨_, _, -, hremote | hremote, -⟩⟩
      · exact absurd (hlaw.inet6 name b hb) hcolon
      · cases hremote
      · rw [hembedded] at hremote
        cases hremote
  | some b =>
      rw [hembedded] at hmap
      have hnumeric : r.numericInet (findPeer r (.v6 a) flowinfo text).remoteIpv4 = some b :=
        (hlaw.mapped b hembedded).1
      have haddr : Access.sinAddr (findPeer r (.v6 a) flowinfo text)
          { s with res := .list, sin := .resolved b } = .ok b := rfl
      have hbranch : ((findPeer r (.v6 a) flowinfo text).address.isInet ||
          (findPeer r (.v6 a) flowinfo text).ipv4Map.isSome) = true := by
        rw [hmap]
        rfl
      dsimp only
      rw [redirectSin_of_some hmap hnumeric, if_pos hbranch, haddr, ok_bind,
        ← checkV4InRange_admits_iff hlaw netmask hcolon (.inr hembedded)]
      by_cases hin : checkV4InRange r b name netmask = true
      · rw [if_pos hin]
        exact ⟨_, rfl, fun _ => rfl, fun hfalse => absurd hin hfalse⟩
      · rw [if_neg hin]
        refine ⟨_, rfl, fun htrue => absurd htrue hin, fun _ => ⟨h.accessOk, rfl, ?_⟩⟩
        rintro ⟨_, hv4⟩
        cases hv4

/-- A range of IPv4 addresses. -/
theorem checkRange_no_colon (hlaw : r.Lawful remote text) (flowinfo : BitVec 32) {unset : Prop}
    {s : Access} (h : Between remote unset s) {name : List UInt8} (netmask : List UInt8)
    (hcolon : 58 ∉ name) :
    Decided remote ((∃ a, remote = .v4 a) ∧ unset)
      (∃ n, decimalNumber netmask = some n ∧ InSubnet r remote name (cInt n)) unset
      (checkRange r (findPeer r remote flowinfo text) name netmask s) := by
  cases remote with
  | v4 a =>
      have hdecided := checkRange_v4 hlaw flowinfo h netmask hcolon
      exact ⟨fun hstuck => hdecided.1 hstuck.2, fun hstuck =>
        hdecided.2 fun hunset => hstuck ⟨⟨a, rfl⟩, hunset⟩⟩
  | v6 a =>
      refine ⟨?_, fun _ => checkRange_v6 hlaw flowinfo h netmask hcolon⟩
      rintro ⟨⟨_, hv4⟩, -⟩
      cases hv4

/-- A line trips the check. -/
def Stuck (r : Resolver) (remote : Address) (unset : Prop) (line : List UInt8) : Prop :=
  WritesBehind r remote line ∨ unset ∧ FreesUnset r remote line

theorem ofEntry_iff {line name : List UInt8} {netmask : Option (List UInt8)}
    (h : hostEntry line = some (name, netmask)) (p : List UInt8 → Option (List UInt8) → Prop) :
    OfEntry p line ↔ p name netmask := by
  constructor
  · rintro ⟨name', netmask', hentry, hp⟩
    rw [h] at hentry
    cases hentry
    exact hp
  · exact fun hp => ⟨name, netmask, h, hp⟩

theorem not_ofEntry {line : List UInt8} (h : hostEntry line = none)
    (p : List UInt8 → Option (List UInt8) → Prop) : ¬ OfEntry p line := by
  rintro ⟨name, netmask, hentry, -⟩
  rw [h] at hentry
  cases hentry

theorem Decided.congr {stuck stuck' admits admits' unset unset' : Prop}
    {result : Except Fault Access} (h : Decided remote stuck admits unset result)
    (hstuck : stuck' ↔ stuck) (hadmits : admits' ↔ admits) (hunset : unset' ↔ unset) :
    Decided remote stuck' admits' unset' result := by
  rwa [propext hstuck, propext hadmits, propext hunset]

theorem Decided.letIn {admits unset : Prop} {s : Access} (hadmits : admits)
    (hok : s.accessOk = true) : Decided remote False admits unset (.ok s) :=
  ⟨False.elim, fun _ => ⟨s, rfl, fun _ => hok, fun hnot => absurd hadmits hnot⟩⟩

theorem Decided.pass {admits unset : Prop} {s : Access} (hadmits : ¬ admits)
    (h : Between remote unset s) : Decided remote False admits unset (.ok s) :=
  ⟨False.elim, fun _ => ⟨s, rfl, fun hyes => absurd hyes hadmits, fun _ => h⟩⟩

/-- A name; the pointer is not unset behind it if it is resolved. -/
theorem checkName_spec (hlaw : r.Lawful remote text) (flowinfo : BitVec 32) {unset : Prop}
    {s : Access} (h : Between remote unset s) (name : List UInt8) :
    Decided remote False (∃ addrs, r.getaddrinfo name = .ok addrs ∧ ∃ a ∈ addrs, SameHost remote a)
      (unset ∧ ¬ ∃ addrs, r.getaddrinfo name = .ok addrs)
      (.ok (checkName r (findPeer r remote flowinfo text) name s)) := by
  unfold checkName
  cases hlookup : r.getaddrinfo name with
  | error e =>
      refine .pass (fun ⟨addrs, hok, _⟩ => nomatch hok) ⟨h.accessOk, h.sin, fun hv4 => ?_⟩
      refine (h.res hv4).imp (.imp_right fun hunset => ⟨hunset, fun ⟨addrs, hok⟩ => nomatch hok⟩)
        (.imp_right fun hset hunset => hset hunset.1)
  | ok addrs =>
      have hsame := anySame_iff hlaw flowinfo addrs
      dsimp only
      rw [h.accessOk, Bool.false_or]
      by_cases hany : anySame r (findPeer r remote flowinfo text) addrs = true
      · exact .letIn ⟨addrs, rfl, hsame.mp hany⟩ hany
      · refine .pass ?_ ⟨Bool.not_eq_true _ ▸ hany, h.sin, fun _ => .inr ⟨rfl, ?_⟩⟩
        · rintro ⟨addrs', hok, hmem⟩
          cases hok
          exact hany (hsame.mpr hmem)
        · exact fun hunset => hunset.2 ⟨addrs, rfl⟩

/-- What a line does: the pointer is unset behind it if it was and no name is resolved. -/
theorem checkLine_spec (hlaw : r.Lawful remote text) (flowinfo : BitVec 32) {unset : Prop}
    {s : Access} (h : Between remote unset s) (line : List UInt8) :
    Decided remote (Stuck r remote unset line) (Matches r remote line ∨ Wraps r remote line)
      (unset ∧ ¬ Resolves r remote line)
      (checkLine r (findPeer r remote flowinfo text) line s) := by
  rw [matches_or_wraps_iff]
  unfold checkLine Stuck WritesBehind FreesUnset RangeLine Resolves
  cases hentry : hostEntry line with
  | none =>
      have hnone := not_ofEntry hentry
      refine (Decided.pass (hnone _) h).congr ?_ Iff.rfl ?_
      · exact iff_of_false (Or.rec (fun hw => hnone _ hw.2) fun hf => hnone _ hf.2.2) id
      · exact and_iff_left (hnone _)
  | some entry =>
      obtain ⟨name, netmask⟩ := entry
      simp only [ofEntry_iff hentry]
      by_cases hplus : name = [43]
      · rw [if_pos hplus]
        refine (Decided.letIn (.inl hplus) rfl).congr (by simp [hplus]) Iff.rfl Iff.rfl
      rw [if_neg hplus]
      by_cases haddress : IsAddress r remote name
      · rw [if_pos ((hasText_iff hlaw flowinfo name).mpr haddress)]
        refine (Decided.letIn (.inr (.inl haddress)) rfl).congr (by simp [haddress]) Iff.rfl Iff.rfl
      rw [if_neg ((hasText_iff hlaw flowinfo name).not.mpr haddress)]
      cases netmask with
      | none =>
          refine (checkName_spec hlaw flowinfo h name).congr ?_ ?_ ?_
          · simp
          · simp [EntryAdmits, hplus, haddress]
          · simp [hplus, haddress]
      | some netmask =>
          by_cases hcolon : 58 ∈ name
          · refine (checkRange_colon hlaw flowinfo h netmask hcolon).congr ?_ ?_ ?_
            · simp [hplus, haddress, hcolon]
            · simp [EntryAdmits, hplus, haddress]
            · simp
          · refine (checkRange_no_colon hlaw flowinfo h netmask hcolon).congr ?_ ?_ ?_
            · simp [hplus, haddress, hcolon, and_comm]
            · simp [EntryAdmits, hplus, haddress]
            · simp

theorem not_stumbles_nil (unset : Prop) : ¬ Stumbles r remote unset [] := by
  rintro ⟨pre, line, post, heq, -⟩
  exact absurd heq (by simp)

theorem stumbles_cons {unset : Prop} {line : List UInt8} {lines : List (List UInt8)} :
    Stumbles r remote unset (line :: lines) ↔ Stuck r remote unset line ∨
      ¬ (Matches r remote line ∨ Wraps r remote line) ∧
        Stumbles r remote (unset ∧ ¬ Resolves r remote line) lines := by
  constructor
  · rintro ⟨pre, l, post, heq, hpre, hstuck⟩
    cases pre with
    | nil =>
        obtain ⟨rfl, rfl⟩ := List.cons.inj heq
        exact .inl (hstuck.imp_right fun h => ⟨h.1, h.2.2⟩)
    | cons first pre =>
        obtain ⟨rfl, rfl⟩ := List.cons.inj heq
        rw [List.forall_mem_cons] at hpre
        refine .inr ⟨not_or.mpr hpre.1, pre, l, post, rfl, hpre.2, hstuck.imp_right ?_⟩
        rintro ⟨hunset, hresolves, hfrees⟩
        rw [List.forall_mem_cons] at hresolves
        exact ⟨⟨hunset, hresolves.1⟩, hresolves.2, hfrees⟩
  · rintro (hstuck | ⟨hnot, pre, l, post, rfl, hpre, hstuck⟩)
    · exact ⟨[], line, lines, rfl, nofun, hstuck.imp_right fun h => ⟨h.1, nofun, h.2⟩⟩
    · refine ⟨line :: pre, l, post, rfl, List.forall_mem_cons.mpr ⟨not_or.mp hnot, hpre⟩, ?_⟩
      refine hstuck.imp_right fun ⟨⟨hunset, hresolves⟩, hpre', hfrees⟩ => ?_
      exact ⟨hunset, List.forall_mem_cons.mpr ⟨hresolves, hpre'⟩, hfrees⟩

theorem checkLines_of_accessOk (peer : Peer) (lines : List (List UInt8)) {s : Access}
    (h : s.accessOk = true) : checkLines r peer lines s = .ok s := by
  cases lines with
  | nil => rfl
  | cons line lines => rw [checkLines, if_pos h]

/-- The lines in their order: the peer is let in if one of them does, unless one trips. -/
theorem checkLines_spec (hlaw : r.Lawful remote text) (flowinfo : BitVec 32) {unset : Prop}
    {s : Access} (h : Between remote unset s) (lines : List (List UInt8)) :
    Decided remote (Stumbles r remote unset lines)
      (∃ line ∈ lines, Matches r remote line ∨ Wraps r remote line)
      (unset ∧ ¬ ∃ line ∈ lines, Resolves r remote line)
      (checkLines r (findPeer r remote flowinfo text) lines s) := by
  induction lines generalizing unset s with
  | nil =>
      refine (Decided.pass (fun ⟨l, hl, _⟩ => nomatch hl) h).congr
        (iff_of_false (not_stumbles_nil unset) id) Iff.rfl ?_
      exact and_iff_left fun ⟨l, hl, _⟩ => nomatch hl
  | cons line lines ih =>
      rw [checkLines, h.accessOk, if_neg nofun]
      obtain ⟨hstuck, hpass⟩ := checkLine_spec hlaw flowinfo h line
      simp only [stumbles_cons, List.exists_mem_cons_iff]
      by_cases htrips : Stuck r remote unset line
      · obtain ⟨fault, herror⟩ := hstuck htrips
        rw [herror, error_bind]
        exact ⟨fun _ => ⟨fault, rfl⟩, fun hnot => absurd (.inl htrips) hnot⟩
      obtain ⟨s₁, hok, hyes, hno⟩ := hpass htrips
      rw [hok, ok_bind]
      by_cases hadmits : Matches r remote line ∨ Wraps r remote line
      · rw [checkLines_of_accessOk _ lines (hyes hadmits)]
        refine (Decided.letIn (.inl hadmits) (hyes hadmits)).congr ?_ Iff.rfl Iff.rfl
        exact iff_of_false (not_or.mpr ⟨htrips, fun hrest => hrest.1 hadmits⟩) id
      · refine (ih (hno hadmits)).congr ?_ (or_iff_right hadmits) ?_
        · rw [or_iff_right htrips, and_iff_right hadmits]
        · rw [not_or, and_assoc]

theorem checkLines_append (peer : Peer) (lines lines' : List (List UInt8)) (s : Access) :
    checkLines r peer (lines ++ lines') s =
      checkLines r peer lines s >>= checkLines r peer lines' := by
  induction lines generalizing s with
  | nil => rfl
  | cons line lines ih =>
      rw [List.cons_append, checkLines, checkLines]
      by_cases hok : s.accessOk = true
      · rw [if_pos hok, if_pos hok, ok_bind, checkLines_of_accessOk peer lines' hok]
      · rw [if_neg hok, if_neg hok]
        cases checkLine r peer line s with
        | error fault => rfl
        | ok s₁ => exact ih s₁

/-- The files are read like one. -/
theorem checkFiles_eq (peer : Peer) (files : List (Option (List UInt8))) (s : Access) :
    checkFiles r peer files s = checkLines r peer (fileLines files) s := by
  induction files generalizing s with
  | nil => rfl
  | cons file files ih =>
      rw [fileLines, List.flatMap_cons]
      cases file with
      | none => exact ih s
      | some stream =>
          rw [checkFiles, checkLines_append]
          exact congrArg _ (funext ih)

end Lines

section Decision

variable {r : Resolver} {w : HostAnswers} {remote : Address} {text : List UInt8}

theorem grants_congr {files : List (Option (List UInt8))}
    (hsame : ∀ line, line ∈ fileLines files ↔ line ∈ fileLines w.files) :
    Grants r { w with files } remote ↔ Grants r w remote := by
  unfold Grants
  simp only [hsame]
  exact Iff.rfl

/-- The files decide about a host that is not local. -/
theorem readFiles_spec (hlaw : r.Lawful remote text) (flowinfo : BitVec 32) {unset : Prop}
    {res : ResPtr} (hres : (∃ a, remote = .v4 a) → res = .unset ∧ unset ∨ res = .null ∧ ¬ unset)
    (files : List (Option (List UInt8))) :
    (Stumbles r remote unset (fileLines files) →
      ∃ fault, readFiles r (findPeer r remote flowinfo text) files res = .error fault) ∧
    (¬ Stumbles r remote unset (fileLines files) →
      ∃ status, readFiles r (findPeer r remote flowinfo text) files res = .ok status ∧
        (status = .good ↔
          ∃ line ∈ fileLines files, Matches r remote line ∨ Wraps r remote line)) := by
  have hstart : Between remote unset ⟨false, res, .remote⟩ := ⟨rfl, rfl, hres⟩
  obtain ⟨hstuck, hpass⟩ := checkLines_spec hlaw flowinfo hstart (fileLines files)
  rw [← checkFiles_eq] at hstuck hpass
  unfold readFiles
  constructor
  · intro htrips
    obtain ⟨fault, herror⟩ := hstuck htrips
    exact ⟨fault, by rw [herror, error_bind]⟩
  · intro hnot
    obtain ⟨s, hok, hyes, hno⟩ := hpass hnot
    refine ⟨_, by rw [hok, ok_bind], ?_⟩
    by_cases hadmits : ∃ line ∈ fileLines files, Matches r remote line ∨ Wraps r remote line
    · rw [if_pos (hyes hadmits)]
      exact iff_of_true rfl hadmits
    · rw [(hno hadmits).accessOk]
      exact iff_of_false nofun hadmits

/-- A host that is local is let in before any file is read; another one is judged by them,
with `res` unset just if the name of the local host is not resolved. -/
theorem checkHost_cases (hlaw : r.Lawful remote text) (hans : Answered r w remote) :
    (IsLocal r remote w ∧ checkHost r w = .ok .good) ∨
      ¬ IsLocal r remote w ∧ ∃ res,
        checkHost r w = readFiles r (findPeer r remote w.flowinfo text) w.files res ∧
        ((∃ a, remote = .v4 a) →
          res = .unset ∧ NameUnresolved r w ∨ res = .null ∧ ¬ NameUnresolved r w) := by
  obtain ⟨hostname, hname, hother⟩ := hans.named
  have hmap := findPeer_ipv4Map hlaw w.flowinfo
  unfold checkHost
  rw [hans.peer]
  dsimp only
  rw [hlaw.named, hname]
  dsimp only
  have hloop : ((findPeer r remote w.flowinfo text).ipv4Map.any inLoopback ||
      remote.isLoopback) = true ↔
      remote.isLoopback = true ∨ ∃ b, remote.embedded = some b ∧ inLoopback b = true := by
    rw [hmap, Bool.or_eq_true, Option.any_eq_true, or_comm]
  by_cases hloopback :
      remote.isLoopback = true ∨ ∃ b, remote.embedded = some b ∧ inLoopback b = true
  · rw [if_pos (hloop.mpr hloopback)]
    exact .inl ⟨hloopback.imp_right .inl, rfl⟩
  rw [if_neg (hloop.not.mpr hloopback)]
  rw [not_or] at hloopback
  cases hlookup : r.getaddrinfo hostname with
  | error e =>
      cases e with
      | other => exact absurd hlookup hother
      | noname =>
          refine .inr ⟨?_, _, rfl, ?_⟩
          · rintro (h | h | ⟨host, addrs, hhost, hok, -⟩)
            · exact hloopback.1 h
            · exact hloopback.2 h
            · obtain rfl := Option.some.inj (hname.symm.trans hhost)
              rw [hlookup] at hok
              cases hok
          · rintro ⟨a, rfl⟩
            have hnone : (findPeer r (.v4 a) w.flowinfo text).ipv4Map = none := hmap
            rw [hnone]
            exact .inl ⟨rfl, hostname, hname, hlookup⟩
  | ok addrs =>
      dsimp only
      have hsame := anySame_iff hlaw w.flowinfo addrs
      by_cases hany : anySame r (findPeer r remote w.flowinfo text) addrs = true
      · rw [if_pos hany]
        exact .inl ⟨.inr (.inr ⟨hostname, addrs, hname, hlookup, hsame.mp hany⟩), rfl⟩
      · rw [if_neg hany]
        refine .inr ⟨?_, _, rfl, fun _ => .inr ⟨rfl, ?_⟩⟩
        · rintro (h | h | ⟨host, addrs', hhost, hok, hmem⟩)
          · exact hloopback.1 h
          · exact hloopback.2 h
          · obtain rfl := Option.some.inj (hname.symm.trans hhost)
            obtain rfl := Except.ok.inj (hlookup.symm.trans hok)
            exact hany (hsame.mpr hmem)
        · rintro ⟨host, hhost, hnone⟩
          obtain rfl := Option.some.inj (hname.symm.trans hhost)
          rw [hlookup] at hnone
          cases hnone

end Decision

section Examples

def remoteText : List UInt8 := ascii ['1', '9', '2', '.', '0', '.', '2', '.', '7']

def baseText : List UInt8 := ascii ['1', '0', '.', '0', '.', '0', '.', '0']

/-- The address 192.0.2.7. -/
def testRemote : Address := .v4 0xC0000207

/-- A resolver that knows no names. -/
def testResolver : Resolver where
  getnameinfo a := some (if a = testRemote then remoteText else baseText)
  numericInet t := if t = baseText then some 0x0A000000 else if t = remoteText then some 0xC0000207 else none
  numericInet6 _ := none
  getaddrinfo _ := .error .noname

/-- The second file has the line `10.0.0.0/8`, and the address of the peer behind it. -/
def testAnswers : HostAnswers where
  getpeername := some testRemote
  flowinfo := 0
  gethostname := some (ascii ['h', 'o', 's', 't'])
  files := [none, some (baseText ++ ascii ['/', '8', '\n'] ++ remoteText ++ ascii ['\n'])]

theorem testResolver_lawful : testResolver.Lawful testRemote remoteText where
  named := rfl
  total _ := nofun
  names a t ht hsame := by
    by_contra hne
    obtain rfl := Option.some.inj ht
    rw [if_neg hne] at hsame
    exact absurd hsame (by decide)
  mapped b hb := absurd hb nofun
  inet t b ht := by
    change (if t = baseText then some _ else if t = remoteText then some _ else none) = some b at ht
    split_ifs at ht with hbase hremote
    · subst hbase
      decide
    · subst hremote
      decide
  inet6 t b ht := nomatch ht

theorem testAnswers_answered : Answered testResolver testAnswers testRemote :=
  ⟨rfl, _, rfl, nofun⟩

theorem testAnswers_fault : checkHost testResolver testAnswers = .error .badFree := by
  decide +kernel

end Examples

end SaneBackends.Saned
