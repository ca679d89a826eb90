import Mathlib.Tactic
import SaneBackends.Lib.CString
import SaneBackends.Lib.Result
/-!
# `SANE_NET_HOSTS`

`sane_init` of the net backend cuts a copy of the variable into the names of hosts. An address in
brackets is cut at its first colon, put together again and cut at the bracket, without asking
whether there is a colon in it and a bracket behind it.
-/

namespace SaneBackends.Net

open SaneBackends.Lib

/-! ## The code -/

inductive CopyFault where
  | nullPointer
  | outOfBounds
  | unfinished
  deriving DecidableEq

/-- `copy`, with its terminator, and `next`, with the names that were added. -/
structure HostsState where
  copy : List UInt8
  next : Option Nat
  added : List (List UInt8)

def loadChar (copy : List UInt8) (p : Nat) : Except CopyFault UInt8 :=
  match copy[p]? with
  | none => .error .outOfBounds
  | some c => .ok c

def storeChar (copy : List UInt8) (p : Nat) (c : UInt8) : Except CopyFault (List UInt8) :=
  if p < copy.length then .ok (copy.set p c) else .error .outOfBounds

/-- The string at an address. -/
def stringAt (copy : List UInt8) (p : Nat) : Except CopyFault (List UInt8) :=
  if 0 ∈ copy.drop p then .ok ((copy.drop p).takeWhile (· ≠ 0)) else .error .outOfBounds

/-- `strsep (&next, delim)`, with the address it returns. -/
def strsep (copy : List UInt8) (next : Option Nat) (delim : UInt8) :
    Except CopyFault (Option Nat × List UInt8 × Option Nat) :=
  match next with
  | none => .ok (none, copy, none)
  | some p => do
      let str ← stringAt copy p
      if delim ∈ str then do
        let q := p + str.idxOf delim
        let copy ← storeChar copy q 0
        .ok (some p, copy, some (q + 1))
      else .ok (some p, copy, none)

/-- The address in brackets that starts at `host`. -/
def readAddress (copy : List UInt8) (host : Nat) (next : Option Nat) :
    Except CopyFault (Nat × List UInt8 × Option Nat) := do
  let host := host + 1
  let (_, copy, next) ← strsep copy next 93
  let str ← stringAt copy host
  let copy ← storeChar copy (host + str.length) 58
  match next with
  | none => .error .nullPointer
  | some p => do
      let c ← loadChar copy p
      .ok (host, copy, some (if c = 58 then p + 1 else p))

/-- `host`, which starts with a bracket or not. -/
def readHost (copy : List UInt8) (host : Nat) (next : Option Nat) :
    Except CopyFault (Nat × List UInt8 × Option Nat) := do
  let c ← loadChar copy host
  if c = 91 then readAddress copy host next else .ok (host, copy, next)

/-- `add_device` is called, unless `host` is empty. -/
def addName (copy : List UInt8) (host : Nat) (added : List (List UInt8)) :
    Except CopyFault (List (List UInt8)) := do
  let c ← loadChar copy host
  if c = 0 then .ok added
  else do
    let name ← stringAt copy host
    .ok (added ++ [name])

/-- One turn of the loop, or `none` behind the last. -/
def hostsTurn (st : HostsState) : Except CopyFault (Option HostsState) := do
  match ← strsep st.copy st.next 58 with
  | (none, _) => .ok none
  | (some host, copy, next) => do
      let (host, copy, next) ← readHost copy host next
      let added ← addName copy host st.added
      .ok (some ⟨copy, next, added⟩)

def hostsLoop : Nat → HostsState → Except CopyFault (List (List UInt8))
  | 0, _ => .error .unfinished
  | fuel + 1, st => do
      match ← hostsTurn st with
      | none => .ok st.added
      | some st => hostsLoop fuel st

/-- The names that `add_device` is called with for the value of the variable. -/
def readNetHosts (env : List UInt8) : Except CopyFault (List (List UInt8)) :=
  hostsLoop (env.length + 2) { copy := env ++ [0], next := some 0, added := [] }

/-! ## What it is for -/

/-- The entries of a text behind the `entry` so far. -/
def entriesFrom (inside : Bool) (entry : List UInt8) : List UInt8 → List (List UInt8)
  | [] => [entry]
  | c :: text =>
      if c = 91 then entriesFrom true entry text
      else if c = 93 then entriesFrom false entry text
      else if c = 58 ∧ inside = false then entry :: entriesFrom false [] text
      else entriesFrom inside (entry ++ [c]) text

/-- The entries between the colons outside of brackets, without the brackets. -/
def hostEntries (text : List UInt8) : List (List UInt8) :=
  (entriesFrom false [] text).filter (· ≠ [])

/-- No character is a bracket. -/
def Bare (text : List UInt8) : Prop := 91 ∉ text ∧ 93 ∉ text

/-- A name without colons, or an address with colons in brackets. -/
inductive HostItem : List UInt8 → Prop where
  | name {text : List UInt8} : Bare text → 58 ∉ text → HostItem text
  | address {text : List UInt8} : Bare text → 58 ∈ text → HostItem (91 :: (text ++ [93]))

/-- Names and addresses in brackets, with colons between them. -/
inductive HostList : List UInt8 → Prop where
  | last {item : List UInt8} : HostItem item → HostList item
  | more {item text : List UInt8} : HostItem item → HostList text → HostList (item ++ 58 :: text)

/-! ## Texts -/

/-- The entry, unless there is nothing in it. -/
def kept (entry : List UInt8) : List (List UInt8) := if entry = [] then [] else [entry]

/-- Where the loop goes on behind a bracket. -/
def skipColon (text : List UInt8) : List UInt8 :=
  if text.head? = some 58 then text.tail else text

/-- The names that the loop adds for a text, if it comes to the end of it. -/
inductive Adds : List UInt8 → List (List UInt8) → Prop where
  | last {text : List UInt8} : text.head? ≠ some 91 → 58 ∉ text → Adds text (kept text)
  | name {entry rest : List UInt8} {names : List (List UInt8)} :
      (entry ++ 58 :: rest).head? ≠ some 91 → 58 ∉ entry → Adds rest names →
      Adds (entry ++ 58 :: rest) (kept entry ++ names)
  | address {entry more behind : List UInt8} {names : List (List UInt8)} :
      58 ∉ entry → 93 ∉ more → Adds (skipColon behind) names →
      Adds (91 :: (entry ++ 58 :: (more ++ 93 :: behind))) ((entry ++ 58 :: more) :: names)

section Texts

variable {text entry rest more behind : List UInt8}

/-- The ways a text can go on. -/
inductive TextCase : List UInt8 → Prop where
  | last {text : List UInt8} : text.head? ≠ some 91 → 58 ∉ text → TextCase text
  | name {entry rest : List UInt8} : (entry ++ 58 :: rest).head? ≠ some 91 → 58 ∉ entry →
      TextCase (entry ++ 58 :: rest)
  | noColon {text : List UInt8} : 58 ∉ text → TextCase (91 :: text)
  | unclosed {entry rest : List UInt8} : 58 ∉ entry → 93 ∉ rest →
      TextCase (91 :: (entry ++ 58 :: rest))
  | address {entry more behind : List UInt8} : 58 ∉ entry → 93 ∉ more →
      TextCase (91 :: (entry ++ 58 :: (more ++ 93 :: behind)))

theorem textCase (text : List UInt8) : TextCase text := by
  by_cases hhead : text.head? = some 91
  · obtain ⟨text, rfl⟩ := List.head?_eq_some_iff.mp hhead
    obtain ⟨hcolon, -⟩ | ⟨entry, rest, hentry, rfl, -⟩ := field_cases 58 text
    · exact .noColon hcolon
    · obtain ⟨hbracket, -⟩ | ⟨more, behind, hmore, rfl, -⟩ := field_cases 93 rest
      · exact .unclosed hentry hbracket
      · exact .address hentry hmore
  · obtain ⟨hcolon, -⟩ | ⟨entry, rest, hentry, rfl, -⟩ := field_cases 58 text
    · exact .last hhead hcolon
    · exact .name hhead hentry

/-! ## Entries -/

theorem entriesFrom_nil (inside : Bool) (entry : List UInt8) :
    entriesFrom inside entry [] = [entry] := rfl

theorem entriesFrom_cons (inside : Bool) (entry : List UInt8) (c : UInt8) (text : List UInt8) :
    entriesFrom inside entry (c :: text) =
      if c = 91 then entriesFrom true entry text
      else if c = 93 then entriesFrom false entry text
      else if c = 58 ∧ inside = false then entry :: entriesFrom false [] text
      else entriesFrom inside (entry ++ [c]) text := rfl

theorem entriesFrom_bare (hbare : Bare text) (hcolon : 58 ∉ text) (entry rest : List UInt8)
    (inside : Bool) :
    entriesFrom inside entry (text ++ rest) = entriesFrom inside (entry ++ text) rest := by
  induction text generalizing entry with
  | nil => rw [List.nil_append, List.append_nil]
  | cons c text ih =>
      obtain ⟨hopen, hclose⟩ := hbare
      rw [List.mem_cons, not_or] at hopen hclose hcolon
      rw [List.cons_append, entriesFrom_cons, if_neg (Ne.symm hopen.1), if_neg (Ne.symm hclose.1),
        if_neg (fun h => hcolon.1 h.1.symm), ih ⟨hopen.2, hclose.2⟩ hcolon.2, List.append_assoc]
      rfl

/-- Inside brackets, colons are kept. -/
theorem entriesFrom_inside (hbare : Bare text) (entry rest : List UInt8) :
    entriesFrom true entry (text ++ rest) = entriesFrom true (entry ++ text) rest := by
  induction text generalizing entry with
  | nil => rw [List.nil_append, List.append_nil]
  | cons c text ih =>
      obtain ⟨hopen, hclose⟩ := hbare
      rw [List.mem_cons, not_or] at hopen hclose
      rw [List.cons_append, entriesFrom_cons, if_neg (Ne.symm hopen.1), if_neg (Ne.symm hclose.1),
        if_neg (fun h => absurd h.2 (by decide)), ih ⟨hopen.2, hclose.2⟩, List.append_assoc]
      rfl

theorem entriesFrom_address (hbare : Bare text) (rest : List UInt8) :
    entriesFrom false [] (91 :: (text ++ 93 :: rest)) = entriesFrom false text rest := by
  rw [entriesFrom_cons, if_pos rfl, entriesFrom_inside hbare, List.nil_append]
  rfl

theorem entriesFrom_colon (entry rest : List UInt8) :
    entriesFrom false entry (58 :: rest) = entry :: entriesFrom false [] rest := rfl

/-- What was collected before comes in front of the first entry. -/
theorem entriesFrom_append (inside : Bool) (before entry text : List UInt8) :
    entriesFrom inside (before ++ entry) text =
      (entriesFrom inside entry text).modifyHead (before ++ ·) := by
  induction text generalizing inside entry with
  | nil => rfl
  | cons c text ih =>
      rw [entriesFrom_cons, entriesFrom_cons]
      split_ifs
      · exact ih true entry
      · exact ih false entry
      · rfl
      · rw [List.append_assoc]
        exact ih inside (entry ++ [c])

theorem entriesFrom_ne_nil (inside : Bool) (entry text : List UInt8) :
    entriesFrom inside entry text ≠ [] := by
  induction text generalizing inside entry with
  | nil => exact List.cons_ne_nil _ _
  | cons c text ih =>
      rw [entriesFrom_cons]
      split_ifs
      · exact ih true entry
      · exact ih false entry
      · exact List.cons_ne_nil _ _
      · exact ih inside _

/-- Entries have no brackets. -/
theorem bare_of_mem {inside : Bool} (hentry : Bare entry) {e : List UInt8}
    (he : e ∈ entriesFrom inside entry text) : Bare e := by
  induction text generalizing inside entry with
  | nil =>
      rw [entriesFrom_nil, List.mem_singleton] at he
      rw [he]
      exact hentry
  | cons c text ih =>
      rw [entriesFrom_cons] at he
      split_ifs at he with hopen hclose hcolon
      · exact ih hentry he
      · exact ih hentry he
      · obtain rfl | hrest := List.mem_cons.mp he
        · exact hentry
        · exact ih ⟨List.not_mem_nil, List.not_mem_nil⟩ hrest
      · refine ih ⟨fun h => ?_, fun h => ?_⟩ he
        · obtain hold | hnew := List.mem_append.mp h
          · exact hentry.1 hold
          · exact hopen (List.mem_singleton.mp hnew).symm
        · obtain hold | hnew := List.mem_append.mp h
          · exact hentry.2 hold
          · exact hclose (List.mem_singleton.mp hnew).symm

theorem bare_of_mem_hostEntries (h : entry ∈ hostEntries text) : Bare entry :=
  bare_of_mem ⟨List.not_mem_nil, List.not_mem_nil⟩ (List.mem_of_mem_filter h)

theorem filter_cons_kept (entry : List UInt8) (entries : List (List UInt8)) :
    (entry :: entries).filter (· ≠ []) = kept entry ++ entries.filter (· ≠ []) := by
  unfold kept
  by_cases h : entry = []
  · rw [List.filter_cons_of_neg (by simpa using h), if_pos h, List.nil_append]
  · rw [List.filter_cons_of_pos (by simpa using h), if_neg h]
    rfl

theorem hostEntries_name (hbare : Bare entry) (hcolon : 58 ∉ entry) (rest : List UInt8) :
    hostEntries (entry ++ 58 :: rest) = kept entry ++ hostEntries rest := by
  rw [hostEntries, entriesFrom_bare hbare hcolon, List.nil_append, entriesFrom_colon,
    filter_cons_kept]
  rfl

theorem hostEntries_last (hbare : Bare text) (hcolon : 58 ∉ text) :
    hostEntries text = kept text := by
  have hentries := entriesFrom_bare hbare hcolon [] [] false
  rw [List.append_nil, List.nil_append] at hentries
  rw [hostEntries, hentries]
  exact (filter_cons_kept text []).trans (List.append_nil _)

theorem hostEntries_address (hbare : Bare text) (hne : text ≠ []) (rest : List UInt8) :
    hostEntries (91 :: (text ++ 93 :: 58 :: rest)) = text :: hostEntries rest := by
  rw [hostEntries, entriesFrom_address hbare, entriesFrom_colon, filter_cons_kept, kept,
    if_neg hne]
  rfl

theorem hostEntries_lastAddress (hbare : Bare text) (hne : text ≠ []) :
    hostEntries (91 :: (text ++ [93])) = [text] := by
  rw [hostEntries, entriesFrom_address hbare, entriesFrom_nil, filter_cons_kept, kept, if_neg hne]
  rfl

/-! ## When the names are the entries -/

theorem bare_of_kept (h : kept entry ⊆ hostEntries text) : Bare entry := by
  unfold kept at h
  by_cases hnil : entry = []
  · rw [hnil]
    exact ⟨List.not_mem_nil, List.not_mem_nil⟩
  · rw [if_neg hnil] at h
    exact bare_of_mem_hostEntries (h (List.mem_singleton_self _))

/-- The first entry of a list that does not start with a colon has something in it. -/
theorem HostList.first_ne_nil (h : HostList text) (hne : text ≠ []) (hhead : text.head? ≠ some 58) :
    ∃ first entries, entriesFrom false [] text = first :: entries ∧ first ≠ [] := by
  have hitem : ∀ item behind : List UInt8, HostItem item → (item ++ behind).head? ≠ some 58 →
      item ++ behind ≠ [] → (behind = [] ∨ ∃ rest, behind = 58 :: rest) →
      ∃ first entries, entriesFrom false [] (item ++ behind) = first :: entries ∧ first ≠ [] := by
    intro item behind hitem hhead hne hbehind
    cases hitem with
    | name hbare hcolon =>
        rw [entriesFrom_bare hbare hcolon, List.nil_append]
        have hname : item ≠ [] := by
          rintro rfl
          obtain rfl | ⟨rest, rfl⟩ := hbehind
          · exact hne rfl
          · exact hhead rfl
        obtain rfl | ⟨rest, rfl⟩ := hbehind
        · exact ⟨item, [], rfl, hname⟩
        · exact ⟨item, _, rfl, hname⟩
    | @address text hbare hcolon =>
        have htext : text ≠ [] := List.ne_nil_of_mem hcolon
        rw [List.cons_append, List.append_assoc, List.singleton_append, entriesFrom_address hbare]
        obtain rfl | ⟨rest, rfl⟩ := hbehind
        · exact ⟨text, [], rfl, htext⟩
        · exact ⟨text, _, rfl, htext⟩
  cases h with
  | last h =>
      rw [← List.append_nil text] at hhead hne ⊢
      exact hitem text [] h hhead hne (.inl rfl)
  | more h _ => exact hitem _ _ h hhead hne (.inr ⟨_, rfl⟩)

/-- The names of a text are its entries only if all brackets are around addresses. -/
theorem Adds.hostList {names : List (List UInt8)} (h : Adds text names)
    (hnames : names = hostEntries text) : HostList text := by
  induction h with
  | @last text hhead hcolon =>
      have hkept : kept text ⊆ hostEntries text := fun e he => hnames ▸ he
      exact .last (.name (bare_of_kept hkept) hcolon)
  | @name entry rest names hhead hentry _ ih =>
      have hbare : Bare entry := bare_of_kept (hnames ▸ List.subset_append_left _ _)
      rw [hostEntries_name hbare hentry] at hnames
      exact .more (.name hbare hentry) (ih (List.append_cancel_left hnames))
  | @address entry more behind names hentry hmore _ ih =>
      have hbare : Bare (entry ++ 58 :: more) :=
        bare_of_mem_hostEntries (hnames ▸ List.mem_cons_self ..)
      have hcolon : (58 : UInt8) ∈ entry ++ 58 :: more := by simp
      have hne : entry ++ 58 :: more ≠ [] := List.ne_nil_of_mem hcolon
      have hshape : 91 :: (entry ++ 58 :: (more ++ 93 :: behind)) =
          91 :: ((entry ++ 58 :: more) ++ 93 :: behind) := by simp
      rw [hshape] at hnames ⊢
      match behind with
      | [] => exact .last (.address hbare hcolon)
      | c :: rest =>
          by_cases hc : c = 58
          · subst hc
            rw [hostEntries_address hbare hne] at hnames
            have hlist := ih (List.tail_eq_of_cons_eq hnames)
            have hmore : HostList ((91 :: ((entry ++ 58 :: more) ++ [93])) ++ 58 :: rest) :=
              .more (.address hbare hcolon) hlist
            simpa using hmore
          · have hskip : skipColon (c :: rest) = c :: rest :=
              if_neg fun h => hc (Option.some.inj h)
            rw [hskip] at ih
            rw [hostEntries, entriesFrom_address hbare, ← List.append_nil (entry ++ 58 :: more),
              entriesFrom_append] at hnames
            obtain ⟨first, entries, hfirst⟩ := List.exists_cons_of_ne_nil
              (entriesFrom_ne_nil false [] (c :: rest))
            rw [hfirst, List.modifyHead_cons, List.filter_cons_of_pos (by simp)] at hnames
            obtain ⟨hhead, htail⟩ := List.cons_eq_cons.mp hnames
            have hnil : first = [] := by
              rw [List.append_nil] at hhead
              exact List.append_cancel_left (hhead.symm.trans (List.append_nil _).symm)
            -- the text behind the bracket is no list of its own
            have hrest : names = hostEntries (c :: rest) := by
              rw [htail, hostEntries, hfirst, hnil]
              rfl
            obtain ⟨first', entries', hfirst', hne'⟩ := (ih hrest).first_ne_nil
              (List.cons_ne_nil _ _) fun h => hc (Option.some.inj h)
            rw [hfirst] at hfirst'
            exact absurd hnil ((List.cons_eq_cons.mp hfirst').1 ▸ hne')

theorem head_ne_of_bare (hbare : Bare entry) (rest : List UInt8) :
    (entry ++ 58 :: rest).head? ≠ some 91 := by
  cases entry with
  | nil => exact fun h => by cases h
  | cons c entry =>
      intro h
      rw [List.cons_append, List.head?_cons] at h
      exact hbare.1 ((Option.some.inj h) ▸ List.mem_cons_self ..)

/-- An address in brackets is taken as a whole. -/
theorem Adds.of_address {names : List (List UInt8)} (hbare : Bare text) (hcolon : 58 ∈ text)
    (h : Adds (skipColon behind) names) : Adds (91 :: (text ++ 93 :: behind)) (text :: names) := by
  obtain ⟨entry, more, rfl, hentry⟩ := List.eq_append_cons_of_mem hcolon
  have hmore : (93 : UInt8) ∉ more := fun hmem => hbare.2 (by simp [hmem])
  have hadds := Adds.address hentry hmore h
  simpa using hadds

theorem HostList.adds (h : HostList text) : Adds text (hostEntries text) := by
  induction h with
  | @last item hitem =>
      cases hitem with
      | name hbare hcolon =>
          rw [hostEntries_last hbare hcolon]
          refine .last (fun hhead => ?_) hcolon
          exact hbare.1 (List.mem_of_mem_head? hhead)
      | address hbare hcolon =>
          rw [hostEntries_lastAddress hbare (List.ne_nil_of_mem hcolon)]
          exact .of_address hbare hcolon (.last (fun h => by cases h) List.not_mem_nil)
  | @more item rest hitem _ ih =>
      cases hitem with
      | name hbare hcolon =>
          rw [hostEntries_name hbare hcolon]
          exact .name (head_ne_of_bare hbare rest) hcolon ih
      | @address text hbare hcolon =>
          have hadds := @Adds.of_address text (58 :: rest) _ hbare hcolon ih
          rw [← hostEntries_address hbare (List.ne_nil_of_mem hcolon)] at hadds
          simpa using hadds

end Texts

/-! ## The copy -/

section Copy

variable {copy cut str before after more behind text entry rest : List UInt8} {p : Nat}
  {c delim : UInt8} {added : List (List UInt8)} {fuel : Nat}

theorem loadChar_eq (hcopy : copy = cut ++ c :: after) (hp : p = cut.length) :
    loadChar copy p = .ok c := by
  rw [loadChar, hcopy, hp, List.getElem?_append_right (Nat.le_refl _), Nat.sub_self]
  rfl

theorem storeChar_eq (hcopy : copy = cut ++ c :: after) (hp : p = cut.length) (value : UInt8) :
    storeChar copy p value = .ok (cut ++ value :: after) := by
  rw [storeChar, if_pos (by rw [hcopy, hp]; simp), hcopy, hp,
    List.set_append_right _ _ (Nat.le_refl _), Nat.sub_self]
  rfl

theorem stringAt_eq (hcopy : copy = cut ++ (str ++ 0 :: after)) (hp : p = cut.length)
    (hstr : 0 ∉ str) : stringAt copy p = .ok str := by
  rw [stringAt, hcopy, hp, List.drop_left, if_pos (by simp), takeWhile_ne hstr]

theorem idxOf_eq (h : delim ∉ before) : (before ++ delim :: after).idxOf delim = before.length := by
  rw [List.idxOf_append_of_notMem h, List.idxOf_cons_self, Nat.add_zero]

theorem strsep_found (hcopy : copy = cut ++ ((before ++ delim :: rest) ++ 0 :: after))
    (hp : p = cut.length) (hstr : 0 ∉ before ++ delim :: rest) (hbefore : delim ∉ before) :
    strsep copy (some p) delim = .ok (some p, cut ++ (before ++ 0 :: (rest ++ 0 :: after)),
      some (p + before.length + 1)) := by
  have hstore : storeChar copy (p + before.length) 0 = .ok ((cut ++ before) ++ 0 ::
      (rest ++ 0 :: after)) :=
    @storeChar_eq _ (cut ++ before) _ _ delim (by rw [hcopy]; simp)
      (by rw [hp, List.length_append]) 0
  rw [strsep, stringAt_eq hcopy hp hstr, ok_bind, if_pos (by simp), idxOf_eq hbefore]
  dsimp only
  rw [hstore, ok_bind, List.append_assoc]

theorem strsep_absent (hcopy : copy = cut ++ (str ++ 0 :: after)) (hp : p = cut.length)
    (hstr : 0 ∉ str) (hdelim : delim ∉ str) :
    strsep copy (some p) delim = .ok (some p, copy, none) := by
  rw [strsep, stringAt_eq hcopy hp hstr, ok_bind, if_neg hdelim]

theorem addName_eq (hcopy : copy = cut ++ (entry ++ 0 :: after)) (hp : p = cut.length)
    (hentry : 0 ∉ entry) (added : List (List UInt8)) :
    addName copy p added = .ok (added ++ kept entry) := by
  unfold addName kept
  cases entry with
  | nil =>
      rw [loadChar_eq hcopy hp, ok_bind, if_pos rfl, if_pos rfl, List.append_nil]
  | cons c entry =>
      rw [List.mem_cons, not_or] at hentry
      rw [@loadChar_eq copy cut _ p c hcopy hp, ok_bind, if_neg (Ne.symm hentry.1),
        stringAt_eq hcopy hp (List.not_mem_cons_of_ne_of_not_mem hentry.1 hentry.2), ok_bind,
        if_neg (List.cons_ne_nil _ _)]

/-- The first character of a text, or the terminator behind it. -/
theorem readHost_plain {next : Option Nat} (hcopy : copy = cut ++ (entry ++ 0 :: after))
    (hp : p = cut.length) (hhead : entry.head? ≠ some 91) :
    readHost copy p next = .ok (p, copy, next) := by
  unfold readHost
  cases entry with
  | nil =>
      rw [loadChar_eq hcopy hp, ok_bind]
      rfl
  | cons c entry =>
      rw [@loadChar_eq copy cut _ p c hcopy hp, ok_bind,
        if_neg fun h : c = 91 => hhead (congrArg some h)]

theorem readHost_bracket {next : Option Nat} (hcopy : copy = cut ++ (91 :: entry ++ after)) :
    readHost copy cut.length next = readAddress copy cut.length next := by
  rw [readHost, @loadChar_eq copy cut (entry ++ after) _ 91 hcopy rfl, ok_bind, if_pos rfl]

theorem not_mem_bracket (h : 58 ∉ entry) : (58 : UInt8) ∉ 91 :: entry := by
  rw [List.mem_cons, not_or]
  exact ⟨by decide, h⟩

/-- The state when the loop has come to a text that is left. -/
def stateAt (cut text : List UInt8) (added : List (List UInt8)) : HostsState :=
  { copy := cut ++ (text ++ [0]), next := some cut.length, added := added }

theorem hostsTurn_last (hhead : text.head? ≠ some 91) (hcolon : 58 ∉ text) (htext : 0 ∉ text) :
    hostsTurn (stateAt cut text added) =
      .ok (some ⟨cut ++ (text ++ [0]), none, added ++ kept text⟩) := by
  rw [hostsTurn, stateAt, strsep_absent rfl rfl htext hcolon, ok_bind]
  dsimp only
  rw [readHost_plain rfl rfl hhead, ok_bind]
  dsimp only
  rw [addName_eq rfl rfl htext, ok_bind]

theorem hostsTurn_name (hhead : (entry ++ 58 :: rest).head? ≠ some 91) (hentry : 58 ∉ entry)
    (htext : 0 ∉ entry ++ 58 :: rest) :
    ∃ cut', hostsTurn (stateAt cut (entry ++ 58 :: rest) added) =
      .ok (some (stateAt cut' rest (added ++ kept entry))) := by
  have hzero : (0 : UInt8) ∉ entry := fun h => htext (List.mem_append_left _ h)
  have hplain : entry.head? ≠ some 91 := by
    cases entry with
    | nil => exact fun h => by cases h
    | cons c entry => exact hhead
  refine ⟨cut ++ (entry ++ [0]), ?_⟩
  rw [hostsTurn, stateAt, strsep_found rfl rfl htext hentry, ok_bind]
  dsimp only
  rw [readHost_plain rfl rfl hplain, ok_bind]
  dsimp only
  rw [addName_eq rfl rfl hzero, ok_bind, stateAt]
  simp [Nat.add_assoc]

/-- A bracket without a colon behind it. -/
theorem hostsTurn_noColon (hcolon : 58 ∉ text) (htext : 0 ∉ 91 :: text) :
    hostsTurn (stateAt cut (91 :: text) added) = .error .nullPointer := by
  have hzero : (0 : UInt8) ∉ text := fun h => htext (List.mem_cons_of_mem _ h)
  have hstring : stringAt (cut ++ (91 :: text ++ [0])) (cut.length + 1) = .ok text :=
    @stringAt_eq _ (cut ++ [91]) text [] _ (by simp) (by simp) hzero
  have hstore : storeChar (cut ++ (91 :: text ++ [0])) (cut.length + 1 + text.length) 58 =
      .ok ((cut ++ 91 :: text) ++ [58]) :=
    @storeChar_eq _ (cut ++ 91 :: text) _ _ 0 (by simp) (by simp; omega) 58
  rw [hostsTurn, stateAt, strsep_absent rfl rfl htext (not_mem_bracket hcolon), ok_bind]
  dsimp only
  rw [readHost_bracket rfl, readAddress, strsep, ok_bind]
  dsimp only
  rw [hstring, ok_bind, hstore, ok_bind]
  rfl

/-- The address between a bracket and the first colon, once the colon is written back. -/
theorem address_restored (hentry : 58 ∉ entry) (htext : 0 ∉ 91 :: (entry ++ 58 :: rest)) :
    strsep (cut ++ (91 :: (entry ++ 58 :: rest) ++ [0])) (some cut.length) 58 =
        .ok (some cut.length, cut ++ (91 :: entry ++ 0 :: (rest ++ [0])),
          some (cut.length + (entry.length + 1) + 1)) ∧
      ∀ behind, stringAt (cut ++ (91 :: entry ++ 0 :: behind)) (cut.length + 1) = .ok entry ∧
        storeChar (cut ++ (91 :: entry ++ 0 :: behind)) (cut.length + 1 + entry.length) 58 =
          .ok (cut ++ 91 :: entry ++ 58 :: behind) := by
  have hzero : (0 : UInt8) ∉ entry := fun h => htext (by simp [h])
  refine ⟨?_, fun behind => ⟨?_, ?_⟩⟩
  · rw [← List.cons_append] at htext ⊢
    exact strsep_found rfl rfl htext (not_mem_bracket hentry)
  · exact @stringAt_eq _ (cut ++ [91]) entry behind _ (by simp) (by simp) hzero
  · exact @storeChar_eq _ (cut ++ 91 :: entry) behind _ 0 (by simp) (by simp; omega) 58

/-- No bracket behind the colon. -/
theorem hostsTurn_unclosed (hentry : 58 ∉ entry) (hrest : 93 ∉ rest)
    (htext : 0 ∉ 91 :: (entry ++ 58 :: rest)) :
    hostsTurn (stateAt cut (91 :: (entry ++ 58 :: rest)) added) = .error .nullPointer := by
  have hzero : (0 : UInt8) ∉ rest := fun h => htext (by simp [h])
  obtain ⟨hfound, hrestored⟩ := @address_restored cut entry rest hentry htext
  obtain ⟨hstring, hstore⟩ := hrestored (rest ++ [0])
  have habsent : strsep (cut ++ (91 :: entry ++ 0 :: (rest ++ [0])))
      (some (cut.length + (entry.length + 1) + 1)) 93 = .ok (_, _, none) :=
    @strsep_absent _ (cut ++ (91 :: entry ++ [0])) rest [] _ _ (by simp) (by simp; omega) hzero hrest
  rw [hostsTurn, stateAt, hfound, ok_bind]
  dsimp only
  rw [readHost_bracket rfl, readAddress, habsent, ok_bind]
  dsimp only
  rw [hstring, ok_bind, hstore, ok_bind]
  rfl

/-- A colon behind a bracket is skipped. -/
theorem skipColon_state (cut behind : List UInt8) (added : List (List UInt8)) :
    ∃ c, loadChar (cut ++ (behind ++ [0])) cut.length = .ok c ∧
      ∃ cut', (⟨cut ++ (behind ++ [0]), some (if c = 58 then cut.length + 1 else cut.length),
        added⟩ : HostsState) = stateAt cut' (skipColon behind) added := by
  cases behind with
  | nil => exact ⟨0, loadChar_eq rfl rfl, cut, rfl⟩
  | cons c behind =>
      refine ⟨c, @loadChar_eq _ cut (behind ++ [0]) _ c rfl rfl, ?_⟩
      by_cases hc : c = 58
      · refine ⟨cut ++ [58], ?_⟩
        rw [hc, stateAt, skipColon, if_pos rfl]
        simp
      · refine ⟨cut, ?_⟩
        have hskip : skipColon (c :: behind) = c :: behind :=
          if_neg fun h => hc (Option.some.inj h)
        rw [if_neg hc, hskip]
        rfl

/-- An address between brackets. -/
theorem hostsTurn_address (hentry : 58 ∉ entry) (hmore : 93 ∉ more)
    (htext : 0 ∉ 91 :: (entry ++ 58 :: (more ++ 93 :: behind))) :
    ∃ cut', hostsTurn (stateAt cut (91 :: (entry ++ 58 :: (more ++ 93 :: behind))) added) =
      .ok (some (stateAt cut' (skipColon behind) (added ++ [entry ++ 58 :: more]))) := by
  have hzero : (0 : UInt8) ∉ more ++ 93 :: behind := fun h => htext (by simp_all)
  have haddress : (0 : UInt8) ∉ entry ++ 58 :: more := fun h => htext (by simp_all)
  obtain ⟨hfound, hrestored⟩ := @address_restored cut entry (more ++ 93 :: behind) hentry htext
  obtain ⟨hstring, hstore⟩ := hrestored (more ++ 0 :: (behind ++ [0]))
  have hclose : strsep (cut ++ (91 :: entry ++ 0 :: (more ++ 93 :: behind ++ [0])))
      (some (cut.length + (entry.length + 1) + 1)) 93 =
      .ok (some (cut.length + (entry.length + 1) + 1),
        cut ++ (91 :: entry ++ 0 :: (more ++ 0 :: (behind ++ [0]))),
        some (cut.length + (entry.length + 1) + 1 + more.length + 1)) := by
    have hfound := @strsep_found (cut ++ (91 :: entry ++ 0 :: (more ++ 93 :: behind ++ [0])))
      (cut ++ (91 :: entry ++ [0])) more [] behind (cut.length + (entry.length + 1) + 1) 93
      (by simp) (by simp; omega) hzero hmore
    rw [hfound]
    simp
  have hname : addName (cut ++ 91 :: entry ++ 58 :: (more ++ 0 :: (behind ++ [0])))
      (cut.length + 1) added = .ok (added ++ [entry ++ 58 :: more]) := by
    have hkept : kept (entry ++ 58 :: more) = [entry ++ 58 :: more] := if_neg (by simp)
    rw [@addName_eq _ (cut ++ [91]) (behind ++ [0]) (entry ++ 58 :: more) _ (by simp) (by simp)
      haddress, hkept]
  obtain ⟨p, hload, cut', hstate⟩ := skipColon_state (cut ++ (91 :: entry ++ 58 :: (more ++ [0])))
    behind (added ++ [entry ++ 58 :: more])
  have hcopy : cut ++ (91 :: entry ++ 58 :: (more ++ [0])) ++ (behind ++ [0]) =
      cut ++ 91 :: entry ++ 58 :: (more ++ 0 :: (behind ++ [0])) := by simp
  have hlength : (cut ++ (91 :: entry ++ 58 :: (more ++ [0]))).length =
      cut.length + (entry.length + 1) + 1 + more.length + 1 := by
    simp
    omega
  rw [hcopy, hlength] at hload hstate
  refine ⟨cut', ?_⟩
  rw [hostsTurn, stateAt, hfound, ok_bind]
  dsimp only
  rw [readHost_bracket rfl, readAddress, hclose, ok_bind]
  dsimp only
  rw [hstring, ok_bind, hstore, ok_bind, hload, ok_bind, ok_bind]
  dsimp only
  rw [hname, ok_bind, hstate]

/-! ## Runs -/

theorem hostsLoop_turn {st st' : HostsState} (h : hostsTurn st = .ok (some st')) :
    hostsLoop (fuel + 1) st = hostsLoop fuel st' := by
  rw [hostsLoop, h, ok_bind]

theorem hostsLoop_fails {st : HostsState} (h : hostsTurn st = .error .nullPointer) :
    hostsLoop (fuel + 1) st = .error .nullPointer := by
  rw [hostsLoop, h]
  rfl

/-- Behind the last entry the loop ends. -/
theorem hostsLoop_last (hhead : text.head? ≠ some 91) (hcolon : 58 ∉ text) (htext : 0 ∉ text) :
    hostsLoop (fuel + 2) (stateAt cut text added) = .ok (added ++ kept text) := by
  rw [hostsLoop_turn (hostsTurn_last hhead hcolon htext)]
  rfl

theorem not_mem_skipColon {c : UInt8} (h : c ∉ text) : c ∉ skipColon text := by
  unfold skipColon
  split_ifs
  · exact fun hmem => h (List.mem_of_mem_tail hmem)
  · exact h

theorem length_skipColon (text : List UInt8) : (skipColon text).length ≤ text.length := by
  unfold skipColon
  split_ifs
  · rw [List.length_tail]
    exact Nat.sub_le _ _
  · exact Nat.le_refl _

/-- The loop adds the names of a text that it comes to the end of. -/
theorem Adds.hostsLoop {names : List (List UInt8)} (h : Adds text names) (htext : 0 ∉ text)
    (hfuel : text.length + 2 ≤ fuel) :
    hostsLoop fuel (stateAt cut text added) = .ok (added ++ names) := by
  induction h generalizing cut added fuel with
  | last hhead hcolon =>
      obtain ⟨fuel, rfl⟩ := Nat.exists_eq_add_of_le' hfuel
      exact hostsLoop_last hhead hcolon htext
  | @name entry rest names hhead hentry _ ih =>
      rw [List.length_append, List.length_cons] at hfuel
      obtain ⟨fuel, rfl⟩ := Nat.exists_eq_add_of_le' (show 1 ≤ fuel by omega)
      obtain ⟨cut', hturn⟩ := @hostsTurn_name cut entry rest added hhead hentry htext
      rw [hostsLoop_turn hturn, ih (fun hmem => htext (by simp [hmem])) (by omega),
        List.append_assoc]
  | @address entry more behind names hentry hmore _ ih =>
      simp only [List.length_append, List.length_cons] at hfuel
      obtain ⟨fuel, rfl⟩ := Nat.exists_eq_add_of_le' (show 1 ≤ fuel by omega)
      obtain ⟨cut', hturn⟩ := @hostsTurn_address cut more behind entry added hentry hmore htext
      have hskip := length_skipColon behind
      rw [hostsLoop_turn hturn, ih (not_mem_skipColon fun hmem => htext (by simp [hmem])) (by omega),
        List.append_assoc]
      rfl

/-- What the loop adds if it follows no null pointer. -/
theorem adds_of_hostsLoop (n : Nat) : ∀ {text cut : List UInt8} {added names : List (List UInt8)}
    {fuel : Nat}, text.length = n → 0 ∉ text → n + 2 ≤ fuel →
    hostsLoop fuel (stateAt cut text added) = .ok names →
    ∃ names', names = added ++ names' ∧ Adds text names' := by
  induction n using Nat.strong_induction_on with
  | h n ih =>
      intro text cut added names fuel hn htext hfuel hrun
      obtain ⟨fuel, rfl⟩ := Nat.exists_eq_add_of_le' (show 2 ≤ fuel by omega)
      cases textCase text with
      | last hhead hcolon =>
          rw [hostsLoop_last hhead hcolon htext] at hrun
          exact ⟨_, (Except.ok.inj hrun).symm, .last hhead hcolon⟩
      | @name entry rest hhead hentry =>
          obtain ⟨cut', hturn⟩ := @hostsTurn_name cut entry rest added hhead hentry htext
          rw [List.length_append, List.length_cons] at hn
          rw [hostsLoop_turn hturn] at hrun
          obtain ⟨names', hnames, hadds⟩ := ih rest.length (by omega) rfl
            (fun hmem => htext (by simp [hmem])) (by omega) hrun
          exact ⟨kept entry ++ names', by rw [hnames, List.append_assoc],
            .name hhead hentry hadds⟩
      | noColon hcolon =>
          rw [hostsLoop_fails (hostsTurn_noColon hcolon htext)] at hrun
          cases hrun
      | unclosed hentry hrest =>
          rw [hostsLoop_fails (hostsTurn_unclosed hentry hrest htext)] at hrun
          cases hrun
      | @address entry more behind hentry hmore =>
          obtain ⟨cut', hturn⟩ := @hostsTurn_address cut more behind entry added hentry hmore htext
          simp only [List.length_append, List.length_cons] at hn
          have hskip := length_skipColon behind
          rw [hostsLoop_turn hturn] at hrun
          obtain ⟨names', hnames, hadds⟩ := ih (skipColon behind).length (by omega) rfl
            (not_mem_skipColon fun hmem => htext (by simp [hmem])) (by omega) hrun
          exact ⟨(entry ++ 58 :: more) :: names', by rw [hnames, List.append_assoc]; rfl,
            .address hentry hmore hadds⟩

end Copy

/-- The entries of the variable are added, without following a null pointer or leaving the copy,
just if it is a list of names without brackets and addresses with colons in brackets. -/
theorem readNetHosts_iff {env : List UInt8} (henv : 0 ∉ env) :
    readNetHosts env = .ok (hostEntries env) ↔ HostList env := by
  constructor
  · intro hrun
    obtain ⟨names, hnames, hadds⟩ :=
      @adds_of_hostsLoop env.length env [] [] _ _ rfl henv (Nat.le_refl _) hrun
    exact hadds.hostList hnames.symm
  · intro h
    exact @Adds.hostsLoop [] env [] _ _ h.adds henv (Nat.le_refl _)

theorem readNetHosts_iff_twoHosts :
    readNetHosts [104, 58, 91, 58, 58, 49, 93] = .ok (hostEntries [104, 58, 91, 58, 58, 49, 93]) ↔
      HostList [104, 58, 91, 58, 58, 49, 93] := by
  have henv : (0 : UInt8) ∉ [104, 58, 91, 58, 58, 49, 93] := by decide
  exact readNetHosts_iff henv

/-- A host name in brackets. -/
theorem not_readNetHosts_bracketName :
    readNetHosts [91, 104, 93] = .error .nullPointer ∧
      ¬ readNetHosts [91, 104, 93] = .ok (hostEntries [91, 104, 93]) := by
  have hrun : readNetHosts [91, 104, 93] = .error .nullPointer := by decide
  exact ⟨hrun, fun h => by rw [hrun] at h; cases h⟩

end SaneBackends.Net
