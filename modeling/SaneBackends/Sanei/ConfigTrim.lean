import SaneBackends.Sanei.Config
/-!
# `sanei_config_read`: the buffer

The same function on the cells of its buffer. The loop that moves a line to the left looks for the end
in the place it writes to, not in the place it reads from.
-/

namespace SaneBackends.Sanei.ConfigTrim

open SaneBackends.Lib

/-- The memory from `str` on. All reads so far are below `reach`. -/
structure Buffer where
  cell : Nat → UInt8
  reach : Nat := 0

namespace Buffer

def read (b : Buffer) (i : Nat) : UInt8 × Buffer :=
  (b.cell i, { b with reach := max b.reach (i + 1) })

def write (b : Buffer) (i : Nat) (c : UInt8) : Buffer :=
  { b with cell := Function.update b.cell i c }

/-- What `fgets` leaves: its bytes, a terminator, and what was there before. -/
def filled (old : Nat → UInt8) (chunk : List UInt8) : Buffer where
  cell i := if i ≤ chunk.length then chunk.getD i 0 else old i

end Buffer

/-- The index of the first byte that the loop stops at; `none` if it is not done after so many. -/
def scan (stop : UInt8 → Bool) : Nat → Nat → Buffer → Option (Nat × Buffer)
  | 0, _, _ => none
  | fuel + 1, i, b =>
      let (c, b) := b.read i
      if stop c then some (i, b) else scan stop fuel (i + 1) b

/-- remove ending whitespaces -/
def trimEnd : Nat → Buffer → Buffer
  | 0, b => b
  | len + 1, b =>
      let (c, b) := b.read len
      if isspace c then trimEnd len (b.write len 0) else b

/-- `do *str++ = *start++; while (*str)`; `none` if it is not done after so many passes. -/
def moveDown : Nat → Nat → Nat → Buffer → Option Buffer
  | 0, _, _, _ => none
  | fuel + 1, str, start, b =>
      let (c, b) := b.read start
      let (c', b) := (b.write str c).read (str + 1)
      if c' = 0 then some b else moveDown fuel (str + 1) (start + 1) b

/-- What is done to the line; no loop makes more than `n` passes. -/
def trimLine (n : Nat) (b : Buffer) : Option Buffer := do
  let (len, b) ← scan (· = 0) n 0 b
  let b := trimEnd len b
  let (start, b) ← scan (fun c => !isspace c) n 0 b
  if start ≠ 0 then moveDown n 0 start b else some b

inductive ConfigRead where
  | null
  | line (b : Buffer) (rest : List UInt8)
  | endless

/-- `sanei_config_read`, for what was in the buffer before. -/
def saneiConfigRead (n : Nat) (old : Nat → UInt8) (stream : List UInt8) : ConfigRead :=
  match fgets n stream with
  | none => .null
  | some (chunk, rest) =>
      match trimLine n (.filled old chunk) with
      | none => .endless
      | some b => .line b rest

/-! ## What is to hold -/

/-- These bytes stand from an index on. -/
def Shows (cell : Nat → UInt8) : Nat → List UInt8 → Prop
  | _, [] => True
  | i, c :: str => cell i = c ∧ Shows cell (i + 1) str

/-- A C string from an index on. -/
structure Holds (cell : Nat → UInt8) (i : Nat) (str : List UInt8) : Prop where
  shows : Shows cell i str
  terminated : cell (i + str.length) = 0

/-- The chunk up to a NUL. -/
def cString (chunk : List UInt8) : List UInt8 := chunk.takeWhile (· ≠ 0)

/-- The string without its ending white space. -/
def unended (chunk : List UInt8) : List UInt8 := (cString chunk).rdropWhile isspace

/-- The line is trimmed, and only bytes that `fgets` wrote were read. -/
def ReadsLine (n : Nat) (old : Nat → UInt8) (stream : List UInt8) : Prop :=
  ∀ chunk rest, fgets n stream = some (chunk, rest) →
    ∃ b, saneiConfigRead n old stream = .line b rest ∧
      Holds b.cell 0 ((unended chunk).dropWhile isspace) ∧ b.reach ≤ chunk.length + 1 ∧ chunk.length < n

/-- There is as much behind the line as it is indented, but for one byte. -/
def Fits (chunk : List UInt8) : Prop :=
  ((unended chunk).takeWhile isspace).length + (unended chunk).length ≤ chunk.length + 1

instance (chunk : List UInt8) : Decidable (Fits chunk) := inferInstanceAs (Decidable (_ ≤ _))

/-! ## The loops -/

section Loops

variable {b : Buffer} {cell cell' : Nat → UInt8} {i j n : Nat} {c : UInt8} {str str' : List UInt8}

theorem shows_append :
    Shows cell i (str ++ str') ↔ Shows cell i str ∧ Shows cell (i + str.length) str' := by
  induction str generalizing i with
  | nil => exact (and_iff_right trivial).symm
  | cons c str ih =>
      have hend : i + 1 + str.length = i + (c :: str).length := by
        rw [List.length_cons]
        omega
      rw [List.cons_append, Shows, Shows, ih, hend, and_assoc]

theorem shows_congr (h : ∀ j, i ≤ j → j < i + str.length → cell' j = cell j)
    (hshows : Shows cell i str) : Shows cell' i str := by
  induction str generalizing i with
  | nil => trivial
  | cons c str ih =>
      rw [List.length_cons] at h
      exact ⟨(h i (Nat.le_refl i) (by omega)).trans hshows.1,
        ih (fun j hi hj => h j (by omega) (by omega)) hshows.2⟩

/-- Bytes that stand in the buffer are in the string. -/
theorem Shows.mem (h : Shows cell i str) (hi : i ≤ j) (hj : j < i + str.length) :
    cell j ∈ str := by
  induction str generalizing i with
  | nil => exact absurd hj (Nat.not_lt.mpr hi)
  | cons c str ih =>
      by_cases hfirst : j = i
      · rw [hfirst, h.1]
        exact List.mem_cons_self
      · rw [List.length_cons] at hj
        exact List.mem_cons_of_mem _ (ih h.2 (by omega) (by omega))

/-- The loop finds the first byte it stops at, at the latest the terminator. -/
theorem scan_run (stop : UInt8 → Bool) (hstop : stop 0 = true) (h : Holds b.cell i str)
    (hn : str.length < n) :
    scan stop n i b = some (i + (str.takeWhile fun c => !stop c).length,
      { b with reach := max b.reach (i + (str.takeWhile fun c => !stop c).length + 1) }) := by
  induction str generalizing i n b with
  | nil =>
      obtain ⟨n, rfl⟩ := Nat.exists_eq_succ_of_ne_zero (Nat.ne_of_gt hn)
      have hzero : b.cell i = 0 := h.terminated
      rw [scan, Buffer.read]
      dsimp only
      rw [hzero, hstop, if_pos rfl]
      rfl
  | cons c str ih =>
      obtain ⟨n, rfl⟩ := Nat.exists_eq_succ_of_ne_zero (Nat.ne_of_gt (Nat.zero_lt_of_lt hn))
      rw [scan, Buffer.read]
      dsimp only
      rw [h.shows.1]
      cases hc : stop c with
      | true =>
          rw [if_pos rfl, List.takeWhile_cons_of_neg (by rw [hc]; decide)]
          rfl
      | false =>
          have hend : i + 1 + str.length = i + (c :: str).length := by
            rw [List.length_cons]
            omega
          have hrest := ih (b := { b with reach := max b.reach (i + 1) })
            ⟨h.shows.2, by rw [hend]; exact h.terminated⟩ (Nat.lt_of_succ_lt_succ hn)
          have hindex (k : Nat) : i + 1 + k = i + (k + 1) := by omega
          have hreach (k : Nat) : max (max b.reach (i + 1)) (i + 1 + k + 1) =
              max b.reach (i + (k + 1) + 1) := by omega
          rw [if_neg Bool.false_ne_true, hrest, List.takeWhile_cons_of_pos (by rw [hc]; rfl),
            List.length_cons, hreach, hindex]

/-- Only the ending white space is overwritten. -/
theorem trimEnd_run (h : Holds b.cell 0 str) :
    Holds (trimEnd str.length b).cell 0 (str.rdropWhile isspace) ∧
      (trimEnd str.length b).reach = max b.reach str.length := by
  induction str using List.reverseRecOn generalizing b with
  | nil => exact ⟨h, (Nat.max_zero _).symm⟩
  | append_singleton str c ih =>
      obtain ⟨hstr, hlast⟩ := shows_append.mp h.shows
      rw [Nat.zero_add] at hlast
      rw [List.length_append, List.length_singleton, trimEnd, Buffer.read]
      dsimp only
      rw [hlast.1]
      cases hc : isspace c with
      | true =>
          have hcut : Holds (Function.update b.cell str.length 0) 0 str := by
            refine ⟨shows_congr (fun j _ hj => Function.update_of_ne (by omega) _ _) hstr, ?_⟩
            rw [Nat.zero_add]
            exact Function.update_self ..
          have hrest := ih
            (b := { b with reach := max b.reach (str.length + 1) }.write str.length 0) hcut
          rw [if_pos rfl, List.rdropWhile_concat_pos _ _ _ hc]
          refine ⟨hrest.1, hrest.2.trans ?_⟩
          dsimp only [Buffer.write]
          omega
      | false =>
          rw [if_neg Bool.false_ne_true,
            List.rdropWhile_concat_neg _ _ _ (by rw [hc]; exact Bool.false_ne_true)]
          exact ⟨⟨h.shows, h.terminated⟩, rfl⟩

/-- The line is moved by `k` bytes as far as `str`. -/
def Moved (cell : Nat → UInt8) (k str : Nat) (b : Buffer) : Prop :=
  ∀ i, b.cell i = if i < str then cell (k + i) else cell i

/-- The byte that is looked at has not been overwritten. -/
theorem moveDown_pass {k str : Nat} (hk : 0 < k) (h : Moved cell k str b) (n : Nat) :
    ∃ b', Moved cell k (str + 1) b' ∧ b'.reach = max b.reach (k + (str + 1)) ∧
      moveDown (n + 1) str (k + str) b =
        if cell (str + 1) = 0 then some b' else moveDown n (str + 1) (k + (str + 1)) b' := by
  have hsource : b.cell (k + str) = cell (k + str) := (h (k + str)).trans (if_neg (by omega))
  have hnext : b.cell (str + 1) = cell (str + 1) := (h (str + 1)).trans (if_neg (by omega))
  refine ⟨{ cell := Function.update b.cell str (cell (k + str))
            reach := max (max b.reach (k + str + 1)) (str + 1 + 1) }, fun i => ?_, ?_, ?_⟩
  · dsimp only
    by_cases hlast : i = str
    · rw [hlast, Function.update_self, if_pos (Nat.lt_succ_self str)]
    · rw [Function.update_of_ne hlast, h i]
      exact if_congr (by omega) rfl rfl
  · dsimp only
    omega
  · rw [moveDown]
    dsimp only [Buffer.read, Buffer.write]
    rw [hsource, Function.update_of_ne (Nat.succ_ne_self str), hnext]
    rfl

/-- As many bytes are moved as the line is long with its indentation. -/
theorem moveDown_run {k len : Nat} (hk : 0 < k) (hline : ∀ i < len, cell i ≠ 0)
    (hend : cell len = 0) (m : Nat) :
    ∀ str n b, str + (m + 1) = len → m < n → Moved cell k str b →
      ∃ b', moveDown n str (k + str) b = some b' ∧ Moved cell k len b' ∧
        b'.reach = max b.reach (k + len) := by
  induction m with
  | zero =>
      intro str n b hlen hn h
      obtain ⟨n, rfl⟩ := Nat.exists_eq_succ_of_ne_zero (Nat.ne_of_gt hn)
      obtain ⟨b', hmoved, hreach, hpass⟩ := moveDown_pass hk h n
      rw [← hlen] at hend ⊢
      exact ⟨b', by rw [hpass, if_pos hend], hmoved, hreach⟩
  | succ m ih =>
      intro str n b hlen hn h
      obtain ⟨n, rfl⟩ := Nat.exists_eq_succ_of_ne_zero (Nat.ne_of_gt (Nat.zero_lt_of_lt hn))
      obtain ⟨b', hmoved, hreach, hpass⟩ := moveDown_pass hk h n
      obtain ⟨b'', hrun, hmoved', hreach'⟩ :=
        ih (str + 1) n b' (by omega) (Nat.lt_of_succ_lt_succ hn) hmoved
      refine ⟨b'', ?_, hmoved', by omega⟩
      rw [hpass, if_neg (hline (str + 1) (by omega)), hrun]

end Loops

/-! ## The line -/

section Line

variable {cell : Nat → UInt8} {i k n : Nat} {str chunk : List UInt8}

theorem shows_of_getElem (h : ∀ j (hj : j < str.length), cell (i + j) = str[j]) :
    Shows cell i str := by
  induction str generalizing i with
  | nil => trivial
  | cons c str ih =>
      refine ⟨h 0 (Nat.zero_lt_succ _), ih fun j hj => ?_⟩
      have hnext := h (j + 1) (Nat.succ_lt_succ hj)
      rwa [← Nat.add_assoc, Nat.add_right_comm, List.getElem_cons_succ] at hnext

theorem shows_shift (h : Shows cell (k + i) str) : Shows (fun j => cell (k + j)) i str := by
  induction str generalizing i with
  | nil => trivial
  | cons c str ih => exact ⟨h.1, ih h.2⟩

theorem getD_first_nul (chunk : List UInt8) :
    chunk.getD (cString chunk).length 0 = 0 := by
  induction chunk with
  | nil => rfl
  | cons c chunk ih =>
      by_cases hc : c = 0
      · rw [hc]
        rfl
      · rw [cString, List.takeWhile_cons, if_pos (decide_eq_true hc), List.length_cons,
          List.getD_cons_succ]
        exact ih

theorem length_unended_le (chunk : List UInt8) :
    (unended chunk).length ≤ (cString chunk).length :=
  (List.rdropWhile_prefix isspace _).length_le

theorem length_line_le (chunk : List UInt8) : (cString chunk).length ≤ chunk.length :=
  (List.takeWhile_prefix _).length_le

theorem ne_of_mem_cString {c : UInt8} (hc : c ∈ cString chunk) : c ≠ 0 := by
  have hkept := List.mem_takeWhile_imp hc
  exact of_decide_eq_true hkept

/-- `fgets` leaves a C string, which ends at the first NUL. -/
theorem holds_filled (old : Nat → UInt8) (chunk : List UInt8) :
    Holds (Buffer.filled old chunk).cell 0 (cString chunk) := by
  have hlength := length_line_le chunk
  have hchunk : Shows (Buffer.filled old chunk).cell 0 chunk := by
    refine shows_of_getElem fun j hj => ?_
    rw [Nat.zero_add, Buffer.filled]
    dsimp only
    rw [if_pos (Nat.le_of_lt hj), List.getD_eq_getElem?_getD, List.getElem?_eq_getElem hj,
      Option.getD_some]
  have hparts : chunk.takeWhile (· ≠ 0) ++ chunk.dropWhile (· ≠ 0) = chunk :=
    List.takeWhile_append_dropWhile
  refine ⟨?_, ?_⟩
  · have hboth : Shows (Buffer.filled old chunk).cell 0
        (chunk.takeWhile (· ≠ 0) ++ chunk.dropWhile (· ≠ 0)) := by
      rw [hparts]
      exact hchunk
    exact (shows_append.mp hboth).1
  · rw [Nat.zero_add, Buffer.filled]
    dsimp only
    rw [if_pos hlength, getD_first_nul]

/-- The bytes behind the indentation, moved to the start. -/
theorem Moved.holds {b : Buffer} (hline : Holds cell 0 str)
    (h : Moved cell (str.takeWhile isspace).length str.length b)
    (hk : 0 < (str.takeWhile isspace).length) : Holds b.cell 0 (str.dropWhile isspace) := by
  have hparts : str.takeWhile isspace ++ str.dropWhile isspace = str :=
    List.takeWhile_append_dropWhile
  have hlength : (str.takeWhile isspace).length + (str.dropWhile isspace).length = str.length := by
    rw [← List.length_append, hparts]
  have hboth : Shows cell 0 (str.takeWhile isspace ++ str.dropWhile isspace) := by
    rw [hparts]
    exact hline.shows
  have hrest := (shows_append.mp hboth).2
  rw [Nat.zero_add] at hrest
  have hend := hline.terminated
  rw [Nat.zero_add] at hend
  refine ⟨shows_congr (fun j _ hj => (h j).trans (if_pos (by omega))) (shows_shift hrest), ?_⟩
  rw [Nat.zero_add, h, if_pos (by omega), hlength, hend]

/-- The line is trimmed in any case. How far the reads go depends on its indentation. -/
theorem trimLine_run (hn : chunk.length < n) (old : Nat → UInt8) :
    ∃ b, trimLine n (.filled old chunk) = some b ∧
      Holds b.cell 0 ((unended chunk).dropWhile isspace) ∧
        b.reach = max ((cString chunk).length + 1)
          (((unended chunk).takeWhile isspace).length + (unended chunk).length) := by
  have hline := length_line_le chunk
  have hunended := length_unended_le chunk
  have hindent : ((unended chunk).takeWhile isspace).length ≤ (unended chunk).length :=
    (List.takeWhile_prefix isspace).length_le
  have hlen := scan_run (fun c => decide (c = 0)) rfl (holds_filled old chunk)
    (Nat.lt_of_le_of_lt hline hn)
  have hall : (cString chunk).takeWhile (fun c => !decide (c = 0)) = cString chunk := by
    refine List.takeWhile_eq_self_iff.mpr fun c hc => ?_
    rw [decide_eq_false (ne_of_mem_cString hc), Bool.not_false]
  rw [hall, Nat.zero_add] at hlen
  obtain ⟨hholds, hreach⟩ := trimEnd_run
    (b := { Buffer.filled old chunk with
      reach := max (Buffer.filled old chunk).reach ((cString chunk).length + 1) })
    (holds_filled old chunk)
  simp only [trimLine, hlen, Option.bind_eq_bind, Option.bind_some]
  generalize trimEnd (cString chunk).length _ = b at hholds hreach ⊢
  have hholds : Holds b.cell 0 (unended chunk) := hholds
  have hspace : (fun c => !(fun c => !isspace c) c) = isspace := funext fun c => Bool.not_not _
  have hstart := scan_run (fun c => !isspace c) rfl hholds
    (Nat.lt_of_le_of_lt hunended (Nat.lt_of_le_of_lt hline hn))
  rw [hspace, Nat.zero_add] at hstart
  rw [hstart, Option.bind_some]
  dsimp only
  have hfilled : (Buffer.filled old chunk).reach = 0 := rfl
  by_cases hk : (List.takeWhile isspace (unended chunk)).length = 0
  · have hparts : (unended chunk).takeWhile isspace ++ (unended chunk).dropWhile isspace =
        unended chunk :=
      List.takeWhile_append_dropWhile
    rw [List.eq_nil_of_length_eq_zero hk, List.nil_append] at hparts
    rw [hk, if_neg (not_not_intro rfl), hparts]
    refine ⟨_, rfl, hholds, ?_⟩
    dsimp only at hreach ⊢
    omega
  · have hline : ∀ i < (unended chunk).length, b.cell i ≠ 0 := fun i hi =>
      ne_of_mem_cString ((List.rdropWhile_prefix isspace _).subset
        (hholds.shows.mem (Nat.zero_le i) (by rwa [Nat.zero_add])))
    have hend := hholds.terminated
    rw [Nat.zero_add] at hend
    obtain ⟨b', hrun, hmoved, hreach'⟩ := moveDown_run (Nat.pos_of_ne_zero hk) hline hend
      ((unended chunk).length - 1) 0 n
      { b with reach := max b.reach (((unended chunk).takeWhile isspace).length + 1) } (by omega)
      (by omega) fun i => (if_neg (Nat.not_lt_zero i)).symm
    rw [if_pos hk]
    refine ⟨b', hrun, hmoved.holds hholds (Nat.pos_of_ne_zero hk), ?_⟩
    dsimp only at hreach hreach'
    omega

end Line

/-- The length of a chunk. -/
theorem fgets_length {rest stream : List UInt8} {n : Nat} {chunk : List UInt8} (hn : 0 < n)
    (h : fgets n stream = some (chunk, rest)) : chunk.length < n := by
  rw [fgets] at h
  split_ifs at h
  rw [Option.some.injEq, Prod.mk.injEq] at h
  rw [← h.1, List.length_take]
  omega

/-- A line is read into the buffer, however far the reads go. -/
theorem saneiConfigRead_run {n : Nat} {stream chunk rest : List UInt8} (old : Nat → UInt8)
    (hn : 0 < n) (hread : fgets n stream = some (chunk, rest)) :
    ∃ b, saneiConfigRead n old stream = .line b rest ∧
      Holds b.cell 0 ((unended chunk).dropWhile isspace) ∧
        b.reach = max ((cString chunk).length + 1)
          (((unended chunk).takeWhile isspace).length + (unended chunk).length) := by
  obtain ⟨b, hrun, hholds, hreach⟩ := trimLine_run (fgets_length hn hread) old
  refine ⟨b, ?_, hholds, hreach⟩
  rw [saneiConfigRead, hread]
  dsimp only
  rw [hrun]

/-- The buffer holds the string that `Sanei.saneiConfigRead` has. -/
theorem saneiConfigRead_refines {n : Nat} {stream str rest : List UInt8} (old : Nat → UInt8)
    (hn : 0 < n) (h : Sanei.saneiConfigRead n stream = some (str, rest)) :
    ∃ b, saneiConfigRead n old stream = .line b rest ∧ Holds b.cell 0 str := by
  rw [Sanei.saneiConfigRead, Option.bind_eq_bind, Option.bind_eq_some_iff] at h
  obtain ⟨⟨chunk, rest'⟩, hread, hstr⟩ := h
  obtain ⟨b, hrun, hholds, -⟩ := saneiConfigRead_run old hn hread
  cases hstr
  exact ⟨b, hrun, hholds⟩

section Condition

variable {n : Nat} {old : Nat → UInt8} {stream : List UInt8}

theorem fits_of_readsLine (hn : 0 < n) (h : ReadsLine n old stream) :
    ∀ chunk rest, fgets n stream = some (chunk, rest) → Fits chunk := by
  intro chunk rest hread
  obtain ⟨b, hb, -, hbound, -⟩ := h chunk rest hread
  obtain ⟨b', hb', -, hreach⟩ := saneiConfigRead_run old hn hread
  rw [hb] at hb'
  cases hb'
  rw [Fits]
  omega

theorem readsLine_of_fits (hn : 0 < n)
    (h : ∀ chunk rest, fgets n stream = some (chunk, rest) → Fits chunk) :
    ReadsLine n old stream := by
  intro chunk rest hread
  have hfits := h chunk rest hread
  have hline := length_line_le chunk
  obtain ⟨b, hb, hholds, hreach⟩ := saneiConfigRead_run old hn hread
  rw [Fits] at hfits
  exact ⟨b, hb, hholds, by omega, fgets_length hn hread⟩

end Condition

/-- Only bytes that `fgets` wrote are read, and the line is trimmed, exactly if it is not indented by
more than what is behind it. -/
theorem readsLine_iff (n : Nat) (old : Nat → UInt8) (stream : List UInt8) (hn : 0 < n) :
    ReadsLine n old stream ↔ ∀ chunk rest, fgets n stream = some (chunk, rest) → Fits chunk :=
  ⟨fits_of_readsLine hn, readsLine_of_fits hn⟩

/-- A line that is indented by two bytes. -/
theorem readsLine_iff_two : ReadsLine 4096 (fun _ => 0) [32, 32, 97, 10] := by
  refine (readsLine_iff 4096 _ _ (by decide)).mpr ?_
  rintro _ _ ⟨⟩
  decide

/-- A line that is indented by three bytes and fills its buffer. -/
theorem not_readsLine_three : ¬ReadsLine 6 (fun _ => 0) [32, 32, 32, 97, 10] :=
  fun h => absurd (fits_of_readsLine (by decide) h [32, 32, 32, 97, 10] [] rfl) (by decide)

end SaneBackends.Sanei.ConfigTrim
