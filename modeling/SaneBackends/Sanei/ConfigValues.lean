import SaneBackends.Sanei.ConfigLines
/-!
# What a configuration file leaves in the values

Each line sets one value as a whole or none, except that a string cut to the size of its
option is stored without the terminator it was cut with.
-/

namespace SaneBackends.Sanei

open SaneBackends.Lib

/-- The buffer holds a value that was accepted: the bytes of an array, or as much of a
block as contains the end of the string. -/
def Complete (descriptor : OptionDescriptor) (buffer : List UInt8) : Prop :=
  ∃ block n, saneiCheckValue descriptor block = .ok .good ∧ n ≤ block.length ∧
    (n : Int) ≤ descriptor.size ∧ block.take n <+: buffer ∧
      if descriptor.type = .string then 0 ∈ block.take n
      else (block.length : Int) = descriptor.size ∧ n = block.length

section Parsing

variable {saneFix : List UInt8 → SaneWord} {heap : Nat → UInt8} {descriptor : OptionDescriptor}
  {size : Nat} {lp : List UInt8}

theorem parseWords_length {parse : List UInt8 → Option SaneWord} {count : Nat}
    {words : List UInt8} (h : parseWords parse count lp = some words) :
    words.length = sizeofWord * count := by
  induction count generalizing lp words with
  | zero =>
      cases h
      rfl
  | succ count ih =>
      rw [parseWords] at h
      split at h
      · cases h
      · obtain ⟨word, -, h⟩ := Option.bind_eq_some_iff.mp h
        obtain ⟨words', hwords, h⟩ := Option.bind_eq_some_iff.mp h
        cases h
        rw [List.length_append, ih hwords]
        have hword : (storedWord word).length = sizeofWord := rfl
        rw [hword, Nat.mul_succ, Nat.add_comm]

/-- What a parsed value looks like: an array that fills the option, a string that fits
with its terminator, one that is cut off, or nothing. -/
inductive Parsed (descriptor : OptionDescriptor) (lp : List UInt8) : List UInt8 → Nat → Prop where
  | array {value : List UInt8} (htype : descriptor.type ≠ .string)
      (hsize : (value.length : Int) = descriptor.size) : Parsed descriptor lp value value.length
  | fits {string : List UInt8} (htype : descriptor.type = .string)
      (htoken : (saneiConfigGetString lp).2 = some string)
      (hsize : (string.length + 1 : Int) ≤ descriptor.size) :
      Parsed descriptor lp (string ++ [0]) (string.length + 1)
  | cut {string : List UInt8} {n : Nat} (htype : descriptor.type = .string)
      (htoken : (saneiConfigGetString lp).2 = some string) (hn : (n : Int) + 1 = descriptor.size)
      (hlong : n < string.length) : Parsed descriptor lp ((string ++ [0]).set n 0) n
  | nothing {n : Nat} (htype : descriptor.type = .button ∨ descriptor.type = .group) :
      Parsed descriptor lp [] n

theorem parseValue_parsed {value : List UInt8} {n : Nat}
    (h : parseValue saneFix heap descriptor size lp = .ok (some (value, n))) :
    Parsed descriptor lp value n := by
  have harray : ∀ parse : List UInt8 → Option SaneWord, descriptor.type ≠ .string →
      (if descriptor.size < 0 then Except.error Fault.outOfBounds
        else
          .ok ((parseWords parse (descriptor.size.toNat / sizeofWord) lp).map fun words =>
            (arrayBlock heap descriptor.size.toNat words, descriptor.size.toNat))) =
        .ok (some (value, n)) → Parsed descriptor lp value n := by
    intro parse htype hparse
    split_ifs at hparse with hneg
    obtain ⟨words, hwords, hvalue⟩ := Option.map_eq_some_iff.mp (Except.ok.inj hparse)
    obtain ⟨rfl, rfl⟩ := Prod.mk.inj hvalue
    have hlen := parseWords_length hwords
    have hle := Nat.mul_div_le descriptor.size.toNat sizeofWord
    have hblock : (arrayBlock heap descriptor.size.toNat words).length = descriptor.size.toNat := by
      simp only [arrayBlock, List.length_append, List.length_map, List.length_range]
      omega
    have hall : Parsed descriptor lp (arrayBlock heap descriptor.size.toNat words)
        (arrayBlock heap descriptor.size.toNat words).length := .array htype (by omega)
    rwa [hblock] at hall
  unfold parseValue at h
  cases htype : descriptor.type with
  | int => exact harray _ (by simp [htype]) (by simpa [htype] using h)
  | bool => exact harray _ (by simp [htype]) (by simpa [htype] using h)
  | fixed => exact harray _ (by simp [htype]) (by simpa [htype] using h)
  | string =>
      rw [htype] at h
      dsimp only at h
      split at h
      · cases h
      · next string htoken =>
          split_ifs at h with hlong hneg
          · cases h
            exact .cut htype htoken (by omega) (by omega)
          · cases h
            exact .fits htype htoken (by omega)
  | button =>
      rw [htype] at h
      cases h
      exact .nothing (.inl htype)
  | group =>
      rw [htype] at h
      cases h
      exact .nothing (.inr htype)

/-- A value that is stored was parsed and accepted. -/
theorem configureOption_stored {i j size' : Nat} {text stored : List UInt8}
    (h : configureOption saneFix heap descriptor i size lp = .ok (.stored j text stored, size')) :
    j = i ∧ ∃ value n, Parsed descriptor lp value n ∧ saneiCheckValue descriptor value = .ok .good ∧
      n ≤ value.length ∧ stored = value.take n := by
  obtain ⟨parsed, hparse, h⟩ := bind_eq_ok.mp h
  rcases parsed with _ | ⟨value, n⟩
  · cases h
  · obtain ⟨status, hcheck, h⟩ := bind_eq_ok.mp h
    cases status with
    | good =>
        dsimp only at h
        split_ifs at h with hshort
        cases h
        exact ⟨rfl, value, _, parseValue_parsed hparse, hcheck, Nat.le_of_not_lt hshort, rfl⟩
    | _ => cases h

end Parsing

/-- `memcpy` over the start of a buffer. -/
def overwrite (value buffer : List UInt8) : List UInt8 := value ++ buffer.drop value.length

theorem overwrite_drop (buffer : List UInt8) {value : List UInt8} {n : Nat}
    (h : value.length ≤ n) :
    (overwrite value buffer).drop n = buffer.drop n := by
  rw [overwrite, List.drop_append, List.drop_eq_nil_of_le h, List.drop_drop, List.nil_append,
    Nat.add_sub_cancel' h]

theorem overwrite_length {value buffer : List UInt8} (h : value.length ≤ buffer.length) :
    (overwrite value buffer).length = buffer.length := by
  rw [overwrite, List.length_append, List.length_drop]
  omega

theorem overwrite_getElem? {value buffer : List UInt8} {n : Nat} (h : value.length ≤ n) :
    (overwrite value buffer)[n]? = buffer[n]? := by
  have hdrop := congrArg (·[0]?) (overwrite_drop buffer h)
  simpa [List.getElem?_drop] using hdrop

theorem store_eq_ok {o o' : ConfigOption} {value : List UInt8} (h : o.store value = .ok o') :
    o'.descriptor = o.descriptor ∧ value.length ≤ o.value.length ∧
      o'.value = overwrite value o.value := by
  rw [ConfigOption.store] at h
  split_ifs at h with hle
  cases h
  exact ⟨rfl, hle, rfl⟩

/-- What the file may have made of an option: behind the size nothing changed, and within
it nothing or a complete value was stored. -/
structure Kept (o o' : ConfigOption) : Prop where
  descriptor : o'.descriptor = o.descriptor
  length : o'.value.length = o.value.length
  beyond : o'.value.drop o.descriptor.size.toNat = o.value.drop o.descriptor.size.toNat
  complete : o'.value = o.value ∨ Complete o.descriptor o'.value

/-- The last byte of a string option is what it was, or a terminator. -/
def LastByte (o o' : ConfigOption) : Prop :=
  o.descriptor.type = .string → ∀ n : Nat, (n : Int) + 1 = o.descriptor.size →
    o'.value[n]? = o.value[n]? ∨ o'.value[n]? = some 0

/-- The text gives a string option as many characters as its size or more, the cut
string is accepted, and neither is the last byte of the buffer a terminator nor does the
cut string leave the buffer as it was before the call. -/
def LeftOpen (o o' : ConfigOption) (lp : List UInt8) : Prop :=
  o.descriptor.type = .string ∧ ∃ (string : List UInt8) (n : Nat),
    (saneiConfigGetString lp).2 = some string ∧ (n : Int) + 1 = o.descriptor.size ∧
      n < string.length ∧ saneiCheckValue o.descriptor ((string ++ [0]).set n 0) = .ok .good ∧
        o'.value[n]? ≠ some 0 ∧ string.take n ≠ o.value.take n

theorem Parsed.length_le {descriptor : OptionDescriptor} {lp value : List UInt8} {n : Nat}
    (h : Parsed descriptor lp value n) (hn : n ≤ value.length) :
    ((value.take n).length : Int) ≤ max descriptor.size 0 := by
  rw [List.length_take_of_le hn]
  cases h with
  | array htype hsize => omega
  | fits htype htoken hsize => omega
  | cut htype htoken hn' hlong => omega
  | nothing htype =>
      simp only [List.length_nil] at hn
      omega

theorem take_set_self (string : List UInt8) {n : Nat} (h : n < string.length) :
    ((string ++ [0]).set n 0).take n = string.take n := by
  rw [List.take_set_of_le (Nat.le_refl n), List.take_append_of_le_length (Nat.le_of_lt h)]

theorem drop_eq_cons {buffer : List UInt8} {n : Nat} {b : UInt8} (h : buffer[n]? = some b) :
    buffer.drop n = b :: buffer.drop (n + 1) := by
  obtain ⟨hlt, rfl⟩ := List.getElem?_eq_some_iff.mp h
  exact List.drop_eq_getElem_cons hlt

/-- A value that is parsed, accepted and stored keeps the option in order unless it is
left open. -/
theorem Kept.store {o o' o'' : ConfigOption} {lp value : List UInt8} {n : Nat} (h : Kept o o')
    (hlast : LastByte o o') (hparsed : Parsed o.descriptor lp value n)
    (hcheck : saneiCheckValue o.descriptor value = .ok .good) (hn : n ≤ value.length)
    (hstore : o'.store (value.take n) = .ok o'') (hopen : ¬ LeftOpen o o' lp) : Kept o o'' := by
  obtain ⟨hdescriptor, hroom, hvalue⟩ := store_eq_ok hstore
  have hsize := hparsed.length_le hn
  refine ⟨hdescriptor.trans h.descriptor, ?_, ?_, ?_⟩
  · rw [hvalue, overwrite_length hroom, h.length]
  · rw [hvalue, overwrite_drop _ (by omega), h.beyond]
  rw [hvalue]
  cases hparsed with
  | array htype hfull =>
      refine .inr ⟨value, value.length, hcheck, Nat.le_refl _, hfull.le, List.prefix_append .., ?_⟩
      rw [if_neg htype]
      exact ⟨hfull, rfl⟩
  | @fits string htype htoken hfits =>
      refine .inr ⟨_, string.length + 1, hcheck, hn, hfits, List.prefix_append .., ?_⟩
      rw [if_pos htype, List.take_of_length_le (by simp)]
      simp
  | @cut string n htype htoken hcut hlong =>
      rw [take_set_self string hlong] at hroom ⊢
      have hlen : (string.take n).length = n := List.length_take_of_le (Nat.le_of_lt hlong)
      have hbuffer := o'.room
      rw [h.descriptor] at hbuffer
      rw [overwrite, hlen]
      by_cases hzero : o'.value[n]? = some 0
      · right
        refine ⟨_, n + 1, hcheck, by simp; omega, by omega, ?_, ?_⟩
        · rw [drop_eq_cons hzero]
          have hblock : ((string ++ [0]).set n 0).take (n + 1) = string.take n ++ [0] := by
            rw [List.take_add_one, take_set_self string hlong, List.getElem?_set_self (by simp; omega)]
            rfl
          rw [hblock]
          exact ⟨o'.value.drop (n + 1), by simp⟩
        · rw [if_pos htype, List.take_add_one, List.getElem?_set_self (by simp; omega)]
          simp
      · left
        have hsame : string.take n = o.value.take n := by
          by_contra hne
          exact hopen ⟨htype, string, n, htoken, hcut, hlong, hcheck, hzero, hne⟩
        have hbyte : o'.value[n]? = o.value[n]? := (hlast htype n hcut).resolve_right hzero
        obtain ⟨b, hb⟩ : ∃ b, o.value[n]? = some b := by
          rw [← hbyte, List.getElem?_eq_getElem (by omega)]
          exact ⟨_, rfl⟩
        have hrest := h.beyond
        have hsizeNat : o.descriptor.size.toNat = n + 1 := by omega
        rw [hsizeNat] at hrest
        rw [hsame, drop_eq_cons (hbyte.trans hb), hrest, ← drop_eq_cons hb, List.take_append_drop]
  | nothing htype =>
      have hempty : ([] : List UInt8).take n = [] := List.take_nil
      rw [hempty]
      exact h.complete

theorem LastByte.store {o o' o'' : ConfigOption} {lp value : List UInt8} {n : Nat}
    (h : LastByte o o') (hparsed : Parsed o.descriptor lp value n)
    (hstore : o'.store (value.take n) = .ok o'') : LastByte o o'' := by
  obtain ⟨-, -, hvalue⟩ := store_eq_ok hstore
  intro htype m hm
  rw [hvalue]
  cases hparsed with
  | array hother hfull => exact absurd htype hother
  | @fits string _ htoken hfits =>
      rw [List.take_of_length_le (by simp)]
      by_cases hexact : string.length = m
      · subst hexact
        right
        simp [overwrite]
      · rw [overwrite_getElem? (by simp; omega)]
        exact h htype m hm
  | @cut string n _ htoken hcut hlong =>
      rw [take_set_self string hlong, overwrite_getElem? (by simp; omega)]
      exact h htype m hm
  | nothing hother => rcases hother with hother | hother <;> simp [hother] at htype

/-- A string left open is neither complete nor what was there before. -/
theorem LeftOpen.not_kept {o o' o'' : ConfigOption} {lp value : List UInt8} {n : Nat}
    (hopen : LeftOpen o o' lp) (hnul : ∀ string, (saneiConfigGetString lp).2 = some string → 0 ∉ string)
    (hparsed : Parsed o.descriptor lp value n) (hroom : o.descriptor.size ≤ o'.value.length)
    (hstore : o'.store (value.take n) = .ok o'') : ¬ Kept o o'' := by
  obtain ⟨htype, string, m, htoken, hm, hlong, -, hbyte, hdiffers⟩ := hopen
  obtain ⟨-, -, hvalue⟩ := store_eq_ok hstore
  intro hkept
  cases hparsed with
  | array hother hfull => exact hother htype
  | nothing hother => rcases hother with hother | hother <;> simp [hother] at htype
  | @fits string' _ htoken' hfits =>
      rw [htoken] at htoken'
      cases htoken'
      omega
  | @cut string' n _ htoken' hcut hlong' =>
      rw [htoken] at htoken'
      cases htoken'
      obtain rfl : n = m := by omega
      have hlen : (string.take n).length = n := List.length_take_of_le (Nat.le_of_lt hlong)
      rw [take_set_self string hlong, overwrite, hlen] at hvalue
      obtain ⟨b, hb⟩ : ∃ b, o'.value[n]? = some b := by
        rw [List.getElem?_eq_getElem (by omega)]
        exact ⟨_, rfl⟩
      rw [drop_eq_cons hb] at hvalue
      rcases hkept.complete with hsame | ⟨block, k, -, hk, hsize, hleads, hend⟩
      · have htake := congrArg (List.take n) (hsame.symm.trans hvalue)
        rw [List.take_append_of_le_length hlen.ge, List.take_take, min_self] at htake
        exact hdiffers htake.symm
      · rw [if_pos htype] at hend
        rw [hvalue] at hleads
        have hle : (block.take k).length ≤ n + 1 := by
          rw [List.length_take_of_le hk]
          omega
        have hmem : 0 ∈ (string.take n ++ b :: o'.value.drop (n + 1)).take (n + 1) :=
          (List.prefix_take_iff.mpr ⟨hleads, hle⟩).subset hend
        rw [List.take_append, hlen, List.take_take, Nat.add_sub_cancel_left] at hmem
        rcases List.mem_append.mp hmem with hmem | hmem
        · exact hnul string htoken (List.mem_of_mem_take hmem)
        · simp only [List.take_succ_cons, List.take_zero, List.mem_singleton] at hmem
          exact hbyte (hmem ▸ hb)

/-! Texts without a NUL. -/

theorem saneiConfigGetString_subset {str rest : List UInt8} {token : Option (List UInt8)}
    (h : saneiConfigGetString str = (rest, token)) :
    rest ⊆ str ∧ ∀ string, token = some string → string ⊆ str := by
  have hskip : saneiConfigSkipWhitespace str ⊆ str := (List.dropWhile_sublist _).subset
  unfold saneiConfigGetString at h
  split at h
  · next start hstart =>
      rw [hstart] at hskip
      have htail : start ⊆ str := fun c hc => hskip (List.mem_cons_of_mem _ hc)
      split at h
      · cases h
        exact ⟨List.nil_subset _, fun string hstring => by cases hstring⟩
      · next c after hafter =>
          obtain ⟨rfl, rfl⟩ := Prod.mk.inj h
          have hdrop : c :: after ⊆ start := hafter ▸ (List.dropWhile_sublist _).subset
          refine ⟨fun b hb => htail (hdrop (List.mem_cons_of_mem _ hb)), ?_⟩
          rintro string ⟨⟩
          exact fun b hb => htail ((List.takeWhile_sublist _).subset hb)
  · obtain ⟨rfl, rfl⟩ := Prod.mk.inj h
    refine ⟨fun b hb => hskip ((List.dropWhile_sublist _).subset hb), ?_⟩
    rintro string ⟨⟩
    exact fun b hb => hskip ((List.takeWhile_sublist _).subset hb)

theorem searchLine_text {config : SaneiConfig} {line text text' : List UInt8}
    {token : Option (List UInt8)} {i : Nat}
    (h : searchLine config line text token = .ok (.option i text')) : text' = text := by
  obtain ⟨found, -, h⟩ := bind_eq_ok.mp h
  cases found with
  | none => cases h
  | some j =>
      cases h
      rfl

/-- The text an option is set from is part of the line. -/
theorem readLine_text {config : SaneiConfig} {line text : List UInt8} {i : Nat}
    (h : readLine config line = .ok (.option i text)) : text ⊆ line := by
  have hskip : saneiConfigSkipWhitespace line ⊆ line := (List.dropWhile_sublist _).subset
  unfold readLine at h
  dsimp only at h
  split_ifs at h
  · cases h
  · cases h
  rcases hfirst : saneiConfigGetString (saneiConfigSkipWhitespace line) with ⟨rest, _ | token⟩
  · rw [hfirst] at h
    cases h
  rw [hfirst] at h
  dsimp only at h
  have hrest := (saneiConfigGetString_subset hfirst).1
  split_ifs at h
  · rcases hsecond : saneiConfigGetString rest with ⟨rest', second⟩
    rw [hsecond] at h
    rw [searchLine_text h]
    exact fun b hb => hskip (hrest ((saneiConfigGetString_subset hsecond).1 hb))
  · rw [searchLine_text h]
    exact fun b hb => hskip (hrest hb)

theorem zero_not_mem_configLine {fuel : Nat} {stream line : List UInt8}
    (h : line ∈ configLines fuel stream) : 0 ∉ line := by
  induction fuel generalizing stream with
  | zero => cases h
  | succ fuel ih =>
      rw [configLines] at h
      split at h
      · cases h
      · next read rest hread =>
          rcases List.mem_cons.mp h with rfl | h
          · rw [saneiConfigRead, Option.bind_eq_bind, Option.bind_eq_some_iff] at hread
            obtain ⟨p, -, hp⟩ := hread
            obtain ⟨rfl, -⟩ := Prod.mk.inj (Option.some.inj hp)
            intro hzero
            have hmem := (List.dropWhile_sublist _).subset hzero
            have hmem' := (List.rdropWhile_prefix _ _).subset hmem
            have hne := List.mem_takeWhile_imp hmem'
            simp at hne
          · exact ih h

section Run

variable {saneFix : List UInt8 → SaneWord} {heap : Nat → Nat → UInt8} {config : SaneiConfig}
  {lines : List (List UInt8)}

/-- The text of a line of the file leaves an option open. -/
def OpensLine (config : SaneiConfig) (st : ConfigState) (line : List UInt8) : Prop :=
  ∃ i text o o', readLine st.config line = .ok (.option i text) ∧ config[i]? = some o ∧
    st.config[i]? = some o' ∧ LeftOpen o o' text

/-- Every option is in order and ends with its old last byte or a terminator. -/
def KeptAll (config config' : SaneiConfig) : Prop :=
  ∀ (i : Nat) (o o' : ConfigOption), config[i]? = some o → config'[i]? = some o' →
    Kept o o' ∧ LastByte o o'

theorem KeptAll.refl (config : SaneiConfig) : KeptAll config config := by
  intro i o o' ho ho'
  rw [ho] at ho'
  cases ho'
  exact ⟨⟨rfl, rfl, rfl, .inl rfl⟩, fun _ _ _ => .inl rfl⟩

theorem perform_stored {st st' : ConfigState} {i : Nat} {text value : List UInt8}
    (h : st.perform (.stored i text value) = .ok st') :
    ∃ o o', st.config[i]? = some o ∧ o.store value = .ok o' ∧
      st'.config = st.config.set i o' ∧ st'.status = st.status := by
  simp only [ConfigState.perform] at h
  split at h
  · cases h
  · next o ho =>
      obtain ⟨o', hstore, h⟩ := bind_eq_ok.mp h
      cases h
      exact ⟨o, o', ho, hstore, rfl, rfl⟩

/-- A stored value comes from the option the line names. -/
theorem configureLine_stored {heap : Nat → UInt8} {config : SaneiConfig} {size i : Nat}
    {line text stored : List UInt8} {size' : Nat}
    (h : configureLine saneFix heap config size line = .ok (.stored i text stored, size')) :
    readLine config line = .ok (.option i text) ∧ ∃ o value n, config[i]? = some o ∧
      Parsed o.descriptor text value n ∧ saneiCheckValue o.descriptor value = .ok .good ∧
        n ≤ value.length ∧ stored = value.take n := by
  have hread := configureLine_kind h
  refine ⟨hread, ?_⟩
  obtain ⟨kind, hread', h⟩ := bind_eq_ok.mp h
  rw [hread] at hread'
  cases hread'
  dsimp only [LineEvent.kind] at h
  split at h
  · cases h
  · next o ho =>
      obtain ⟨-, value, n, hparsed, hcheck, hn, hstored⟩ := configureOption_stored h
      exact ⟨o, value, n, ho, hparsed, hcheck, hn, hstored⟩

/-- One line keeps all options in order unless it leaves one open. -/
theorem KeptAll.next {heap : Nat → UInt8} {st st' : ConfigState} {size size' : Nat}
    {line : List UInt8} {event : LineEvent} (h : KeptAll config st.config)
    (hline : configureLine saneFix heap st.config size line = .ok (event, size'))
    (hperform : st.perform event = .ok st') (hopen : ¬ OpensLine config st line) :
    KeptAll config st'.config := by
  cases event with
  | stored i text stored =>
      obtain ⟨hread, o, value, n, ho, hparsed, hcheck, hn, rfl⟩ := configureLine_stored hline
      obtain ⟨o₂, o₃, ho₂, hstore, hconfig, -⟩ := perform_stored hperform
      rw [ho] at ho₂
      cases ho₂
      rw [hconfig]
      intro j a b ha hb
      rw [List.getElem?_set] at hb
      split_ifs at hb with hij hlt
      · subst hij
        cases hb
        obtain ⟨hkept, hlast⟩ := h i a o ha ho
        rw [hkept.descriptor] at hparsed hcheck
        refine ⟨hkept.store hlast hparsed hcheck hn hstore fun hleft => ?_,
          hlast.store hparsed hstore⟩
        exact hopen ⟨i, text, a, o, hread, ha, ho, hleft⟩
      · exact h j a b ha hb
  | rejected i text status =>
      cases hperform
      exact h
  | skipped =>
      cases hperform
      exact h
  | attached devname =>
      cases hperform
      exact h

/-- What a call leaves of the options when it comes to an end after `k` lines: each value
is as it was or complete, and a rejected value was the last thing that happened. -/
structure Atomic (saneFix : List UInt8 → SaneWord) (heap : Nat → Nat → UInt8)
    (config : SaneiConfig) (lines : List (List UInt8)) (st : ConfigState) : Prop where
  kept : ∀ (i : Nat) (o o' : ConfigOption), config[i]? = some o → st.config[i]? = some o' →
    Kept o o'
  rejected : st.status ≠ .good → ∃ j st₁ i text, AfterLines saneFix heap config lines j st₁ ∧
    st.config = st₁.config ∧ st.events = st₁.events ++ [LineEvent.rejected i text st.status]

/-- A run that ends with a bad status ends with the rejection of a value. -/
theorem rejected_last {k : Nat} {st : ConfigState}
    (hrun : configureLines saneFix heap (lines.take k) ⟨config, .good, 0, []⟩ = .ok st)
    (hbad : st.status ≠ .good) : ∃ j st₁ i text, AfterLines saneFix heap config lines j st₁ ∧
      st.config = st₁.config ∧ st.events = st₁.events ++ [LineEvent.rejected i text st.status] := by
  induction k generalizing st with
  | zero =>
      cases hrun
      exact absurd rfl hbad
  | succ k ih =>
      cases hline : lines[k]? with
      | none =>
          rw [take_succ_of_none hline] at hrun
          exact ih hrun hbad
      | some line =>
          rw [take_succ_of_getElem? hline] at hrun
          obtain ⟨st₁, hlines, ⟨hbad₁, rfl⟩ | ⟨hgood₁, event, size, st', -, hperform, rfl⟩⟩ :=
            configureLines_concat hrun
          · exact ih hlines hbad₁
          cases event with
          | rejected i text status =>
              cases hperform
              exact ⟨k, st₁, i, text, ⟨hlines, hgood₁⟩, rfl, rfl⟩
          | stored i text value =>
              obtain ⟨-, -, -, -, -, hstatus⟩ := perform_stored hperform
              exact absurd (hstatus.trans hgood₁) hbad
          | skipped =>
              cases hperform
              exact absurd hgood₁ hbad
          | attached devname =>
              cases hperform
              exact absurd hgood₁ hbad

/-- A run none of whose lines leaves an option open keeps all options in order. -/
theorem keptAll_of_run
    (hopen : ∀ k line st, AfterLines saneFix heap config lines k st → lines[k]? = some line →
      ¬ OpensLine config st line) {k : Nat} {st : ConfigState}
    (hrun : configureLines saneFix heap (lines.take k) ⟨config, .good, 0, []⟩ = .ok st) :
    KeptAll config st.config := by
  induction k generalizing st with
  | zero =>
      cases hrun
      exact .refl config
  | succ k ih =>
      cases hline : lines[k]? with
      | none =>
          rw [take_succ_of_none hline] at hrun
          exact ih hrun
      | some line =>
          rw [take_succ_of_getElem? hline] at hrun
          obtain ⟨st₁, hlines, ⟨-, rfl⟩ | ⟨hgood₁, event, size, st', hline₁, hperform, rfl⟩⟩ :=
            configureLines_concat hrun
          · exact ih hlines
          · have hnot := hopen k line st₁ ⟨hlines, hgood₁⟩ hline
            have hkept : KeptAll config st'.config := (ih hlines).next hline₁ hperform hnot
            exact hkept

/-- The line that leaves an option open is handled without a fault. -/
theorem OpensLine.stored (saneFix : List UInt8 → SaneWord) (heap : Nat → UInt8) (size : Nat)
    {st : ConfigState} {line : List UInt8}
    (hnames : st.config.map (·.descriptor) = config.map (·.descriptor))
    (h : OpensLine config st line) :
    ∃ i text value n o o' o'' event st', config[i]? = some o ∧ st.config[i]? = some o' ∧
      readLine st.config line = .ok (.option i text) ∧ LeftOpen o o' text ∧
      o'.descriptor = o.descriptor ∧ Parsed o.descriptor text value n ∧
      o'.store (value.take n) = .ok o'' ∧ st'.config[i]? = some o'' ∧
      configureLine saneFix heap st.config size line = .ok (event, n) ∧
      st.perform event = .ok st' := by
  obtain ⟨i, text, o, o', hread, ho, ho', hleft⟩ := h
  obtain ⟨htype, string, n, htoken, hn, hlong, hcheck, hbyte, hdiffers⟩ := hleft
  have hdescriptor : o'.descriptor = o.descriptor := by
    have hmap := congrArg (·[i]?) hnames
    simpa [ho, ho'] using hmap
  have hblock : ((string ++ [0]).set n 0).length = string.length + 1 := by simp
  have hparse : parseValue saneFix heap o'.descriptor size text =
      .ok (some ((string ++ [0]).set n 0, n)) := by
    have hcut : o.descriptor.size < string.length + 1 := by omega
    have hpos : ¬ o.descriptor.size ≤ 0 := by omega
    have hnat : (o.descriptor.size - 1).toNat = n := by omega
    simp only [parseValue, hdescriptor, htype, htoken, if_pos hcut, if_neg hpos, hnat]
  have hoption : configureOption saneFix heap o'.descriptor i size text =
      .ok (.stored i text (((string ++ [0]).set n 0).take n), n) := by
    have hfits : ¬ ((string ++ [0]).set n 0).length < n := by omega
    rw [configureOption, hparse, ok_bind]
    dsimp only
    rw [hdescriptor, hcheck, ok_bind]
    exact if_neg hfits
  have hroom : (((string ++ [0]).set n 0).take n).length ≤ o'.value.length := by
    have hroom' := o'.room
    rw [hdescriptor] at hroom'
    rw [List.length_take]
    omega
  have hlt : i < st.config.length := (List.getElem?_eq_some_iff.mp ho').1
  obtain ⟨o'', hstore⟩ : ∃ o'', o'.store (((string ++ [0]).set n 0).take n) = .ok o'' := by
    rw [ConfigOption.store, dif_pos hroom]
    exact ⟨_, rfl⟩
  refine ⟨i, text, _, n, o, o', o'', .stored i text (((string ++ [0]).set n 0).take n),
    { st with
      config := st.config.set i o''
      events := st.events ++ [.stored i text (((string ++ [0]).set n 0).take n)] },
    ho, ho', hread, ⟨htype, string, n, htoken, hn, hlong, hcheck, hbyte, hdiffers⟩, hdescriptor,
    .cut htype htoken hn hlong, hstore, ?_, ?_, ?_⟩
  · exact List.getElem?_set_self hlt
  · rw [configureLine, hread, ok_bind]
    dsimp only
    rw [ho']
    exact hoption
  · simp only [ConfigState.perform, ho', hstore, ok_bind]

/-- A call that reaches a line that leaves an option open is not atomic when it ends with
this line. -/
theorem OpensLine.not_atomic {k : Nat} {line : List UInt8} {st : ConfigState}
    (hafter : AfterLines saneFix heap config lines k st) (hline : lines[k]? = some line)
    (hnul : 0 ∉ line) (h : OpensLine config st line) :
    ∃ st', configureLines saneFix heap (lines.take (k + 1)) ⟨config, .good, 0, []⟩ = .ok st' ∧
      ¬ Atomic saneFix heap config lines st' := by
  obtain ⟨hrun, hgood⟩ := hafter
  obtain ⟨i, text, value, n, o, o', o'', event, st', ho, ho', hread, hleft, hdescriptor, hparsed,
    hstore, ho'', hconfigure, hperform⟩ := h.stored saneFix (heap st.events.length) st.size
      (configureLines_descriptors hrun)
  refine ⟨{ st' with size := n }, ?_, fun hatomic => ?_⟩
  · rw [take_succ_of_getElem? hline, configureLines_append, hrun, ok_bind, configureLines,
      if_neg (not_not.mpr hgood), hconfigure, ok_bind]
    dsimp only
    rw [hperform]
    rfl
  · refine hleft.not_kept ?_ hparsed (hdescriptor ▸ o'.room) hstore (hatomic.kept i o o'' ho ho'')
    intro string hstring hzero
    have hsub := (saneiConfigGetString_subset rfl).2 string hstring
    exact hnul (readLine_text hread (hsub hzero))

end Run

/-! Descriptors whose constraint is one for values of their type and size. -/

def Fitting (descriptor : OptionDescriptor) : Prop :=
  match descriptor.type with
  | .string => 0 < descriptor.size ∧
      (descriptor.constraint = .none ∨ ∃ strings, descriptor.constraint = .stringList strings)
  | .bool | .int | .fixed => 4 ≤ descriptor.size ∧
      (descriptor.constraint = .none ∨
        (∃ min max quant, descriptor.constraint = .range min max quant) ∨
        ∃ words, words ≠ [] ∧ descriptor.constraint = .wordList words)
  | _ => False

theorem checkWords_ok (admitted : SaneWord → Bool) {count : Nat} {value : List UInt8}
    (h : 4 * count ≤ value.length) : ∃ status, checkWords admitted count value = .ok status := by
  induction count generalizing value with
  | zero => exact ⟨.good, rfl⟩
  | succ count ih =>
      match value, h with
      | a :: b :: c :: d :: rest, h =>
          rw [checkWords]
          split_ifs
          · apply ih
            simp only [List.length_cons] at h
            omega
          · exact ⟨.inval, rfl⟩
      | [], h | [_], h | [_, _], h | [_, _, _], h =>
          simp only [List.length_cons, List.length_nil] at h
          omega

theorem searchWords_ok (w : SaneWord) {words : List SaneWord} (h : words ≠ []) :
    ∃ status, searchWords w words = .ok status := by
  induction words with
  | nil => exact absurd rfl h
  | cons word words ih =>
      cases words with
      | nil => exact ⟨_, rfl⟩
      | cons word' words =>
          rw [searchWords]
          split_ifs
          · exact ⟨_, rfl⟩
          · exact ih (by simp)
          · simp

/-- Checking the value of a fitting array option. -/
theorem saneiCheckValue_array {descriptor : OptionDescriptor} {value : List UInt8}
    (hsize : (value.length : Int) = descriptor.size) (hfour : 4 ≤ descriptor.size)
    (hconstraint : descriptor.constraint = .none ∨
      (∃ min max quant, descriptor.constraint = .range min max quant) ∨
      ∃ words, words ≠ [] ∧ descriptor.constraint = .wordList words) :
    ∃ status, saneiCheckValue descriptor value = .ok status := by
  have hcount : 4 * elementCount descriptor ≤ value.length := by
    have hdiv := Nat.mul_div_le descriptor.size.toNat sizeofWord
    have hword : sizeofWord = 4 := rfl
    rw [hword] at hdiv
    rw [elementCount, if_pos (by omega), hword]
    omega
  rcases hconstraint with hnone | ⟨min, max, quant, hrange⟩ | ⟨words, hwords, hlist⟩
  · simp only [saneiCheckValue, hnone]
    split
    · exact checkWords_ok _ hcount
    · exact ⟨_, rfl⟩
  · simp only [saneiCheckValue, hrange]
    exact checkWords_ok _ hcount
  · simp only [saneiCheckValue, hlist]
    match value, hsize with
    | a :: b :: c :: d :: rest, _ => exact searchWords_ok _ hwords
    | [], h | [_], h | [_, _], h | [_, _, _], h =>
        simp only [List.length_cons, List.length_nil] at h
        omega

theorem saneiCheckValue_string {descriptor : OptionDescriptor} {value : List UInt8}
    (htype : descriptor.type = .string) (hzero : 0 ∈ value)
    (hconstraint : descriptor.constraint = .none ∨
      ∃ strings, descriptor.constraint = .stringList strings) :
    ∃ status, saneiCheckValue descriptor value = .ok status := by
  rcases hconstraint with hnone | ⟨strings, hlist⟩
  · simp only [saneiCheckValue, hnone, htype]
    exact ⟨_, rfl⟩
  · simp only [saneiCheckValue, hlist, strlen, if_pos hzero, ok_bind]
    exact ⟨_, rfl⟩

section Returns

variable {saneFix : List UInt8 → SaneWord} {config : SaneiConfig}

theorem parseValue_ok (saneFix : List UInt8 → SaneWord) (heap : Nat → UInt8)
    {descriptor : OptionDescriptor} (size : Nat) (lp : List UInt8) (hfit : Fitting descriptor) :
    ∃ parsed, parseValue saneFix heap descriptor size lp = .ok parsed := by
  unfold Fitting at hfit
  unfold parseValue
  cases htype : descriptor.type with
  | bool | int | fixed =>
      rw [htype] at hfit
      have hsize : ¬ descriptor.size < 0 := by omega
      simp only [if_neg hsize]
      exact ⟨_, rfl⟩
  | string =>
      rw [htype] at hfit
      have hsize : ¬ descriptor.size ≤ 0 := by omega
      simp only [if_neg hsize]
      split
      · exact ⟨_, rfl⟩
      · split_ifs <;> exact ⟨_, rfl⟩
  | button | group =>
      rw [htype] at hfit
      exact hfit.elim

theorem configureOption_ok {heap : Nat → UInt8} {descriptor : OptionDescriptor} {i size : Nat}
    {lp : List UInt8} (hfit : Fitting descriptor) :
    ∃ p, configureOption saneFix heap descriptor i size lp = .ok p := by
  obtain ⟨parsed, hparse⟩ := parseValue_ok saneFix heap size lp hfit
  rw [configureOption, hparse, ok_bind]
  rcases parsed with _ | ⟨value, n⟩
  · exact ⟨_, rfl⟩
  have hparsed := parseValue_parsed hparse
  have hchecked : (∃ status, saneiCheckValue descriptor value = .ok status) ∧ n ≤ value.length := by
    unfold Fitting at hfit
    cases hparsed with
    | array htype hsize =>
        refine ⟨?_, Nat.le_refl _⟩
        cases hkind : descriptor.type with
        | bool | int | fixed =>
            rw [hkind] at hfit
            exact saneiCheckValue_array hsize hfit.1 hfit.2
        | string => exact absurd hkind htype
        | button | group =>
            rw [hkind] at hfit
            exact hfit.elim
    | fits htype htoken hsize =>
        rw [htype] at hfit
        exact ⟨saneiCheckValue_string htype (by simp) hfit.2, by simp⟩
    | cut htype htoken hn hlong =>
        rw [htype] at hfit
        refine ⟨saneiCheckValue_string htype ?_ hfit.2, by simp; omega⟩
        exact List.mem_of_getElem? (List.getElem?_set_self (by simp; omega))
    | nothing htype =>
        rcases htype with htype | htype <;> rw [htype] at hfit <;> exact hfit.elim
  obtain ⟨⟨status, hcheck⟩, hn⟩ := hchecked
  dsimp only
  rw [hcheck, ok_bind]
  cases status with
  | good => exact ⟨_, if_neg (Nat.not_lt.mpr hn)⟩
  | _ => exact ⟨_, rfl⟩

theorem findOption_lt {token : Option (List UInt8)} {i : Nat}
    (h : findOption config token = .ok (some i)) : i < config.length := by
  cases token with
  | none =>
      rw [findOption_none] at h
      split_ifs at h
      cases h
  | some token =>
      rw [findOption_some] at h
      have hfound := Except.ok.inj h
      obtain ⟨hlt, -⟩ := List.findIdx?_eq_some_iff_getElem.mp hfound
      simpa [optionNames] using hlt

theorem searchLine_lt {line text text' : List UInt8} {token : Option (List UInt8)} {i : Nat}
    (h : searchLine config line text token = .ok (.option i text')) : i < config.length := by
  obtain ⟨found, hfound, h⟩ := bind_eq_ok.mp h
  cases found with
  | none => cases h
  | some j =>
      cases h
      exact findOption_lt hfound

theorem readLine_lt {line text : List UInt8} {i : Nat}
    (h : readLine config line = .ok (.option i text)) : i < config.length := by
  unfold readLine at h
  dsimp only at h
  split_ifs at h
  · cases h
  · cases h
  split at h
  · cases h
  · split_ifs at h
    · exact searchLine_lt h
    · exact searchLine_lt h

/-- A line that is read without a fault is handled without one. -/
theorem line_ok (saneFix : List UInt8 → SaneWord) (heap : Nat → UInt8) {st : ConfigState}
    (hfit : ∀ o ∈ st.config, Fitting o.descriptor) {line : List UInt8} {kind : LineKind}
    (hread : readLine st.config line = .ok kind) :
    ∃ event size st', configureLine saneFix heap st.config st.size line = .ok (event, size) ∧
      st.perform event = .ok st' := by
  have hperform : ∀ event size,
      configureLine saneFix heap st.config st.size line = .ok (event, size) →
      ∃ st', st.perform event = .ok st' := by
    intro event size hline
    cases event with
    | stored i text stored =>
        obtain ⟨-, o, value, n, ho, hparsed, hcheck, hn, rfl⟩ := configureLine_stored hline
        have hle := hparsed.length_le hn
        have hroom := o.room
        have hstore : (value.take n).length ≤ o.value.length := by omega
        simp only [ConfigState.perform, ho, ConfigOption.store, dif_pos hstore, ok_bind]
        exact ⟨_, rfl⟩
    | rejected i text status => exact ⟨_, rfl⟩
    | skipped => exact ⟨_, rfl⟩
    | attached devname => exact ⟨_, rfl⟩
  obtain ⟨⟨event, size⟩, hline⟩ : ∃ p, configureLine saneFix heap st.config st.size line = .ok p := by
    rw [configureLine, hread, ok_bind]
    cases kind with
    | skip => exact ⟨_, rfl⟩
    | attach devname => exact ⟨_, rfl⟩
    | option i text =>
        have hlt := readLine_lt hread
        dsimp only
        rw [List.getElem?_eq_getElem hlt]
        exact configureOption_ok (hfit _ (List.getElem_mem hlt))
  obtain ⟨st', hst'⟩ := hperform event size hline
  exact ⟨event, size, st', hline, hst'⟩

theorem fitting_of_descriptors {config config' : SaneiConfig}
    (hsame : config'.map (·.descriptor) = config.map (·.descriptor))
    (hfit : ∀ o ∈ config, Fitting o.descriptor) : ∀ o ∈ config', Fitting o.descriptor := by
  intro o ho
  have hmem : o.descriptor ∈ config.map (·.descriptor) := hsame ▸ List.mem_map_of_mem ho
  obtain ⟨o', ho', heq⟩ := List.mem_map.mp hmem
  rw [← heq]
  exact hfit o' ho'

theorem readLine_congr {config config' : SaneiConfig}
    (hnames : optionNames config' = optionNames config) (line : List UInt8) :
    readLine config' line = readLine config line := by
  have hempty : config' = [] ↔ config = [] := by
    have hlen := congrArg List.length hnames
    simp only [optionNames, List.length_map] at hlen
    rw [← List.length_eq_zero_iff, ← List.length_eq_zero_iff, hlen]
  have hfind : findOption config' = findOption config := by
    funext token
    cases token with
    | none => simp only [findOption_none, hempty]
    | some token => rw [findOption_some, findOption_some, hnames]
  have hsearch : searchLine config' = searchLine config := by
    funext line text token
    rw [searchLine, searchLine, hfind]
  unfold readLine
  rw [hsearch]

theorem configureLines_ok (heap : Nat → Nat → UInt8) {lines : List (List UInt8)} (st : ConfigState)
    (hfit : ∀ o ∈ st.config, Fitting o.descriptor)
    (hread : ∀ line ∈ lines, ∃ kind, readLine st.config line = .ok kind) :
    ∃ st', configureLines saneFix heap lines st = .ok st' := by
  induction lines generalizing st with
  | nil => exact ⟨st, rfl⟩
  | cons line lines ih =>
      rw [configureLines]
      split_ifs with hbad
      · exact ⟨st, rfl⟩
      · obtain ⟨kind, hkind⟩ := hread line List.mem_cons_self
        obtain ⟨event, size, st', hline, hperform⟩ := line_ok saneFix
          (heap st.events.length) hfit hkind
        have hsame := (perform_eq hperform).2
        rw [hline, ok_bind]
        dsimp only
        rw [hperform, ok_bind]
        apply ih
        · exact fitting_of_descriptors hsame hfit
        · intro line' hline'
          have hnames : optionNames st'.config = optionNames st.config := optionNames_eq hsame
          change ∃ kind, readLine st'.config line' = .ok kind
          rw [readLine_congr hnames]
          exact hread line' (List.mem_cons_of_mem _ hline')

/-- No line the loop comes to leaves an option open. -/
def NeverOpens (saneFix : List UInt8 → SaneWord) (heap : Nat → Nat → UInt8)
    (config : SaneiConfig) (lines : List (List UInt8)) : Prop :=
  ∀ k line st, AfterLines saneFix heap config lines k st → lines[k]? = some line →
    ¬ OpensLine config st line

theorem NeverOpens.atomic {heap : Nat → Nat → UInt8} {lines : List (List UInt8)}
    (h : NeverOpens saneFix heap config lines) {k : Nat} {st : ConfigState}
    (hrun : configureLines saneFix heap (lines.take k) ⟨config, .good, 0, []⟩ = .ok st) :
    Atomic saneFix heap config lines st :=
  ⟨fun i o o' ho ho' => (keptAll_of_run h hrun i o o' ho ho').1, rejected_last hrun⟩

/-- A call ends if the descriptors fit their constraints and no token is missing. It is
atomic, wherever the file ends, if and only if no line leaves an option open. -/
theorem saneiConfigureAttach_atomic (saneFix : List UInt8 → SaneWord) (heap : Nat → Nat → UInt8)
    (config : SaneiConfig) (file : List UInt8) :
    let lines := configLines file.length file
    ((∀ o ∈ config, Fitting o.descriptor) →
      (∀ line ∈ lines, ∃ kind, readLine config line = .ok kind) →
        ∃ st, saneiConfigureAttach saneFix heap (some file) config = .ok st) ∧
      (NeverOpens saneFix heap config lines →
        ∀ st, saneiConfigureAttach saneFix heap (some file) config = .ok st →
          Atomic saneFix heap config lines st) ∧
      ((∀ k st, configureLines saneFix heap (lines.take k) ⟨config, .good, 0, []⟩ = .ok st →
          Atomic saneFix heap config lines st) ↔ NeverOpens saneFix heap config lines) := by
  intro lines
  refine ⟨?_, ?_, ?_⟩
  · exact configureLines_ok heap ⟨config, .good, 0, []⟩
  · intro h st hrun
    apply h.atomic (k := lines.length)
    rw [List.take_length]
    exact hrun
  · constructor
    · intro h k line st hafter hline hopen
      have hnul := zero_not_mem_configLine (List.mem_of_getElem? hline)
      obtain ⟨st', hrun, hnot⟩ := hopen.not_atomic hafter hline hnul
      exact hnot (h (k + 1) st' hrun)
    · exact fun h k st hrun => h.atomic hrun

/-- A string option of four bytes. -/
def modelConfig : SaneiConfig :=
  [{ descriptor := ⟨ascii ['m', 'o', 'd', 'e', 'l'], .string, 4, .none⟩
     value := ascii ['x', 'y', 'z', 'w']
     room := by decide }]

def modelAbcdef : List UInt8 := ascii ['m', 'o', 'd', 'e', 'l', ' ', 'a', 'b', 'c', 'd', 'e', 'f']

/-- The line `model abcdef` leaves `abc` in the buffer with the byte that was there before
behind it. -/
theorem not_atomic_modelAbcdef :
    ∃ st, saneiConfigureAttach (fun _ => 0) (fun _ _ => 0) (some modelAbcdef) modelConfig = .ok st ∧
      st.status = .good ∧ st.config.map (·.value) = [ascii ['a', 'b', 'c', 'w']] ∧
      ¬ Atomic (fun _ => 0) (fun _ _ => 0) modelConfig
        (configLines modelAbcdef.length modelAbcdef) st := by
  have hrun : (match saneiConfigureAttach (fun _ => 0) (fun _ _ => 0) (some modelAbcdef)
      modelConfig with
      | .ok st => st.status == .good && st.config.map (·.value) == [ascii ['a', 'b', 'c', 'w']]
      | .error _ => false) = true := by decide
  split at hrun
  · next st hst =>
      rw [Bool.and_eq_true] at hrun
      have hvalues := eq_of_beq hrun.2
      refine ⟨st, hst, eq_of_beq hrun.1, hvalues, fun h => ?_⟩
      obtain ⟨o', hconfig, hvalue⟩ := List.map_eq_singleton_iff.mp hvalues
      have hkept := h.kept 0 _ o' (show modelConfig[0]? = some _ from rfl) (by rw [hconfig]; rfl)
      rcases hkept.complete with hsame | ⟨block, n, -, -, -, hleads, hend⟩
      · rw [hvalue] at hsame
        exact absurd hsame (by decide)
      · rw [if_pos rfl] at hend
        rw [hvalue] at hleads
        exact absurd (hleads.subset hend) (by decide)
  · cases hrun

end Returns

end SaneBackends.Sanei
