import SaneBackends.Dll.Devices
/-!
# Names listed by `sane_get_devices` and opened by `sane_open`

Listing and opening go through the aliases with loops of their own. With aliases that do
not collide, every listed name opens the device it was listed for.
-/

namespace SaneBackends.Dll

open SaneBackends.Lib SaneBackends.Sanei

/-- A device reported by the backend at a position of the list. -/
structure Source where
  index : Nat
  beName : Name
  device : Device

/-- The name of a device without aliases. -/
def Source.fullName (src : Source) : Name := src.beName ++ [58] ++ src.device.name

/-- What a backend reports. -/
def reported (answers : DevicesAnswers) (i : Nat) (be : Backend) : List Device :=
  match getDevicesOp answers i be with
  | (.good, some beList) => beList
  | _ => []

/-- All devices that are reported, in order. -/
def sources (answers : DevicesAnswers) : Nat → List Backend → List Source
  | _, [] => []
  | i, be :: backends =>
      (reported answers i be).map (⟨i, be.name, ·⟩) ++ sources answers (i + 1) backends

/-- An alias entry hides the device. -/
def Hidden (aliases : List Alias) (src : Source) : Prop :=
  ⟨src.fullName, none⟩ ∈ aliases

instance (aliases : List Alias) (src : Source) : Decidable (Hidden aliases src) :=
  inferInstanceAs (Decidable (_ ∈ _))

/-- Initialised backends with usable names, devices without repeated names, and aliases
that do not collide with each other or with a device that has none. -/
structure WellNamed (aliases : List Alias) (answers : DevicesAnswers) (backends : List Backend) :
    Prop where
  inited : ∀ be ∈ backends, be.inited = true
  backendNames : (backends.map (·.name)).Nodup
  plain : ∀ be ∈ backends, be.name ≠ [] ∧ 58 ∉ be.name ∧
    be.name ∉ [fakeusb, fakeusbdev, fakeusbout]
  deviceNames : ∀ i be, backends[i]? = some be → ((reported answers i be).map (·.name)).Nodup
  oldNames : (aliases.map (·.oldname)).Nodup
  newNames : (aliases.filterMap (·.newname)).Nodup
  apart : ∀ src ∈ sources answers 0 backends, src.fullName ∉ aliases.map (·.oldname) →
    src.fullName ∉ aliases.filterMap (·.newname)

/-- A listed device is the source's under another name, by which `sane_open` reaches it. -/
structure Reaches (recordReplay : Bool) (aliases : List Alias) (backends : List Backend)
    (dev : Device) (src : Source) : Prop where
  vendor : dev.vendor = src.device.vendor
  model : dev.model = src.device.model
  type : dev.type = src.device.type
  opens : ∀ answers : OpenAnswers, answers.nameCopy = true →
    ∃ opened backends', saneOpen recordReplay aliases answers dev.name backends =
        .ok (opened, backends') ∧
      opened.forwarded = some (src.index, src.device.name)

section Names

theorem splitColon_append {beName devName : Name} (h : 58 ∉ beName) :
    splitColon (beName ++ [58] ++ devName) = some (beName, devName) := by
  have hall : ∀ c ∈ beName, (decide (c ≠ 58)) = true := by
    intro c hc
    rw [decide_eq_true_eq]
    rintro rfl
    exact h hc
  rw [splitColon, List.append_assoc, List.dropWhile_append_of_pos hall,
    List.takeWhile_append_of_pos hall]
  simp

theorem fullName_inj {src src' : Source} (h : 58 ∉ src.beName) (h' : 58 ∉ src'.beName)
    (heq : src.fullName = src'.fullName) :
    src.beName = src'.beName ∧ src.device.name = src'.device.name := by
  have hsplit := congrArg splitColon heq
  rw [Source.fullName, Source.fullName, splitColon_append h, splitColon_append h'] at hsplit
  exact Prod.mk.inj (Option.some.inj hsplit)

/-- A comparison piece by piece is one with the whole name. -/
theorem eq_append_colon_iff {oldname beName devName : Name} :
    oldname = beName ++ [58] ++ devName ↔ beName.length < oldname.length ∧
      oldname.take beName.length = beName ∧ oldname[beName.length]? = some 58 ∧
        oldname.drop (beName.length + 1) = devName := by
  constructor
  · rintro rfl
    simp
  · rintro ⟨hlt, htake, hcolon, hdrop⟩
    have hget : oldname[beName.length] = 58 := by
      rwa [List.getElem?_eq_getElem hlt, Option.some_inj] at hcolon
    calc oldname = oldname.take beName.length ++ oldname.drop beName.length :=
          (List.take_append_drop _ _).symm
      _ = beName ++ (58 :: devName) := by
          rw [htake, List.drop_eq_getElem_cons hlt, hget, hdrop]
      _ = beName ++ [58] ++ devName := by simp

theorem listedName_eq (aliases : List Alias) (src : Source) :
    listedName aliases src.beName src.device.name =
      match aliases.find? (·.oldname = src.fullName) with
      | some entry => entry.newname
      | none => some src.fullName := by
  have hfind : findAlias aliases src.beName src.device.name =
      aliases.find? (·.oldname = src.fullName) := by
    rw [findAlias]
    congr 1
    funext entry
    simp only [Source.fullName, eq_append_colon_iff]
    by_cases hlen : entry.oldname.length ≤ src.beName.length
    · simp [hlen, Nat.not_lt.mpr hlen]
    · simp [hlen, Nat.lt_of_not_le hlen]
  rw [listedName, hfind]
  rfl

/-- Where keys are not repeated, a search by key finds the entry that has it. -/
theorem find_of_key {α β : Type} [DecidableEq β] {key : α → Option β} {l : List α}
    (hnodup : (l.filterMap key).Nodup) {x : α} (hx : x ∈ l) {k : β} (hk : key x = some k) :
    l.find? (fun y => key y = some k) = some x := by
  induction l with
  | nil => cases hx
  | cons y l ih =>
      by_cases hy : key y = some k
      · rw [List.filterMap_cons_some hy, List.nodup_cons] at hnodup
        rw [List.find?_cons_of_pos (by simpa using hy)]
        rcases List.mem_cons.mp hx with rfl | hx
        · rfl
        · exact absurd (List.mem_filterMap.mpr ⟨x, hx, hk⟩) hnodup.1
      · rw [List.find?_cons_of_neg (by simpa using hy)]
        rcases List.mem_cons.mp hx with rfl | hx
        · exact absurd hk hy
        · refine ih (hnodup.sublist ?_) hx
          exact (List.sublist_cons_self y l).filterMap key

theorem find_of_oldname {aliases : List Alias} (hnodup : (aliases.map (·.oldname)).Nodup)
    {entry : Alias} (hmem : entry ∈ aliases) :
    aliases.find? (·.oldname = entry.oldname) = some entry := by
  have hkeys : (aliases.filterMap fun entry => some entry.oldname).Nodup := by
    rwa [List.filterMap_eq_map']
  simpa using find_of_key hkeys hmem rfl

theorem oldname_of_find {aliases : List Alias} {entry : Alias} {oldname : Name}
    (h : aliases.find? (·.oldname = oldname) = some entry) : entry.oldname = oldname := by
  simpa using List.find?_some h

end Names

section Aliases

variable {aliases : List Alias} {answers : DevicesAnswers} {backends : List Backend}

theorem listedName_eq_none (hnodup : (aliases.map (·.oldname)).Nodup) (src : Source) :
    listedName aliases src.beName src.device.name = none ↔ Hidden aliases src := by
  rw [listedName_eq]
  constructor
  · intro hnone
    cases hfind : aliases.find? (·.oldname = src.fullName) with
    | none =>
        rw [hfind] at hnone
        cases hnone
    | some entry =>
        rw [hfind] at hnone
        have hentry : entry = ⟨src.fullName, none⟩ := by
          rw [← oldname_of_find hfind, ← hnone]
        rw [Hidden, ← hentry]
        exact List.mem_of_find?_eq_some hfind
  · intro hhidden
    rw [find_of_oldname hnodup hhidden]

/-- The name a device is listed under stands for the device's own. -/
theorem WellNamed.resolveAlias (h : WellNamed aliases answers backends) {src : Source}
    (hsrc : src ∈ sources answers 0 backends) {name : Name}
    (hname : listedName aliases src.beName src.device.name = some name) :
    resolveAlias aliases name = src.fullName := by
  rw [listedName_eq] at hname
  rw [Dll.resolveAlias]
  cases hfind : aliases.find? (·.oldname = src.fullName) with
  | some entry =>
      rw [hfind] at hname
      rw [find_of_key h.newNames (List.mem_of_find?_eq_some hfind) hname]
      exact oldname_of_find hfind
  | none =>
      rw [hfind] at hname
      cases hname
      have hold : src.fullName ∉ aliases.map (·.oldname) := by
        intro hmem
        obtain ⟨entry, hentry, holdname⟩ := List.mem_map.mp hmem
        simpa [holdname] using List.find?_eq_none.mp hfind entry hentry
      have hnew : aliases.find? (·.newname = some src.fullName) = none := by
        rw [List.find?_eq_none]
        intro entry hentry hnewname
        exact h.apart src hsrc hold
          (List.mem_filterMap.mpr ⟨entry, hentry, by simpa using hnewname⟩)
      rw [hnew]

/-- A source lies at its position of the list. -/
theorem mem_sources {src : Source} {i : Nat} (h : src ∈ sources answers i backends) :
    ∃ k be, backends[k]? = some be ∧ src.index = i + k ∧ src.beName = be.name ∧
      src.device ∈ reported answers src.index be := by
  induction backends generalizing i with
  | nil => cases h
  | cons be backends ih =>
      rcases List.mem_append.mp h with h | h
      · obtain ⟨dev, hdev, rfl⟩ := List.mem_map.mp h
        exact ⟨0, be, rfl, rfl, rfl, hdev⟩
      · obtain ⟨k, be', hbe', hindex, hsrc⟩ := ih h
        exact ⟨k + 1, be', hbe', by omega, hsrc⟩

theorem WellNamed.findBackend (h : WellNamed aliases answers backends) {k : Nat} {be : Backend}
    (hbe : backends[k]? = some be) : findBackend be.name backends = some k := by
  obtain ⟨hlt, hget⟩ := List.getElem?_eq_some_iff.mp hbe
  have hplain := h.plain be (List.mem_of_getElem? hbe)
  rw [Dll.findBackend, if_neg hplain.1, List.findIdx?_eq_some_iff_getElem]
  refine ⟨hlt, decide_eq_true (congrArg Backend.name hget), fun j hj => ?_⟩
  rw [decide_eq_true_eq]
  intro hname
  have hnames : (backends.map (·.name))[j]? = (backends.map (·.name))[k]? := by
    rw [List.getElem?_map, List.getElem?_map, hbe, List.getElem?_eq_getElem (hj.trans hlt)]
    exact congrArg some hname
  exact hj.ne ((List.nodup_iff_getElem?_ne_getElem?.mp h.backendNames j k hj
    (by rwa [List.length_map]) hnames).elim)

/-- An initialised backend is handed the name. -/
theorem openBackend_forwarded {openAnswers : OpenAnswers} {added : Option Name} {i : Nat}
    {devName : Name} {be : Backend} (hbe : backends[i]? = some be) (hinited : be.inited = true) :
    ∃ opened backends', openBackend openAnswers added i devName backends = .ok (opened, backends') ∧
      opened.forwarded = some (i, devName) := by
  unfold openBackend
  rw [hbe]
  dsimp only
  rw [if_pos hinited]
  dsimp only
  rw [if_neg (by decide)]
  split_ifs <;> exact ⟨_, _, rfl, rfl⟩

theorem WellNamed.opens (h : WellNamed aliases answers backends) (recordReplay : Bool)
    {src : Source} (hsrc : src ∈ sources answers 0 backends) {name : Name}
    (hname : listedName aliases src.beName src.device.name = some name)
    (openAnswers : OpenAnswers) (hcopy : openAnswers.nameCopy = true) :
    ∃ opened backends', saneOpen recordReplay aliases openAnswers name backends =
        .ok (opened, backends') ∧
      opened.forwarded = some (src.index, src.device.name) := by
  obtain ⟨k, be, hbe, hindex, hbeName, -⟩ := mem_sources hsrc
  rw [Nat.zero_add] at hindex
  have hmem := List.mem_of_getElem? hbe
  obtain ⟨-, hcolon, htesting⟩ := h.plain be hmem
  simp only [List.mem_cons, List.not_mem_nil, or_false, not_or] at htesting
  have hsplit : splitColon src.fullName = some (be.name, src.device.name) := by
    rw [Source.fullName, hbeName, splitColon_append hcolon]
  have hopen : openNames recordReplay openAnswers src.fullName =
      .ok (.names be.name src.device.name) := by
    simp only [openNames, hsplit, htesting, or_self, if_false, hcopy, copied, if_true,
      OpenNames.ofCopy]
  rw [saneOpen, h.resolveAlias hsrc hname, hopen, ok_bind]
  dsimp only
  rw [openNamed, h.findBackend hbe]
  dsimp only
  rw [hindex]
  exact openBackend_forwarded hbe (h.inited be hmem)

end Aliases

section Listing

variable {aliases : List Alias} {answers : DevicesAnswers}

/-- The entry made for a source, unless it is hidden. -/
def Source.entry (aliases : List Alias) (src : Source) : Option Device :=
  (listedName aliases src.beName src.device.name).map fun name => { src.device with name := name }

theorem write_devices {devices : List Device} {l l' : Listing} (h : l.write devices = .ok l') :
    l'.devices = l.devices ++ devices := by
  unfold Listing.write at h
  split at h
  · cases h
  · next entries hentries =>
      split_ifs at h
      cases h
      simp [Listing.devices, hentries]

theorem assertSpace_devices {memory : Nat → Bool} {n : Nat} {l l' : Listing}
    (h : l.assertSpace memory n = (.good, l')) : l'.devices = l.devices := by
  unfold Listing.assertSpace at h
  dsimp only at h
  split_ifs at h <;> cases h <;> rfl

theorem listDevices_good {i : Nat} {beName : Name} {beList : List Device} {l l' : Listing}
    (h : listDevices aliases answers beName beList l = .ok (.good, l')) :
    l'.devices = l.devices ++ (beList.map (Source.mk i beName)).filterMap (·.entry aliases) := by
  induction beList generalizing l with
  | nil =>
      cases h
      simp
  | cons dev beList ih =>
      rw [listDevices] at h
      rw [List.map_cons]
      cases hname : listedName aliases beName dev.name with
      | none =>
          rw [hname] at h
          rw [List.filterMap_cons_none (by simp [Source.entry, hname]), ih h]
      | some fullName =>
          rw [hname] at h
          dsimp only at h
          split_ifs at h with hmemory
          · cases h
          · obtain ⟨l₁, hwrite, h⟩ := bind_eq_ok.mp h
            rw [List.filterMap_cons_some (by simp [Source.entry, hname]; rfl), ih h,
              write_devices hwrite, List.append_assoc]
            rfl

theorem reported_of_some {i : Nat} {be : Backend} {beList : List Device}
    (h : getDevicesOp answers i be = (.good, some beList)) : reported answers i be = beList := by
  rw [reported, h]

theorem reported_of_not {i : Nat} {be : Backend}
    (h : ∀ beList, getDevicesOp answers i be = (.good, some beList) → False) :
    reported answers i be = [] := by
  unfold reported
  split
  · next beList hop => exact (h beList hop).elim
  · rfl

theorem listBackend_good {i : Nat} {be be' : Backend} {l l' : Listing} (hinited : be.inited = true)
    (h : listBackend aliases answers i be l = .ok (.good, be', l')) :
    be' = be ∧ l'.devices = l.devices ++
      ((reported answers i be).map (Source.mk i be.name)).filterMap (·.entry aliases) := by
  unfold listBackend at h
  rw [if_pos hinited] at h
  dsimp only at h
  rw [if_neg (by decide)] at h
  split at h
  · next beList hop =>
      rw [reported_of_some hop]
      split at h
      · next l₁ hspace =>
          obtain ⟨⟨status, l₂⟩, hlist, h⟩ := bind_eq_ok.mp h
          cases h
          exact ⟨rfl, by rw [listDevices_good hlist, assertSpace_devices hspace]⟩
      · next status l₁ hbad hspace =>
          cases h
          exact (hbad rfl).elim
  · next hop =>
      cases h
      exact ⟨rfl, by rw [reported_of_not hop, List.map_nil, List.filterMap_nil, List.append_nil]⟩

/-- Each reported device that is not hidden is listed, in order. -/
theorem listBackends_good {i : Nat} {backends backends' : List Backend} {l l' : Listing}
    (hinited : ∀ be ∈ backends, be.inited = true)
    (h : listBackends aliases answers i backends l = .ok (.good, backends', l')) :
    backends' = backends ∧
      l'.devices = l.devices ++ (sources answers i backends).filterMap (·.entry aliases) := by
  induction backends generalizing i l backends' with
  | nil =>
      cases h
      simp [sources]
  | cons be backends ih =>
      rw [listBackends] at h
      obtain ⟨⟨status, be₁, l₁⟩, hone, h⟩ := bind_eq_ok.mp h
      dsimp only at h
      split_ifs at h with hbad
      · cases h
        exact absurd rfl hbad
      · obtain ⟨⟨status', backends₁, l₂⟩, hrest, h⟩ := bind_eq_ok.mp h
        cases h
        obtain rfl := not_not.mp hbad
        obtain ⟨rfl, hdevices⟩ := listBackend_good (hinited be List.mem_cons_self) hone
        obtain ⟨rfl, hdevices'⟩ := ih (fun be hbe => hinited be (List.mem_cons_of_mem _ hbe)) hrest
        refine ⟨rfl, ?_⟩
        rw [hdevices', hdevices, sources, List.filterMap_append, List.append_assoc]

/-- The list that is returned. -/
theorem saneGetDevices_good {backends backends' : List Backend} {devlist devlist' : Devlist}
    {list : List Device} (hinited : ∀ be ∈ backends, be.inited = true)
    (h : saneGetDevices aliases answers backends devlist = .ok (.good, list, backends', devlist')) :
    backends' = backends ∧ list = (sources answers 0 backends).filterMap (·.entry aliases) := by
  unfold saneGetDevices at h
  dsimp only at h
  obtain ⟨⟨status, backends₁, l₁⟩, hlist, hreturn⟩ := bind_eq_ok.mp h
  clear h
  dsimp only at hreturn
  split_ifs at hreturn with hbad
  · cases hreturn
    exact absurd rfl hbad
  · obtain rfl := not_not.mp hbad
    obtain ⟨rfl, hdevices⟩ := listBackends_good hinited hlist
    have hstart : (⟨{ devlist with devices := devlist.devices.map fun _ => [] }, 0⟩ :
        Listing).devices = [] := by
      cases hdev : devlist.devices <;> rfl
    split at hreturn
    · next l₂ hspace =>
        obtain ⟨l₃, -, hreturn⟩ := bind_eq_ok.mp hreturn
        cases hreturn
        exact ⟨rfl, by rw [assertSpace_devices hspace, hdevices, hstart, List.nil_append]⟩
    · next status l₂ hbad hspace =>
        cases hreturn
        exact (hbad rfl).elim

/-- `devlist` is `NULL` only while it has no room. -/
def Devlist.Sound (devlist : Devlist) : Prop := devlist.devices = none → devlist.size = 0

/-- The list so far lies in the array. -/
structure Listing.Sound (l : Listing) : Prop where
  devlist : l.devlist.Sound
  room : l.devices.length ≤ l.devlist.size

variable (hmemory : ∀ k, answers.memory k = true)

include hmemory

theorem assertSpace_ok (n : Nat) {l : Listing} (h : l.Sound) :
    ∃ l', l.assertSpace answers.memory n = (.good, l') ∧ l'.Sound ∧
      l'.devices.length + n ≤ l'.devlist.size := by
  have hroom := h.room
  unfold Listing.assertSpace
  dsimp only
  split_ifs with hspace hgrant
  · refine ⟨_, rfl, ⟨nofun, ?_⟩, ?_⟩
    · change l.devices.length ≤ l.devlist.size + n + 15
      omega
    · change l.devices.length + n ≤ l.devlist.size + n + 15
      omega
  · exact absurd (hmemory _) hgrant
  · exact ⟨l, rfl, h, by omega⟩

theorem listDevices_ok {beName : Name} {beList : List Device} {l : Listing} (h : l.Sound)
    (hroom : l.devices.length + beList.length ≤ l.devlist.size) :
    ∃ l', listDevices aliases answers beName beList l = .ok (.good, l') ∧ l'.Sound := by
  induction beList generalizing l with
  | nil => exact ⟨l, rfl, h⟩
  | cons dev beList ih =>
      rw [List.length_cons] at hroom
      rw [listDevices]
      cases listedName aliases beName dev.name with
      | none => exact ih h (by omega)
      | some fullName =>
          dsimp only
          rw [if_neg (by simp [hmemory])]
          cases hdevices : l.devlist.devices with
          | none =>
              have hsize := h.devlist hdevices
              omega
          | some entries =>
              have hentries : l.devices = entries := by simp [Listing.devices, hdevices]
              rw [hentries] at hroom
              have hlt : entries.length < l.devlist.size := by omega
              simp only [Listing.write, hdevices, if_pos hlt, ok_bind]
              refine ih ⟨nofun, ?_⟩ ?_
              · change (entries ++ [_]).length ≤ l.devlist.size
                rw [List.length_append, List.length_singleton]
                omega
              · change (entries ++ [_]).length + beList.length ≤ l.devlist.size
                rw [List.length_append, List.length_singleton]
                omega

theorem listBackend_ok (i : Nat) (be : Backend) {l : Listing} (h : l.Sound) :
    ∃ be' l', listBackend aliases answers i be l = .ok (.good, be', l') ∧ l'.Sound := by
  unfold listBackend
  generalize (if be.inited then (SaneStatus.good, be) else init (answers.init i) be) = begun
  obtain ⟨status, be⟩ := begun
  dsimp only
  split_ifs with hbad
  · exact ⟨be, l, rfl, h⟩
  · split
    · next beList hop =>
        obtain ⟨l₁, hspace, hsound, hroom⟩ := assertSpace_ok hmemory beList.length h
        obtain ⟨l₂, hlist, hsound₂⟩ := listDevices_ok hmemory hsound hroom
        rw [hspace]
        dsimp only
        rw [hlist]
        exact ⟨be, l₂, rfl, hsound₂⟩
    · exact ⟨be, l, rfl, h⟩

theorem listBackends_ok (i : Nat) (backends : List Backend) {l : Listing} (h : l.Sound) :
    ∃ backends' l', listBackends aliases answers i backends l = .ok (.good, backends', l') ∧
      l'.Sound := by
  induction backends generalizing i l with
  | nil => exact ⟨[], l, rfl, h⟩
  | cons be backends ih =>
      obtain ⟨be', l₁, hone, hsound₁⟩ := listBackend_ok hmemory i be h
      obtain ⟨backends', l₂, hrest, hsound₂⟩ := ih (i + 1) hsound₁
      refine ⟨be' :: backends', l₂, ?_, hsound₂⟩
      rw [listBackends, hone, ok_bind]
      dsimp only
      rw [if_neg (by decide), hrest]
      rfl

/-- Without failing allocations the call returns a list. -/
theorem saneGetDevices_ok (backends : List Backend) {devlist : Devlist} (h : devlist.Sound) :
    ∃ list backends' devlist', saneGetDevices aliases answers backends devlist =
      .ok (.good, list, backends', devlist') := by
  have hstart : (⟨{ devlist with devices := devlist.devices.map fun _ => [] }, 0⟩ :
      Listing).Sound := by
    refine ⟨fun hnull => h (Option.map_eq_none_iff.mp hnull), ?_⟩
    cases hdev : devlist.devices <;> exact Nat.zero_le _
  obtain ⟨backends', l₁, hlist, hsound₁⟩ := listBackends_ok hmemory 0 backends hstart
  obtain ⟨l₂, hspace, hsound₂, hroom⟩ := assertSpace_ok hmemory 1 hsound₁
  refine ⟨l₂.devices, backends', l₂.devlist, ?_⟩
  unfold saneGetDevices
  dsimp only
  rw [hlist, ok_bind]
  dsimp only
  rw [if_neg (by decide), hspace]
  dsimp only
  cases hdevices : l₂.devlist.devices with
  | none =>
      have hsize := hsound₂.devlist hdevices
      omega
  | some entries =>
      have hentries : l₂.devices = entries := by simp [Listing.devices, hdevices]
      have hlt : entries.length < l₂.devlist.size := by
        rw [← hentries]
        omega
      simp only [Listing.write, hdevices, if_pos hlt, ok_bind]

end Listing

/-- No two reported devices have the same name of their own. -/
theorem fullNames_nodup {answers : DevicesAnswers} {backends : List Backend} {i : Nat}
    (hnames : (backends.map (·.name)).Nodup) (hplain : ∀ be ∈ backends, 58 ∉ be.name)
    (hdevices : ∀ k be, backends[k]? = some be →
      ((reported answers (i + k) be).map (·.name)).Nodup) :
    ((sources answers i backends).map (·.fullName)).Nodup := by
  induction backends generalizing i with
  | nil => exact List.nodup_nil
  | cons be backends ih =>
      rw [List.map_cons, List.nodup_cons] at hnames
      have hcolon := hplain be List.mem_cons_self
      have hrest := ih (i := i + 1) hnames.2 (fun be hbe => hplain be (List.mem_cons_of_mem _ hbe))
        fun k be hbe => by
          rw [Nat.add_assoc, Nat.add_comm 1]
          exact hdevices (k + 1) be hbe
      rw [sources, List.map_append, List.nodup_append']
      refine ⟨?_, hrest, ?_⟩
      · have hnodup := hdevices 0 be rfl
        rw [List.map_map]
        refine (List.Nodup.of_map _ hnodup).map_on fun dev hdev dev' hdev' heq => ?_
        exact List.inj_on_of_nodup_map hnodup hdev hdev'
          (@fullName_inj ⟨i, be.name, dev⟩ ⟨i, be.name, dev'⟩ hcolon hcolon heq).2
      · rw [List.disjoint_left]
        intro name hleft hright
        obtain ⟨src, hsrc, rfl⟩ := List.mem_map.mp hleft
        obtain ⟨dev, -, rfl⟩ := List.mem_map.mp hsrc
        obtain ⟨src', hsrc', heq⟩ := List.mem_map.mp hright
        obtain ⟨k, be', hbe', -, hbeName, -⟩ := mem_sources hsrc'
        have hmem := List.mem_of_getElem? hbe'
        have hcolon' : 58 ∉ src'.beName := hbeName ▸ hplain be' (List.mem_cons_of_mem _ hmem)
        have hname := (fullName_inj hcolon' hcolon heq).1
        exact hnames.1 (List.mem_map.mpr ⟨be', hmem, hbeName.symm.trans hname⟩)

/-- Where the entries and the names behind them match, they are those of the list. -/
theorem forall₂_filterMap {α β : Type} {f : α → Option β} {hide : α → Prop} [DecidablePred hide]
    {R : β → α → Prop} {l : List α} (hhide : ∀ x ∈ l, f x = none ↔ hide x)
    (hR : ∀ x ∈ l, ∀ y, f x = some y → R y x) :
    List.Forall₂ R (l.filterMap f) (l.filter fun x => ¬ hide x) := by
  induction l with
  | nil => exact .nil
  | cons x l ih =>
      have hrest := ih (fun y hy => hhide y (List.mem_cons_of_mem _ hy))
        fun y hy => hR y (List.mem_cons_of_mem _ hy)
      have hx := hhide x List.mem_cons_self
      cases hf : f x with
      | none =>
          rw [List.filterMap_cons_none hf, List.filter_cons_of_neg (by simpa using hx.mp hf)]
          exact hrest
      | some y =>
          have hshown : ¬ hide x := fun h => by
            rw [hx.mpr h] at hf
            cases hf
          rw [List.filterMap_cons_some hf, List.filter_cons_of_pos (by simpa using hshown)]
          exact .cons (hR x List.mem_cons_self y hf) hrest

/-- Listed names open the devices they were listed for: the list that `sane_get_devices`
returns has one entry for each reported device that is not hidden, in order, under distinct
names, and each of these names reaches its device. -/
theorem listed_reach_sources {aliases : List Alias} {answers : DevicesAnswers}
    {backends : List Backend} (h : WellNamed aliases answers backends) (recordReplay : Bool)
    (devlist : Devlist) :
    (∀ list backends' devlist', saneGetDevices aliases answers backends devlist =
        .ok (.good, list, backends', devlist') →
      List.Forall₂ (Reaches recordReplay aliases backends') list
          ((sources answers 0 backends).filter fun src => ¬ Hidden aliases src) ∧
        (list.map (·.name)).Nodup) ∧
      (devlist.Sound → (∀ k, answers.memory k = true) → ∃ list backends' devlist',
        saneGetDevices aliases answers backends devlist =
          .ok (.good, list, backends', devlist')) := by
  refine ⟨fun list backends' devlist' hrun => ?_, fun hsound hmemory =>
    saneGetDevices_ok hmemory backends hsound⟩
  obtain ⟨rfl, rfl⟩ := saneGetDevices_good h.inited hrun
  refine ⟨forall₂_filterMap (fun src _ => ?_) fun src hsrc dev hdev => ?_, ?_⟩
  · rw [Source.entry, Option.map_eq_none_iff, listedName_eq_none h.oldNames]
  · obtain ⟨name, hname, rfl⟩ := Option.map_eq_some_iff.mp hdev
    exact ⟨rfl, rfl, rfl, h.opens recordReplay hsrc hname⟩
  · have hnodup : ((sources answers 0 backends').map (·.fullName)).Nodup :=
      fullNames_nodup h.backendNames (fun be hbe => (h.plain be hbe).2.1) fun k be hbe => by
        rw [Nat.zero_add]
        exact h.deviceNames k be hbe
    rw [List.Nodup, List.pairwise_map, List.pairwise_filterMap]
    rw [List.Nodup, List.pairwise_map] at hnodup
    refine hnodup.imp_of_mem fun {src src'} hsrc hsrc' hne dev hdev dev' hdev' heq => hne ?_
    obtain ⟨name, hname, rfl⟩ := Option.map_eq_some_iff.mp hdev
    obtain ⟨name', hname', rfl⟩ := Option.map_eq_some_iff.mp hdev'
    obtain rfl : name = name' := heq
    exact (h.resolveAlias hsrc hname).symm.trans (h.resolveAlias hsrc' hname')

/-- A backend `net` with a device `a:b` that is called `x`, and a hidden one. -/
theorem listed_reach_sources_renamed :
    let aliases : List Alias := [⟨ascii ['n', 'e', 't', ':', 'c'], none⟩,
      ⟨ascii ['n', 'e', 't', ':', 'a', ':', 'b'], some (ascii ['x'])⟩]
    let answers : DevicesAnswers := ⟨fun _ => ⟨.good, .good, 0⟩, fun _ => (.good,
      some [⟨ascii ['a', ':', 'b'], [], [], []⟩, ⟨ascii ['c'], [], [], []⟩]), fun _ => true⟩
    let backends : List Backend := [⟨ascii ['n', 'e', 't'], true, true, true⟩]
    ∃ list backends' devlist', saneGetDevices aliases answers backends ⟨none, 0⟩ =
        .ok (.good, list, backends', devlist') ∧
      List.Forall₂ (Reaches false aliases backends') list
        ((sources answers 0 backends).filter fun src => ¬ Hidden aliases src) := by
  intro aliases answers backends
  have hnamed : WellNamed aliases answers backends := by
    refine ⟨by decide, by decide, by decide, fun i be hbe => ?_, by decide, by decide, by decide⟩
    obtain rfl := List.mem_singleton.mp (List.mem_of_getElem? hbe)
    change ([ascii ['a', ':', 'b'], ascii ['c']] : List Name).Nodup
    decide
  obtain ⟨hlisted, hruns⟩ := listed_reach_sources hnamed false ⟨none, 0⟩
  obtain ⟨list, backends', devlist', hrun⟩ := hruns (fun _ => rfl) fun _ => rfl
  exact ⟨list, backends', devlist', hrun, (hlisted list backends' devlist' hrun).1⟩

end SaneBackends.Dll
