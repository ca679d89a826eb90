import SaneBackends.Lib.Recency
import SaneBackends.Lib.Transition
import SaneBackends.Dll.Backends
/-!
# The order of the backends, and what `sane_open` reaches

The list stays ordered by the last mention to `add_backend`, whatever lines are read
and whatever names are opened. A name is forwarded or refused, unless it asks for the
backend `dll` itself: `add_backend` ignores that name with a good status, and
`sane_open` goes on with the `NULL` it searched with.
-/

namespace SaneBackends.Dll

open SaneBackends.Lib SaneBackends.Sanei

/-- A line of `dll.conf` or `dll.d`, or a call of `sane_open`. -/
inductive DllCall where
  | line (memory : Memory) (configLine : Name)
  | opening (answers : OpenAnswers) (fullName : Name)

/-- The list with all names that were passed to `add_backend`, in order. -/
structure DllState where
  backends : List Backend
  mentions : List Name

def DllState.names (s : DllState) : List Name := s.backends.map (·.name)

section System

variable (recordReplay : Bool) (aliases : List Alias)

/-- One call, with what it opened if it is one of `sane_open`. -/
def DllCall.run (s : DllState) : DllCall → Except Fault (Option Opened × DllState)
  | .line memory configLine =>
      match configBackend configLine with
      | none => .ok (none, s)
      | some name =>
          .ok (none, ⟨(addBackend memory name s.backends).2.1, s.mentions ++ [name]⟩)
  | .opening answers fullName => do
      let (opened, backends) ← saneOpen recordReplay aliases answers fullName s.backends
      .ok (some opened, ⟨backends, s.mentions ++ opened.added.toList⟩)

/-- The backends of `preloaded_backends`, the last of them first. -/
def preloadedBackends (preloaded : List Name) : List Backend :=
  preloaded.reverse.map fun name => ⟨name, true, false, true⟩

def dllSystem (preloaded : List Name) : System DllState DllCall where
  init s := s = ⟨preloadedBackends preloaded, preloaded⟩
  step s call s' := ∃ opened, DllCall.run recordReplay aliases s call = .ok (opened, s')

/-- The name asks for the backend `dll`, and nothing stops it earlier. -/
def AsksForDll (answers : OpenAnswers) (fullName : Name) : Prop :=
  match splitColon fullName with
  | none => fullName = dllName ∧ answers.nameCopy = true
  | some (beName, devName) =>
      if beName = fakeusb ∨ beName = fakeusbdev then
        recordReplay = true ∧ answers.capture = some (some dllName)
      else if beName = fakeusbout then
        ∃ path name, recordReplay = true ∧ splitColon devName = some (path, name) ∧
          answers.nameCopy = true ∧ answers.pathCopy = true ∧ (beAndDevName name).1 = dllName
      else beName = dllName ∧ answers.nameCopy = true

/-- A name to record under, of which a part cannot be copied. -/
def RecordsUncopied (answers : OpenAnswers) (fullName : Name) : Prop :=
  ∃ devName path name, splitColon fullName = some (fakeusbout, devName) ∧ recordReplay = true ∧
    splitColon devName = some (path, name) ∧
    (answers.nameCopy = false ∨ answers.pathCopy = false)

/-- The calls that `sane_open` gets through with. -/
def Proper : DllCall → Prop
  | .line _ _ => True
  | .opening answers fullName =>
      ¬ AsksForDll recordReplay answers (resolveAlias aliases fullName) ∧
        ¬ RecordsUncopied recordReplay answers (resolveAlias aliases fullName)

end System

/-- The part of a name behind its first colon. Behind a path to record to, it is that of
the name which follows. -/
def devicePart (fullName : Name) : Name :=
  match splitColon fullName with
  | none => []
  | some (beName, devName) =>
      if beName = fakeusbout then
        match splitColon devName with
        | none => []
        | some (_, name) => (beAndDevName name).2
      else devName

/-- Each name at most once, never `dll`, and the last one mentioned first. -/
structure DllState.Ordered (s : DllState) : Prop where
  nodup : s.names.Nodup
  notDll : dllName ∉ s.names
  latestFirst : s.names.Sublist (byRecency s.mentions)

/-- A call ends with an error, or it was forwarded with the device name to an initialised
backend of the list. -/
structure Delivered (devName : Name) (opened : Opened) (backends : List Backend) : Prop where
  forwarded : opened.status = .good → opened.forwarded ≠ none
  reached : ∀ i name, opened.forwarded = some (i, name) →
    name = devName ∧ ∃ be, backends[i]? = some be ∧ be.inited = true

/-- What a call that ends leaves behind. -/
def DllCall.Served (aliases : List Alias) (opened : Option Opened) (s : DllState) :
    DllCall → Prop
  | .line _ _ => True
  | .opening _ fullName =>
      ∃ o, opened = some o ∧ Delivered (devicePart (resolveAlias aliases fullName)) o s.backends

theorem map_eraseP_name (name : Name) (backends : List Backend) :
    (backends.eraseP (·.name = name)).map (·.name) = (backends.map (·.name)).erase name := by
  induction backends with
  | nil => rfl
  | cons be backends ih =>
      by_cases hname : be.name = name
      · rw [List.eraseP_cons_of_pos (by simpa using hname), List.map_cons, hname,
          List.erase_cons_head]
      · rw [List.eraseP_cons_of_neg (by simpa using hname), List.map_cons, List.map_cons,
          List.erase_cons_tail (by simpa using hname), ih]

/-- The exits of `add_backend`: the name is ignored, there is no memory for it, or it is
now the first one and `*bep` is set. -/
theorem addBackend_cases (memory : Memory) (name : Name) (backends : List Backend) :
    (name = dllName ∧ addBackend memory name backends = (.good, backends, none)) ∨
      (name ≠ dllName ∧ name ∉ backends.map (·.name) ∧
        addBackend memory name backends = (.noMem, backends, none)) ∨
      name ≠ dllName ∧ ∃ backends', addBackend memory name backends = (.good, backends', some 0) ∧
        backends'.map (·.name) = touch name (backends.map (·.name)) := by
  unfold addBackend
  by_cases hdll : name = dllName
  · exact .inl ⟨hdll, if_pos hdll⟩
  · rw [if_neg hdll]
    cases hfind : backends.find? (·.name = name) with
    | some be =>
        have hname : be.name = name := by simpa using List.find?_some hfind
        refine .inr (.inr ⟨hdll, _, rfl, ?_⟩)
        rw [List.map_cons, map_eraseP_name, hname, touch]
    | none =>
        have hnew : name ∉ backends.map (·.name) := by
          rintro hmem
          obtain ⟨be, hbe, hname⟩ := List.mem_map.mp hmem
          simpa [hname] using List.find?_eq_none.mp hfind be hbe
        dsimp only
        split_ifs
        · exact .inr (.inl ⟨hdll, hnew, rfl⟩)
        · exact .inr (.inl ⟨hdll, hnew, rfl⟩)
        · exact .inr (.inr ⟨hdll, _, rfl, by rw [List.map_cons, touch_of_not_mem hnew]⟩)

namespace DllState.Ordered

/-- Only the names and their mentions matter. -/
theorem of_names {s : DllState} (h : s.Ordered) {backends : List Backend}
    (hnames : (⟨backends, s.mentions⟩ : DllState).names = s.names) :
    (⟨backends, s.mentions⟩ : DllState).Ordered where
  nodup := hnames.symm ▸ h.nodup
  notDll := hnames.symm ▸ h.notDll
  latestFirst := hnames.symm ▸ h.latestFirst

/-- A mention that changes nothing: the name is ignored or cannot be added. -/
theorem mention {s : DllState} (h : s.Ordered) {name : Name} (hname : name ∉ s.names) :
    (⟨s.backends, s.mentions ++ [name]⟩ : DllState).Ordered where
  nodup := h.nodup
  notDll := h.notDll
  latestFirst := by
    rw [byRecency_concat]
    exact sublist_touch h.latestFirst hname

/-- A mention that moves or adds the name. -/
theorem touched {s : DllState} (h : s.Ordered) {name : Name} (hdll : name ≠ dllName)
    {backends : List Backend} (hnames : backends.map (·.name) = touch name s.names) :
    (⟨backends, s.mentions ++ [name]⟩ : DllState).Ordered := by
  have hlatest : (backends.map (·.name)).Sublist (byRecency (s.mentions ++ [name])) := by
    rw [hnames, byRecency_concat]
    exact touch_sublist h.latestFirst
  refine ⟨hlatest.nodup (nodup_byRecency _), ?_, hlatest⟩
  change dllName ∉ backends.map (·.name)
  rw [hnames, touch, List.mem_cons, not_or]
  exact ⟨Ne.symm hdll, fun hmem => h.notDll (List.mem_of_mem_erase hmem)⟩

theorem addBackend {s : DllState} (h : s.Ordered) (memory : Memory) (name : Name) :
    (⟨(addBackend memory name s.backends).2.1, s.mentions ++ [name]⟩ : DllState).Ordered := by
  rcases addBackend_cases memory name s.backends with
    ⟨hdll, hadd⟩ | ⟨-, hnew, hadd⟩ | ⟨hdll, backends, hadd, hnames⟩
  · rw [hadd]
    exact h.mention (hdll ▸ h.notDll)
  · rw [hadd]
    exact h.mention hnew
  · rw [hadd]
    exact h.touched hdll hnames

end DllState.Ordered

theorem preloadedBackends_ordered {preloaded : List Name} (hnodup : preloaded.Nodup)
    (hdll : dllName ∉ preloaded) :
    (⟨preloadedBackends preloaded, preloaded⟩ : DllState).Ordered := by
  have hnames : (preloadedBackends preloaded).map (·.name) = preloaded.reverse := by
    rw [preloadedBackends, List.map_map]
    exact List.map_id _
  have hlatest : byRecency preloaded = preloaded.reverse := by
    rw [byRecency, hnodup.dedup]
  refine ⟨?_, ?_, ?_⟩
  · rw [DllState.names, hnames]
    exact List.nodup_reverse.mpr hnodup
  · rw [DllState.names, hnames, List.mem_reverse]
    exact hdll
  · rw [DllState.names, hnames, hlatest]

/-- `init` keeps the name, and ends well only with the backend initialised. -/
theorem init_spec (answer : InitAnswer) (be : Backend) :
    (init answer be).2.name = be.name ∧
      ((init answer be).1 = .good → (init answer be).2.inited = true) := by
  rcases be with ⟨name, loaded, inited, supported⟩
  cases loaded <;> simp only [init, load] <;> grind

/-- `sane_open` from a backend of the list on. -/
theorem openBackend_spec (answers : OpenAnswers) (added : Option Name) (devName : Name) {i : Nat}
    {backends : List Backend} (hi : i < backends.length) :
    ∃ opened backends', openBackend answers added i devName backends = .ok (opened, backends') ∧
      opened.added = added ∧ backends'.map (·.name) = backends.map (·.name) ∧
      Delivered devName opened backends' := by
  have hbe : backends[i]? = some backends[i] := List.getElem?_eq_getElem hi
  obtain ⟨status, be, hinit, hname, hinited⟩ : ∃ status be,
      (if backends[i].inited then (.good, backends[i]) else init answers.init backends[i]) =
        (status, be) ∧
      be.name = backends[i].name ∧ (status = .good → be.inited = true) := by
    by_cases hinited : backends[i].inited = true
    · exact ⟨_, _, if_pos hinited, rfl, fun _ => hinited⟩
    · exact ⟨_, _, if_neg hinited, init_spec answers.init backends[i]⟩
  have hnames : (backends.set i be).map (·.name) = backends.map (·.name) := by
    have hlt : i < (backends.map (·.name)).length := by rwa [List.length_map]
    have hget : (backends.map (·.name))[i] = backends[i].name := List.getElem_map _
    rw [List.map_set, hname, ← hget]
    exact List.set_getElem_self hlt
  have hset : (backends.set i be)[i]? = some be := List.getElem?_set_self hi
  unfold openBackend
  rw [hbe]
  dsimp only
  rw [hinit]
  dsimp only
  by_cases hgood : status = .good
  · have hreached : ∀ j name, some (i, devName) = some (j, name) →
        name = devName ∧ ∃ be', (backends.set i be)[j]? = some be' ∧ be'.inited = true := by
      rintro j name heq
      cases heq
      exact ⟨rfl, be, hset, hinited hgood⟩
    rw [if_neg (not_not.mpr hgood)]
    split_ifs
    all_goals exact ⟨_, _, rfl, rfl, hnames, fun _ => Option.some_ne_none _, hreached⟩
  · rw [if_pos hgood]
    exact ⟨_, _, rfl, rfl, hnames, fun h => absurd h hgood, fun _ _ h => nomatch h⟩

section Names

variable (recordReplay : Bool)

/-- What `sane_open` goes on with: names with the device's part of the full name, of which
the backend's is `dll` exactly if the name asks for it, or an early return. -/
def OpenNames.Fits (answers : OpenAnswers) (fullName : Name) : OpenNames → Prop
  | .returned status => status ≠ .good ∧ ¬ AsksForDll recordReplay answers fullName
  | .names beName devName =>
      devName = devicePart fullName ∧ (beName = dllName ↔ AsksForDll recordReplay answers fullName)

theorem ofCopy_fits {answers : OpenAnswers} {fullName beName devName : Name}
    (hdev : devName = devicePart fullName)
    (hdll : AsksForDll recordReplay answers fullName ↔
      beName = dllName ∧ answers.nameCopy = true) :
    (OpenNames.ofCopy (copied answers.nameCopy beName) devName).Fits recordReplay answers
      fullName := by
  cases hcopy : answers.nameCopy with
  | false => exact ⟨by decide, fun h => by simp [hcopy, hdll] at h⟩
  | true => exact ⟨hdev, by simp [hcopy, hdll]⟩

theorem replayNames_fits {answers : OpenAnswers} {fullName beName path : Name}
    (hsplit : splitColon fullName = some (beName, path))
    (hname : beName = fakeusb ∨ beName = fakeusbdev) :
    (replayNames recordReplay answers path).Fits recordReplay answers fullName := by
  have hdll : AsksForDll recordReplay answers fullName ↔
      recordReplay = true ∧ answers.capture = some (some dllName) := by
    simp only [AsksForDll, hsplit, if_pos hname]
  have hdev : devicePart fullName = path := by
    have hout : beName ≠ fakeusbout := by
      rintro rfl
      revert hname
      decide
    simp only [devicePart, hsplit, if_neg hout]
  unfold replayNames saneiUsbTestingEnableReplay saneiUsbTestingGetBackend
  cases recordReplay with
  | false => exact ⟨by simp, by simp [hdll]⟩
  | true =>
      rcases hcapture : answers.capture with _ | _ | beName
      · exact ⟨by simp, by simp [hdll, hcapture]⟩
      · exact ⟨by simp, by simp [hdll, hcapture]⟩
      · exact ⟨hdev.symm, by simp [hdll, hcapture]⟩

/-- A name to record under cannot be copied, or the names fit. -/
theorem recordNames_fits {answers : OpenAnswers} {fullName devName : Name}
    (hsplit : splitColon fullName = some (fakeusbout, devName)) :
    (RecordsUncopied recordReplay answers fullName →
        recordNames recordReplay answers devName = .error .nullPointer) ∧
      (¬ RecordsUncopied recordReplay answers fullName →
        ∃ names, recordNames recordReplay answers devName = .ok names ∧
          names.Fits recordReplay answers fullName) := by
  have hout : ¬ (fakeusbout = fakeusb ∨ fakeusbout = fakeusbdev) := by decide
  have hdll : AsksForDll recordReplay answers fullName ↔
      ∃ path name, recordReplay = true ∧ splitColon devName = some (path, name) ∧
        answers.nameCopy = true ∧ answers.pathCopy = true ∧ (beAndDevName name).1 = dllName := by
    simp only [AsksForDll, hsplit, if_neg hout, if_pos]
  have huncopied : RecordsUncopied recordReplay answers fullName ↔
      ∃ path name, recordReplay = true ∧ splitColon devName = some (path, name) ∧
        (answers.nameCopy = false ∨ answers.pathCopy = false) := by
    constructor
    · rintro ⟨devName', path, name, hsplit', h⟩
      cases hsplit.symm.trans hsplit'
      exact ⟨path, name, h⟩
    · rintro ⟨path, name, h⟩
      exact ⟨devName, path, name, hsplit, h⟩
  have hdev : devicePart fullName =
      ((splitColon devName).map fun p => (beAndDevName p.2).2).getD [] := by
    simp only [devicePart, hsplit, if_pos]
    cases splitColon devName <;> rfl
  unfold recordNames
  cases hname : splitColon devName with
  | none =>
      have hnot : ¬ RecordsUncopied recordReplay answers fullName := by simp [huncopied, hname]
      exact ⟨fun h => absurd h hnot, fun _ => ⟨_, rfl, by decide, by simp [hdll, hname]⟩⟩
  | some p =>
      obtain ⟨path, name⟩ := p
      rw [hname] at hdev
      cases recordReplay with
      | false =>
          have hnot : ¬ RecordsUncopied false answers fullName := by simp [huncopied]
          exact ⟨fun h => absurd h hnot, fun _ => ⟨_, rfl, by decide, by simp [hdll]⟩⟩
      | true =>
          have hcopies (h : answers.nameCopy = false ∨ answers.pathCopy = false) :
              RecordsUncopied true answers fullName :=
            huncopied.mpr ⟨path, name, rfl, hname, h⟩
          cases hcopy : answers.nameCopy <;> cases hpath : answers.pathCopy
          · exact ⟨fun _ => rfl, fun h => absurd (hcopies (.inl hcopy)) h⟩
          · exact ⟨fun _ => rfl, fun h => absurd (hcopies (.inl hcopy)) h⟩
          · exact ⟨fun _ => rfl, fun h => absurd (hcopies (.inr hpath)) h⟩
          · refine ⟨fun h => ?_, fun _ => ⟨_, rfl, hdev.symm, ?_⟩⟩
            · simp [huncopied, hcopy, hpath] at h
            · change (beAndDevName name).1 = dllName ↔ _
              simp [hdll, hname, hcopy, hpath]

theorem openNames_fits (answers : OpenAnswers) (fullName : Name) :
    (RecordsUncopied recordReplay answers fullName →
        openNames recordReplay answers fullName = .error .nullPointer) ∧
      (¬ RecordsUncopied recordReplay answers fullName →
        ∃ names, openNames recordReplay answers fullName = .ok names ∧
          names.Fits recordReplay answers fullName) := by
  unfold openNames
  cases hsplit : splitColon fullName with
  | none =>
      have hnot : ¬ RecordsUncopied recordReplay answers fullName := by
        simp [RecordsUncopied, hsplit]
      refine ⟨fun h => absurd h hnot, fun _ => ⟨_, rfl, ofCopy_fits recordReplay ?_ ?_⟩⟩
      · simp only [devicePart, hsplit]
      · simp only [AsksForDll, hsplit]
  | some p =>
      obtain ⟨beName, devName⟩ := p
      dsimp only
      by_cases hout : beName = fakeusbout
      · subst hout
        rw [if_neg (by decide), if_pos rfl]
        exact recordNames_fits recordReplay hsplit
      · have hnot : ¬ RecordsUncopied recordReplay answers fullName := by
          simp [RecordsUncopied, hsplit, hout]
        refine ⟨fun h => absurd h hnot, fun _ => ?_⟩
        by_cases hreplay : beName = fakeusb ∨ beName = fakeusbdev
        · exact ⟨_, if_pos hreplay, replayNames_fits recordReplay hsplit hreplay⟩
        · rw [if_neg hreplay, if_neg hout]
          refine ⟨_, rfl, ofCopy_fits recordReplay ?_ ?_⟩
          · simp only [devicePart, hsplit, if_neg hout]
          · simp only [AsksForDll, hsplit, if_neg hreplay, if_neg hout]

end Names

section Runs

variable {recordReplay : Bool} {aliases : List Alias}

/-- A position found in the list is one. -/
theorem findBackend_lt {beName : Name} {backends : List Backend} {i : Nat}
    (h : findBackend beName backends = some i) : i < backends.length := by
  unfold findBackend at h
  split_ifs at h with hempty hnil
  · cases h
    exact List.length_pos_iff.mpr hnil
  · exact (List.findIdx?_eq_some_iff_getElem.mp h).1

theorem findBackend_dll {backends : List Backend} (h : dllName ∉ backends.map (·.name)) :
    findBackend dllName backends = none := by
  rw [findBackend, if_neg (by decide), List.findIdx?_eq_none_iff]
  intro be hbe
  exact decide_eq_false fun hname => h (List.mem_map.mpr ⟨be, hbe, hname⟩)

/-- An ordered list opens every backend's name but `dll`, and stays ordered. -/
theorem DllState.Ordered.openNamed {s : DllState} (h : s.Ordered) (answers : OpenAnswers)
    {beName : Name} (devName : Name) (hname : beName ≠ dllName) :
    ∃ opened backends, openNamed answers beName devName s.backends = .ok (opened, backends) ∧
      (⟨backends, s.mentions ++ opened.added.toList⟩ : DllState).Ordered ∧
      Delivered devName opened backends := by
  unfold Dll.openNamed
  cases hfind : findBackend beName s.backends with
  | some i =>
      obtain ⟨opened, backends, hrun, hadded, hnames, hdelivered⟩ :=
        openBackend_spec answers none devName (findBackend_lt hfind)
      refine ⟨opened, backends, hrun, ?_, hdelivered⟩
      rw [hadded, Option.toList_none, List.append_nil]
      exact h.of_names hnames
  | none =>
      rcases addBackend_cases answers.memory beName s.backends with
        ⟨hdll, -⟩ | ⟨-, hnew, hadd⟩ | ⟨-, backends, hadd, hnames⟩
      · exact absurd hdll hname
      · rw [hadd]
        exact ⟨_, _, rfl, h.mention hnew, nofun, nofun⟩
      · have hpos : 0 < backends.length := by
          rw [← List.length_map (·.name), hnames]
          exact Nat.succ_pos _
        obtain ⟨opened, backends', hrun, hadded, hnames', hdelivered⟩ :=
          openBackend_spec answers (some beName) devName hpos
        rw [hadd]
        refine ⟨opened, backends', hrun, ?_, hdelivered⟩
        rw [hadded]
        exact h.touched hname (hnames'.trans hnames)

theorem DllState.Ordered.openNamed_dll {s : DllState} (h : s.Ordered) (answers : OpenAnswers)
    (devName : Name) :
    Dll.openNamed answers dllName devName s.backends = .error .nullPointer := by
  unfold Dll.openNamed
  rw [findBackend_dll h.notDll]
  rfl

/-- A call goes through exactly if it is proper, and then leaves the list in order and has
delivered the name it opens. -/
theorem DllState.Ordered.run {s : DllState} (h : s.Ordered) (call : DllCall) :
    (Proper recordReplay aliases call → ∃ opened s',
        DllCall.run recordReplay aliases s call = .ok (opened, s') ∧ s'.Ordered ∧
          call.Served aliases opened s') ∧
      (¬ Proper recordReplay aliases call →
        DllCall.run recordReplay aliases s call = .error .nullPointer) := by
  cases call with
  | line memory configLine =>
      refine ⟨fun _ => ?_, fun hnot => absurd trivial hnot⟩
      cases hname : configBackend configLine with
      | none => exact ⟨none, s, by simp only [DllCall.run, hname], h, trivial⟩
      | some name =>
          exact ⟨none, _, by simp only [DllCall.run, hname], h.addBackend memory name, trivial⟩
  | opening answers fullName =>
      obtain ⟨hfail, hnames⟩ := openNames_fits recordReplay answers (resolveAlias aliases fullName)
      by_cases huncopied : RecordsUncopied recordReplay answers (resolveAlias aliases fullName)
      · refine ⟨fun hproper => absurd huncopied hproper.2, fun _ => ?_⟩
        simp only [DllCall.run, saneOpen, hfail huncopied, error_bind]
      · obtain ⟨names, hopen, hfits⟩ := hnames huncopied
        have hproper : Proper recordReplay aliases (.opening answers fullName) ↔
            ¬ AsksForDll recordReplay answers (resolveAlias aliases fullName) :=
          and_iff_left huncopied
        simp only [DllCall.run, saneOpen, hopen, ok_bind, hproper]
        cases names with
        | returned status =>
            obtain ⟨hbad, hnot⟩ := hfits
            refine ⟨fun _ => ⟨_, _, rfl, ?_, _, rfl, fun hgood => absurd hgood hbad, nofun⟩,
              fun hasks => absurd hnot hasks⟩
            simpa using h
        | names beName devName =>
            obtain ⟨rfl, hdll⟩ := hfits
            dsimp only
            constructor
            · intro hnot
              obtain ⟨opened, backends, hrun, hordered, hdelivered⟩ :=
                h.openNamed answers (devicePart (resolveAlias aliases fullName)) (mt hdll.mp hnot)
              exact ⟨some opened, _, by rw [hrun, ok_bind], hordered, opened, rfl, hdelivered⟩
            · intro hasks
              rw [hdll.mpr (not_not.mp hasks), h.openNamed_dll, error_bind]

theorem ordered_of_reach {preloaded : List Name} (hnodup : preloaded.Nodup)
    (hdll : dllName ∉ preloaded) {s : DllState}
    (h : (dllSystem recordReplay aliases preloaded).Reach
      (fun _ call => Proper recordReplay aliases call) s) : s.Ordered := by
  induction h with
  | start hs =>
      cases hs
      exact preloadedBackends_ordered hnodup hdll
  | next _ hproper hstep ih =>
      obtain ⟨opened, hrun⟩ := hstep
      obtain ⟨opened', s', hrun', hordered, -⟩ := (ih.run _).1 hproper
      cases hrun.symm.trans hrun'
      exact hordered

end Runs

/-- Along runs of proper calls the list is ordered, and the calls that go through from there
and deliver the name they open are the proper ones. -/
theorem ordered_and_served_iff_proper {recordReplay : Bool} {aliases : List Alias}
    {preloaded : List Name} (hnodup : preloaded.Nodup) (hdll : dllName ∉ preloaded) {s : DllState}
    (h : (dllSystem recordReplay aliases preloaded).Reach
      (fun _ call => Proper recordReplay aliases call) s) :
    s.Ordered ∧ ∀ call, (∃ opened s', DllCall.run recordReplay aliases s call = .ok (opened, s') ∧
        s'.Ordered ∧ call.Served aliases opened s') ↔ Proper recordReplay aliases call := by
  have hordered := ordered_of_reach hnodup hdll h
  refine ⟨hordered, fun call => ⟨fun ⟨opened, s', hrun, _⟩ => ?_, (hordered.run call).1⟩⟩
  by_contra hnot
  rw [(hordered.run call).2 hnot] at hrun
  cases hrun

/-- Answers with which every call of the loader, the backend and the allocator succeeds. -/
def granted : OpenAnswers where
  capture := none
  pathCopy := true
  nameCopy := true
  memory := ⟨true, true⟩
  init := ⟨.good, .good, 0x01000000⟩
  openStatus := .good
  handle := 0
  scanner := true

theorem ordered_and_served_testDevice :
    ∃ opened s', DllCall.run false [] ⟨[], []⟩
        (.opening granted (ascii ['t', 'e', 's', 't', ':', '0'])) = .ok (opened, s') ∧
      s'.Ordered ∧ DllCall.Served [] opened s'
        (.opening granted (ascii ['t', 'e', 's', 't', ':', '0'])) := by
  have hproper : Proper false [] (.opening granted (ascii ['t', 'e', 's', 't', ':', '0'])) := by
    refine ⟨?_, fun ⟨_, _, _, _, hreplay, _⟩ => nomatch hreplay⟩
    have hsplit : splitColon (ascii ['t', 'e', 's', 't', ':', '0']) =
        some (ascii ['t', 'e', 's', 't'], ascii ['0']) := by decide
    change ¬ AsksForDll false granted (ascii ['t', 'e', 's', 't', ':', '0'])
    rw [AsksForDll, hsplit]
    dsimp only
    rw [if_neg (by decide), if_neg (by decide)]
    exact fun hdll => absurd hdll.1 (by decide)
  exact ((ordered_and_served_iff_proper List.nodup_nil List.not_mem_nil (.start rfl)).2 _).2 hproper

/-- Opening the device `dll` before any line is read. -/
theorem not_served_dll :
    (dllSystem false [] []).Reachable ⟨[], []⟩ ∧
      DllCall.run false [] ⟨[], []⟩ (.opening granted dllName) = .error .nullPointer ∧
      ¬ ∃ opened s', DllCall.run false [] ⟨[], []⟩ (.opening granted dllName) = .ok (opened, s') ∧
        s'.Ordered ∧ DllCall.Served [] opened s' (.opening granted dllName) := by
  have hrun : DllCall.run false [] ⟨[], []⟩ (.opening granted dllName) = .error .nullPointer := by
    rfl
  refine ⟨.start rfl, hrun, ?_⟩
  rintro ⟨opened, s', hok, -⟩
  rw [hrun] at hok
  cases hok

end SaneBackends.Dll
