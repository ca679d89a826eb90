import SaneBackends.Escl.DeviceName
import SaneBackends.Escl.Options
/-!
# Job status

`escl_status` and the two walks over the answer: the outer one looks for the job's address and
hands the element that has it to the inner one, which takes the state from there and from what
stands behind.
-/

namespace SaneBackends.Escl

open SaneBackends.Lib SaneBackends.Sanei

/-! ## The element tree -/

/-- An `xmlNode` with its `children` and its `next`; `null` is `NULL`. -/
inductive XmlNode where
  | null
  | element (name : List UInt8) (children next : XmlNode)
  | text (content : List UInt8) (next : XmlNode)
  deriving DecidableEq, Repr

namespace XmlNode

/-- The test that `find_nodes_s` makes of the children. -/
def hasElement : XmlNode → Bool
  | null => false
  | element _ _ _ => true
  | text _ next => next.hasElement

/-- `xmlNodeGetContent` of the children. -/
def content : XmlNode → List UInt8
  | null => []
  | element _ children next => children.content ++ next.content
  | text content next => content ++ next.content

end XmlNode

def jobStateName : List UInt8 := ascii ['J', 'o', 'b', 'S', 't', 'a', 't', 'e']

def jobUriName : List UInt8 := ascii ['J', 'o', 'b', 'U', 'r', 'i']

def imagesName : List UInt8 :=
  ascii ['I', 'm', 'a', 'g', 'e', 's', 'T', 'o', 'T', 'r', 'a', 'n', 's', 'f', 'e', 'r']

def stateName : List UInt8 := ascii ['S', 't', 'a', 't', 'e']

def adfStateName : List UInt8 := ascii ['A', 'd', 'f', 'S', 't', 'a', 't', 'e']

def idle : List UInt8 := ascii ['I', 'd', 'l', 'e']

def processing : List UInt8 := ascii ['P', 'r', 'o', 'c', 'e', 's', 's', 'i', 'n', 'g']

def completed : List UInt8 := ascii ['C', 'o', 'm', 'p', 'l', 'e', 't', 'e', 'd']

def adfLoaded : List UInt8 :=
  ascii ['S', 'c', 'a', 'n', 'n', 'e', 'r', 'A', 'd', 'f', 'L', 'o', 'a', 'd', 'e', 'd']

def adfJam : List UInt8 :=
  ascii ['S', 'c', 'a', 'n', 'n', 'e', 'r', 'A', 'd', 'f', 'J', 'a', 'm']

def adfDoorOpen : List UInt8 :=
  ascii ['S', 'c', 'a', 'n', 'n', 'e', 'r', 'A', 'd', 'f', 'D', 'o', 'o', 'r', 'O', 'p', 'e', 'n']

def adfProcessing : List UInt8 :=
  ascii ['S', 'c', 'a', 'n', 'n', 'e', 'r', 'A', 'd', 'f', 'P', 'r', 'o', 'c', 'e', 's', 's', 'i',
    'n', 'g']

def adfEmpty : List UInt8 :=
  ascii ['S', 'c', 'a', 'n', 'n', 'e', 'r', 'A', 'd', 'f', 'E', 'm', 'p', 't', 'y']

/-! ## The walks -/

/-- What is found out about the job: `*job` and `*image`. -/
structure JobScan where
  job : SaneStatus
  image : Int
  deriving DecidableEq, Repr

/-- An element without elements in it, in `print_xml_job_status`. -/
def jobLeaf (name content : List UInt8) (s : JobScan) : JobScan :=
  if name = jobStateName then
    if content = processing then { s with job := .deviceBusy }
    else if content = completed then { s with job := .good }
    -- asked for inside the branch of the other name
    else if name = imagesName then { s with image := atoi content }
    else s
  else s

def printXmlJobStatus : XmlNode → JobScan → JobScan
  | .null, s => s
  | .text _ next, s => printXmlJobStatus next s
  | .element name children next, s =>
      let s := if children.hasElement then s else jobLeaf name children.content s
      printXmlJobStatus next (printXmlJobStatus children s)

structure StatusScan where
  platen : SaneStatus
  adf : SaneStatus
  scan : JobScan
  deriving DecidableEq, Repr

def platenStatus (state : List UInt8) : SaneStatus :=
  if state = idle then .good
  else if state = processing then .deviceBusy
  else .unsupported

def adfStatus (state : List UInt8) : SaneStatus :=
  if state = adfLoaded then .good
  else if state = adfJam then .jammed
  else if state = adfDoorOpen then .coverOpen
  else if state = adfProcessing then .noDocs
  else if state = adfEmpty then .noDocs
  else .unsupported

/-- An element without elements in it, in `print_xml_platen_and_adf_status`; `jobId` is the job's,
where both it and the place for the job's status are given. -/
def statusLeaf (jobId : Option (List UInt8)) (name : List UInt8) (children next : XmlNode)
    (s : StatusScan) : StatusScan :=
  if name = stateName then { s with platen := platenStatus children.content }
  else if name = adfStateName then { s with adf := adfStatus children.content }
  else if name = jobUriName ∧ ∃ id ∈ jobId, id <:+: children.content then
    { s with scan := printXmlJobStatus (.element name children next) s.scan }
  else s

def printXmlPlatenAndAdfStatus (jobId : Option (List UInt8)) : XmlNode → StatusScan → StatusScan
  | .null, s => s
  | .text _ next, s => printXmlPlatenAndAdfStatus jobId next s
  | .element name children next, s =>
      let s := if children.hasElement then s else statusLeaf jobId name children next s
      printXmlPlatenAndAdfStatus jobId next (printXmlPlatenAndAdfStatus jobId children s)

/-! ## The request -/

/-- One request for the status: there is no memory for it, or it is answered, with a status of the
transfer and a document if the text can be read. -/
inductive StatusFetch where
  | noMemory
  | answered (status : SaneStatus) (root : Option XmlNode)

/-- One turn of `escl_status`, up to `clean_data`. -/
def statusTurn (source : Source) (jobId : Option (List UInt8)) (scan : JobScan) :
    StatusFetch → SaneStatus × JobScan
  | .noMemory => (.noMem, scan)
  | .answered status root =>
      if status ≠ .good then (status, scan)
      else
        match root with
        | none => (.noMem, scan)
        | some node =>
            let s := printXmlPlatenAndAdfStatus jobId node ⟨.deviceBusy, .deviceBusy, scan⟩
            let status :=
              if s.platen ≠ .good ∧ s.platen ≠ .unsupported then s.platen
              else if source = .platen then s.platen
              else s.adf
            (status, s.scan)

/-- Whether the status is fetched a second time. -/
def Reloads (source : Source) (status : SaneStatus) (image : Int) : Prop :=
  source ≠ .platen ∧ image = 0 ∧ (status = .good ∨ status = .unsupported ∨ status = .deviceBusy)

instance (source : Source) (status : SaneStatus) (image : Int) :
    Decidable (Reloads source status image) := by
  unfold Reloads
  infer_instance

def esclStatus (source : Source) (jobId : Option (List UInt8)) (job : SaneStatus)
    (first second : StatusFetch) : SaneStatus × SaneStatus :=
  let turn := statusTurn source jobId ⟨job, -1⟩ first
  let turn :=
    if Reloads source turn.1 turn.2.image then statusTurn source jobId turn.2 second else turn
  (turn.1, turn.2.job)

/-! ## Documents -/

/-- What `escl_newjob` returns for a job: the last segment of its address, with the slash. -/
structure JobId where
  segment : List UInt8
  no_slash : 47 ∉ segment

def JobId.text (id : JobId) : List UInt8 := 47 :: id.segment

def jobInfoName : List UInt8 := ascii ['J', 'o', 'b', 'I', 'n', 'f', 'o']

def jobsName : List UInt8 := ascii ['J', 'o', 'b', 's']

def reasonName : List UInt8 :=
  ascii ['J', 'o', 'b', 'S', 't', 'a', 't', 'e', 'R', 'e', 'a', 's', 'o', 'n']

def reasonsName : List UInt8 :=
  ascii ['J', 'o', 'b', 'S', 't', 'a', 't', 'e', 'R', 'e', 'a', 's', 'o', 'n', 's']

def scannerStatusName : List UInt8 :=
  ascii ['S', 'c', 'a', 'n', 'n', 'e', 'r', 'S', 't', 'a', 't', 'u', 's']

/-- An element with a text. -/
def leafXml (name content : List UInt8) (next : XmlNode) : XmlNode :=
  .element name (.text content .null) next

/-- An element of a `JobInfo`. -/
inductive JobField where
  | leaf (name content : List UInt8)
  | jobStateReasons (reasons : List (List UInt8))
  deriving DecidableEq, Repr

namespace JobField

def name : JobField → List UInt8
  | leaf name _ => name
  | jobStateReasons _ => reasonsName

/-- The text of an element of that name. -/
def textOf (wanted : List UInt8) : JobField → Option (List UInt8)
  | leaf name content => if name = wanted then some content else none
  | jobStateReasons _ => none

def toXml : JobField → XmlNode → XmlNode
  | leaf name content, next => leafXml name content next
  | jobStateReasons reasons, next =>
      .element reasonsName (reasons.foldr (leafXml reasonName) .null) next

end JobField

/-- The status that a `JobState` stands for. -/
def stateReport (content : List UInt8) : Option SaneStatus :=
  if content = processing then some .deviceBusy
  else if content = completed then some .good
  else none

/-- The entry of a job: each of its elements is there once. -/
structure JobInfo where
  fields : List JobField
  names_nodup : (fields.map JobField.name).Nodup

namespace JobInfo

def textOf (wanted : List UInt8) (e : JobInfo) : Option (List UInt8) :=
  e.fields.findSome? (JobField.textOf wanted)

/-- The entry's `JobUri` ends with the id. -/
def Has (e : JobInfo) (id : JobId) : Prop := ∃ uri ∈ e.textOf jobUriName, id.text <:+ uri

instance (e : JobInfo) (id : JobId) : Decidable (e.Has id) := by
  unfold Has
  infer_instance

def report (e : JobInfo) : Option SaneStatus := (e.textOf jobStateName).bind stateReport

def images (e : JobInfo) : Option Int := (e.textOf imagesName).map atoi

def toXml (e : JobInfo) (next : XmlNode) : XmlNode :=
  .element jobInfoName (e.fields.foldr JobField.toXml .null) next

end JobInfo

/-- A `ScannerStatus`: elements, the list of the jobs, and more elements. No two jobs have the
same last segment. -/
structure ScannerStatus where
  before : List (List UInt8 × List UInt8)
  jobs : List JobInfo
  behind : List (List UInt8 × List UInt8)
  no_uri : ∀ p ∈ before ++ behind, p.1 ≠ jobUriName
  distinct : jobs.Pairwise fun e f => ∀ id, e.Has id → ¬ f.Has id

namespace ScannerStatus

def toXml (d : ScannerStatus) : XmlNode :=
  .element scannerStatusName
    (d.before.foldr (fun p => leafXml p.1 p.2)
      (.element jobsName (d.jobs.foldr JobInfo.toXml .null)
        (d.behind.foldr (fun p => leafXml p.1 p.2) .null)))
    .null

def fetch (d : ScannerStatus) : StatusFetch := .answered .good (some d.toXml)

/-- The job's entry. -/
def entry (d : ScannerStatus) (id : JobId) : Option JobInfo :=
  d.jobs.find? fun e => decide (e.Has id)

/-- What the job's entry says of its state. -/
def report (d : ScannerStatus) (id : JobId) : Option SaneStatus := (d.entry id).bind JobInfo.report

/-- The count of the job's entry; the one that `escl_status` starts with if there is none. -/
def images (d : ScannerStatus) (id : JobId) : Int := ((d.entry id).bind JobInfo.images).getD (-1)

end ScannerStatus

/-- The image count and the job's status are what the entry of the job says, in the last document
that is fetched. -/
def JobDecoded (source : Source) (id : JobId) (first second : ScannerStatus) (job : SaneStatus) :
    Prop :=
  let turn := statusTurn source (some id.text) ⟨job, -1⟩ first.fetch
  let reported := (first.report id).getD job
  turn.2.image = first.images id ∧
    (esclStatus source (some id.text) job first.fetch second.fetch).2 =
      if Reloads source turn.1 (first.images id) then (second.report id).getD reported
      else reported

/-! ## What the walks see -/

section Latest

variable {α β : Type}

/-- What the last item that gives something gives. -/
def latest (f : α → Option β) : List α → Option β
  | [] => none
  | x :: xs => (latest f xs).or (f x)

theorem latest_cons_getD (f : α → Option β) (x : α) (xs : List α) (b : β) :
    (latest f (x :: xs)).getD b = (latest f xs).getD ((f x).getD b) := by
  rw [latest]
  cases latest f xs <;> rfl

end Latest

def JobField.report (f : JobField) : Option SaneStatus := (f.textOf jobStateName).bind stateReport

theorem report_leaf (name content : List UInt8) :
    (JobField.leaf name content).report =
      (if name = jobStateName then some content else none).bind stateReport := rfl

/-- The element is the address of a job, with the id somewhere in it. -/
def JobField.Names (id : JobId) (f : JobField) : Prop :=
  ∃ uri ∈ f.textOf jobUriName, id.text <:+: uri

instance (id : JobId) (f : JobField) : Decidable (f.Names id) := by
  unfold JobField.Names
  infer_instance

/-- The state behind the first such element. -/
def seenFrom (id : JobId) : List JobField → Option SaneStatus
  | [] => none
  | f :: fs =>
      if f.Names id then latest JobField.report fs
      else seenFrom id fs

def JobInfo.seen (id : JobId) (e : JobInfo) : Option SaneStatus := seenFrom id e.fields

/-- The state that is seen last is the one of the job's entry. -/
def ScannerStatus.SeesReport (d : ScannerStatus) (id : JobId) : Prop :=
  latest (JobInfo.seen id) d.jobs = d.report id

theorem jobLeaf_eq (name content : List UInt8) (s : JobScan) :
    jobLeaf name content s =
      { s with job := ((JobField.leaf name content).report).getD s.job } := by
  rw [report_leaf, jobLeaf]
  by_cases hname : name = jobStateName
  · rw [if_pos hname, if_pos hname, Option.bind_some, stateReport]
    by_cases hprocessing : content = processing
    · rw [if_pos hprocessing, if_pos hprocessing]
      rfl
    by_cases hcompleted : content = completed
    · rw [if_neg hprocessing, if_pos hcompleted, if_neg hprocessing, if_pos hcompleted]
      rfl
    · have himages : name ≠ imagesName := by
        rw [hname]
        decide
      rw [if_neg hprocessing, if_neg hcompleted, if_neg himages, if_neg hprocessing,
        if_neg hcompleted]
      rfl
  · rw [if_neg hname, if_neg hname]
    rfl

theorem hasElement_text (content : List UInt8) : (XmlNode.text content .null).hasElement = false :=
  rfl

theorem content_text (content : List UInt8) : (XmlNode.text content .null).content = content :=
  List.append_nil content

theorem printXmlJobStatus_leaf (name content : List UInt8) (next : XmlNode) (s : JobScan) :
    printXmlJobStatus (leafXml name content next) s =
      printXmlJobStatus next
        { s with job := ((JobField.leaf name content).report).getD s.job } := by
  rw [← jobLeaf_eq, leafXml, printXmlJobStatus, hasElement_text, if_neg Bool.false_ne_true,
    content_text]
  rfl

theorem report_reason (content : List UInt8) :
    (JobField.leaf reasonName content).report = none := rfl

/-- Nothing is found in the reasons. -/
theorem printXmlJobStatus_reasons (reasons : List (List UInt8)) (s : JobScan) :
    printXmlJobStatus (reasons.foldr (leafXml reasonName) .null) s = s := by
  induction reasons with
  | nil => rfl
  | cons reason reasons ih =>
      rw [List.foldr_cons, printXmlJobStatus_leaf, report_reason]
      exact ih

theorem printXmlJobStatus_field (f : JobField) (next : XmlNode) (s : JobScan) :
    printXmlJobStatus (f.toXml next) s =
      printXmlJobStatus next { s with job := f.report.getD s.job } := by
  cases f with
  | leaf name content => exact printXmlJobStatus_leaf name content next s
  | jobStateReasons reasons =>
      have hself : ∀ content, jobLeaf reasonsName content s = s := fun content => by
        rw [jobLeaf_eq]
        rfl
      rw [JobField.toXml, printXmlJobStatus, hself, ite_self, printXmlJobStatus_reasons]
      rfl

/-- From an element on, the last state counts. -/
theorem printXmlJobStatus_fields (fields : List JobField) (s : JobScan) :
    printXmlJobStatus (fields.foldr JobField.toXml .null) s =
      { s with job := (latest JobField.report fields).getD s.job } := by
  induction fields generalizing s with
  | nil => rfl
  | cons f fields ih => rw [List.foldr_cons, printXmlJobStatus_field, ih, latest_cons_getD]

/-! ## The outer walk -/

section Outer

variable {id : JobId}

/-- An element that is not the address of a job changes nothing of the job. -/
theorem statusLeaf_scan {name : List UInt8} {children : XmlNode}
    (h : ¬ (name = jobUriName ∧ id.text <:+: children.content)) (next : XmlNode) (s : StatusScan) :
    (statusLeaf (some id.text) name children next s).scan = s.scan := by
  rw [statusLeaf]
  split_ifs with hstate hadf huri
  · rfl
  · rfl
  · obtain ⟨hname, text, htext, hin⟩ := huri
    obtain rfl := Option.some.inj htext
    exact absurd ⟨hname, hin⟩ h
  · rfl

theorem statusLeaf_uri {children : XmlNode} (h : id.text <:+: children.content) (next : XmlNode)
    (s : StatusScan) :
    (statusLeaf (some id.text) jobUriName children next s).scan =
      printXmlJobStatus (.element jobUriName children next) s.scan := by
  rw [statusLeaf, if_neg (by decide), if_neg (by decide), if_pos ⟨rfl, id.text, rfl, h⟩]

theorem printXmlPlatenAndAdfStatus_leaf (name content : List UInt8) (next : XmlNode)
    (s : StatusScan) :
    printXmlPlatenAndAdfStatus (some id.text) (leafXml name content next) s =
      printXmlPlatenAndAdfStatus (some id.text) next
        (statusLeaf (some id.text) name (.text content .null) next s) := by
  rw [leafXml, printXmlPlatenAndAdfStatus, hasElement_text, if_neg Bool.false_ne_true]
  rfl

/-- An element with another name hands the walk on to its children. -/
theorem printXmlPlatenAndAdfStatus_element {name : List UInt8} (h : name ≠ jobUriName)
    (children next : XmlNode) (s : StatusScan) :
    ∃ t : StatusScan, t.scan = s.scan ∧
      printXmlPlatenAndAdfStatus (some id.text) (.element name children next) s =
        printXmlPlatenAndAdfStatus (some id.text) next
          (printXmlPlatenAndAdfStatus (some id.text) children t) := by
  refine ⟨if children.hasElement then s else statusLeaf (some id.text) name children next s,
    ?_, rfl⟩
  split_ifs
  · rfl
  · exact statusLeaf_scan (fun huri => h huri.1) next s

/-- Elements that are not addresses of jobs are passed by. -/
theorem printXmlPlatenAndAdfStatus_leaves {leaves : List (List UInt8 × List UInt8)}
    (h : ∀ p ∈ leaves, p.1 ≠ jobUriName) (next : XmlNode) (s : StatusScan) :
    ∃ t : StatusScan, t.scan = s.scan ∧
      printXmlPlatenAndAdfStatus (some id.text)
        (leaves.foldr (fun p => leafXml p.1 p.2) next) s =
          printXmlPlatenAndAdfStatus (some id.text) next t := by
  induction leaves generalizing s with
  | nil => exact ⟨s, rfl, rfl⟩
  | cons p leaves ih =>
      rw [List.foldr_cons]
      obtain ⟨t, ht, hleaf⟩ := printXmlPlatenAndAdfStatus_element (h p List.mem_cons_self)
        (.text p.2 .null) (leaves.foldr (fun p => leafXml p.1 p.2) next) s
      obtain ⟨u, hu, hwalk⟩ := ih (fun q hq => h q (List.mem_cons_of_mem _ hq)) t
      exact ⟨u, hu.trans ht, hleaf.trans hwalk⟩

theorem passes_field {f : JobField} (h : ¬ f.Names id) (next : XmlNode) (s : StatusScan) :
    ∃ t : StatusScan, t.scan = s.scan ∧
      printXmlPlatenAndAdfStatus (some id.text) (f.toXml next) s =
        printXmlPlatenAndAdfStatus (some id.text) next t := by
  cases f with
  | leaf name content =>
      refine ⟨statusLeaf (some id.text) name (.text content .null) next s, ?_,
        printXmlPlatenAndAdfStatus_leaf name content next s⟩
      refine statusLeaf_scan (fun huri => h ⟨content, if_pos huri.1, ?_⟩) next s
      exact content_text content ▸ huri.2
  | jobStateReasons reasons =>
      have hplain : ∀ p ∈ reasons.map (Prod.mk reasonName), p.1 ≠ jobUriName := by
        intro p hp
        obtain ⟨reason, -, rfl⟩ := List.mem_map.mp hp
        exact (by decide : reasonName ≠ jobUriName)
      obtain ⟨t, ht, hreasons⟩ := printXmlPlatenAndAdfStatus_element
        (by decide : reasonsName ≠ jobUriName) (reasons.foldr (leafXml reasonName) .null) next s
      obtain ⟨u, hu, hwalk⟩ := printXmlPlatenAndAdfStatus_leaves hplain .null t
      rw [List.foldr_map] at hwalk
      refine ⟨u, hu.trans ht, hreasons.trans ?_⟩
      exact congrArg (printXmlPlatenAndAdfStatus (some id.text) next) hwalk

theorem passes_fields {fields : List JobField} (h : ∀ f ∈ fields, ¬ f.Names id) (s : StatusScan) :
    (printXmlPlatenAndAdfStatus (some id.text) (fields.foldr JobField.toXml .null) s).scan =
      s.scan := by
  induction fields generalizing s with
  | nil => rfl
  | cons f fields ih =>
      obtain ⟨t, ht, hwalk⟩ := passes_field (h f List.mem_cons_self)
        (fields.foldr JobField.toXml .null) s
      rw [List.foldr_cons, hwalk, ih (fun g hg => h g (List.mem_cons_of_mem _ hg)), ht]

/-- With the address of the job, the inner walk is made from there. -/
theorem sees_field {f : JobField} (h : f.Names id) (next : XmlNode) (s : StatusScan) :
    f.name = jobUriName ∧ ∃ t : StatusScan, t.scan = printXmlJobStatus next s.scan ∧
      printXmlPlatenAndAdfStatus (some id.text) (f.toXml next) s =
        printXmlPlatenAndAdfStatus (some id.text) next t := by
  obtain ⟨uri, huri, hin⟩ := h
  cases f with
  | leaf name content =>
      have hname : name = jobUriName := by
        by_contra hne
        cases (if_neg hne).symm.trans huri
      obtain rfl : content = uri := Option.some.inj ((if_pos hname).symm.trans huri)
      subst hname
      refine ⟨rfl, _, ?_, printXmlPlatenAndAdfStatus_leaf jobUriName content next s⟩
      rw [statusLeaf_uri ((content_text content).symm ▸ hin)]
      exact printXmlJobStatus_leaf jobUriName content next s.scan
  | jobStateReasons reasons => cases huri

/-- In an entry the state behind the address is seen. -/
theorem printXmlPlatenAndAdfStatus_fields {fields : List JobField}
    (hnodup : (fields.map JobField.name).Nodup) (s : StatusScan) :
    (printXmlPlatenAndAdfStatus (some id.text) (fields.foldr JobField.toXml .null) s).scan =
      { s.scan with job := (seenFrom id fields).getD s.scan.job } := by
  induction fields generalizing s with
  | nil => rfl
  | cons f fields ih =>
      obtain ⟨hnotin, hnodup⟩ := List.nodup_cons.mp hnodup
      rw [List.foldr_cons]
      by_cases hnames : f.Names id
      · obtain ⟨hname, t, ht, hwalk⟩ := sees_field hnames (fields.foldr JobField.toXml .null) s
        -- the names differ, so there is no second address behind this one
        have hothers : ∀ g ∈ fields, ¬ g.Names id := by
          intro g hg hagain
          have hsame := (sees_field hagain .null s).1
          exact hnotin (List.mem_map.mpr ⟨g, hg, hsame.trans hname.symm⟩)
        rw [hwalk, passes_fields hothers, ht, printXmlJobStatus_fields, seenFrom, if_pos hnames]
      · obtain ⟨t, ht, hwalk⟩ := passes_field hnames (fields.foldr JobField.toXml .null) s
        rw [hwalk, ih hnodup, ht, seenFrom, if_neg hnames]

theorem printXmlPlatenAndAdfStatus_jobs (jobs : List JobInfo) (s : StatusScan) :
    (printXmlPlatenAndAdfStatus (some id.text) (jobs.foldr JobInfo.toXml .null) s).scan =
      { s.scan with job := (latest (JobInfo.seen id) jobs).getD s.scan.job } := by
  induction jobs generalizing s with
  | nil => rfl
  | cons e jobs ih =>
      obtain ⟨t, ht, hwalk⟩ := printXmlPlatenAndAdfStatus_element
        (by decide : jobInfoName ≠ jobUriName) (e.fields.foldr JobField.toXml .null)
        (jobs.foldr JobInfo.toXml .null) s
      rw [List.foldr_cons, JobInfo.toXml, hwalk, ih,
        printXmlPlatenAndAdfStatus_fields e.names_nodup, ht, latest_cons_getD, JobInfo.seen]

/-- Over a document the state that is seen last counts, and no image is. -/
theorem printXmlPlatenAndAdfStatus_toXml (d : ScannerStatus) (s : StatusScan) :
    (printXmlPlatenAndAdfStatus (some id.text) d.toXml s).scan =
      { s.scan with job := (latest (JobInfo.seen id) d.jobs).getD s.scan.job } := by
  have hbefore : ∀ p ∈ d.before, p.1 ≠ jobUriName := fun p hp =>
    d.no_uri p (List.mem_append_left _ hp)
  have hbehind : ∀ p ∈ d.behind, p.1 ≠ jobUriName := fun p hp =>
    d.no_uri p (List.mem_append_right _ hp)
  obtain ⟨t, ht, hroot⟩ := printXmlPlatenAndAdfStatus_element
    (by decide : scannerStatusName ≠ jobUriName)
    (d.before.foldr (fun p => leafXml p.1 p.2)
      (.element jobsName (d.jobs.foldr JobInfo.toXml .null)
        (d.behind.foldr (fun p => leafXml p.1 p.2) .null))) .null s
  obtain ⟨u, hu, hfront⟩ := printXmlPlatenAndAdfStatus_leaves hbefore
    (.element jobsName (d.jobs.foldr JobInfo.toXml .null)
      (d.behind.foldr (fun p => leafXml p.1 p.2) .null)) t
  obtain ⟨v, hv, hjobs⟩ := printXmlPlatenAndAdfStatus_element
    (by decide : jobsName ≠ jobUriName) (d.jobs.foldr JobInfo.toXml .null)
    (d.behind.foldr (fun p => leafXml p.1 p.2) .null) u
  obtain ⟨w, hw, hend⟩ := printXmlPlatenAndAdfStatus_leaves hbehind .null
    (printXmlPlatenAndAdfStatus (some id.text) (d.jobs.foldr JobInfo.toXml .null) v)
  have hwalk : printXmlPlatenAndAdfStatus (some id.text) d.toXml s = w := by
    rw [ScannerStatus.toXml, hroot, hfront, hjobs, hend]
    rfl
  rw [hwalk, hw, printXmlPlatenAndAdfStatus_jobs, hv, hu, ht]

end Outer

/-! ## What is decoded -/

theorem statusTurn_fetch (source : Source) (id : JobId) (d : ScannerStatus) (scan : JobScan) :
    (statusTurn source (some id.text) scan d.fetch).2 =
      { scan with job := (latest (JobInfo.seen id) d.jobs).getD scan.job } := by
  rw [ScannerStatus.fetch, statusTurn, if_neg (fun h => h rfl)]
  exact printXmlPlatenAndAdfStatus_toXml d _

/-- The count is never found, so the status is never fetched again. -/
theorem esclStatus_job (source : Source) (id : JobId) (first second : ScannerStatus)
    (job : SaneStatus) :
    (esclStatus source (some id.text) job first.fetch second.fetch).2 =
      (latest (JobInfo.seen id) first.jobs).getD job := by
  have hturn := statusTurn_fetch source id first ⟨job, -1⟩
  have hstay : ¬ Reloads source (statusTurn source (some id.text) ⟨job, -1⟩ first.fetch).1
      (statusTurn source (some id.text) ⟨job, -1⟩ first.fetch).2.image := by
    rw [hturn]
    exact fun h => absurd h.2.1 (by decide : (-1 : Int) ≠ 0)
  rw [esclStatus, if_neg hstay, hturn]

theorem getD_all_iff {l r : Option SaneStatus} : (∀ job, l.getD job = r.getD job) ↔ l = r := by
  constructor
  · intro h
    have hgood := h .good
    have hbusy := h .deviceBusy
    cases l with
    | none =>
      cases r with
      | none => rfl
      | some b => cases hgood.trans hbusy.symm
    | some a =>
      cases r with
      | none => cases hgood.symm.trans hbusy
      | some b => exact congrArg some hgood
  · rintro rfl job
    rfl

/-- The job is decoded, whatever its status was, just if its entry has no count and the state that
is seen last is the entry's. -/
theorem jobDecoded_iff (source : Source) (id : JobId) (first second : ScannerStatus) :
    (∀ job, JobDecoded source id first second job) ↔
      first.images id = -1 ∧ first.SeesReport id := by
  have himage : ∀ job, (statusTurn source (some id.text) ⟨job, -1⟩ first.fetch).2.image = -1 :=
    fun job => by rw [statusTurn_fetch]
  have hstay : ∀ status, first.images id = -1 → ¬ Reloads source status (first.images id) :=
    fun status hnone h => absurd (hnone.symm.trans h.2.1) (by decide)
  constructor
  · intro h
    have hnone : first.images id = -1 := (h .good).1.symm.trans (himage .good)
    refine ⟨hnone, getD_all_iff.mp fun job => ?_⟩
    have hjob := (h job).2
    rw [if_neg (hstay _ hnone), esclStatus_job] at hjob
    exact hjob
  · rintro ⟨hnone, hsees⟩ job
    refine ⟨(himage job).trans hnone.symm, ?_⟩
    rw [if_neg (hstay _ hnone), esclStatus_job]
    exact getD_all_iff.mpr hsees job

theorem state_ne_uri : jobStateName ≠ jobUriName := by decide

theorem one_no_slash : (47 : UInt8) ∉ [49] := by decide

/-- A job that is completed, whose state stands in front of its address. -/
def stateFirst : JobInfo where
  fields := [.leaf jobStateName completed, .leaf jobUriName [47, 49]]
  names_nodup := List.nodup_cons.mpr ⟨fun h => state_ne_uri (List.mem_singleton.mp h),
    List.nodup_singleton _⟩

def stateFirstStatus : ScannerStatus where
  before := []
  jobs := [stateFirst]
  behind := []
  no_uri _ h := absurd h List.not_mem_nil
  distinct := List.pairwise_singleton _ _

def firstJob : JobId := ⟨[49], one_no_slash⟩

theorem not_jobDecoded_stateFirst :
    ¬ ∀ source id first second job, JobDecoded source id first second job := by
  intro h
  have hjob := (h .platen firstJob stateFirstStatus stateFirstStatus .deviceBusy).2
  revert hjob
  decide

end SaneBackends.Escl
