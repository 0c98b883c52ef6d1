import Heimdall.Lib.Grouping
import Heimdall.Lib.Run
import Heimdall.Frontend.ExportCaat

/-!
# The HTML report

A click on the export empties what the dialog has collected and asks the server for four files;
when they have come, the selected files are collected and the report is written. The dialog keeps
what it has collected, and a second click does not wait for the answer to the first one.
-/
namespace Frontend
open Js Lib Inspec

/-- The files that are loaded and the filter of the page, at one moment. -/
structure Selected where
  allFiles : List InspecFile
  data : InspecData
  filter : Filter
  listed : allFiles.map (·.uniqueId) =
    data.executionFiles.map (·.uniqueId) ++ data.profileFiles.map (·.uniqueId)

namespace ExportHTMLModal

/-- A name and what stands beside it. -/
abbrev Detail := JsString × JsVal

/-- A control with what the report adds to it. -/
structure DetailedControl where
  control : StoredControl
  full_code : JsString
  details : List Detail

structure ControlSet where
  filename : JsString
  fileID : FileID
  controls : List DetailedControl

structure Statistics where
  passed : ℕ
  failed : ℕ
  notApplicable : ℕ
  notReviewed : ℕ
  passedTests : ℕ
  passingTestsFailedControl : ℕ
  failedTests : ℕ
  totalTests : ℕ
  deriving DecidableEq

inductive ExportType where
  | executive | manager | administrator

/-- `_.capitalize(exportType)` -/
def ExportType.capitalized : ExportType → JsString
  | executive => js "Executive"
  | manager => js "Manager"
  | administrator => js "Administrator"

/-- What a report says of a file; of a profile file it says its name only. -/
structure FileInfo where
  filename : JsString
  toolVersion : Option JsString
  platform : Option JsString
  duration : Opt JsNumber
  deriving DecidableEq

structure OutputData where
  files : List FileInfo
  statistics : Statistics
  controlSets : List ControlSet
  showControlSets : Bool
  showCode : Bool
  exportType : JsString

section Source

def fieldVal : Opt JsString → JsVal
  | .val s => .str s
  | .null => .null
  | .undefined => .undefined

/-- `rawNistTags.join(', ')`; the tags of a control that was wrapped are strings. -/
def joinTags : JsVal → JsString
  | .arr raw => join (js ", ") (raw.map fun tag => match tag with | .str s => s | _ => [])
  | _ => []

def detailsOf (own : ContextualizedControl) (root : HDFControl) : List Detail :=
  let described (label : String) := own.hdf.descriptions.get (js label)
  [(js "Control", .str own.data.id),
    (js "Title", fieldVal own.data.title),
    (js "Caveat", described "caveat"),
    (js "Desc", fieldVal own.data.desc),
    (js "Rationale", described "rationale"),
    (js "Justification", described "justification"),
    (js "Severity", .str root.severity.text),
    (js "Impact", .num own.data.impact),
    (js "Nist controls", .str (joinTags own.hdf.rawNistTags)),
    (js "Check Text", orValue (described "check") (own.data.tags.get (js "check"))),
    (js "Fix Text", orValue (described "fix") (own.data.tags.get (js "fix")))].filter
      fun detail => detail.2.truthy

def addDetails (control : StoredControl) : Except JsError DetailedControl := do
  let own ← orThrow control.get (.typeError "Cannot read properties of undefined (reading 'data')")
  let full_code ← orThrow
    (control.graph.full_code (control.graph.controls.length + 1) control.index)
    (.rangeError "Maximum call stack size exceeded")
  let root ← control.rootHdf
  let hdf ← orThrow root (.typeError "Cannot read properties of undefined (reading 'severity')")
  return ⟨control, full_code, detailsOf own hdf⟩

def Statistics.ofHash (hash : StatusHash) : Statistics where
  passed := hash.count .passed
  failed := hash.count .failed
  notApplicable := hash.count .notApplicable
  notReviewed := hash.count .notReviewed
  passedTests := hash.PassedTests
  passingTestsFailedControl := hash.PassingTestsFailedControl
  failedTests := hash.FailedTests
  totalTests := hash.PassingTestsFailedControl + hash.FailedTests

variable [UnicodeTables]

/-- Every number is read from the hash of the filter. -/
def statistics (now : Selected) : Except JsError Statistics := do
  let hash ← count_statuses now.data now.filter
  return .ofHash hash

def controlSet (now : Selected) (file : InspecFile) : Except JsError ControlSet := do
  let controls ← controls now.data { now.filter with fromFile := [file.uniqueId] }
  let detailed ← controls.mapM addDetails
  return ⟨file.filename, file.uniqueId, detailed⟩

def evaluationData (now : Selected) (file : InspecFile) : Option ExecJSON :=
  (now.data.executionFiles.find? fun f => decide (f.uniqueId = file.uniqueId)).map
    (·.evaluation.data)

def fileInfo (now : Selected) (file : InspecFile) : FileInfo where
  filename := file.filename
  toolVersion := (evaluationData now file).map (·.version)
  platform := (evaluationData now file).map (·.platform.name)
  duration := ((evaluationData now file).map (·.statistics.duration)).getD .undefined

/-- A file is listed before its controls are collected, for which an exception is lost. -/
def addFiledata (exportType : ExportType) (now : Selected) (outputData : OutputData)
    (file : InspecFile) : OutputData :=
  let outputData := { outputData with
    files := outputData.files ++ [fileInfo now file], exportType := exportType.capitalized }
  match controlSet now file with
  | .ok set => { outputData with controlSets := outputData.controlSets ++ [set] }
  | .error _ => outputData

/-- The loop over the selected files. -/
def addFiles (exportType : ExportType) (now : Selected) (outputData : OutputData) : OutputData :=
  now.filter.fromFile.foldl (fun outputData fileId =>
    match findFile now.allFiles fileId with
    | some file => addFiledata exportType now outputData file
    | none => outputData) outputData

end Source
end ExportHTMLModal

/-- The dialog, the requests for the four files that are not answered yet, and the data that the
reports were written of. -/
structure ExportHTMLModal where
  showingModal : Bool
  exportType : ExportHTMLModal.ExportType
  outputData : ExportHTMLModal.OutputData
  pending : ℕ
  reports : List ExportHTMLModal.OutputData

namespace ExportHTMLModal

inductive Event where
  | showModal
  | closeModal
  | choose (exportType : ExportType)
  | exportHTML (now : Selected)
  /-- The four files have come. -/
  | answer (now : Selected)
  /-- One of them has not. -/
  | refusal

/-- What the watcher of the export type sets. -/
def onFileChanged (outputData : OutputData) : ExportType → OutputData
  | .executive => { outputData with showControlSets := false, showCode := false }
  | .manager => { outputData with showControlSets := true, showCode := false }
  | .administrator => { outputData with showControlSets := true, showCode := true }

variable [UnicodeTables]

/-- When the statistics cannot be counted the click does nothing. -/
def exportHTML (modal : ExportHTMLModal) (now : Selected) : ExportHTMLModal :=
  match statistics now with
  | .error _ => modal
  | .ok statistics =>
      let modal := { modal with
        outputData := { modal.outputData with statistics, files := [], controlSets := [] } }
      if now.filter.fromFile = [] then modal
      else { modal with pending := modal.pending + 1, showingModal := false }

def answer (modal : ExportHTMLModal) (now : Selected) : ExportHTMLModal :=
  let outputData := addFiles modal.exportType now modal.outputData
  { modal with
    outputData, pending := modal.pending - 1, reports := modal.reports ++ [outputData] }

def step (modal : ExportHTMLModal) : Event → ExportHTMLModal
  | .showModal => { modal with showingModal := true }
  | .closeModal => { modal with showingModal := false }
  | .choose exportType =>
      { modal with exportType, outputData := onFileChanged modal.outputData exportType }
  | .exportHTML now => modal.exportHTML now
  | .answer now => if modal.pending = 0 then modal else modal.answer now
  | .refusal => { modal with pending := modal.pending - 1 }

section Collected
variable {modal : ExportHTMLModal} {now : Selected}

def found (now : Selected) : List InspecFile := now.filter.fromFile.filterMap (findFile now.allFiles)

def sets (now : Selected) : List ControlSet :=
  (found now).filterMap fun file => (controlSet now file).toOption

theorem addFiles_collects (exportType : ExportType) (now : Selected) (outputData : OutputData) :
    let after := addFiles exportType now outputData
    after.files = outputData.files ++ (found now).map (fileInfo now) ∧
    after.controlSets = outputData.controlSets ++ sets now ∧
    after.statistics = outputData.statistics := by
  unfold addFiles sets found
  induction now.filter.fromFile generalizing outputData with
  | nil => exact ⟨(List.append_nil _).symm, (List.append_nil _).symm, rfl⟩
  | cons fileId rest ih =>
      rw [List.foldl_cons, List.filterMap_cons]
      cases findFile now.allFiles fileId with
      | none => exact ih outputData
      | some file =>
          obtain ⟨files, sets, statistics⟩ := ih (addFiledata exportType now outputData file)
          dsimp only at files sets statistics ⊢
          rw [files, sets, statistics, List.map_cons, List.filterMap_cons]
          unfold addFiledata
          cases controlSet now file with
          | error e => exact ⟨List.append_assoc _ _ _, rfl, rfl⟩
          | ok set => exact ⟨List.append_assoc _ _ _, List.append_assoc _ _ _, rfl⟩

/-- After the click, while the same is selected and there is no other click. -/
def Event.After (now : Selected) : Event → Prop
  | .exportHTML _ => False
  | .answer now' => now' = now
  | _ => True

def Event.answers : Event → Bool
  | .answer _ => true
  | _ => false

def Event.settles : Event → Bool
  | .answer _ => true
  | .refusal => true
  | _ => false

/-- What has been collected is what was collected before, and then these files so many times. -/
structure Collects (now : Selected) (k : ℕ) (before after : OutputData) : Prop where
  files : after.files = before.files ++
    (List.replicate k ((found now).map (fileInfo now))).flatten
  controlSets : after.controlSets = before.controlSets ++ (List.replicate k (sets now)).flatten
  statistics : after.statistics = before.statistics

theorem Collects.none {before after : OutputData} (files : after.files = before.files)
    (controlSets : after.controlSets = before.controlSets)
    (statistics : after.statistics = before.statistics) : Collects now 0 before after :=
  ⟨by rw [files, List.replicate_zero, List.flatten_nil, List.append_nil],
    by rw [controlSets, List.replicate_zero, List.flatten_nil, List.append_nil], statistics⟩

theorem Collects.trans {j k : ℕ} {before middle after : OutputData}
    (first : Collects now j before middle) (second : Collects now k middle after) :
    Collects now (j + k) before after where
  files := by
    rw [second.files, first.files, List.replicate_add, List.flatten_append, List.append_assoc]
  controlSets := by
    rw [second.controlSets, first.controlSets, List.replicate_add, List.flatten_append,
      List.append_assoc]
  statistics := second.statistics.trans first.statistics

theorem collects_addFiles (exportType : ExportType) (outputData : OutputData) :
    Collects now 1 outputData (addFiles exportType now outputData) := by
  obtain ⟨files, sets, statistics⟩ := addFiles_collects exportType now outputData
  refine ⟨?_, ?_, statistics⟩
  · rw [files, List.replicate_one, List.flatten_singleton]
  · rw [sets, List.replicate_one, List.flatten_singleton]

/-- One event collects the files if it is an answer, and nothing otherwise. -/
theorem collects_step {event : Event} (after : event.After now)
    (enough : event.settles = true → 0 < modal.pending) :
    Collects now (if event.answers then 1 else 0) modal.outputData
        (modal.step event).outputData ∧
      (modal.step event).pending + (if event.settles then 1 else 0) = modal.pending := by
  cases event with
  | showModal => exact ⟨.none rfl rfl rfl, rfl⟩
  | closeModal => exact ⟨.none rfl rfl rfl, rfl⟩
  | choose exportType => cases exportType <;> exact ⟨.none rfl rfl rfl, rfl⟩
  | exportHTML now' => cases after
  | answer now' =>
      have waiting := enough rfl
      obtain rfl : now' = now := after
      rw [step, if_neg (Nat.ne_of_gt waiting)]
      exact ⟨collects_addFiles _ _, Nat.sub_add_cancel waiting⟩
  | refusal => exact ⟨.none rfl rfl rfl, Nat.sub_add_cancel (enough rfl)⟩

theorem collects_run {events : List Event} (after : ∀ event ∈ events, event.After now)
    (enough : events.countP Event.settles ≤ modal.pending) :
    Collects now (events.countP Event.answers) modal.outputData
        (Lib.run step modal events).outputData ∧
      (Lib.run step modal events).pending + events.countP Event.settles = modal.pending := by
  induction events generalizing modal with
  | nil => exact ⟨.none rfl rfl rfl, rfl⟩
  | cons event events ih =>
      obtain ⟨here, later⟩ := List.forall_mem_cons.mp after
      rw [List.countP_cons] at enough ⊢
      obtain ⟨one, settled⟩ := @collects_step _ modal now event here fun settles => by
        rw [if_pos settles] at enough
        omega
      obtain ⟨others, rest⟩ := @ih (modal.step event) later (by omega)
      rw [List.countP_cons, Nat.add_comm]
      refine ⟨one.trans others, ?_⟩
      show (Lib.run step (modal.step event) events).pending + _ = _
      omega

end Collected

section Counted
variable {now : Selected} {shown : List StoredControl}

omit [UnicodeTables] in
/-- The controls of distinct files are those of each of them. -/
theorem allControls_perm (data : InspecData) {files : List FileID} (distinct : files.Nodup) :
    (files.flatMap fun file => allControls data [file]).Perm (allControls data files) := by
  have split : ∀ ids, allControls data ids =
      (data.executionFiles.filter fun f => decide (f.uniqueId ∈ ids)).flatMap (fun f =>
        (f.evaluation.contains.map fun p =>
          (⟨f.uniqueId, f.evaluation.graph, p⟩ : StoredProfile)).flatMap StoredProfile.contained) ++
      (data.profileFiles.filter fun f => decide (f.uniqueId ∈ ids)).flatMap fun f =>
        StoredProfile.contained ⟨f.uniqueId, f.profile, 0⟩ := by
    intro ids
    rw [allControls, profiles_for_evaluations, profiles, List.flatMap_append, List.flatMap_assoc,
      List.flatMap_map]
  simp only [split]
  refine (List.flatMap_append_perm _ _ _).symm.trans (.append ?_ ?_)
  · exact flatMap_classes_perm (·.uniqueId) distinct (by simp) (by simp) _ _
  · exact flatMap_classes_perm (·.uniqueId) distinct (by simp) (by simp) _ _

omit [UnicodeTables] in
/-- What one control adds does not depend on what was counted before. -/
theorem add_fields (hash : StatusHash) (hdf : HDFControl) : hash.add hdf =
    ⟨fun s => hash.count s + (StatusHash.zero.add hdf).count s,
      hash.PassedTests + (StatusHash.zero.add hdf).PassedTests,
      hash.FailedTests + (StatusHash.zero.add hdf).FailedTests,
      hash.PassingTestsFailedControl + (StatusHash.zero.add hdf).PassingTestsFailedControl,
      hash.Waived + (StatusHash.zero.add hdf).Waived⟩ := by
  have counts : (hash.add hdf).count =
      fun s => hash.count s + (StatusHash.zero.add hdf).count s := by
    funext s
    rw [add_count, add_count]
    simp [StatusHash.zero]
  rw [StatusHash.mk.injEq, ← counts]
  unfold StatusHash.add
  cases hdf.status <;> simp [StatusHash.bump, StatusHash.zero]
  split <;> simp

omit [UnicodeTables] in
/-- The order of the controls does not matter to the counts. -/
theorem tally_perm {cs cs' : List StoredControl} (perm : cs.Perm cs') : tally cs = tally cs' := by
  refine perm.foldl_eq' (fun c _ d _ hash => ?_) _
  unfold countInto
  cases c.view with
  | none => rfl
  | some hdf =>
      cases d.view with
      | none => rfl
      | some hdf' =>
          simp only [Option.map_some, Option.getD_some]
          rw [add_fields (hash.add hdf) hdf', add_fields hash hdf, add_fields (hash.add hdf') hdf,
            add_fields hash hdf']
          simp only [Nat.add_right_comm]

omit [UnicodeTables] in
theorem addDetails_control {c : StoredControl} {d : DetailedControl}
    (done : addDetails c = .ok d) : d.control = c := by
  simp only [addDetails, do_eq_ok] at done
  obtain ⟨own, -, code, -, view, -, hdf, -, same⟩ := done
  rw [pure_eq_ok.mp same]

theorem addDetails_returns {data : InspecData} (loaded : data.Loaded) {files : List FileID}
    {c : StoredControl} (inside : c ∈ allControls data files) (rooted : c.Rooted) :
    ∃ d, addDetails c = .ok d := by
  obtain ⟨-, own, here⟩ := loaded.whole inside
  obtain ⟨r, root, walked, -, view, -⟩ := loaded.rooted inside rooted
  obtain ⟨index, walk, -⟩ := do_eq_ok.mp walked
  obtain ⟨code, full⟩ := full_code_of_root (orThrow_eq_ok.mp walk)
  refine ⟨⟨c, code, detailsOf own root.hdf⟩, ?_⟩
  simp only [addDetails, do_eq_ok]
  exact ⟨own, orThrow_eq_ok.mpr here, code, orThrow_eq_ok.mpr full, _, view, root.hdf, rfl, rfl⟩

/-- The control set of a selected file has what the filter selects of the file. -/
theorem controlSet_ok (loaded : now.data.Loaded)
    (returned : controls now.data now.filter = .ok shown) (rooted : ∀ c ∈ shown, c.Rooted)
    (distinct : now.filter.fromFile.Nodup) {file : InspecFile}
    (selected : file.uniqueId ∈ now.filter.fromFile) :
    ∃ set, controlSet now file = .ok set ∧ set.fileID = file.uniqueId ∧
      set.controls.map (·.control) =
        (allControls now.data [file.uniqueId]).filter (accepts now.filter.selects) := by
  obtain ⟨answers, rfl⟩ := controls_eq_ok.mp returned
  have within : ∀ c ∈ allControls now.data [file.uniqueId],
      c ∈ allControls now.data now.filter.fromFile := fun c inside =>
    (allControls_perm now.data distinct).subset (List.mem_flatMap.mpr ⟨_, selected, inside⟩)
  have own : controls now.data { now.filter with fromFile := [file.uniqueId] } =
      .ok ((allControls now.data [file.uniqueId]).filter (accepts now.filter.selects)) :=
    controls_eq_ok.mpr ⟨fun c inside => answers c (within c inside), rfl⟩
  obtain ⟨detailed, made⟩ := mapM_returns fun c (inside : c ∈
      (allControls now.data [file.uniqueId]).filter (accepts now.filter.selects)) => by
    obtain ⟨member, accepted⟩ := List.mem_filter.mp inside
    exact addDetails_returns loaded member
      (rooted c (List.mem_filter.mpr ⟨within c member, accepted⟩))
  refine ⟨⟨file.filename, file.uniqueId, detailed⟩, ?_, rfl, ?_⟩
  · simp only [controlSet, do_eq_ok]
    exact ⟨_, own, detailed, made, rfl⟩
  · have same := map_eq_map_of_forall₂ (f := id) (g := DetailedControl.control)
      ((mapM_eq_ok.mp made).imp fun c d done => addDetails_control done)
    rw [same, List.map_id]

omit [UnicodeTables] in
/-- A file that is not found is not loaded. -/
theorem allControls_of_not_found (now : Selected) {fileId : FileID}
    (absent : findFile now.allFiles fileId = none) : allControls now.data [fileId] = [] := by
  have other : fileId ∉ now.data.executionFiles.map (·.uniqueId) ++
      now.data.profileFiles.map (·.uniqueId) := by
    rw [← now.listed]
    intro inside
    obtain ⟨file, member, same⟩ := List.mem_map.mp inside
    exact List.find?_eq_none.mp absent file member (decide_eq_true same)
  simp only [List.mem_append, List.mem_map, not_or, not_exists, not_and] at other
  have execs : now.data.executionFiles.filter (fun f => decide (f.uniqueId ∈ [fileId])) = [] :=
    List.filter_eq_nil_iff.mpr fun f inside => by simpa using other.1 f inside
  have profs : now.data.profileFiles.filter (fun f => decide (f.uniqueId ∈ [fileId])) = [] :=
    List.filter_eq_nil_iff.mpr fun f inside => by simpa using other.2 f inside
  rw [allControls, profiles_for_evaluations, profiles, execs, profs]
  rfl

/-- The control sets have what the filter selects, file by file. -/
theorem sets_controls (loaded : now.data.Loaded)
    (returned : controls now.data now.filter = .ok shown) (rooted : ∀ c ∈ shown, c.Rooted)
    (distinct : now.filter.fromFile.Nodup) :
    (sets now).map (·.fileID) = (found now).map (·.uniqueId) ∧
      ((sets now).flatMap fun set => set.controls.map (·.control)) =
        (now.filter.fromFile.flatMap fun file => allControls now.data [file]).filter
          (accepts now.filter.selects) := by
  have each : ∀ ids ⊆ now.filter.fromFile,
      let files := ids.filterMap (findFile now.allFiles)
      let sets := files.filterMap fun file => (controlSet now file).toOption
      sets.map (·.fileID) = files.map (·.uniqueId) ∧
        (sets.flatMap fun set => set.controls.map (·.control)) =
          (ids.flatMap fun file => allControls now.data [file]).filter
            (accepts now.filter.selects) := by
    intro ids selected
    induction ids with
    | nil => exact ⟨rfl, rfl⟩
    | cons id ids ih =>
        obtain ⟨here, later⟩ := List.cons_subset.mp selected
        obtain ⟨names, controls⟩ := ih later
        dsimp only at names controls ⊢
        rw [List.filterMap_cons, List.flatMap_cons, List.filter_append, ← controls]
        cases located : findFile now.allFiles id with
        | none =>
            rw [allControls_of_not_found now located]
            exact ⟨names, rfl⟩
        | some file =>
            have same : file.uniqueId = id := of_decide_eq_true
              (List.find?_some (p := fun f : InspecFile => decide (f.uniqueId = id)) located)
            obtain ⟨set, made, fileID, own⟩ :=
              controlSet_ok loaded returned rooted distinct (same ▸ here)
            have member : (controlSet now file).toOption = some set := by
              rw [made]
              rfl
            simp only [List.filterMap_cons, member, List.map_cons, List.flatMap_cons, names,
              fileID, own, same, and_self]
  exact each _ (List.Subset.refl _)

theorem sets_perm (loaded : now.data.Loaded)
    (returned : controls now.data now.filter = .ok shown) (rooted : ∀ c ∈ shown, c.Rooted)
    (distinct : now.filter.fromFile.Nodup) :
    ((sets now).flatMap fun set => set.controls.map (·.control)).Perm shown := by
  rw [(sets_controls loaded returned rooted distinct).2]
  obtain ⟨-, rfl⟩ := controls_eq_ok.mp returned
  exact (allControls_perm now.data distinct).filter _

/-- A report lists the selected files as often as requests were answered since the click, its own
included. Its statistics count the controls of these files once. -/
theorem report_run {modal : ExportHTMLModal} (loaded : now.data.Loaded)
    (distinct : now.filter.fromFile.Nodup) (some_file : now.filter.fromFile ≠ [])
    {counted : Statistics} (counts : statistics now = .ok counted) {events : List Event}
    (after : ∀ event ∈ events, event.After now)
    (enough : events.countP Event.settles ≤ modal.pending) :
    let written := Lib.run step modal (.exportHTML now :: events ++ [.answer now])
    ∃ report, written.reports.getLast? = some report ∧
      report.files = (List.replicate (events.countP Event.answers + 1)
        ((found now).map (fileInfo now))).flatten ∧
      report.controlSets =
        (List.replicate (events.countP Event.answers + 1) (sets now)).flatten ∧
      (sets now).map (·.fileID) = (found now).map (·.uniqueId) ∧
      report.statistics = counted ∧
      Statistics.ofHash (tally ((sets now).flatMap fun set => set.controls.map (·.control))) =
        counted := by
  intro written
  obtain ⟨hash, tallied, same⟩ := do_eq_ok.mp counts
  obtain ⟨shown, returned, rooted, rfl⟩ := count_statuses_eq_ok.mp tallied
  obtain rfl := pure_eq_ok.mp same
  have click : modal.exportHTML now = { modal with
      outputData := { modal.outputData with
        statistics := .ofHash (tally shown), files := [], controlSets := [] }
      pending := modal.pending + 1, showingModal := false } := by
    rw [exportHTML, counts]
    exact if_neg some_file
  obtain ⟨before, waiting⟩ := @collects_run _ (modal.exportHTML now) now events after (by
    rw [click]
    exact Nat.le_succ_of_le enough)
  generalize last : Lib.run step (modal.exportHTML now) events = asked at before waiting
  have waits : 0 < asked.pending := by
    rw [click] at waiting
    dsimp only at waiting
    omega
  have ends : written = asked.answer now := by
    have steps : written = (Lib.run step (modal.exportHTML now) events).step (.answer now) := by
      show Lib.run step (modal.exportHTML now) (events ++ [.answer now]) = _
      rw [Lib.run_append]
      rfl
    rw [steps, last]
    exact if_neg (Nat.ne_of_gt waits)
  have all := before.trans (collects_addFiles asked.exportType asked.outputData)
  have names := (sets_controls loaded returned rooted distinct).1
  refine ⟨addFiles asked.exportType now asked.outputData, ?_, ?_, ?_, names, ?_, ?_⟩
  · rw [ends]
    exact List.getLast?_concat
  · rw [all.files, click]
    rfl
  · rw [all.controlSets, click]
    rfl
  · rw [all.statistics, click]
  · rw [tally_perm (sets_perm loaded returned rooted distinct)]

end Counted
end ExportHTMLModal

namespace ExportHTMLModal

def sampleSelected : Selected :=
  ⟨[⟨js "f", js "f.json"⟩], waivedStore, topFilter (js "f"), by decide +kernel⟩

def sampleDialog : ExportHTMLModal :=
  ⟨true, .executive, ⟨[], ⟨0, 0, 0, 0, 0, 0, 0, 0⟩, [], false, false, []⟩, 1, []⟩

/-- The answer to an earlier click comes in between. -/
theorem report_run_sample :
    ∃ report, (Lib.run (@step asciiTables) sampleDialog [.exportHTML sampleSelected,
        .choose .manager, .answer sampleSelected, .answer sampleSelected]).reports.getLast? =
          some report ∧
      report.files = List.replicate 2 ⟨js "f.json", some [], some [], .undefined⟩ ∧
      report.statistics = ⟨0, 1, 1, 0, 0, 0, 1, 1⟩ := by
  obtain ⟨report, last, files, -, -, statistics, -⟩ :=
    @report_run asciiTables sampleSelected sampleDialog (sampleStore_loaded _) (by decide)
      (by decide) ⟨0, 1, 1, 0, 0, 0, 1, 1⟩ (by decide +kernel)
      [.choose .manager, .answer sampleSelected] (by simp [Event.After]) (by decide)
  exact ⟨report, last, files.trans (by decide +kernel), statistics⟩

end ExportHTMLModal
end Frontend
