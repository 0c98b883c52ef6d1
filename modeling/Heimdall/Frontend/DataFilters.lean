import Heimdall.Inspec.Layers
import Heimdall.Frontend.DataStore

/-!
# Filtering the loaded controls

The filter pipeline over the controls of the selected files, without its cache.
-/
namespace Frontend
open Js Lib Inspec

inductive StatusFilter where
  | status (s : ControlStatus)
  | waived

structure Filter where
  fromFile : List FileID
  status : Option StatusFilter := none
  severity : Option Severity := none
  omit_overlayed_controls : Option Bool := none
  searchTerm : Option JsString := none
  treeFilters : Option (List JsString) := none
  control_id : Option JsString := none

section Search

/-- `s.includes(term)` -/
def includes (s term : JsString) : Bool := s.tails.any fun rest => term.isPrefixOf rest

variable [UnicodeTables]

/-- `searchables.some(s => s.toLowerCase().includes(term))`, where a string may be absent. -/
def someIncludes (term : JsString) : List (Opt JsString) → Except JsError Bool
  | [] => .ok false
  | .val s :: rest =>
      if includes (UnicodeTables.toLowerCase s) term then .ok true else someIncludes term rest
  | _ :: _ => .error (.typeError "Cannot read properties of undefined (reading 'toLowerCase')")

def contains_term (contextControl : StoredControl) (term : JsString) : Except JsError Bool := do
  match ← contextControl.rootHdf with
  | none => return false
  | some asHDF =>
      let searchables := [.val asHDF.wraps.id, asHDF.wraps.title, asHDF.wraps.code,
        .val asHDF.severity.text, .val asHDF.status.text, .val asHDF.finding_details].filter
          fun s => decide (s ≠ .null)
      someIncludes term searchables

end Search

section Pipeline

def profiles_for_evaluations (data : InspecData) (files : List FileID) : List StoredProfile :=
  (data.executionFiles.filter fun file => decide (file.uniqueId ∈ files)).flatMap fun file =>
    file.evaluation.contains.map fun p => ⟨file.uniqueId, file.evaluation.graph, p⟩

def profiles (data : InspecData) (files : List FileID) : List StoredProfile :=
  (data.profileFiles.filter fun file => decide (file.uniqueId ∈ files)).map fun file =>
    ⟨file.uniqueId, file.profile, 0⟩

def allControls (data : InspecData) (files : List FileID) : List StoredControl :=
  (profiles_for_evaluations data files ++ profiles data files).flatMap StoredProfile.contained

def hasStatus (status : StatusFilter) (control : StoredControl) : Except JsError Bool :=
  match status with
  | .waived => .ok (control.hdf.any (·.waived))
  | .status s => do
      let hdf ← control.rootHdf
      return hdf.any fun hdf => decide (hdf.status = s)

def hasSeverity (severity : Severity) (control : StoredControl) : Except JsError Bool := do
  let hdf ← control.rootHdf
  return hdf.any fun hdf => decide (hdf.severity = severity)

/-- Some tag of the root is the control of the tree filter or below it. -/
def underTree (treeFilters : List JsString) (control : StoredControl) :
    Except JsError Bool := do
  let hdf ← control.rootHdf
  return hdf.any fun hdf => hdf.parsedNistTags.any fun t =>
    (NistControl.mk treeFilters none).contains t

def isOverlayed (control : StoredControl) : Bool :=
  !control.get.any fun cc => cc.extendedBy.isEmpty

/-- A step of the pipeline, when the filter asks for it. -/
def filterWhen {α : Type} (asked : Option α) (keep : α → StoredControl → Except JsError Bool)
    (controls : List StoredControl) : Except JsError (List StoredControl) :=
  match asked with
  | none => .ok controls
  | some value => filterOk (keep value) controls

variable [UnicodeTables]

def controls (data : InspecData) (filter : Filter) : Except JsError (List StoredControl) := do
  let controls := allControls data filter.fromFile
  let controls ← filterWhen filter.control_id
    (fun id c => .ok (decide (c.get.map (·.data.id) = some id))) controls
  let controls ← filterWhen filter.status hasStatus controls
  let controls ← filterWhen filter.severity hasSeverity controls
  let controls := if filter.omit_overlayed_controls = some true
    then controls.filter fun c => !isOverlayed c else controls
  let controls ← filterWhen (filter.searchTerm.map UnicodeTables.toLowerCase)
    (fun term c => contains_term c term) controls
  filterWhen (filter.treeFilters.filter fun path => !path.isEmpty) underTree controls

end Pipeline

section Tops

/-- The filter of the results view for one file: every control but the overlayed ones. -/
def topFilter (file : FileID) : Filter where
  fromFile := [file]
  omit_overlayed_controls := some true

/-- The identifier belongs to this evaluation and to no other file. -/
def InspecData.Holds (data : InspecData) (file : FileID)
    (context : ContextualizedEvaluation) : Prop :=
  data.executionFiles.filter (fun f => decide (f.uniqueId = file)) = [⟨file, context⟩] ∧
    data.profileFiles.filter (fun f => decide (f.uniqueId = file)) = []

variable [UnicodeTables] {evaluation : ExecJSON} {context : ContextualizedEvaluation}
  {data : InspecData} {file : FileID}

/-- The controls of a file are those of its graph, in their order. -/
theorem allControls_of_holds (built : Built evaluation context) (holds : data.Holds file context) :
    allControls data [file] = (List.range context.graph.controls.length).map
      fun c => ⟨file, context.graph, c⟩ := by
  have selected : profiles_for_evaluations data [file] ++ profiles data [file] =
      context.contains.map fun p => ⟨file, context.graph, p⟩ := by
    simp [profiles_for_evaluations, profiles, holds.1, holds.2]
  have contained : ∀ p, StoredProfile.contained ⟨file, context.graph, p⟩ =
      (context.graph.profiles[p]?.map fun q => q.contains.map fun c =>
        (⟨file, context.graph, c⟩ : StoredControl)).getD [] := by
    intro p
    simp only [StoredProfile.contained]
    cases context.graph.profiles[p]? <;> rfl
  rw [allControls, selected, List.flatMap_map, built.contains, ← built.length_profiles]
  simp only [contained]
  rw [flatMap_range_getElem?, ← List.map_flatMap, built.cover]

/-- The results view keeps the controls that nothing extends. -/
theorem controls_topFilter (built : Built evaluation context) (holds : data.Holds file context) :
    controls data (topFilter file) =
      .ok (context.graph.tops.map fun c => ⟨file, context.graph, c⟩) := by
  have kept : controls data (topFilter file) =
      .ok ((allControls data [file]).filter fun c => !isOverlayed c) := rfl
  rw [kept, allControls_of_holds built holds, List.filter_map]
  congr 2
  apply List.filter_congr
  intro c _
  simp [isOverlayed, StoredControl.get, Graph.isTop]

end Tops
end Frontend
