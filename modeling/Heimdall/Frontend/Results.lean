import Heimdall.Lib.Grouping
import Heimdall.Frontend.LoadedData

/-!
# The results page

What is selected on the page, the filter that its cards share, and the two charts, which count
the controls of that filter and narrow it down.
-/
namespace Frontend
open Js Lib Inspec

section Counts

/-- An entry for each severity. -/
abbrev SeverityHash := Severity → ℕ

/-- `hash[severity] += 1` -/
def SeverityHash.add (hash : SeverityHash) (hdf : HDFControl) : SeverityHash :=
  fun severity => if hdf.severity = severity then hash severity + 1 else hash severity

def countSeverity (hash : SeverityHash) (c : StoredControl) : Except JsError SeverityHash := do
  let hdf ← c.rootHdf
  return (hdf.map hash.add).getD hash

def count_severities [UnicodeTables] (data : InspecData) (filter : Filter) :
    Except JsError SeverityHash := do
  -- The status of the filter overrides the `undefined` that stands before it.
  let newFilter := filter
  let controls ← controls data newFilter
  controls.foldlM countSeverity fun _ => 0

end Counts

deriving instance DecidableEq for StatusFilter

/-- What is selected; `none` is `null`. -/
structure Results where
  severityFilter : Option Severity
  statusFilter : Option StatusFilter
  treeFilters : List JsString
  controlSelection : Option JsString
  searchTerm : JsString

namespace Results

/-- The page when it opens, and after `clear`. -/
def cleared : Results := ⟨none, none, [], none, []⟩

/-- The filter of the charts, the cards and the table. -/
def all_filter (page : Results) (file_filter : List FileID) : Filter where
  status := page.statusFilter
  severity := page.severityFilter
  fromFile := file_filter
  treeFilters := some page.treeFilters
  searchTerm := some page.searchTerm
  omit_overlayed_controls := some true
  control_id := page.controlSelection.filter fun id => !id.isEmpty

/-- A slice that is selected is deselected. -/
def onSelect {α : Type} [DecidableEq α] (value : Option α) (category : α) : Option α :=
  if value = some category then none else some category

inductive Event where
  | status (category : ControlStatus)
  | severity (category : Severity)
  | showErrors
  | showWaived
  /-- A node of the tree map that has nodes below it, or the way up. -/
  | set_path (pathSpec : List JsString)
  | up
  | select_leaf (id : JsString)
  | search (term : JsString)
  | clear_search
  | clear

def step (page : Results) : Event → Results
  | .status category =>
      { page with statusFilter := onSelect page.statusFilter (.status category) }
  | .severity category => { page with severityFilter := onSelect page.severityFilter category }
  | .showErrors => { page with statusFilter := some (.status .profileError) }
  | .showWaived => { page with statusFilter := some .waived }
  | .set_path pathSpec => { page with treeFilters := pathSpec }
  | .up =>
      if page.treeFilters = [] then page
      else { page with treeFilters := page.treeFilters.dropLast, controlSelection := none }
  | .select_leaf id =>
      { page with controlSelection := if page.controlSelection = some id then none else some id }
  | .search term => { page with searchTerm := term }
  | .clear_search => { page with searchTerm := [] }
  | .clear => cleared

end Results

section Classes

def StatusChart.categories : List ControlStatus :=
  [.passed, .failed, .notApplicable, .notReviewed, .profileError]

def SeverityChart.categories : List Severity := [.low, .medium, .high, .critical]

/-- The root has this severity. -/
def StoredControl.hasRootSeverity (severity : Severity) (c : StoredControl) : Bool :=
  c.view.any fun hdf => decide (hdf.severity = severity)

variable {cs : List StoredControl}

theorem StoredControl.view_of_rooted [UnicodeTables] {data : InspecData} (loaded : data.Loaded)
    {files : List FileID} {c : StoredControl} (inside : c ∈ allControls data files)
    (rooted : c.Rooted) : c.view.isSome = true := by
  obtain ⟨r, cc, -, -, view, -⟩ := loaded.rooted inside rooted
  rw [StoredControl.view_of_ok view]
  rfl

/-- Every control is counted under one status. -/
theorem sum_statuses (viewed : ∀ c ∈ cs, c.view.isSome = true) :
    ((.fromProfile :: StatusChart.categories).map fun s =>
      cs.countP (StoredControl.hasRootStatus s)).sum = cs.length := by
  refine sum_countP_classes StoredControl.hasRootStatus fun c inside => ?_
  obtain ⟨hdf, view⟩ := Option.isSome_iff_exists.mp (viewed c inside)
  unfold StoredControl.hasRootStatus
  rw [view]
  cases here : hdf.status <;> simp [StatusChart.categories, here]

theorem sum_severities (viewed : ∀ c ∈ cs, c.view.isSome = true) :
    ((.none :: SeverityChart.categories).map fun s =>
      cs.countP (StoredControl.hasRootSeverity s)).sum = cs.length := by
  refine sum_countP_classes StoredControl.hasRootSeverity fun c inside => ?_
  obtain ⟨hdf, view⟩ := Option.isSome_iff_exists.mp (viewed c inside)
  unfold StoredControl.hasRootSeverity
  rw [view]
  cases here : hdf.severity <;> simp [SeverityChart.categories, here]

theorem countSeverity_eq_ok (hash : SeverityHash) (c : StoredControl) (hash' : SeverityHash) :
    countSeverity hash c = .ok hash' ↔ c.Rooted ∧ hash' = (c.view.map hash.add).getD hash := by
  unfold countSeverity StoredControl.Rooted StoredControl.view
  cases c.rootHdf with
  | error e => simp
  | ok hdf => simp [eq_comm]

theorem foldl_severities (cs : List StoredControl) (hash : SeverityHash) (severity : Severity) :
    cs.foldl (fun hash c => (c.view.map (SeverityHash.add hash)).getD hash) hash severity =
      hash severity + cs.countP (StoredControl.hasRootSeverity severity) := by
  induction cs generalizing hash with
  | nil => rfl
  | cons c cs ih =>
      rw [List.foldl_cons, ih, List.countP_cons]
      unfold StoredControl.hasRootSeverity
      cases c.view with
      | none => rfl
      | some hdf =>
          by_cases same : hdf.severity = severity
          · simp only [Option.map_some, Option.getD_some, SeverityHash.add, Option.any_some,
              decide_eq_true_eq, if_pos same]
            omega
          · simp only [Option.map_some, Option.getD_some, SeverityHash.add, Option.any_some,
              decide_eq_true_eq, if_neg same]
            rfl

variable [UnicodeTables] {data : InspecData} {filter : Filter}

theorem count_severities_eq_ok {hash : SeverityHash} : count_severities data filter = .ok hash ↔
    ∃ cs, controls data filter = .ok cs ∧ (∀ c ∈ cs, c.Rooted) ∧
      hash = fun severity => cs.countP (StoredControl.hasRootSeverity severity) := by
  have counted : ∀ cs : List StoredControl, cs.foldl (fun hash c =>
        (c.view.map (SeverityHash.add hash)).getD hash) (fun _ => 0) =
      fun severity => cs.countP (StoredControl.hasRootSeverity severity) := fun cs =>
    funext fun severity => (foldl_severities cs _ severity).trans (Nat.zero_add _)
  unfold count_severities
  simp only [do_eq_ok, foldlM_eq_ok_iff countSeverity_eq_ok, counted]

end Classes

section Charts
variable [UnicodeTables] {data : InspecData} {filter : Filter} {severity : Severity}
  {shown cs : List StoredControl}

omit [UnicodeTables] in
theorem accepts_hasSeverity (severity : Severity) :
    accepts (hasSeverity severity) = StoredControl.hasRootSeverity severity := by
  funext c
  unfold accepts hasSeverity StoredControl.hasRootSeverity StoredControl.view
  cases c.rootHdf <;> rfl

/-- A severity selects among the controls that the filter selects without it. -/
theorem controls_severity_eq (no_severity : filter.severity = none)
    (returned : controls data filter = .ok shown)
    (selected : controls data { filter with severity := some severity } = .ok cs) :
    cs = shown.filter (StoredControl.hasRootSeverity severity) := by
  obtain ⟨-, rfl⟩ := controls_eq_ok.mp returned
  obtain ⟨-, rfl⟩ := controls_eq_ok.mp selected
  have without : filter.tests = (filter.idTest ++ filter.statusTest) ++
      (filter.overlayTest ++ filter.searchTest ++ filter.treeTest) := by
    unfold Filter.tests Filter.laterTests Filter.severityTest
    rw [no_severity]
    simp [whenAsked]
  have within : { filter with severity := some severity }.tests =
      (filter.idTest ++ filter.statusTest) ++ hasSeverity severity ::
        (filter.overlayTest ++ filter.searchTest ++ filter.treeTest) := by
    unfold Filter.tests Filter.laterTests Filter.severityTest
    simp [whenAsked, Filter.idTest, Filter.statusTest, Filter.overlayTest, Filter.searchTest,
      Filter.treeTest]
  rw [List.filter_filter]
  refine List.filter_congr fun c _ => ?_
  unfold Filter.selects
  rw [within, without, accepts_passes_insert, accepts_hasSeverity, Bool.and_comm]

namespace Results
variable {page : Results} {file_filter : List FileID}

/-- Every control that is shown was searched. -/
theorem rooted_of_shown (returned : controls data (page.all_filter file_filter) = .ok shown) :
    ∀ c ∈ shown, c.Rooted := by
  obtain ⟨-, rfl⟩ := controls_eq_ok.mp returned
  intro c inside
  have accepted := accepts_passes.mp (List.mem_filter.mp inside).2
  have searched := accepted (fun c => contains_term c (UnicodeTables.toLowerCase page.searchTerm))
    (by simp [Filter.tests, Filter.laterTests, Filter.searchTest, whenAsked, all_filter])
  obtain ⟨view, here, -⟩ := do_eq_ok.mp (accepts_eq_true.mp searched)
  exact ⟨view, here⟩

/-- The slices of each chart count the controls that are shown, and a slice tells how many are
shown after a click on it. -/
theorem charts_agree (loaded : data.Loaded)
    (returned : controls data (page.all_filter file_filter) = .ok shown) :
    ∃ statuses severities,
      count_statuses data (page.all_filter file_filter) = .ok statuses ∧
      count_severities data (page.all_filter file_filter) = .ok severities ∧
      statuses.count .fromProfile + (StatusChart.categories.map statuses.count).sum =
        shown.length ∧
      severities .none + (SeverityChart.categories.map severities).sum = shown.length ∧
      (page.statusFilter = none → ∀ category cs,
        controls data ((page.step (.status category)).all_filter file_filter) = .ok cs →
        cs.length = statuses.count category) ∧
      (page.severityFilter = none → ∀ category cs,
        controls data ((page.step (.severity category)).all_filter file_filter) = .ok cs →
        cs.length = severities category) := by
  have rooted := rooted_of_shown returned
  have viewed : ∀ c ∈ shown, c.view.isSome = true := by
    obtain ⟨-, rfl⟩ := controls_eq_ok.mp returned
    exact fun c inside =>
      StoredControl.view_of_rooted loaded (List.mem_filter.mp inside).1 (rooted c inside)
  refine ⟨tally shown, _, count_statuses_eq_ok.mpr ⟨shown, returned, rooted, rfl⟩,
    count_severities_eq_ok.mpr ⟨shown, returned, rooted, rfl⟩, ?_, sum_severities viewed,
    fun unset category cs selected => ?_, fun unset category cs selected => ?_⟩
  · have counts : (tally shown).count =
        fun s => shown.countP (StoredControl.hasRootStatus s) := funext (tally_entry shown)
    rw [counts]
    exact sum_statuses viewed
  · rw [step, unset] at selected
    rw [controls_status_eq unset returned selected, accepts_hasStatus,
      ← List.countP_eq_length_filter]
    exact (tally_entry shown category).symm
  · rw [step, unset] at selected
    rw [controls_severity_eq unset returned selected, ← List.countP_eq_length_filter]

end Results
end Charts

namespace Results

theorem charts_agree_sample : ∃ shown severities,
    @controls asciiTables waivedStore (cleared.all_filter [js "f"]) = .ok shown ∧
      @count_severities asciiTables waivedStore (cleared.all_filter [js "f"]) = .ok severities ∧
      severities .none + (SeverityChart.categories.map severities).sum = shown.length := by
  have ok : (@controls asciiTables waivedStore (cleared.all_filter [js "f"])).isOk = true := by
    decide +kernel
  cases returned : @controls asciiTables waivedStore (cleared.all_filter [js "f"]) with
  | error e =>
      rw [returned] at ok
      cases ok
  | ok shown =>
      obtain ⟨-, severities, -, counted, -, sum, -⟩ :=
        @charts_agree asciiTables waivedStore shown cleared _ (sampleStore_loaded _) returned
      exact ⟨shown, severities, rfl, counted, sum⟩

end Results
end Frontend
