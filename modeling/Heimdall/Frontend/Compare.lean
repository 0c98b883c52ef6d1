import Heimdall.Js.Lodash
import Heimdall.Lib.Sorting
import Heimdall.Frontend.Comparison

/-!
# The compare view

The series that the view shows: those that the search finds and, in the changed-only mode, those
of them that look changed. A series looks incomplete when it has not as many controls as files are
selected, and profile files are selected too. A series whose name `pickBy` refuses is never shown.
-/
namespace Frontend
open Js Lib Inspec

section Source

structure SelectedFiles where
  selectedEvaluationIds : List FileID
  selectedProfileIds : List FileID

def SelectedFiles.selected_file_ids (selected : SelectedFiles) : List FileID :=
  selected.selectedEvaluationIds ++ selected.selectedProfileIds

/-- What the user has set in the view. -/
structure CompareView where
  changedOnly : Bool
  ascending : Bool
  searchTerm : JsString

/-- Get all evaluations from the specified file ids -/
def evaluations (data : InspecData) (files : List FileID) : List EvaluationFile :=
  data.executionFiles.filter fun e => decide (e.uniqueId ∈ files)

/-- The `pairings` of `curr_delta`. -/
def curr_delta (data : InspecData) (selected : SelectedFiles) : Hash ControlSeries :=
  ComparisonContext (evaluations data selected.selected_file_ids)

def CompareView.filter (view : CompareView) (selected : SelectedFiles) : Filter where
  fromFile := selected.selectedEvaluationIds
  searchTerm := some view.searchTerm
  omit_overlayed_controls := some true

def StoredControl.rootStatus (control : StoredControl) :
    Except JsError (Option ControlStatus) := do
  let hdf ← control.rootHdf
  return hdf.map (·.status)

/-- Some status is not the first one, or there are not as many as files. -/
def looksChanged (files : ℕ) (series : ControlSeries) : Except JsError Bool := do
  let controls ← (Hash.values series).mapM StoredControl.rootStatus
  return controls.any (fun control => decide (some control ≠ controls.head?)) ||
    decide (controls.length ≠ files)

variable [UnicodeTables] [Lodash]

/-- The pairings whose key is the id of a control that the search finds. -/
def searched_sets (data : InspecData) (selected : SelectedFiles) (view : CompareView) :
    Except JsError (List (JsString × ControlSeries)) := do
  let found ← controls data (view.filter selected)
  return Hash.entries (Lodash.pickBy (curr_delta data selected)
    fun _ key => decide (key ∈ found.map StoredControl.id))

/-- Yields the control pairings that have changed -/
def delta_sets (data : InspecData) (selected : SelectedFiles) (view : CompareView) :
    Except JsError (List (JsString × ControlSeries)) := do
  let sets ← searched_sets data selected view
  filterOk (fun e => looksChanged selected.selected_file_ids.length e.2) sets

/-- What `show_sets` may return, when ids are compared by `localeCompare`. -/
def ShowSets (localeCompare : JsString → JsString → ℤ) (data : InspecData)
    (selected : SelectedFiles) (view : CompareView) (shown : List (JsString × ControlSeries)) :
    Prop :=
  ∃ sets, (if view.changedOnly then delta_sets data selected view
      else searched_sets data selected view) = .ok sets ∧
    SortResult (fun a b => localeCompare a.1 b.1 * if view.ascending then 1 else -1) sets shown

end Source

section Purpose

/-- The statuses of two roots of the series differ. -/
def Changed (series : ControlSeries) : Prop :=
  ∃ c ∈ Hash.values series, ∃ d ∈ Hash.values series,
    c.view.map (·.status) ≠ d.view.map (·.status)

/-- An evaluation has no control with this id on top. -/
def Missing (executions : List EvaluationFile) (id : JsString) : Prop :=
  ∃ exec ∈ executions, ∀ c ∈ (extract_top_level_controls exec).controls, c.id ≠ id

/-- The series differs between the selected evaluations. -/
def Due (data : InspecData) (selected : SelectedFiles) (id : JsString) (series : ControlSeries) :
    Prop :=
  Changed series ∨ Missing (evaluations data selected.selectedEvaluationIds) id

instance (series : ControlSeries) : Decidable (Changed series) :=
  inferInstanceAs (Decidable (∃ c ∈ Hash.values series, ∃ d ∈ Hash.values series, _))

instance (executions : List EvaluationFile) (id : JsString) : Decidable (Missing executions id) :=
  inferInstanceAs (Decidable (∃ exec ∈ executions, ∀ c ∈ _, _))

instance (data : InspecData) (selected : SelectedFiles) (id : JsString) (series : ControlSeries) :
    Decidable (Due data selected id series) := inferInstanceAs (Decidable (_ ∨ _))

/-- As many files are selected as there are selected evaluations. -/
def OnlyEvaluations (data : InspecData) (selected : SelectedFiles) : Prop :=
  selected.selected_file_ids.length =
    (evaluations data selected.selectedEvaluationIds).length

instance (data : InspecData) (selected : SelectedFiles) :
    Decidable (OnlyEvaluations data selected) := inferInstanceAs (Decidable (_ = _))

variable [UnicodeTables]

/-- The search finds a control with the id of the series. -/
def Matches (data : InspecData) (selected : SelectedFiles) (view : CompareView) (id : JsString)
    (series : ControlSeries) : Prop :=
  ∃ found, controls data (view.filter selected) = .ok found ∧
    (id, series) ∈ curr_delta data selected ∧ id ∈ found.map StoredControl.id

variable [Lodash]

/-- The view has the series before it looks for changes. -/
def Searched (data : InspecData) (selected : SelectedFiles) (view : CompareView) (id : JsString)
    (series : ControlSeries) : Prop :=
  ∃ sets, searched_sets data selected view = .ok sets ∧ (id, series) ∈ sets

/-- The changed-only mode shows the series. -/
def Shown (localeCompare : JsString → JsString → ℤ) (data : InspecData)
    (selected : SelectedFiles) (view : CompareView) (id : JsString) (series : ControlSeries) :
    Prop :=
  ∃ shown, ShowSets localeCompare data selected { view with changedOnly := true } shown ∧
    (id, series) ∈ shown

/-- The changed-only mode shows the series that differ, of those that the search finds, and shows
the same when the selection of the profile files changes to another one. -/
structure ChangedOnlyRight (data : InspecData) (selected : SelectedFiles) (view : CompareView)
    (profileIds : List FileID) : Prop where
  shown : ∀ localeCompare id series, Matches data selected view id series →
    (Shown localeCompare data selected view id series ↔ Due data selected id series)
  stable : ∀ localeCompare id series,
    Shown localeCompare data { selected with selectedProfileIds := profileIds } view id series ↔
      Shown localeCompare data selected view id series

end Purpose

section Selected
variable {data : InspecData} {selected : SelectedFiles}

theorem evaluations_of_profiles
    (profileFiles : ∀ id ∈ selected.selectedProfileIds,
      id ∉ data.executionFiles.map (·.uniqueId)) :
    evaluations data selected.selected_file_ids =
      evaluations data selected.selectedEvaluationIds := by
  apply List.filter_congr
  intro e inside
  have notProfile : e.uniqueId ∉ selected.selectedProfileIds := fun listed =>
    profileFiles _ listed (List.mem_map_of_mem inside)
  simp [SelectedFiles.selected_file_ids, notProfile]

variable (distinct : (data.executionFiles.map (·.uniqueId)).Nodup)
include distinct

theorem evaluations_nodup (files : List FileID) :
    ((evaluations data files).map (·.uniqueId)).Nodup :=
  distinct.sublist (List.filter_sublist.map _)

theorem length_evaluations_le (selected : SelectedFiles) :
    (evaluations data selected.selectedEvaluationIds).length ≤
      selected.selected_file_ids.length := by
  have named : (evaluations data selected.selectedEvaluationIds).map (·.uniqueId) ⊆
      selected.selectedEvaluationIds := by
    intro id inside
    obtain ⟨e, kept, rfl⟩ := List.mem_map.mp inside
    exact of_decide_eq_true (List.mem_filter.mp kept).2
  have few := (List.subperm_of_subset (evaluations_nodup distinct _) named).length_le
  rw [List.length_map] at few
  refine few.trans ?_
  rw [SelectedFiles.selected_file_ids, List.length_append]
  exact Nat.le_add_right _ _

end Selected

section Series
variable {executions : List EvaluationFile} {id : JsString} {series : ControlSeries}
  (paired : (id, series) ∈ ComparisonContext executions)
  (once : (executions.map (·.uniqueId)).Nodup)
include paired

theorem series_files : series.map Prod.fst ⊆ executions.map (·.uniqueId) := by
  intro file known
  obtain ⟨c, top, -, rfl⟩ := (mem_series_iff paired file).mp known
  obtain ⟨exec, inside, here⟩ := List.mem_flatMap.mp top
  rw [file_of_mem here]
  exact List.mem_map_of_mem inside

include once

theorem missing_iff : Missing executions id ↔
    ¬ executions.map (·.uniqueId) ⊆ series.map Prod.fst := by
  have known_iff : ∀ exec ∈ executions, exec.uniqueId ∈ series.map Prod.fst ↔
      ∃ c ∈ (extract_top_level_controls exec).controls, c.id = id := by
    intro exec inside
    rw [mem_series_iff paired]
    constructor
    · rintro ⟨c, top, own, file⟩
      obtain ⟨other, inside', here⟩ := List.mem_flatMap.mp top
      obtain rfl : other = exec :=
        List.inj_on_of_nodup_map once inside' inside ((file_of_mem here).symm.trans file)
      exact ⟨c, here, own⟩
    · rintro ⟨c, here, own⟩
      exact ⟨c, List.mem_flatMap.mpr ⟨exec, inside, here⟩, own, file_of_mem here⟩
  constructor
  · rintro ⟨exec, inside, none⟩ all
    obtain ⟨c, here, own⟩ := (known_iff exec inside).mp (all (List.mem_map_of_mem inside))
    exact none c here own
  · intro notAll
    by_contra complete
    unfold Missing at complete
    push Not at complete
    refine notAll fun file named => ?_
    obtain ⟨exec, inside, rfl⟩ := List.mem_map.mp named
    exact (known_iff exec inside).mpr (complete exec inside)

/-- A series has at most one control for each evaluation, and fewer where it misses one. -/
theorem series_length : series.length ≤ executions.length ∧
    (Missing executions id ↔ series.length ≠ executions.length) := by
  have few := List.subperm_of_subset (series_nodup paired) (series_files paired)
  have bound := few.length_le
  rw [List.length_map, List.length_map] at bound
  refine ⟨bound, ?_⟩
  rw [missing_iff paired once]
  apply not_congr
  constructor
  · intro all
    have many := (List.subperm_of_subset once all).length_le
    rw [List.length_map, List.length_map] at many
    exact Nat.le_antisymm bound many
  · intro same
    have enough : (executions.map (·.uniqueId)).length ≤ (series.map Prod.fst).length := by
      rw [List.length_map, List.length_map, same]
    exact (few.perm_of_length_le enough).symm.subset

end Series

section Statuses

theorem any_ne_head {α : Type} [DecidableEq α] (xs : List α) :
    xs.any (fun x => decide (some x ≠ xs.head?)) = true ↔ ∃ x ∈ xs, ∃ y ∈ xs, x ≠ y := by
  cases xs with
  | nil => simp
  | cons first rest =>
      rw [List.any_eq_true]
      constructor
      · rintro ⟨x, inside, differs⟩
        refine ⟨x, inside, first, List.mem_cons_self, ?_⟩
        rintro rfl
        exact of_decide_eq_true differs rfl
      · rintro ⟨x, hx, y, hy, differ⟩
        by_cases same : x = first
        · refine ⟨y, hy, decide_eq_true fun equal => differ ?_⟩
          exact same.trans (Option.some.inj equal).symm
        · exact ⟨x, hx, decide_eq_true fun equal => same (Option.some.inj equal)⟩

theorem rootStatus_eq_ok (c : StoredControl) (status : Option ControlStatus) :
    c.rootStatus = .ok status ↔ c.Rooted ∧ status = c.view.map (·.status) := by
  unfold StoredControl.rootStatus StoredControl.Rooted StoredControl.view
  rw [do_eq_ok]
  cases c.rootHdf with
  | error e => simp
  | ok hdf => simp [pure_eq_ok]

theorem looksChanged_ok {series : ControlSeries} (rooted : ∀ p ∈ series, p.2.Rooted) (files : ℕ) :
    ∃ answer, looksChanged files series = .ok answer ∧
      (answer = true ↔ Changed series ∨ series.length ≠ files) := by
  have values : ∀ c ∈ Hash.values series, c.Rooted := by
    intro c inside
    obtain ⟨p, entry, rfl⟩ := List.mem_map.mp inside
    exact rooted p ((Hash.entries_perm series).mem_iff.mp entry)
  have read : (Hash.values series).mapM StoredControl.rootStatus =
      .ok ((Hash.values series).map fun c => c.view.map (·.status)) :=
    (mapM_eq_ok_iff rootStatus_eq_ok).mpr ⟨values, rfl⟩
  have length : (Hash.values series).length = series.length := by
    rw [Hash.values, List.length_map, (Hash.entries_perm series).length_eq]
  refine ⟨_, do_eq_ok.mpr ⟨_, read, rfl⟩, ?_⟩
  rw [Bool.or_eq_true, any_ne_head, decide_eq_true_eq, List.length_map, length]
  apply or_congr_left
  unfold Changed
  simp only [List.mem_map, exists_exists_and_eq_and]

end Statuses

section Search
variable [UnicodeTables] {data : InspecData} {selected : SelectedFiles} {view : CompareView}

theorem rooted_of_found {found : List StoredControl}
    (returned : controls data (view.filter selected) = .ok found) :
    ∀ c ∈ tops (evaluations data selected.selectedEvaluationIds), c.Rooted := by
  intro c top
  obtain ⟨exec, inside, here⟩ := List.mem_flatMap.mp top
  obtain ⟨contained, onTop⟩ := List.mem_filter.mp here
  obtain ⟨p, held, own⟩ := List.mem_flatMap.mp contained
  have member : c ∈ allControls data selected.selectedEvaluationIds := by
    refine List.mem_flatMap.mpr ⟨_, List.mem_append_left _ ?_, own⟩
    exact List.mem_flatMap.mpr ⟨exec, inside, List.mem_map_of_mem held⟩
  have asked := (controls_eq_ok.mp returned).1 c member
  have reached : accepts (passes (view.filter selected).overlayTest) c = true := by
    refine accepts_passes.mpr fun keep listed => ?_
    obtain rfl : keep = fun c => .ok !isOverlayed c := List.mem_singleton.mp listed
    exact onTop
  have searched : Answers (fun c => contains_term c (UnicodeTables.toLowerCase view.searchTerm))
      c := @answers_reached _ _ _ (view.filter selected).overlayTest [] c asked reached
  obtain ⟨answer, answered⟩ := searched
  obtain ⟨hdf, root, -⟩ := do_eq_ok.mp answered
  exact ⟨hdf, root⟩

variable (profileFiles : ∀ id ∈ selected.selectedProfileIds,
  id ∉ data.executionFiles.map (·.uniqueId))

omit [UnicodeTables] in
include profileFiles in
theorem curr_delta_of_profiles : curr_delta data selected =
    ComparisonContext (evaluations data selected.selectedEvaluationIds) :=
  congrArg ComparisonContext (evaluations_of_profiles profileFiles)

include profileFiles in
theorem matches_spec {id : JsString} {series : ControlSeries}
    (found : Matches data selected view id series) :
    (id, series) ∈ ComparisonContext (evaluations data selected.selectedEvaluationIds) ∧
      ∀ p ∈ series, p.2.Rooted := by
  obtain ⟨all, returned, paired, -⟩ := found
  rw [curr_delta_of_profiles profileFiles] at paired
  exact ⟨paired, fun p inside => rooted_of_found returned _ (series_tops paired p inside)⟩

variable [Lodash]

/-- The view has what the search finds, under the names that `pickBy` sets. -/
theorem searched_iff {id : JsString} {series : ControlSeries} :
    Searched data selected view id series ↔
      Matches data selected view id series ∧ id ∉ Lodash.refused := by
  have kept : ∀ found : List StoredControl, (id, series) ∈ Hash.entries (Lodash.pickBy
      (curr_delta data selected) fun _ key => decide (key ∈ found.map StoredControl.id)) ↔
      ((id, series) ∈ curr_delta data selected ∧ id ∈ found.map StoredControl.id) ∧
        id ∉ Lodash.refused := by
    intro found
    rw [Lodash.entries_pickBy, List.mem_filter, (Hash.entries_perm _).mem_iff, Bool.and_eq_true,
      decide_eq_true_eq, decide_eq_true_eq, and_assoc]
  constructor
  · rintro ⟨sets, searched, inside⟩
    obtain ⟨found, returned, picked⟩ := do_eq_ok.mp searched
    obtain rfl := pure_eq_ok.mp picked
    obtain ⟨listed, free⟩ := (kept found).mp inside
    exact ⟨⟨found, returned, listed⟩, free⟩
  · rintro ⟨⟨found, returned, listed⟩, free⟩
    exact ⟨_, do_eq_ok.mpr ⟨found, returned, rfl⟩, (kept found).mpr ⟨listed, free⟩⟩

include profileFiles

theorem searched_sets_rooted {sets : List (JsString × ControlSeries)}
    (searched : searched_sets data selected view = .ok sets) :
    ∀ e ∈ sets, ∀ p ∈ e.2, p.2.Rooted := fun _ inside =>
  (matches_spec profileFiles (searched_iff.mp ⟨sets, searched, inside⟩).1).2

/-- The changed-only mode shows what the view has, where the roots differ or the number of
controls is not that of the selected files. -/
theorem shown_iff_searched (localeCompare : JsString → JsString → ℤ) {id : JsString}
    {series : ControlSeries} : Shown localeCompare data selected view id series ↔
      Searched data selected view id series ∧
        (Changed series ∨ series.length ≠ selected.selected_file_ids.length) := by
  constructor
  · rintro ⟨shown, ⟨sets, returned, sorted⟩, inside⟩
    obtain ⟨searchedSets, searched, filtered⟩ := do_eq_ok.mp returned
    obtain ⟨-, rfl⟩ := filterOk_eq_ok.mp filtered
    obtain ⟨found, accepted⟩ := List.mem_filter.mp (sorted.perm.mem_iff.mp inside)
    obtain ⟨answer, looked, meaning⟩ := looksChanged_ok
      (searched_sets_rooted profileFiles searched _ found) selected.selected_file_ids.length
    have yes := Except.ok.inj (looked.symm.trans (accepts_eq_true.mp accepted))
    exact ⟨⟨searchedSets, searched, found⟩, meaning.mp yes⟩
  · rintro ⟨⟨sets, searched, inside⟩, differs⟩
    have looked : ∀ e ∈ sets, ∃ answer,
        looksChanged selected.selected_file_ids.length e.2 = .ok answer ∧
          (answer = true ↔ Changed e.2 ∨ e.2.length ≠ selected.selected_file_ids.length) :=
      fun e found => looksChanged_ok (searched_sets_rooted profileFiles searched e found) _
    have answers : ∀ e ∈ sets, Answers
        (fun e => looksChanged selected.selected_file_ids.length e.2) e :=
      fun e found => (looked e found).imp fun _ both => both.1
    obtain ⟨answer, ok, meaning⟩ := looked _ inside
    refine ⟨_, ⟨_, do_eq_ok.mpr ⟨sets, searched, filterOk_eq_ok.mpr ⟨answers, rfl⟩⟩,
      sortResult_insertionSort _ _⟩, ?_⟩
    refine (List.perm_insertionSort _ _).mem_iff.mpr (List.mem_filter.mpr ⟨inside, ?_⟩)
    exact accepts_eq_true.mpr (ok.trans (congrArg Except.ok (meaning.mpr differs)))

omit [Lodash] in
theorem due_iff (distinct : (data.executionFiles.map (·.uniqueId)).Nodup) {id : JsString}
    {series : ControlSeries} (found : Matches data selected view id series) :
    Due data selected id series ↔ Changed series ∨
      series.length ≠ (evaluations data selected.selectedEvaluationIds).length := by
  have paired := (matches_spec profileFiles found).1
  exact or_congr_right (series_length paired (evaluations_nodup distinct _)).2

/-- A series that the view has is shown when it differs. -/
theorem shown_of_due (distinct : (data.executionFiles.map (·.uniqueId)).Nodup)
    (localeCompare : JsString → JsString → ℤ) {id : JsString} {series : ControlSeries}
    (searched : Searched data selected view id series) (due : Due data selected id series) :
    Shown localeCompare data selected view id series := by
  have found := (searched_iff.mp searched).1
  refine (shown_iff_searched profileFiles localeCompare).mpr ⟨searched, ?_⟩
  rcases (due_iff profileFiles distinct found).mp due with changed | fewer
  · exact .inl changed
  · right
    have paired := (matches_spec profileFiles found).1
    have bound := (series_length paired (evaluations_nodup distinct _)).1
    have selectedBound := length_evaluations_le distinct selected
    omega

/-- With evaluations alone, or where all that the view has differs, what is shown is what
differs. -/
theorem shown_iff_due (distinct : (data.executionFiles.map (·.uniqueId)).Nodup)
    (condition : OnlyEvaluations data selected ∨
      ∀ id series, Searched data selected view id series → Due data selected id series)
    (localeCompare : JsString → JsString → ℤ) {id : JsString} {series : ControlSeries} :
    Shown localeCompare data selected view id series ↔
      Searched data selected view id series ∧ Due data selected id series := by
  rcases condition with only | all
  · rw [shown_iff_searched profileFiles, only]
    exact and_congr_right fun searched =>
      (due_iff profileFiles distinct (searched_iff.mp searched).1).symm
  · constructor
    · intro shown
      have searched := ((shown_iff_searched profileFiles localeCompare).mp shown).1
      exact ⟨searched, all id series searched⟩
    · rintro ⟨searched, due⟩
      exact shown_of_due profileFiles distinct localeCompare searched due

/-- A series that does not differ is shown unless as many files are selected as evaluations. -/
theorem only_of_hidden (distinct : (data.executionFiles.map (·.uniqueId)).Nodup)
    {localeCompare : JsString → JsString → ℤ} {id : JsString} {series : ControlSeries}
    (searched : Searched data selected view id series) (notDue : ¬ Due data selected id series)
    (hidden : ¬ Shown localeCompare data selected view id series) :
    OnlyEvaluations data selected := by
  rw [due_iff profileFiles distinct (searched_iff.mp searched).1, not_or, not_not] at notDue
  by_contra differ
  refine hidden ((shown_iff_searched profileFiles localeCompare).mpr ⟨searched, .inr ?_⟩)
  rw [notDue.2]
  exact Ne.symm differ

end Search

section Profiles
variable [UnicodeTables] [Lodash] {data : InspecData} {selected : SelectedFiles}
  {profileIds : List FileID}

end Profiles

section Samples

def profiledStore : InspecData := { comparedStore with
  profileFiles := (@contextualizeProfile asciiTables ⟨js "plain", []⟩).toOption.toList.map
    fun graph => ⟨js "p", graph⟩ }

def searchAll : CompareView := ⟨true, true, []⟩

theorem pairs_set {id : JsString} {series : ControlSeries}
    (found : @Matches asciiTables profiledStore ⟨[js "f", js "g"], []⟩ searchAll id series) :
    id ∉ lodash.refused := by
  have set : ∀ e ∈ curr_delta profiledStore ⟨[js "f", js "g"], []⟩, e.1 ∉ lodash.refused := by
    decide +kernel
  obtain ⟨-, -, paired, -⟩ := found
  exact set _ paired

def allSelected : SelectedFiles := ⟨[js "f", js "g"], [js "p"]⟩

def foundSample : List (JsString × ControlSeries) :=
  match @searched_sets asciiTables lodash profiledStore allSelected searchAll with
  | .ok sets => sets
  | .error _ => []

end Samples
end Frontend
