import Mathlib.Data.Rat.Floor
import Heimdall.Frontend.StatusCards

/-!
# Two compliance values

The Compare view and the compliance chart of the results view compute the compliance of a
file with two formulas. They divide the same numbers exactly when the overlayed controls add
nothing to the one that the waived results do not add to the other.
-/
namespace Frontend
open Js Lib Inspec

/-- `Math.round` -/
def mathRound (x : ℚ) : ℤ := ⌊x + 1 / 2⌋

/-- The quotient is taken exactly; a double is as good for counts far below 2^45. -/
def percent (passed total : ℕ) : ℤ :=
  if total = 0 then 0 else mathRound (100 * passed / total)

section Series
variable [UnicodeTables] (data : InspecData)

/-- The numbers of `compliance_series` for one file: `passed` and `total`. -/
def compareCounts (file : FileID) : Except JsError (ℕ × ℕ) := do
  let filter : Filter := { fromFile := [file] }
  let passed ← countOf data filter (.status .passed)
  let failed ← countOf data filter (.status .failed)
  let profileError ← countOf data filter (.status .profileError)
  let notReviewed ← countOf data filter (.status .notReviewed)
  return (passed, passed + failed + profileError + notReviewed)

def compliance_series (file : FileID) : Except JsError ℤ := do
  let counts ← compareCounts data file
  return percent counts.1 counts.2

/-- The numbers of the chart's `series`. -/
def chartCounts (filter : Filter) : Except JsError (ℕ × ℕ) := do
  let passed ← countOf data filter (.status .passed)
  let failed ← countOf data filter (.status .failed)
  let profileError ← countOf data filter (.status .profileError)
  let notReviewed ← countOf data filter (.status .notReviewed)
  let waived ← countOf data filter .waived
  return (passed, passed + failed + profileError + notReviewed + waived)

def series (filter : Filter) : Except JsError ℤ := do
  let counts ← chartCounts data filter
  return percent counts.1 counts.2

/-- The filter of the results view when one file is selected and nothing else is. -/
def all_filter (file : FileID) : Filter where
  fromFile := [file]
  treeFilters := some []
  searchTerm := some []
  omit_overlayed_controls := some true

end Series

section Counts

/-- Controls whose root passed. -/
def met (cs : List StoredControl) : ℕ := cs.countP (StoredControl.hasRootStatus .passed)

/-- Controls whose root failed, could not be run or was not reviewed. -/
def unmet (cs : List StoredControl) : ℕ :=
  cs.countP (StoredControl.hasRootStatus .failed) +
    cs.countP (StoredControl.hasRootStatus .profileError) +
    cs.countP (StoredControl.hasRootStatus .notReviewed)

def waivedResults (cs : List StoredControl) : ℕ := (cs.map StoredControl.waivedTests).sum

theorem met_split (p : StoredControl → Bool) (cs : List StoredControl) :
    met cs = met (cs.filter p) + met (cs.filter fun c => !p c) := by
  unfold met
  exact List.countP_eq_countP_filter_add cs _ p

theorem unmet_split (p : StoredControl → Bool) (cs : List StoredControl) :
    unmet cs = unmet (cs.filter p) + unmet (cs.filter fun c => !p c) := by
  unfold unmet
  rw [List.countP_eq_countP_filter_add cs (StoredControl.hasRootStatus .failed) p,
    List.countP_eq_countP_filter_add cs (StoredControl.hasRootStatus .profileError) p,
    List.countP_eq_countP_filter_add cs (StoredControl.hasRootStatus .notReviewed) p]
  omega

/-- Controls without a view count for nothing. -/
theorem countP_viewed (status : ControlStatus) (cs : List StoredControl) :
    (cs.filter fun c => c.view.isSome).countP (StoredControl.hasRootStatus status) =
      cs.countP (StoredControl.hasRootStatus status) := by
  rw [List.countP_filter]
  apply List.countP_congr
  intro c _
  unfold StoredControl.hasRootStatus
  cases c.view <;> simp

theorem waivedResults_viewed (cs : List StoredControl) :
    waivedResults (cs.filter fun c => c.view.isSome) = waivedResults cs := by
  unfold waivedResults
  induction cs with
  | nil => rfl
  | cons c cs ih =>
      rw [List.map_cons, List.sum_cons, ← ih, List.filter_cons]
      cases view : c.view with
      | some hdf => rw [if_pos (Option.isSome_some), List.map_cons, List.sum_cons]
      | none =>
          rw [if_neg (by simp)]
          unfold StoredControl.waivedTests
          rw [view, Nat.zero_add]

theorem tally_met (cs : List StoredControl) : (tally cs).entry (.status .passed) = met cs :=
  tally_entry cs .passed

theorem tally_unmet (cs : List StoredControl) : (tally cs).entry (.status .failed) +
    (tally cs).entry (.status .profileError) + (tally cs).entry (.status .notReviewed) =
      unmet cs := by
  rw [tally_entry, tally_entry, tally_entry]
  rfl

variable [UnicodeTables] {data : InspecData} {filter : Filter} {cs : List StoredControl}

theorem countOf_of_controls (returned : controls data filter = .ok cs)
    (rooted : ∀ c ∈ cs, c.Rooted) (category : StatusFilter) :
    countOf data filter category = .ok ((tally cs).entry category) :=
  countOf_eq_ok.mpr ⟨cs, returned, rooted, rfl⟩

/-- What is computed from a count, and from further counts of the same controls. -/
theorem countOf_bind_eq_ok {β : Type} {category : StatusFilter} {rest : ℕ → Except JsError β}
    {value : List StoredControl → β}
    (counted : ∀ cs, controls data filter = .ok cs → (∀ c ∈ cs, c.Rooted) →
      (countOf data filter category >>= rest) = .ok (value cs)) {b : β} :
    (countOf data filter category >>= rest) = .ok b ↔
      ∃ cs, controls data filter = .ok cs ∧ (∀ c ∈ cs, c.Rooted) ∧ b = value cs := by
  constructor
  · intro here
    obtain ⟨_, first, -⟩ := do_eq_ok.mp here
    obtain ⟨cs, returned, rooted, -⟩ := countOf_eq_ok.mp first
    exact ⟨cs, returned, rooted, Except.ok.inj (here.symm.trans (counted cs returned rooted))⟩
  · rintro ⟨cs, returned, rooted, rfl⟩
    exact counted cs returned rooted

theorem compareCounts_eq_ok {file : FileID} {counts : ℕ × ℕ} :
    compareCounts data file = .ok counts ↔ ∃ cs, controls data { fromFile := [file] } = .ok cs ∧
      (∀ c ∈ cs, c.Rooted) ∧ counts = (met cs, met cs + unmet cs) := by
  apply countOf_bind_eq_ok
  intro cs returned rooted
  simp only [countOf_of_controls returned rooted]
  rw [← tally_met, ← tally_unmet, ← Nat.add_assoc, ← Nat.add_assoc]
  rfl

theorem chartCounts_eq_ok {counts : ℕ × ℕ} : chartCounts data filter = .ok counts ↔
    ∃ cs, controls data filter = .ok cs ∧ (∀ c ∈ cs, c.Rooted) ∧
      counts = (met cs, met cs + unmet cs + waivedResults cs) := by
  apply countOf_bind_eq_ok
  intro cs returned rooted
  simp only [countOf_of_controls returned rooted]
  unfold waivedResults
  rw [← tally_met, ← tally_unmet, ← tally_waived, ← Nat.add_assoc, ← Nat.add_assoc]
  rfl

end Counts

section Agreement
variable [UnicodeTables] (data : InspecData) (file : FileID)

/-- The controls of the file that another control extends. -/
def overlayed : List StoredControl := (allControls data [file]).filter isOverlayed

/-- The controls of the file that no other control extends. -/
def onTop : List StoredControl := (allControls data [file]).filter fun c => !isOverlayed c

/-- Every walk to a root ends, no overlayed control has passed, and as many of them did not
pass as the waived roots have results. -/
structure Commensurable : Prop where
  rooted : ∀ c ∈ allControls data [file], c.Rooted
  passed : ∀ c ∈ overlayed data file, ¬ c.hasRootStatus .passed
  waived : unmet (overlayed data file) = waivedResults (onTop data file)

variable {data file}

def emptySearch : Test := fun c => c.rootHdf.map Option.isSome

/-- The empty term is found in the id of every control. -/
theorem contains_term_nil : (fun c => contains_term c []) = emptySearch := by
  have everywhere : ∀ s, includes s [] = true := fun s => by
    cases s <;> rfl
  funext c
  unfold contains_term emptySearch
  cases c.rootHdf with
  | error e => rfl
  | ok hdf =>
      cases hdf with
      | none => rfl
      | some hdf =>
          show someIncludes [] (List.filter _ (_ :: _)) = .ok true
          rw [List.filter_cons_of_pos (by simp), someIncludes, if_pos (everywhere _)]

omit [UnicodeTables] in
theorem answers_emptySearch {c : StoredControl} : Answers emptySearch c ↔ c.Rooted := by
  unfold Answers emptySearch StoredControl.Rooted
  constructor
  · rintro ⟨answer, found⟩
    cases here : c.rootHdf with
    | error e => rw [here] at found; cases found
    | ok hdf => exact ⟨hdf, rfl⟩
  · rintro ⟨hdf, here⟩
    exact ⟨hdf.isSome, by rw [here]; rfl⟩

omit [UnicodeTables] in
theorem accepts_emptySearch : accepts emptySearch = fun c => c.view.isSome := by
  funext c
  unfold accepts emptySearch StoredControl.view
  cases c.rootHdf <;> rfl

theorem compareCounts_spec {counts : ℕ × ℕ} : compareCounts data file = .ok counts ↔
    (∀ c ∈ allControls data [file], c.Rooted) ∧ counts = (met (allControls data [file]),
      met (allControls data [file]) + unmet (allControls data [file])) := by
  have all : controls data { fromFile := [file] } = .ok (allControls data [file]) := rfl
  rw [compareCounts_eq_ok, all]
  constructor
  · rintro ⟨cs, here, spec⟩
    exact Except.ok.inj here ▸ spec
  · intro spec
    exact ⟨_, rfl, spec⟩

/-- The chart counts the controls on top. -/
theorem controls_all_filter (no_letters : UnicodeTables.toLowerCase [] = [])
    {cs : List StoredControl} : controls data (all_filter file) = .ok cs ↔
      (∀ c ∈ onTop data file, c.Rooted) ∧
        cs = (onTop data file).filter fun c => c.view.isSome := by
  have kept : controls data (all_filter file) = filterOk emptySearch (onTop data file) := by
    rw [← contains_term_nil, ← no_letters]
    exact bind_pure (m := Except JsError) _
  rw [kept, filterOk_eq_ok, accepts_emptySearch]
  simp only [answers_emptySearch]

theorem chartCounts_spec (no_letters : UnicodeTables.toLowerCase [] = []) {counts : ℕ × ℕ} :
    chartCounts data (all_filter file) = .ok counts ↔
      (∀ c ∈ onTop data file, c.Rooted) ∧ counts = (met (onTop data file),
        met (onTop data file) + unmet (onTop data file) + waivedResults (onTop data file)) := by
  simp only [chartCounts_eq_ok, controls_all_filter no_letters]
  have same : met ((onTop data file).filter fun c => c.view.isSome) = met (onTop data file) ∧
      unmet ((onTop data file).filter fun c => c.view.isSome) = unmet (onTop data file) := by
    unfold met unmet
    simp only [countP_viewed, and_self]
  constructor
  · rintro ⟨cs, ⟨rooted, rfl⟩, -, rfl⟩
    rw [same.1, same.2, waivedResults_viewed]
    exact ⟨rooted, rfl⟩
  · rintro ⟨rooted, rfl⟩
    refine ⟨_, ⟨rooted, rfl⟩, fun c inside => rooted c (List.mem_filter.mp inside).1, ?_⟩
    rw [same.1, same.2, waivedResults_viewed]

theorem compliance_series_eq_ok {value : ℤ} : compliance_series data file = .ok value ↔
    ∃ counts, compareCounts data file = .ok counts ∧ value = percent counts.1 counts.2 := by
  unfold compliance_series
  simp only [do_eq_ok, pure_eq_ok]

theorem series_eq_ok {filter : Filter} {value : ℤ} : series data filter = .ok value ↔
    ∃ counts, chartCounts data filter = .ok counts ∧ value = percent counts.1 counts.2 := by
  unfold series
  simp only [do_eq_ok, pure_eq_ok]

/-- The two views divide the same numbers exactly when the overlayed controls make up for the
waived results, and then they show the same value. Otherwise the values may still round to
the same percentage. -/
theorem compliance_agreement (no_letters : UnicodeTables.toLowerCase [] = [])
    (data : InspecData) (file : FileID) :
    ((∃ counts, compareCounts data file = .ok counts ∧
        chartCounts data (all_filter file) = .ok counts) ↔ Commensurable data file) ∧
    (Commensurable data file → ∃ value, compliance_series data file = .ok value ∧
      series data (all_filter file) = .ok value) ∧
    ((∃ value, compliance_series data file = .ok value ∧
        series data (all_filter file) = .ok value) ↔
      (∀ c ∈ allControls data [file], c.Rooted) ∧
        percent (met (overlayed data file) + met (onTop data file))
            (met (overlayed data file) + met (onTop data file) +
              (unmet (overlayed data file) + unmet (onTop data file))) =
          percent (met (onTop data file)) (met (onTop data file) + unmet (onTop data file) +
            waivedResults (onTop data file))) := by
  have met_all : met (allControls data [file]) =
      met (overlayed data file) + met (onTop data file) := met_split isOverlayed _
  have unmet_all : unmet (allControls data [file]) =
      unmet (overlayed data file) + unmet (onTop data file) := unmet_split isOverlayed _
  have rooted_top : (∀ c ∈ allControls data [file], c.Rooted) → ∀ c ∈ onTop data file, c.Rooted :=
    fun rooted c inside => rooted c (List.mem_filter.mp inside).1
  have same_counts : (∃ counts, compareCounts data file = .ok counts ∧
      chartCounts data (all_filter file) = .ok counts) ↔ Commensurable data file := by
    simp only [compareCounts_spec, chartCounts_spec no_letters, met_all, unmet_all]
    constructor
    · rintro ⟨counts, ⟨rooted, rfl⟩, -, same⟩
      obtain ⟨numerator, denominator⟩ := Prod.mk.inj same
      have none_met : met (overlayed data file) = 0 := by omega
      refine ⟨rooted, List.countP_eq_zero.mp none_met, by omega⟩
    · rintro ⟨rooted, none_met, waived⟩
      have none_met := List.countP_eq_zero.mpr none_met
      refine ⟨_, ⟨rooted, rfl⟩, rooted_top rooted, ?_⟩
      have zero : met (overlayed data file) = 0 := none_met
      rw [zero, waived, Nat.zero_add, ← Nat.add_assoc, Nat.add_right_comm]
  refine ⟨same_counts, fun commensurable => ?_, ?_⟩
  · obtain ⟨counts, compared, charted⟩ := same_counts.mpr commensurable
    exact ⟨_, compliance_series_eq_ok.mpr ⟨counts, compared, rfl⟩,
      series_eq_ok.mpr ⟨counts, charted, rfl⟩⟩
  · simp only [compliance_series_eq_ok, series_eq_ok, compareCounts_spec,
      chartCounts_spec no_letters, met_all, unmet_all]
    constructor
    · rintro ⟨value, ⟨_, ⟨rooted, rfl⟩, rfl⟩, ⟨_, ⟨-, rfl⟩, same⟩⟩
      exact ⟨rooted, same⟩
    · rintro ⟨rooted, same⟩
      exact ⟨_, ⟨_, ⟨rooted, rfl⟩, rfl⟩, _, ⟨rooted_top rooted, rfl⟩, same⟩

end Agreement

section Samples

/-- A control that failed under an overlay, one that passed, and one with one result that is
waived. -/
def balancedFile : ExecJSON := sampleExec
  [⟨js "wrapper", .undefined, [bareControl "C-1" []]⟩,
    ⟨js "base", .val (js "wrapper"),
      [{ bareControl "C-1" [] with results := [sampleResult .failed] },
        { bareControl "C-2" [] with results := [sampleResult .passed] },
        { bareControl "C-3" [] with
          results := [sampleResult .failed]
          waiver_data := .val ⟨.bool true⟩ }]⟩]

def balancedStore : InspecData := sampleStore [("f", balancedFile)]

theorem compliance_agreement_sample : ∃ value,
    @compliance_series asciiTables balancedStore (js "f") = .ok value ∧
      @series asciiTables balancedStore (all_filter (js "f")) = .ok value := by
  refine (@compliance_agreement asciiTables rfl balancedStore (js "f")).2.1 ⟨?_, ?_, ?_⟩
  · exact StoredControl.rooted_of_all (by decide +kernel)
  · have none_met : met (overlayed balancedStore (js "f")) = 0 := by decide +kernel
    exact List.countP_eq_zero.mp none_met
  · decide +kernel

/-- A control that passed under an overlay, and one that failed. -/
def overlayFile : ExecJSON := sampleExec
  [⟨js "wrapper", .undefined, [bareControl "C-1" []]⟩,
    ⟨js "base", .val (js "wrapper"),
      [{ bareControl "C-1" [] with results := [sampleResult .passed] },
        { bareControl "C-2" [] with results := [sampleResult .failed] }]⟩]

def overlayStore : InspecData := sampleStore [("f", overlayFile)]

/-- 67 in the Compare view, 50 in the chart. -/
theorem compliance_differs : @compliance_series asciiTables overlayStore (js "f") = .ok 67 ∧
    @series asciiTables overlayStore (all_filter (js "f")) = .ok 50 ∧
    @compliance_series asciiTables overlayStore (js "f") ≠
      @series asciiTables overlayStore (all_filter (js "f")) := by
  have compared : @compliance_series asciiTables overlayStore (js "f") = .ok 67 := by
    decide +kernel
  have charted : @series asciiTables overlayStore (all_filter (js "f")) = .ok 50 := by
    decide +kernel
  refine ⟨compared, charted, ?_⟩
  rw [compared, charted]
  decide

end Samples
end Frontend
