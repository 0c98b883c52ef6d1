import Heimdall.Lib.Sieve
import Heimdall.Frontend.DataFilters

/-!
# The pipeline as one test

The filters of the results are tests in a row. A filter selects a control when every test
that it asks for accepts it, and the pipeline returns when no test throws on a control that
the tests before it accept.
-/
namespace Frontend
open Js Lib Inspec

abbrev Test := StoredControl → Except JsError Bool

/-- The test of a step, when the filter asks for it. -/
def whenAsked {α : Type} (asked : Option α) (keep : α → Test) : List Test :=
  (asked.map keep).toList

namespace Filter

def idTest (filter : Filter) : List Test :=
  whenAsked filter.control_id fun id c => .ok (decide (c.get.map (·.data.id) = some id))

def statusTest (filter : Filter) : List Test := whenAsked filter.status hasStatus

def severityTest (filter : Filter) : List Test := whenAsked filter.severity hasSeverity

def overlayTest (filter : Filter) : List Test :=
  if filter.omit_overlayed_controls = some true then [fun c => .ok !isOverlayed c] else []

def treeTest (filter : Filter) : List Test :=
  whenAsked (filter.treeFilters.filter fun path => !path.isEmpty) underTree

variable [UnicodeTables]

def searchTest (filter : Filter) : List Test :=
  whenAsked (filter.searchTerm.map UnicodeTables.toLowerCase) fun term c => contains_term c term

/-- The tests after the one for the status. -/
def laterTests (filter : Filter) : List Test :=
  filter.severityTest ++ filter.overlayTest ++ filter.searchTest ++ filter.treeTest

/-- The tests that a filter asks for, in the order in which they are made. -/
def tests (filter : Filter) : List Test :=
  filter.idTest ++ (filter.statusTest ++ filter.laterTests)

def selects (filter : Filter) : Test := passes filter.tests

end Filter

section Spec

theorem filterWhen_eq_sieve {α : Type} (asked : Option α) (keep : α → Test) :
    filterWhen asked keep = sieve (whenAsked asked keep) := by
  funext cs
  cases asked with
  | none => rfl
  | some value => exact (sieve_singleton (keep value) cs).symm

theorem sieve_overlayTest (filter : Filter) :
    sieve filter.overlayTest = fun cs => .ok (if filter.omit_overlayed_controls = some true
      then cs.filter fun c => !isOverlayed c else cs) := by
  funext cs
  unfold Filter.overlayTest
  split
  · rw [sieve_singleton]
    refine filterOk_eq_ok.mpr ⟨fun c _ => ⟨_, rfl⟩, ?_⟩
    rfl
  · rfl

variable [UnicodeTables] {data : InspecData} {filter : Filter} {cs : List StoredControl}

theorem controls_eq_sieve (data : InspecData) (filter : Filter) :
    controls data filter = sieve filter.tests (allControls data filter.fromFile) := by
  unfold Filter.tests Filter.laterTests Filter.idTest Filter.statusTest Filter.severityTest
    Filter.searchTest Filter.treeTest
  simp only [sieve_append, ← filterWhen_eq_sieve, sieve_overlayTest, bind_assoc]
  rfl

/-- A filter returns the controls it selects. -/
theorem controls_eq_ok : controls data filter = .ok cs ↔
    (∀ c ∈ allControls data filter.fromFile, Answers filter.selects c) ∧
      cs = (allControls data filter.fromFile).filter (accepts filter.selects) := by
  rw [controls_eq_sieve, sieve_eq_ok]
  rfl

end Spec

section Samples

/-- A store with these evaluations. -/
def sampleStore (files : List (String × ExecJSON)) : InspecData where
  executionFiles := files.filterMap fun (id, evaluation) =>
    match @contextualizeEvaluation asciiTables 0 evaluation with
    | .ok context => some ⟨js id, context⟩
    | .error _ => none
  profileFiles := []

end Samples
end Frontend
