import Mathlib.Algebra.Ring.Nat
import Mathlib.Algebra.BigOperators.Group.List.Basic
import Heimdall.Frontend.Pipeline
import Heimdall.Frontend.StatusCounts

/-!
# Status cards

What the numbers on the status cards count: the controls that a filter with the same status
returns. The card of the waived tests counts results instead.
-/
namespace Frontend
open Js Lib Inspec

/-- An entry of the hash, for the categories that have a card and a filter. -/
def StatusHash.entry (hash : StatusHash) : StatusFilter → ℕ
  | .status s => hash.count s
  | .waived => hash.Waived

def countOf [UnicodeTables] (data : InspecData) (filter : Filter) (category : StatusFilter) :
    Except JsError ℕ := do
  let hash ← count_statuses data filter
  return hash.entry category

section Tally

/-- The walk to the root ends. -/
def StoredControl.Rooted (c : StoredControl) : Prop := ∃ hdf, c.rootHdf = .ok hdf

/-- The HDF view of the root, where the walk ends. -/
def StoredControl.view (c : StoredControl) : Option HDFControl :=
  match c.rootHdf with
  | .ok hdf => hdf
  | .error _ => none

theorem StoredControl.view_of_ok {c : StoredControl} {hdf : Option HDFControl}
    (here : c.rootHdf = .ok hdf) : c.view = hdf := by
  unfold view
  rw [here]

theorem StoredControl.view_eq_some {c : StoredControl} {hdf : HDFControl} :
    c.view = some hdf ↔ c.rootHdf = .ok (some hdf) := by
  unfold view
  cases c.rootHdf with
  | error e => exact iff_of_false nofun nofun
  | ok found => exact ⟨congrArg _, Except.ok.inj⟩

theorem StoredControl.rooted_of_all {cs : List StoredControl}
    (ends : (cs.all fun c => c.rootHdf.isOk) = true) : ∀ c ∈ cs, c.Rooted := by
  intro c inside
  have ok := List.all_eq_true.mp ends c inside
  unfold Rooted
  cases here : c.rootHdf with
  | error e => rw [here] at ok; cases ok
  | ok hdf => exact ⟨hdf, rfl⟩

/-- The root has this status. -/
def StoredControl.hasRootStatus (s : ControlStatus) (c : StoredControl) : Bool :=
  c.view.any fun hdf => decide (hdf.status = s)

/-- The results of a root that is not applicable because it is waived. -/
def StoredControl.waivedTests (c : StoredControl) : ℕ :=
  match c.view with
  | some hdf => if hdf.status = .notApplicable ∧ hdf.waived then (hdf.segments.getD []).length else 0
  | none => 0

def countInto (hash : StatusHash) (c : StoredControl) : StatusHash :=
  (c.view.map hash.add).getD hash

def tally (cs : List StoredControl) : StatusHash := cs.foldl countInto .zero

theorem countControl_eq_ok (hash : StatusHash) (c : StoredControl) (hash' : StatusHash) :
    countControl hash c = .ok hash' ↔ c.Rooted ∧ hash' = countInto hash c := by
  have counted : countControl hash c = c.rootHdf.map fun hdf => (hdf.map hash.add).getD hash := by
    unfold countControl StoredControl.rootHdf
    cases c.root <;> rfl
  rw [counted]
  unfold StoredControl.Rooted countInto StoredControl.view
  cases c.rootHdf with
  | error e => simp [Except.map]
  | ok hdf => simp [Except.map, eq_comm]

theorem add_waived (hash : StatusHash) (hdf : HDFControl) : (hash.add hdf).Waived =
    hash.Waived + if hdf.status = .notApplicable ∧ hdf.waived
      then (hdf.segments.getD []).length else 0 := by
  unfold StatusHash.add
  cases hdf.status <;> simp [StatusHash.bump]
  split <;> simp

theorem foldl_countInto (cs : List StoredControl) (hash : StatusHash) :
    (∀ s, (cs.foldl countInto hash).count s =
      hash.count s + cs.countP (StoredControl.hasRootStatus s)) ∧
    (cs.foldl countInto hash).Waived =
      hash.Waived + (cs.map StoredControl.waivedTests).sum := by
  induction cs generalizing hash with
  | nil => exact ⟨fun s => rfl, rfl⟩
  | cons c cs ih =>
      obtain ⟨counts, waived⟩ := ih (countInto hash c)
      have here : (∀ s, (countInto hash c).count s =
          hash.count s + if c.hasRootStatus s then 1 else 0) ∧
          (countInto hash c).Waived = hash.Waived + c.waivedTests := by
        unfold countInto StoredControl.hasRootStatus StoredControl.waivedTests
        cases c.view with
        | none => simp
        | some hdf => simp [add_count, add_waived]
      refine ⟨fun s => ?_, ?_⟩
      · rw [List.foldl_cons, counts, here.1, List.countP_cons]
        omega
      · rw [List.foldl_cons, waived, here.2, List.map_cons, List.sum_cons]
        omega

theorem tally_entry (cs : List StoredControl) (s : ControlStatus) :
    (tally cs).entry (.status s) = cs.countP (StoredControl.hasRootStatus s) :=
  ((foldl_countInto cs .zero).1 s).trans (Nat.zero_add _)

theorem tally_waived (cs : List StoredControl) :
    (tally cs).entry .waived = (cs.map StoredControl.waivedTests).sum :=
  ((foldl_countInto cs .zero).2).trans (Nat.zero_add _)

variable [UnicodeTables] {data : InspecData} {filter : Filter}

/-- The count is the tally of the controls that the filter returns. -/
theorem count_statuses_eq_ok {hash : StatusHash} : count_statuses data filter = .ok hash ↔
    ∃ cs, controls data filter = .ok cs ∧ (∀ c ∈ cs, c.Rooted) ∧ hash = tally cs := by
  unfold count_statuses
  simp only [do_eq_ok, foldlM_eq_ok_iff countControl_eq_ok]
  rfl

theorem countOf_eq_ok {category : StatusFilter} {n : ℕ} : countOf data filter category = .ok n ↔
    ∃ cs, controls data filter = .ok cs ∧ (∀ c ∈ cs, c.Rooted) ∧
      n = (tally cs).entry category := by
  unfold countOf
  simp only [do_eq_ok, count_statuses_eq_ok, pure_eq_ok]
  constructor
  · rintro ⟨hash, ⟨cs, returned, rooted, rfl⟩, rfl⟩
    exact ⟨cs, returned, rooted, rfl⟩
  · rintro ⟨cs, returned, rooted, rfl⟩
    exact ⟨_, ⟨cs, returned, rooted, rfl⟩, rfl⟩

end Tally

section DrillDown

theorem accepts_hasStatus (s : ControlStatus) :
    accepts (hasStatus (.status s)) = StoredControl.hasRootStatus s := by
  funext c
  unfold accepts hasStatus StoredControl.hasRootStatus StoredControl.view
  cases c.rootHdf <;> rfl

theorem answers_hasStatus {s : ControlStatus} {c : StoredControl} (rooted : c.Rooted) :
    Answers (hasStatus (.status s)) c := by
  obtain ⟨hdf, here⟩ := rooted
  exact ⟨_, do_eq_ok.mpr ⟨hdf, here, rfl⟩⟩

variable [UnicodeTables] {data : InspecData} {f : Filter} {status : StatusFilter}

theorem tests_of_no_status (no_status : f.status = none) :
    f.tests = f.idTest ++ f.laterTests := by
  unfold Filter.tests Filter.statusTest
  rw [no_status]
  rfl

/-- A status selects among the controls that the filter selects without it. -/
theorem accepts_selects_status (no_status : f.status = none) (c : StoredControl) :
    accepts { f with status := some status }.selects c =
      (accepts f.selects c && accepts (hasStatus status) c) := by
  unfold Filter.selects
  rw [tests_of_no_status no_status]
  exact accepts_passes_insert

theorem filter_selects_status (no_status : f.status = none) (cs : List StoredControl) :
    cs.filter (accepts { f with status := some status }.selects) =
      (cs.filter (accepts f.selects)).filter (accepts (hasStatus status)) := by
  rw [List.filter_filter]
  apply List.filter_congr
  intro c _
  rw [accepts_selects_status no_status, Bool.and_comm]

variable {shown : List StoredControl}

/-- What a filter returns with a status is what it returns without, filtered by the status. -/
theorem controls_status_eq (no_status : f.status = none) (returned : controls data f = .ok shown)
    {cs : List StoredControl} (selected : controls data { f with status := some status } = .ok cs) :
    cs = shown.filter (accepts (hasStatus status)) := by
  obtain ⟨-, rfl⟩ := controls_eq_ok.mp returned
  obtain ⟨-, rfl⟩ := controls_eq_ok.mp selected
  exact filter_selects_status no_status _

theorem controls_status_ok (no_status : f.status = none) (returned : controls data f = .ok shown)
    (further : ∀ c ∈ allControls data f.fromFile, Answers (hasStatus status) c) :
    controls data { f with status := some status } =
      .ok (shown.filter (accepts (hasStatus status))) := by
  obtain ⟨answers, rfl⟩ := controls_eq_ok.mp returned
  refine controls_eq_ok.mpr ⟨fun c inside => ?_, (filter_selects_status no_status _).symm⟩
  have others := answers c inside
  unfold Filter.selects at others
  rw [tests_of_no_status no_status] at others
  exact others.insert (further c inside)

/-- The number on a card is the number of controls that the filter returns with its status;
the number of waived tests is that of the results of the waived roots, while the filter
returns the controls that are waived themselves. -/
theorem countOf_eq_length (data : InspecData) (f : Filter) (no_status : f.status = none) :
    (∀ s n, countOf data f (.status s) = .ok n →
      (∀ cs, controls data { f with status := some (.status s) } = .ok cs → n = cs.length) ∧
      ((∀ c ∈ allControls data f.fromFile, c.Rooted) →
        ∃ cs, controls data { f with status := some (.status s) } = .ok cs)) ∧
    ∀ n, countOf data f .waived = .ok n → ∃ shown, controls data f = .ok shown ∧
      n = (shown.map StoredControl.waivedTests).sum ∧
      controls data { f with status := some .waived } =
        .ok (shown.filter fun c => c.hdf.any (·.waived)) := by
  constructor
  · intro s n counted
    obtain ⟨shown, returned, -, rfl⟩ := countOf_eq_ok.mp counted
    refine ⟨fun cs selected => ?_, fun rooted => ?_⟩
    · rw [controls_status_eq no_status returned selected, tally_entry, accepts_hasStatus,
        List.countP_eq_length_filter]
    · exact ⟨_, controls_status_ok no_status returned fun c inside =>
        answers_hasStatus (rooted c inside)⟩
  · intro n counted
    obtain ⟨shown, returned, -, rfl⟩ := countOf_eq_ok.mp counted
    refine ⟨shown, returned, tally_waived shown, ?_⟩
    exact controls_status_ok no_status returned fun c _ => ⟨_, rfl⟩

end DrillDown

section Samples

/-- One control that failed, and one with two results that is waived. -/
def waivedFile : ExecJSON := sampleExec
  [⟨js "base", .undefined,
    [{ bareControl "C-1" [] with results := [sampleResult .failed] },
      { bareControl "C-2" [] with
        results := [sampleResult .passed, sampleResult .failed]
        waiver_data := .val ⟨.bool true⟩ }]⟩]

def waivedStore : InspecData := sampleStore [("f", waivedFile)]

theorem countOf_eq_length_sample : ∃ cs,
    @controls asciiTables waivedStore
      { topFilter (js "f") with status := some (.status .failed) } = .ok cs ∧ cs.length = 1 := by
  obtain ⟨number, returns⟩ :=
    (@countOf_eq_length asciiTables waivedStore (topFilter (js "f")) rfl).1 .failed 1
      (by decide +kernel)
  obtain ⟨cs, selected⟩ := returns (StoredControl.rooted_of_all (by decide +kernel))
  exact ⟨cs, selected, (number cs selected).symm⟩

/-- Two results of one waived control. -/
theorem waived_card_differs :
    ¬ ∀ [UnicodeTables] (data : InspecData) (f : Filter) (category : StatusFilter) (n : ℕ)
      (cs : List StoredControl), f.status = none → countOf data f category = .ok n →
        controls data { f with status := some category } = .ok cs → n = cs.length := by
  intro same
  have counted : @countOf asciiTables waivedStore (topFilter (js "f")) .waived = .ok 2 := by
    decide +kernel
  have length : (@controls asciiTables waivedStore
      { topFilter (js "f") with status := some .waived }).map List.length = .ok 1 := by
    decide +kernel
  cases selected : @controls asciiTables waivedStore
      { topFilter (js "f") with status := some .waived } with
  | error e => rw [selected] at length; cases length
  | ok cs =>
      rw [selected] at length
      have one := Except.ok.inj length
      have two := @same asciiTables _ _ _ _ _ rfl counted selected
      omega

end Samples
end Frontend
