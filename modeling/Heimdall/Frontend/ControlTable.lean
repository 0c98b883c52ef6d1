import Mathlib.Algebra.Order.Ring.Rat
import Mathlib.Data.Rat.Lemmas
import Mathlib.Tactic.Linarith
import Mathlib.Tactic.Ring
import Heimdall.Lib.Sorting
import Heimdall.Frontend.StatusCards

/-!
# The control table

The rows of the table and the orders that its columns give them. The run time of a control is
meant to be that of all its results.
-/
namespace Frontend
open Js Lib Inspec

section Source

/-- The segments of a control; one that is not from an execution has none. -/
def resultSegments (control : StoredControl) : List HDFControlSegment :=
  (control.hdf.bind (·.segments)).getD []

/-- `segment.run_time || 0 + total`, where the sum binds tighter. -/
def addRunTime (total : JsNumber) (segment : HDFControlSegment) : JsNumber :=
  match segment.run_time with
  | some n => if n.isZero then total else n
  | none => total

def segmentsRunTime (segments : List HDFControlSegment) : JsNumber :=
  let total := segments.foldl addRunTime (.finite 0)
  if total.isZero then .finite 0 else total

def getControlRunTime (control : StoredControl) : JsNumber :=
  segmentsRunTime (resultSegments control)

inductive ColumnSort where
  | ascending | descending | none | disabled
  deriving DecidableEq, Repr

inductive Column where
  | id | status | set | severity | runTime
  deriving DecidableEq, Repr

abbrev Sorts := Column → ColumnSort

/-- Callback to handle setting a new sort -/
def set_sort (column : Column) (newSort : ColumnSort) : Sorts :=
  fun other => if other = column then newSort else .none

structure ListElt where
  control : StoredControl
  status_val : ℤ
  severity_val : ℤ

/-- The place of a status in the list of the table, -1 where it is not in the list. -/
def statusVal : ControlStatus → ℤ
  | .passed => 0
  | .notApplicable => 1
  | .notReviewed => 3
  | .profileError => 4
  | .failed => 5
  | .fromProfile => -1

def severityVal : Severity → ℤ
  | .none => 0
  | .low => 1
  | .medium => 2
  | .high => 3
  | .critical => 4

def listElt (d : StoredControl) : Except JsError ListElt := do
  match ← d.rootHdf with
  | none => throw (.typeError "Cannot read properties of undefined (reading 'hdf')")
  | some hdf => return ⟨d, statusVal hdf.status, severityVal hdf.severity⟩

/-- Return items as key, value pairs -/
def raw_items [UnicodeTables] (data : InspecData) (filter : Filter) :
    Except JsError (List ListElt) := do
  let cs ← controls data filter
  cs.mapM listElt

/-- The sign of `a - b`; a difference that is not a number counts as 0. -/
def differenceSign : JsNumber → JsNumber → ℤ
  | .finite p, .finite q => (p - q).num
  | .infinity n, .infinity m => if n = m then 0 else if n then -1 else 1
  | .infinity n, .finite _ => if n then -1 else 1
  | .finite _, .infinity n => if n then 1 else -1

/-- What `localeCompare` answers on the ids of two controls and on the names of their files. -/
structure TextOrder where
  ids : StoredControl → StoredControl → ℤ
  filenames : StoredControl → StoredControl → ℤ

def columnCompare (text : TextOrder) : Column → ListElt → ListElt → ℤ
  | .id, a, b => text.ids a.control b.control
  | .status, a, b => a.status_val - b.status_val
  | .severity, a, b => a.severity_val - b.severity_val
  | .set, a, b => text.filenames a.control b.control
  | .runTime, a, b => differenceSign (getControlRunTime b.control) (getControlRunTime a.control)

/-- The first of the columns, in the order in which they are asked, that is sorted. -/
def sortedColumn (sorts : Sorts) : Option Column :=
  [Column.id, .status, .severity, .set, .runTime].find? fun column =>
    sorts column = .ascending || sorts column = .descending

def factor (sort : ColumnSort) : ℤ := if sort = .ascending then -1 else 1

/-- Items sorted: what the table may show of its rows. -/
def Items (text : TextOrder) (sorts : Sorts) (raw shown : List ListElt) : Prop :=
  match sortedColumn sorts with
  | none => shown = raw
  | some column =>
      SortResult (fun a b => columnCompare text column a b * factor (sorts column)) raw shown

end Source

section Times

/-- The run time of a segment, 0 where it is missing. -/
def runTimeOf (segment : HDFControlSegment) : ℚ :=
  match segment.run_time with
  | some (.finite q) => q
  | _ => 0

/-- No run time is beyond the numbers. -/
def ExactTimes (segments : List HDFControlSegment) : Prop :=
  ∀ s ∈ segments, ∀ negative, s.run_time ≠ some (.infinity negative)

def runTimeSum (segments : List HDFControlSegment) : ℚ := (segments.map runTimeOf).sum

/-- The segments with a run time other than 0. -/
def timed (segments : List HDFControlSegment) : List HDFControlSegment :=
  segments.filter fun s => decide (runTimeOf s ≠ 0)

variable {segments : List HDFControlSegment}

theorem addRunTime_finite {segment : HDFControlSegment}
    (exact : ∀ negative, segment.run_time ≠ some (.infinity negative)) (total : ℚ) :
    addRunTime (.finite total) segment =
      .finite (if runTimeOf segment = 0 then total else runTimeOf segment) := by
  unfold addRunTime runTimeOf
  rcases time : segment.run_time with _ | ⟨q⟩ | negative
  · rfl
  · by_cases zero : q = 0
    · simp [JsNumber.isZero, zero]
    · simp [JsNumber.isZero, zero]
  · exact absurd time (exact negative)

/-- The run time that is computed: the last one that is not 0. -/
def lastRunTime (segments : List HDFControlSegment) : ℚ :=
  ((timed segments).getLast?.map runTimeOf).getD 0

theorem foldl_addRunTime (exact : ExactTimes segments) (total : ℚ) :
    segments.foldl addRunTime (.finite total) =
      .finite (((timed segments).getLast?.map runTimeOf).getD total) := by
  induction segments generalizing total with
  | nil => rfl
  | cons s segments ih =>
      rw [ExactTimes, List.forall_mem_cons] at exact
      rw [List.foldl_cons, addRunTime_finite exact.1, ih exact.2, timed, timed]
      by_cases zero : runTimeOf s = 0
      · rw [if_pos zero, List.filter_cons_of_neg (by simpa using zero)]
      · rw [if_neg zero, List.filter_cons_of_pos (by simpa using zero), List.getLast?_cons]
        cases (segments.filter fun s => decide (runTimeOf s ≠ 0)).getLast? <;> rfl

theorem segmentsRunTime_eq (exact : ExactTimes segments) :
    segmentsRunTime segments = .finite (lastRunTime segments) := by
  unfold segmentsRunTime
  dsimp only
  rw [foldl_addRunTime exact]
  split
  · next zero =>
    have same : JsNumber.finite (lastRunTime segments) = .finite 0 := of_decide_eq_true zero
    exact same.symm
  · rfl

theorem runTimeSum_timed (segments : List HDFControlSegment) :
    runTimeSum (timed segments) = runTimeSum segments := by
  induction segments with
  | nil => rfl
  | cons s segments ih =>
      unfold runTimeSum timed at ih ⊢
      by_cases zero : runTimeOf s = 0
      · rw [List.filter_cons_of_neg (by simpa using zero), ih, List.map_cons, List.sum_cons, zero,
          zero_add]
      · rw [List.filter_cons_of_pos (by simpa using zero), List.map_cons, List.sum_cons, ih,
          List.map_cons, List.sum_cons]

/-- With one run time at most, it is the sum. -/
theorem lastRunTime_of_few (few : (timed segments).length ≤ 1) :
    lastRunTime segments = runTimeSum segments := by
  rw [← runTimeSum_timed, lastRunTime]
  rcases shape : timed segments with _ | ⟨s, _ | ⟨s', rest⟩⟩
  · rfl
  · simp [runTimeSum]
  · rw [shape] at few
    simp at few

theorem timed_perm {other : List HDFControlSegment} (perm : other.Perm segments) :
    (timed other).Perm (timed segments) := perm.filter _

theorem lastRunTime_append {s : HDFControlSegment} (nonzero : runTimeOf s ≠ 0) :
    lastRunTime (segments ++ [s]) = runTimeOf s := by
  have last : timed (segments ++ [s]) = timed segments ++ [s] := by
    rw [timed, List.filter_append, List.filter_cons_of_pos (by simpa using nonzero)]
    rfl
  rw [lastRunTime, last, List.getLast?_concat]
  rfl

/-- When every order gives the sum, no second run time is there. -/
theorem few_of_orders (total : lastRunTime segments = runTimeSum segments)
    (anyOrder : ∀ other, other.Perm segments → lastRunTime other = lastRunTime segments) :
    (timed segments).length ≤ 1 := by
  have equal : ∀ s ∈ timed segments, runTimeOf s = lastRunTime segments := by
    intro s inside
    obtain ⟨member, nonzero⟩ := List.mem_filter.mp inside
    have moved : (segments.erase s ++ [s]).Perm segments :=
      (List.perm_append_singleton _ _).trans (List.perm_cons_erase member).symm
    rw [← anyOrder _ moved, lastRunTime_append (of_decide_eq_true nonzero)]
  have summed : runTimeSum (timed segments) = (timed segments).length * lastRunTime segments := by
    unfold runTimeSum
    rw [List.map_congr_left equal, List.map_const', List.sum_replicate, nsmul_eq_mul]
  rw [runTimeSum_timed, ← total] at summed
  rcases shape : timed segments with _ | ⟨s, rest⟩
  · exact Nat.zero_le 1
  · have inside : s ∈ timed segments := by
      rw [shape]
      exact List.mem_cons_self
    have nonzero : lastRunTime segments ≠ 0 := by
      rw [← equal s inside]
      exact of_decide_eq_true (List.mem_filter.mp inside).2
    rw [shape] at summed
    have one : (((s :: rest).length : ℕ) : ℚ) = 1 :=
      mul_right_cancel₀ nonzero (summed.symm.trans (one_mul _).symm)
    exact Nat.le_of_eq (by exact_mod_cast one)

end Times

section Table

/-- Every control has the run time of all its segments, in whatever order they are, and the
table orders its rows by it. -/
structure SumsRunTimes (raw : List ListElt) : Prop where
  total : ∀ item ∈ raw, getControlRunTime item.control =
    .finite (runTimeSum (resultSegments item.control))
  anyOrder : ∀ item ∈ raw, ∀ segments, segments.Perm (resultSegments item.control) →
    segmentsRunTime segments = getControlRunTime item.control
  ascending : ∀ text shown, Items text (set_sort .runTime .ascending) raw shown →
    shown.Pairwise fun a b =>
      runTimeSum (resultSegments a.control) ≤ runTimeSum (resultSegments b.control)
  descending : ∀ text shown, Items text (set_sort .runTime .descending) raw shown →
    shown.Pairwise fun a b =>
      runTimeSum (resultSegments b.control) ≤ runTimeSum (resultSegments a.control)

theorem totalPreorder_difference {α : Type} (value : α → ℚ) :
    TotalPreorder fun a b => (value a - value b).num where
  swap a b := by
    rw [← neg_sub (value b), Rat.neg_num, Int.sign_neg]
  trans a b c ab bc := by
    rw [Rat.num_nonpos] at ab bc ⊢
    linarith

/-- Rows that are compared by the difference of their values are sorted by these. -/
theorem sorted_of_difference {cmp : ListElt → ListElt → ℤ} {raw shown : List ListElt}
    {value : ListElt → ℚ}
    (same : ∀ a ∈ raw, ∀ b ∈ raw, cmp a b = (value a - value b).num)
    (result : SortResult cmp raw shown) : shown.Pairwise fun a b => value a ≤ value b := by
  have lawful : LawfulOn cmp raw := ((totalPreorder_difference value).on raw).congr same
  apply (result.ordered lawful).imp_of_mem
  intro a b inside inside' before
  rw [same a (result.perm.mem_iff.mp inside) b (result.perm.mem_iff.mp inside'),
    Rat.num_nonpos] at before
  linarith

def rowSum (item : ListElt) : ℚ := runTimeSum (resultSegments item.control)

theorem runTime_compare {raw : List ListElt} (total : ∀ item ∈ raw,
      getControlRunTime item.control = .finite (rowSum item)) (text : TextOrder) :
    ∀ a ∈ raw, ∀ b ∈ raw, columnCompare text .runTime a b = (rowSum b - rowSum a).num := by
  intro a inside b inside'
  show differenceSign _ _ = _
  rw [total a inside, total b inside']
  rfl

/-- The run times of a table are the sums exactly when no control has two segments with a run
time other than 0. -/
theorem sumsRunTimes_iff (raw : List ListElt)
    (exact : ∀ item ∈ raw, ExactTimes (resultSegments item.control)) :
    SumsRunTimes raw ↔ ∀ item ∈ raw, (timed (resultSegments item.control)).length ≤ 1 := by
  have computed : ∀ item ∈ raw, ∀ segments, segments.Perm (resultSegments item.control) →
      segmentsRunTime segments = .finite (lastRunTime segments) := by
    intro item inside segments perm
    exact segmentsRunTime_eq fun s member => exact item inside s (perm.mem_iff.mp member)
  constructor
  · intro sums item inside
    have here := computed item inside _ (List.Perm.refl _)
    apply few_of_orders
    · exact JsNumber.finite.inj (here.symm.trans (sums.total item inside))
    · intro other perm
      have there := sums.anyOrder item inside other perm
      rw [computed item inside other perm] at there
      exact JsNumber.finite.inj (there.trans here)
  · intro few
    have total : ∀ item ∈ raw, getControlRunTime item.control = .finite (rowSum item) := by
      intro item inside
      rw [getControlRunTime, computed item inside _ (List.Perm.refl _),
        lastRunTime_of_few (few item inside)]
      rfl
    refine ⟨total, ?_, ?_, ?_⟩
    · intro item inside segments perm
      have few' : (timed segments).length ≤ 1 := by
        rw [(timed_perm perm).length_eq]
        exact few item inside
      rw [total item inside, computed item inside segments perm, lastRunTime_of_few few']
      exact congrArg JsNumber.finite (perm.map runTimeOf).sum_eq
    · intro text shown sorted
      apply @sorted_of_difference _ raw shown rowSum ?_ sorted
      intro a inside b inside'
      show columnCompare text .runTime a b * -1 = _
      rw [runTime_compare total text a inside b inside', Int.mul_neg_one, ← Rat.neg_num, neg_sub]
    · intro text shown sorted
      have ordered := @sorted_of_difference _ raw shown (fun item => -rowSum item)
        (fun a inside b inside' => by
          show columnCompare text .runTime a b * 1 = _
          rw [runTime_compare total text a inside b inside', Int.mul_one, neg_sub_neg]) sorted
      exact ordered.imp fun before => neg_le_neg_iff.mp before

end Table

section Samples

def timedFile (times : List (Opt JsNumber)) : ExecJSON := sampleExec
  [⟨js "base", .undefined, [{ bareControl "C-1" [] with
    results := times.map fun time => { sampleResult .passed with run_time := time } }]⟩]

def timedRows (times : List (Opt JsNumber)) : List ListElt :=
  match @raw_items asciiTables (sampleStore [("f", timedFile times)]) (topFilter (js "f")) with
  | .ok items => items
  | .error _ => []

theorem sumsRunTimes_iff_sample :
    SumsRunTimes (timedRows [.undefined, .val (.finite (1 / 2)), .val (.finite 0)]) := by
  have exact : ∀ item ∈ timedRows [.undefined, .val (.finite (1 / 2)), .val (.finite 0)],
      ExactTimes (resultSegments item.control) := by
    unfold ExactTimes
    decide +kernel
  apply (sumsRunTimes_iff _ exact).mpr
  decide +kernel

/-- The first of two run times is dropped. -/
theorem timedRows_dropped :
    ¬ SumsRunTimes (timedRows [.val (.finite (1 / 2)), .val (.finite (1 / 4))]) := by
  intro sums
  have total := sums.total
  revert total
  decide +kernel

end Samples
end Frontend
