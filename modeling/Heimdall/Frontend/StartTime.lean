import Heimdall.Lib.Sorting
import Heimdall.Frontend.Comparison

/-!
# The chronological order of evaluations

Evaluations are sorted by the start time of their first result. A time that cannot be read is
not a number, and so is its difference to any other time.
-/
namespace Frontend
open Js Lib Inspec

section Source

/-- The start time of the first result of the evaluation. -/
def get_eval_start_time (ev : EvaluationFile) : Option JsString :=
  ev.controls.findSome? fun ctrl =>
    ((ctrl.hdf.bind (·.segments)).bind List.head?).map (·.start_time)

/-- How the libraries read a date, in milliseconds; `none` where it is invalid. -/
class DateReader where
  fromRFC2822 : JsString → Option ℤ
  fromISO : JsString → Option ℤ
  fromHTTP : JsString → Option ℤ
  fromSQL : JsString → Option ℤ
  /-- `DateTime.fromJSDate(new Date(s))` -/
  fromJSDate : JsString → Option ℤ

variable [DateReader]

def parse_datetime (dateString : JsString) : Option ℤ :=
  (DateReader.fromRFC2822 dateString).or <| (DateReader.fromISO dateString).or <|
    (DateReader.fromHTTP dateString).or <| (DateReader.fromSQL dateString).or <|
      DateReader.fromJSDate dateString

def startTime (ev : EvaluationFile) : Option ℤ :=
  parse_datetime ((get_eval_start_time ev).getD [])

/-- `aDate.valueOf() - bDate.valueOf()`, where `none` is `NaN`. -/
def compare_times (a b : EvaluationFile) : Option ℤ :=
  match startTime a, startTime b with
  | some aDate, some bDate => some (aDate - bDate)
  | _, _ => none

/-- What `sort` makes of the answer: `NaN` counts as 0. -/
def sortValue (a b : EvaluationFile) : ℤ := (compare_times a b).getD 0

end Source

section Order
variable [DateReader] {es : List EvaluationFile} {a b : EvaluationFile} {t u : ℤ}

/-- The comparison is that of a total preorder, and a sort leaves the times that were read in
order. -/
structure Chronological (es : List EvaluationFile) : Prop where
  consistent : LawfulOn sortValue es
  ordered : ∀ sorted, SortResult sortValue es sorted →
    (sorted.filterMap startTime).Pairwise (· ≤ ·)

theorem sortValue_of_some (ha : startTime a = some t) (hb : startTime b = some u) :
    sortValue a b = t - u := by
  rw [sortValue, compare_times, ha, hb]
  rfl

theorem sortValue_of_none (missing : startTime a = none ∨ startTime b = none) :
    sortValue a b = 0 := by
  unfold sortValue compare_times
  rcases missing with ha | hb
  · rw [ha]
    rfl
  · rw [hb]
    cases startTime a <;> rfl

theorem lawfulOn_of_read (read : ∀ e ∈ es, ∃ t, startTime e = some t) :
    LawfulOn sortValue es := by
  have differences : TotalPreorder fun a b : EvaluationFile =>
      (startTime a).getD 0 - (startTime b).getD 0 := by
    refine ⟨fun a b => ?_, fun a b c ab bc => ?_⟩
    · rw [← Int.sign_neg, Int.neg_sub]
    · omega
  apply (differences.on es).congr
  intro a inside b inside'
  obtain ⟨t, ha⟩ := read a inside
  obtain ⟨u, hb⟩ := read b inside'
  rw [sortValue_of_some ha hb, ha, hb]
  rfl

/-- Where no two times differ, all evaluations compare as equal. -/
theorem sortValue_of_single (single : ∀ a ∈ es, ∀ b ∈ es, ∀ t u, startTime a = some t →
    startTime b = some u → t = u) : ∀ a ∈ es, ∀ b ∈ es, sortValue a b = 0 := by
  intro a inside b inside'
  cases ha : startTime a with
  | none => exact sortValue_of_none (.inl ha)
  | some t =>
      cases hb : startTime b with
      | none => exact sortValue_of_none (.inr hb)
      | some u =>
          rw [sortValue_of_some ha hb, single a inside b inside' t u ha hb]
          exact Int.sub_self u

theorem lawfulOn_of_single (single : ∀ a ∈ es, ∀ b ∈ es, ∀ t u, startTime a = some t →
    startTime b = some u → t = u) : LawfulOn sortValue es := by
  have constant : TotalPreorder fun _ _ : EvaluationFile => (0 : ℤ) :=
    ⟨fun _ _ => rfl, fun _ _ _ _ _ => Int.le_refl 0⟩
  exact (constant.on es).congr (sortValue_of_single single)

/-- A time that is not read stands between two that differ. -/
theorem single_of_lawfulOn (lawful : LawfulOn sortValue es) {e : EvaluationFile} (inside : e ∈ es)
    (missing : startTime e = none) : ∀ a ∈ es, ∀ b ∈ es, ∀ t u, startTime a = some t →
      startTime b = some u → t ≤ u := by
  intro a ha b hb t u here there
  have first : sortValue a e ≤ 0 := Int.le_of_eq (sortValue_of_none (.inr missing))
  have second : sortValue e b ≤ 0 := Int.le_of_eq (sortValue_of_none (.inl missing))
  have both := lawful.trans ⟨a, ha⟩ ⟨e, inside⟩ ⟨b, hb⟩ first second
  have difference : sortValue a b ≤ 0 := both
  rw [sortValue_of_some here there] at difference
  omega

theorem ordered_of_lawfulOn (lawful : LawfulOn sortValue es) {sorted : List EvaluationFile}
    (result : SortResult sortValue es sorted) : (sorted.filterMap startTime).Pairwise (· ≤ ·) := by
  rw [List.pairwise_filterMap]
  refine (result.ordered lawful).imp fun {a b} before t ha u hb => ?_
  rw [sortValue_of_some ha hb] at before
  omega

/-- Evaluations are sorted chronologically exactly when the times of all of them are read, or no
two that are read differ. -/
theorem chronological_iff (es : List EvaluationFile) : Chronological es ↔
    (∀ e ∈ es, ∃ t, startTime e = some t) ∨
      ∀ a ∈ es, ∀ b ∈ es, ∀ t u, startTime a = some t → startTime b = some u → t = u := by
  constructor
  · rintro ⟨lawful, -⟩
    by_cases read : ∀ e ∈ es, ∃ t, startTime e = some t
    · exact .inl read
    · right
      push Not at read
      obtain ⟨e, inside, missing⟩ := read
      have none_read : startTime e = none := Option.eq_none_iff_forall_ne_some.mpr missing
      have below := single_of_lawfulOn lawful inside none_read
      intro a ha b hb t u here there
      exact Int.le_antisymm (below a ha b hb t u here there) (below b hb a ha u t there here)
  · intro condition
    have lawful : LawfulOn sortValue es := by
      rcases condition with read | single
      · exact lawfulOn_of_read read
      · exact lawfulOn_of_single single
    exact ⟨lawful, fun sorted result => ordered_of_lawfulOn lawful result⟩

end Order

section Samples

@[reducible] def twoDays : DateReader where
  fromRFC2822 _ := none
  fromISO s :=
    if s = js "2021-01-01" then some 1609459200000
    else if s = js "2021-01-02" then some 1609545600000
    else none
  fromHTTP _ := none
  fromSQL _ := none
  fromJSDate _ := none

def startedAt (time : String) : ExecJSON := sampleExec
  [⟨js "base", .undefined, [{ bareControl "C-1" [] with
    results := [{ sampleResult .passed with start_time := js time }] }]⟩]

def notStarted : ExecJSON := sampleExec
  [⟨js "base", .undefined, [bareControl "C-1" []]⟩]

def mixedStore : InspecData := sampleStore
  [("f", startedAt "2021-01-02"), ("g", notStarted), ("h", startedAt "2021-01-01")]

/-- The later of two evaluations stays in front of one without a start time. -/
theorem not_chronological : ¬ @Chronological twoDays mixedStore.executionFiles := by
  intro chronological
  have sorted := @Chronological.ordered twoDays _ chronological _ (sortResult_insertionSort _ _)
  revert sorted
  decide +kernel

end Samples
end Frontend
