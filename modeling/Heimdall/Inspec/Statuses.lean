import Heimdall.Lib.Comparator
import Heimdall.Inspec.Hdf

/-!
# The precedence of the statuses

The status of a group of controls and the status of one control with many results should both
be the worst status in the group. The status of a control is; the status of a group stays
empty, because the comparison is made the wrong way round.
-/
namespace Inspec
open Js Lib

section Precedence

/-- The status of a group, empty while no control is in it. -/
inductive ControlGroupStatus where
  | empty
  | control (status : ControlStatus)
  deriving DecidableEq

def precedence : List ControlGroupStatus :=
  [.empty, .control .fromProfile, .control .notApplicable, .control .notReviewed,
    .control .passed, .control .failed, .control .profileError]

def compare_statuses (a b : ControlGroupStatus) : ℤ :=
  (precedence.idxOf a : ℤ) - precedence.idxOf b

def updateStatus (group : ControlGroupStatus) (control : ControlStatus) : ControlGroupStatus :=
  if compare_statuses group (.control control) > 0 then .control control else group

/-- The status that none of the list exceeds; empty for the empty list. -/
structure IsWorst (statuses : List ControlStatus) (g : ControlGroupStatus) : Prop where
  above : ∀ s ∈ statuses, compare_statuses (.control s) g ≤ 0
  listed : ∀ s, g = .control s → s ∈ statuses
  empty : g = .empty ↔ statuses = []

theorem compare_statuses_preorder : TotalPreorder compare_statuses :=
  totalPreorder_rank precedence.idxOf

theorem mem_precedence (a : ControlGroupStatus) : a ∈ precedence := by
  cases a with
  | empty => decide
  | control s => cases s <;> decide

/-- No two statuses have the same precedence. -/
theorem compare_statuses_eq_zero {a b : ControlGroupStatus} (same : compare_statuses a b = 0) :
    a = b := by
  unfold compare_statuses at same
  exact (List.idxOf_inj (mem_precedence a)).mp (by omega)

theorem compare_empty (a : ControlGroupStatus) : compare_statuses .empty a ≤ 0 := by
  unfold compare_statuses
  rw [show precedence.idxOf .empty = 0 from rfl]
  omega

theorem IsWorst.unique {statuses : List ControlStatus} {g h : ControlGroupStatus}
    (first : IsWorst statuses g) (second : IsWorst statuses h) : g = h := by
  have below : ∀ {g h}, IsWorst statuses g → IsWorst statuses h → compare_statuses g h ≤ 0 := by
    intro g h first second
    cases g with
    | empty => exact compare_empty h
    | control s => exact second.above s (first.listed s rfl)
  have forth := below first second
  have back := below second first
  rw [compare_statuses_preorder.nonpos_iff] at back
  exact compare_statuses_eq_zero (by omega)

/-- The worse of two statuses. -/
def worse (g h : ControlGroupStatus) : ControlGroupStatus :=
  if compare_statuses g h > 0 then g else h

theorem le_worse (g h : ControlGroupStatus) :
    compare_statuses g (worse g h) ≤ 0 ∧ compare_statuses h (worse g h) ≤ 0 := by
  unfold worse
  split
  · rename_i exceeds
    refine ⟨Int.le_of_eq (compare_statuses_preorder.self g), ?_⟩
    rw [compare_statuses_preorder.nonpos_iff]
    omega
  · rename_i within
    exact ⟨by omega, Int.le_of_eq (compare_statuses_preorder.self h)⟩

theorem IsWorst.append {xs ys : List ControlStatus} {g h : ControlGroupStatus}
    (first : IsWorst xs g) (second : IsWorst ys h) : IsWorst (xs ++ ys) (worse g h) where
  above s inside := by
    rcases List.mem_append.mp inside with left | right
    · exact compare_statuses_preorder.trans _ _ _ (first.above s left) (le_worse g h).1
    · exact compare_statuses_preorder.trans _ _ _ (second.above s right) (le_worse g h).2
  listed s same := by
    unfold worse at same
    split at same
    · exact List.mem_append_left _ (first.listed s same)
    · exact List.mem_append_right _ (second.listed s same)
  empty := by
    rw [List.append_eq_nil_iff, ← first.empty, ← second.empty]
    constructor
    · intro none
      have below := le_worse g h
      rw [none] at below
      have low : ∀ a, compare_statuses a .empty ≤ 0 → a = .empty := by
        intro a less
        have above := compare_empty a
        rw [compare_statuses_preorder.nonpos_iff] at above
        exact compare_statuses_eq_zero (by omega)
      exact ⟨low g below.1, low h below.2⟩
    · rintro ⟨rfl, rfl⟩
      rfl

end Precedence

section Group

/-- What is kept is the lowest status, not the highest. -/
theorem foldl_updateStatus_le (statuses : List ControlStatus) (group : ControlGroupStatus) :
    compare_statuses (statuses.foldl updateStatus group) group ≤ 0 := by
  induction statuses generalizing group with
  | nil => exact Int.le_of_eq (compare_statuses_preorder.self group)
  | cons s statuses ih =>
      have step : compare_statuses (updateStatus group s) group ≤ 0 := by
        unfold updateStatus
        split
        · rename_i lower
          rw [compare_statuses_preorder.nonpos_iff]
          omega
        · exact Int.le_of_eq (compare_statuses_preorder.self group)
      exact compare_statuses_preorder.trans _ _ _ (ih (updateStatus group s)) step

theorem foldl_updateStatus_empty (statuses : List ControlStatus) :
    statuses.foldl updateStatus .empty = .empty := by
  have below := foldl_updateStatus_le statuses .empty
  have above := compare_empty (statuses.foldl updateStatus .empty)
  rw [compare_statuses_preorder.nonpos_iff] at above
  exact compare_statuses_eq_zero (by omega)

/-- The fold from the empty group gives the worst status of the empty list only. -/
theorem foldl_updateStatus_worst_iff (statuses : List ControlStatus) :
    (IsWorst statuses (statuses.foldl updateStatus .empty) ∧
      ∀ statuses', statuses.Perm statuses' →
        statuses'.foldl updateStatus .empty = statuses.foldl updateStatus .empty) ↔
      statuses = [] := by
  simp only [foldl_updateStatus_empty, implies_true, and_true]
  constructor
  · exact fun worst => worst.empty.mp rfl
  · rintro rfl
    exact ⟨List.forall_mem_nil _, fun s same => (nomatch same), iff_of_true rfl rfl⟩

/-- A group with a control that passed is reported as empty. -/
theorem updateStatus_not_worst :
    ¬ ∀ statuses : List ControlStatus, IsWorst statuses (statuses.foldl updateStatus .empty) := by
  intro always
  cases (always [.passed]).empty.mp (by decide)

end Group

section Control
variable (control : ExecJSONControl)

namespace ExecControl

/-- The status that the constructor computes. -/
def status : ControlStatus :=
  compute_status ((compute_segments control).map (·.status)) (waived control) control.impact

/-- The control with these results. -/
def withResults (results : List ControlResult) : ExecJSONControl :=
  { control with results := results }

/-- The status that the control would have with one result alone. -/
def alone (result : ControlResult) : ControlStatus := status (withResults control [result])

end ExecControl

theorem newExecControl_status [UnicodeTables] {control : ExecJSONControl} {hdf : HDFControl}
    (made : newExecControl control = .ok hdf) : hdf.status = ExecControl.status control := by
  obtain ⟨base, constructed, done⟩ := do_eq_ok.mp made
  obtain ⟨tags, -, rest⟩ := do_eq_ok.mp constructed
  rw [pure_eq_ok.mp done, pure_eq_ok.mp rest]
  rfl

/-- The status that one segment alone gives. -/
def SegmentStatus.single : SegmentStatus → ControlStatus
  | .error | .no_status => .profileError
  | .failed => .failed
  | .passed => .passed
  | .skipped => .notReviewed

theorem compute_status_singleton {impact : JsNumber} (weighs : impact.isZero = false)
    (s : SegmentStatus) : ExecControl.compute_status [s] false impact = s.single := by
  unfold ExecControl.compute_status
  rw [weighs]
  cases s <;> rfl

theorem isWorst_of_segment {segments : List SegmentStatus} {s : SegmentStatus}
    (inside : s ∈ segments)
    (above : ∀ t ∈ segments, compare_statuses (.control t.single) (.control s.single) ≤ 0) :
    IsWorst (segments.map SegmentStatus.single) (.control s.single) where
  above c listed := by
    obtain ⟨t, member, rfl⟩ := List.mem_map.mp listed
    exact above t member
  listed c same := by
    cases same
    exact List.mem_map_of_mem inside
  empty := by
    refine iff_of_false (fun same => nomatch same) fun none => ?_
    rw [List.map_eq_nil_iff.mp none] at inside
    cases inside

/-- The worst status of the segments, looked at one by one. -/
theorem compute_status_isWorst {segments : List SegmentStatus} {impact : JsNumber}
    (filled : segments ≠ []) (carried : .no_status ∉ segments) (weighs : impact.isZero = false) :
    IsWorst (segments.map SegmentStatus.single)
      (.control (ExecControl.compute_status segments false impact)) := by
  -- The first status of the chain that is there is the worst: the later ones are lower.
  unfold ExecControl.compute_status
  rw [weighs, Bool.or_false, if_neg Bool.false_ne_true,
    if_neg fun none => filled (List.length_eq_zero_iff.mp none)]
  by_cases error : .error ∈ segments
  · rw [if_pos error]
    apply isWorst_of_segment (s := .error) error
    intro t _
    cases t <;> decide
  rw [if_neg error]
  by_cases failed : .failed ∈ segments
  · rw [if_pos failed]
    apply isWorst_of_segment (s := .failed) failed
    intro t inside
    cases t <;> first | decide | contradiction
  rw [if_neg failed]
  by_cases passed : .passed ∈ segments
  · rw [if_pos passed]
    apply isWorst_of_segment (s := .passed) passed
    intro t inside
    cases t <;> first | decide | contradiction
  rw [if_neg passed]
  by_cases skipped : .skipped ∈ segments
  · rw [if_pos skipped]
    apply isWorst_of_segment (s := .skipped) skipped
    intro t inside
    cases t <;> first | decide | contradiction
  · obtain ⟨t, rest, rfl⟩ := List.exists_cons_of_ne_nil filled
    have inside : t ∈ t :: rest := List.mem_cons_self
    cases t <;> contradiction

variable {control}

theorem segmentStatus_of_carried {result : ControlResult} {s : ControlResultStatus}
    (carries : result.status = .val s) : ExecControl.segmentStatus result ≠ .no_status := by
  unfold ExecControl.segmentStatus
  split
  · decide
  · rw [carries]
    cases s <;> decide

/-- All results carry a status. -/
def Carried (results : List ControlResult) : Prop := ∀ r ∈ results, ∃ s, r.status = .val s

theorem status_withResults (unwaived : ExecControl.waived control = false)
    (results : List ControlResult) : ExecControl.status (ExecControl.withResults control results) =
      ExecControl.compute_status (results.map ExecControl.segmentStatus) false control.impact := by
  have segments : (ExecControl.compute_segments (ExecControl.withResults control results)).map
      (·.status) = results.map ExecControl.segmentStatus := by
    unfold ExecControl.compute_segments
    rw [List.map_map]
    rfl
  unfold ExecControl.status
  rw [segments, show ExecControl.waived (ExecControl.withResults control results) = false
    from unwaived]
  rfl

theorem status_isWorst (unwaived : ExecControl.waived control = false)
    (weighs : control.impact.isZero = false) {results : List ControlResult}
    (filled : results ≠ []) (carried : Carried results) :
    IsWorst (results.map (ExecControl.alone control))
      (.control (ExecControl.status (ExecControl.withResults control results))) := by
  have each : results.map (ExecControl.alone control) =
      (results.map ExecControl.segmentStatus).map SegmentStatus.single := by
    rw [List.map_map]
    apply List.map_congr_left
    intro r _
    unfold ExecControl.alone
    rw [status_withResults unwaived]
    exact compute_status_singleton weighs _
  rw [each, status_withResults unwaived]
  refine compute_status_isWorst (fun none => filled (List.map_eq_nil_iff.mp none)) ?_ weighs
  intro missing
  obtain ⟨r, inside, same⟩ := List.mem_map.mp missing
  obtain ⟨s, carries⟩ := carried r inside
  exact segmentStatus_of_carried carries same

/-- The status asks only which segments there are. -/
theorem compute_status_congr {xs ys : List SegmentStatus} (same : ∀ s, s ∈ xs ↔ s ∈ ys)
    (waived : Bool) (impact : JsNumber) :
    ExecControl.compute_status xs waived impact = ExecControl.compute_status ys waived impact := by
  have empty : xs.length = 0 ↔ ys.length = 0 := by
    rw [List.length_eq_zero_iff, List.length_eq_zero_iff, List.eq_nil_iff_forall_not_mem,
      List.eq_nil_iff_forall_not_mem]
    simp only [same]
  unfold ExecControl.compute_status
  simp only [same, empty]

/-- The status of a control with results: a profile error if a segment has one, else not
applicable if the control is waived or weighs nothing, else the worst status that a result
would give alone. Where no override applies it depends on which results there are only, and
the status of two lists together is the worse one. -/
theorem compute_status_spec (control : ExecJSONControl) :
    (∀ [UnicodeTables] (hdf : HDFControl), newExecControl control = .ok hdf →
      hdf.status = ExecControl.status control) ∧
    ((∃ s ∈ ExecControl.compute_segments control, s.status = .error) →
      ExecControl.status control = .profileError) ∧
    ((∀ s ∈ ExecControl.compute_segments control, s.status ≠ .error) →
      ExecControl.waived control = true ∨ control.impact.isZero = true →
        ExecControl.status control = .notApplicable) ∧
    (ExecControl.waived control = false → control.impact.isZero = false →
      (control.results ≠ [] → Carried control.results →
        IsWorst (control.results.map (ExecControl.alone control))
          (.control (ExecControl.status control))) ∧
      (∀ rs rs', (∀ r, r ∈ rs ↔ r ∈ rs') →
        ExecControl.status (ExecControl.withResults control rs) =
          ExecControl.status (ExecControl.withResults control rs')) ∧
      ∀ rs rs', rs ≠ [] → Carried rs → rs' ≠ [] → Carried rs' →
        .control (ExecControl.status (ExecControl.withResults control (rs ++ rs'))) =
          worse (.control (ExecControl.status (ExecControl.withResults control rs)))
            (.control (ExecControl.status (ExecControl.withResults control rs')))) := by
  have listed : ∀ s : SegmentStatus,
      s ∈ (ExecControl.compute_segments control).map (·.status) ↔
        ∃ segment ∈ ExecControl.compute_segments control, segment.status = s :=
    fun s => List.mem_map
  refine ⟨fun hdf made => newExecControl_status made, fun error => ?_, fun clean override => ?_,
    fun unwaived weighs => ⟨fun filled carried => ?_, fun rs rs' same => ?_, ?_⟩⟩
  · unfold ExecControl.status ExecControl.compute_status
    rw [if_pos ((listed .error).mpr error)]
  · have none : .error ∉ (ExecControl.compute_segments control).map (·.status) := by
      rw [listed]
      exact fun ⟨s, inside, error⟩ => clean s inside error
    unfold ExecControl.status ExecControl.compute_status
    rw [if_neg none, if_pos ((Bool.or_eq_true _ _).mpr override)]
  · exact status_isWorst unwaived weighs filled carried
  · rw [status_withResults unwaived, status_withResults unwaived]
    refine compute_status_congr (fun s => ?_) false control.impact
    simp only [List.mem_map, same]
  · intro rs rs' filled carried filled' carried'
    have both : Carried (rs ++ rs') := List.forall_mem_append.mpr ⟨carried, carried'⟩
    have together := status_isWorst unwaived weighs (List.append_ne_nil_of_left_ne_nil filled rs')
      both
    rw [List.map_append] at together
    exact together.unique ((status_isWorst unwaived weighs filled carried).append
      (status_isWorst unwaived weighs filled' carried'))

/-- Two results passed, and one in between failed. -/
def mixedControl : ExecJSONControl :=
  { bareControl "C-1" [] with
    results := [sampleResult .passed, sampleResult .failed, sampleResult .passed] }

theorem compute_status_spec_sample :
    IsWorst (mixedControl.results.map (ExecControl.alone mixedControl)) (.control .failed) ∧
      ExecControl.status mixedControl = .failed ∧
      ExecControl.status { bareControl "C-1" [] with impact := .finite 0 } = .notApplicable := by
  have failed : ExecControl.status mixedControl = .failed := by decide +kernel
  refine ⟨?_, failed, ?_⟩
  · rw [← failed]
    exact ((compute_status_spec mixedControl).2.2.2 rfl (by decide +kernel)).1
      (List.cons_ne_nil _ _) (by simp [Carried, mixedControl, sampleResult])
  · exact (compute_status_spec { bareControl "C-1" [] with impact := .finite 0 }).2.2.1
      (List.forall_mem_nil _) (.inr (by decide))

end Control
end Inspec
