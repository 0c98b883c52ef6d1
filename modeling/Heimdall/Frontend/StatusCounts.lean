import Heimdall.Frontend.DataFilters

/-!
# Counting statuses

The counts of the status cards. On a layered evaluation the controls that the results view
keeps stand for the roots one by one, so that every result is counted once.
-/
namespace Frontend
open Js Lib Inspec

/-- `count` holds the entries that are named after a status. -/
structure StatusHash where
  count : ControlStatus → ℕ
  PassedTests : ℕ
  FailedTests : ℕ
  PassingTestsFailedControl : ℕ
  Waived : ℕ

namespace StatusHash

def zero : StatusHash := ⟨fun _ => 0, 0, 0, 0, 0⟩

def bump (hash : StatusHash) (status : ControlStatus) : StatusHash :=
  { hash with count := fun s => if s = status then hash.count s + 1 else hash.count s }

def tests (hdf : HDFControl) (status : SegmentStatus) : ℕ :=
  ((hdf.segments.getD []).filter fun s => decide (s.status = status)).length

def add (hash : StatusHash) (hdf : HDFControl) : StatusHash :=
  let hash := hash.bump hdf.status
  let segments := (hdf.segments.getD []).length
  match hdf.status with
  | .passed => { hash with PassedTests := hash.PassedTests + segments }
  | .failed => { hash with
      PassingTestsFailedControl := hash.PassingTestsFailedControl + tests hdf .passed
      FailedTests := hash.FailedTests + tests hdf .failed }
  | .notApplicable =>
      if hdf.waived then { hash with Waived := hash.Waived + segments } else hash
  | _ => hash

end StatusHash

def countControl (hash : StatusHash) (c : StoredControl) : Except JsError StatusHash := do
  let c ← c.root
  return (c.hdf.map hash.add).getD hash

section Counts
variable [UnicodeTables]

def count_statuses (data : InspecData) (filter : Filter) : Except JsError StatusHash := do
  -- The status of the filter overrides the `undefined` that stands before it.
  let newFilter := filter
  let controls ← controls data newFilter
  controls.foldlM countControl .zero

end Counts

section Counting

/-- The status of a control of a graph. -/
def statusOf (g : Graph) (c : ℕ) : Option ControlStatus := g.controls[c]?.map (·.hdf.status)

theorem add_count (hash : StatusHash) (hdf : HDFControl) (s : ControlStatus) :
    (hash.add hdf).count s = hash.count s + if hdf.status = s then 1 else 0 := by
  have bumped : (hash.add hdf).count = (hash.bump hdf.status).count := by
    unfold StatusHash.add
    cases hdf.status <;> simp only
    split <;> rfl
  rw [bumped, StatusHash.bump]
  by_cases same : s = hdf.status
  · simp [same]
  · simp [same, Ne.symm same]

/-- A control is counted under the status of its root. -/
theorem countControl_root (file : FileID) {g : Graph} {c r : ℕ} (hash : StatusHash)
    (walk : g.root (g.controls.length + 1) c = some r) :
    ∃ hash', countControl hash ⟨file, g, c⟩ = .ok hash' ∧
      ∀ s, hash'.count s = hash.count s + if statusOf g r = some s then 1 else 0 := by
  have counted : countControl hash ⟨file, g, c⟩ =
      .ok (((StoredControl.mk file g r).hdf.map hash.add).getD hash) := by
    simp only [countControl, StoredControl.root_eq_ok walk]
    rfl
  refine ⟨_, counted, fun s => ?_⟩
  cases here : g.controls[r]? with
  | none => simp [StoredControl.hdf, StoredControl.get, statusOf, here]
  | some cc => simp [StoredControl.hdf, StoredControl.get, statusOf, here, add_count]

/-- Controls whose roots are found are counted under the statuses of their roots. -/
theorem foldlM_countControl (file : FileID) {g : Graph} {cs : List ℕ} (hash : StatusHash)
    (ends : ∀ c ∈ cs, ∃ r, g.root (g.controls.length + 1) c = some r) :
    ∃ hash', (cs.map fun c => StoredControl.mk file g c).foldlM countControl hash = .ok hash' ∧
      ∀ s, hash'.count s = hash.count s +
        (cs.filterMap (g.root (g.controls.length + 1))).countP
          fun r => decide (statusOf g r = some s) := by
  induction cs generalizing hash with
  | nil => exact ⟨hash, rfl, fun s => rfl⟩
  | cons c cs ih =>
      obtain ⟨r, walk⟩ := ends c List.mem_cons_self
      obtain ⟨hash₁, first, count₁⟩ := countControl_root file hash walk
      obtain ⟨hash', rest, count'⟩ := ih hash₁ fun c inside => ends c (List.mem_cons_of_mem _ inside)
      refine ⟨hash', foldlM_cons_of_ok first rest, fun s => ?_⟩
      rw [count', count₁, List.filterMap_cons_some walk, List.countP_cons]
      simp only [decide_eq_true_eq]
      omega

end Counting

section Once
variable [UnicodeTables] {evaluation : ExecJSON} {context : ContextualizedEvaluation}

/-- On a layered evaluation every result is counted exactly once: each root has one control
on top, these are the controls that the results view keeps, and the count of a status is
the number of roots that have it. -/
theorem exactly_once (evalContext : Ref) (layered : Layered evaluation)
    (returned : contextualizeEvaluation evalContext evaluation = .ok context) :
    (∀ r ∈ context.graph.roots, ∃! t, t ∈ context.graph.tops ∧
      ∃ fuel, context.graph.root fuel t = some r) ∧
    ∀ (data : InspecData) (file : FileID), data.Holds file context →
      controls data (topFilter file) =
        .ok (context.graph.tops.map fun c => ⟨file, context.graph, c⟩) ∧
      (context.graph.tops.map (context.graph.root (context.graph.controls.length + 1))).Perm
        (context.graph.roots.map some) ∧
      ∃ hash, count_statuses data (topFilter file) = .ok hash ∧
        ∀ s, hash.count s =
          context.graph.roots.countP fun r => decide (statusOf context.graph r = some s) := by
  have built := (contextualizeEvaluation_built returned).2
  have perm := built.tops_perm layered
  refine ⟨fun r root => built.existsUnique_top layered root, fun data file holds => ?_⟩
  refine ⟨controls_topFilter built holds, perm, ?_⟩
  have ends : ∀ t ∈ context.graph.tops,
      ∃ r, context.graph.root (context.graph.controls.length + 1) t = some r := by
    intro t top
    obtain ⟨r, -, walk⟩ :=
      built.root_within layered (List.mem_range.mp (List.mem_filter.mp top).1)
    exact ⟨r, walk⟩
  obtain ⟨hash, counted, counts⟩ := foldlM_countControl file .zero ends
  refine ⟨hash, ?_, fun s => ?_⟩
  · rw [count_statuses, controls_topFilter built holds]
    exact counted
  · have roots := perm.filterMap id
    simp only [List.filterMap_map, Function.comp_def, id, List.filterMap_some] at roots
    rw [counts s, roots.countP_eq]
    exact Nat.zero_add _

end Once

theorem wrapped_root : ∃ context, @contextualizeEvaluation asciiTables 0 wrapped = .ok context ∧
    context.graph.roots = [1] ∧ statusOf context.graph 1 = some .profileError :=
  ⟨_, rfl, by decide +kernel, by decide +kernel⟩

/-- A base control and its wrapper are counted as one result. -/
theorem exactly_once_sample : ∃ context hash,
    @contextualizeEvaluation asciiTables 0 wrapped = .ok context ∧
    (∃! t, t ∈ context.graph.tops ∧ ∃ fuel, context.graph.root fuel t = some 1) ∧
    @count_statuses asciiTables ⟨[⟨js "f", context⟩], []⟩ (topFilter (js "f")) = .ok hash ∧
      hash.count .profileError = 1 := by
  obtain ⟨context, returned, roots, status⟩ := wrapped_root
  have once := @exactly_once asciiTables wrapped context 0 wrapped_layered returned
  have holds : InspecData.Holds ⟨[⟨js "f", context⟩], []⟩ (js "f") context := by
    simp [InspecData.Holds]
  obtain ⟨-, -, hash, counted, counts⟩ := once.2 _ _ holds
  refine ⟨context, hash, returned, once.1 1 (by simp [roots]), counted, ?_⟩
  rw [counts, roots]
  simp [status]

end Frontend
