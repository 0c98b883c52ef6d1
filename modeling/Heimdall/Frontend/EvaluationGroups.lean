import Mathlib.Data.Finset.Image
import Heimdall.Lib.Membership
import Heimdall.Frontend.GroupList

/-!
# The groups of an evaluation

The dialog for an evaluation compares the groups it was opened with and those that are selected
as objects, and sends a request for each difference. The requests name the groups by their ids.
-/
namespace Frontend
open Js Lib Inspec

/-- An item of a list to select from; two items are the same object when they have one
identity. -/
structure IVuetifyItems where
  self : Ref
  text : JsString
  value : JsString
deriving DecidableEq

/-- The items are new objects, counted from the next identity. -/
def convertGroupsToIVuetifyItems (next : Ref) : Option (List IGroup) → List IVuetifyItems
  | none => []
  | some groups => groups.mapIdx fun index group => ⟨next + index, group.name, group.id⟩

structure EditEvaluationModal where
  originalGroups : List IVuetifyItems
  groups : List IVuetifyItems

namespace EditEvaluationModal
variable {modal : EditEvaluationModal}

def toAdd (modal : EditEvaluationModal) : List IVuetifyItems :=
  modal.groups.filter fun group => group ∉ modal.originalGroups

def toRemove (modal : EditEvaluationModal) : List IVuetifyItems :=
  modal.originalGroups.filter fun group => group ∉ modal.groups

/-- The requests, by the ids of the groups. -/
def updateGroups (modal : EditEvaluationModal) : List (Change JsString) :=
  modal.toAdd.map (fun group => .add group.value) ++
    modal.toRemove.map fun group => .remove group.value

/-- The ids of the groups that have the evaluation as the dialog opens. -/
def membership (modal : EditEvaluationModal) : Finset JsString :=
  (modal.originalGroups.map (·.value)).toFinset

def selected (modal : EditEvaluationModal) : Finset JsString :=
  (modal.groups.map (·.value)).toFinset

/-- No group gets both requests, and every order of the requests leads to the groups that are
selected. -/
def Updates (modal : EditEvaluationModal) : Prop :=
  Separate modal.updateGroups ∧
    ∀ order, modal.updateGroups.Perm order → settle modal.membership order = modal.selected

/-- An original group that is selected is selected as the original object. -/
def Aligned (modal : EditEvaluationModal) : Prop :=
  ∀ group ∈ modal.originalGroups, group.value ∈ modal.selected → group ∈ modal.groups

theorem mem_membership {id : JsString} :
    id ∈ modal.membership ↔ ∃ group ∈ modal.originalGroups, group.value = id := by
  simp [membership]

theorem mem_selected {id : JsString} :
    id ∈ modal.selected ↔ ∃ group ∈ modal.groups, group.value = id := by
  simp [selected]

theorem add_mem_updateGroups {id : JsString} : Change.add id ∈ modal.updateGroups ↔
    ∃ group ∈ modal.groups, group ∉ modal.originalGroups ∧ group.value = id := by
  simp [updateGroups, toAdd, and_assoc]

theorem remove_mem_updateGroups {id : JsString} : Change.remove id ∈ modal.updateGroups ↔
    ∃ group ∈ modal.originalGroups, group ∉ modal.groups ∧ group.value = id := by
  simp [updateGroups, toRemove, and_assoc]

theorem Aligned.not_selected (aligned : modal.Aligned) {id : JsString}
    (removed : Change.remove id ∈ modal.updateGroups) : id ∉ modal.selected := by
  obtain ⟨group, original, other, rfl⟩ := remove_mem_updateGroups.mp removed
  exact fun selected => other (aligned group original selected)

theorem Aligned.separate (aligned : modal.Aligned) : Separate modal.updateGroups := by
  rintro id ⟨added, removed⟩
  obtain ⟨group, inside, -, rfl⟩ := add_mem_updateGroups.mp added
  exact aligned.not_selected removed (mem_selected.mpr ⟨group, inside, rfl⟩)

/-- What the requests lead to, in the order in which they are sent. -/
theorem Aligned.settle_eq (aligned : modal.Aligned) :
    settle modal.membership modal.updateGroups = modal.selected := by
  ext id
  rw [mem_settle aligned.separate]
  constructor
  · rintro (added | ⟨original, kept⟩)
    · obtain ⟨group, inside, -, rfl⟩ := add_mem_updateGroups.mp added
      exact mem_selected.mpr ⟨group, inside, rfl⟩
    · obtain ⟨group, listed, rfl⟩ := mem_membership.mp original
      by_cases inside : group ∈ modal.groups
      · exact mem_selected.mpr ⟨group, inside, rfl⟩
      · exact absurd (remove_mem_updateGroups.mpr ⟨group, listed, inside, rfl⟩) kept
  · intro selected
    obtain ⟨group, inside, rfl⟩ := mem_selected.mp selected
    by_cases original : group ∈ modal.originalGroups
    · exact .inr ⟨mem_membership.mpr ⟨group, original, rfl⟩,
        fun removed => aligned.not_selected removed selected⟩
    · exact .inl (add_mem_updateGroups.mpr ⟨group, inside, original, rfl⟩)

/-- The requests do what they should exactly when no original group is selected as another
object. -/
theorem updates_iff (modal : EditEvaluationModal) : modal.Updates ↔ modal.Aligned := by
  constructor
  · rintro ⟨separate, every⟩ group original selected
    by_contra other
    have removed : Change.remove group.value ∈ modal.updateGroups :=
      remove_mem_updateGroups.mpr ⟨group, original, other, rfl⟩
    rw [← every _ (List.Perm.refl _)] at selected
    exact not_mem_settle removed separate selected
  · intro aligned
    refine ⟨aligned.separate, fun order arrival => ?_⟩
    rw [settle_perm arrival aligned.separate, aligned.settle_eq]

/-- A group that is taken out of the selection and put back comes from the list to select
from, and is another object. -/
def reselected : EditEvaluationModal where
  originalGroups := convertGroupsToIVuetifyItems 0 (some [⟨js "1", js "group"⟩])
  groups := convertGroupsToIVuetifyItems 1 (some [⟨js "1", js "group"⟩])

theorem not_updates_reselected : ¬ reselected.Updates := by
  rintro ⟨separate, -⟩
  refine separate (js "1") ⟨?_, ?_⟩
  · exact add_mem_updateGroups.mpr ⟨⟨1, js "group", js "1"⟩, by decide, by decide, rfl⟩
  · exact remove_mem_updateGroups.mpr ⟨⟨0, js "group", js "1"⟩, by decide, by decide, rfl⟩

end EditEvaluationModal
end Frontend
