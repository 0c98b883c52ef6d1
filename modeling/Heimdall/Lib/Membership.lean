import Mathlib.Data.Finset.Basic
import Mathlib.Data.List.Perm.Basic

/-!
# Changes of a set that arrive in any order

A set of members under requests that add and remove. Where no request adds what another one
removes, the outcome does not depend on the order in which they arrive.
-/
namespace Lib

inductive Change (α : Type*) where
  | add (a : α)
  | remove (a : α)

section Separate
variable {α : Type*} {change : Change α} {changes changes' : List (Change α)}

/-- No change adds what another one removes. -/
def Separate (changes : List (Change α)) : Prop :=
  ∀ a, ¬ (Change.add a ∈ changes ∧ Change.remove a ∈ changes)

theorem Separate.tail (separate : Separate (change :: changes)) : Separate changes :=
  fun a both => separate a ⟨List.mem_cons_of_mem _ both.1, List.mem_cons_of_mem _ both.2⟩

theorem Separate.perm (order : changes.Perm changes') (separate : Separate changes) :
    Separate changes' :=
  fun a both => separate a ⟨order.mem_iff.mpr both.1, order.mem_iff.mpr both.2⟩

end Separate

section Settle
variable {α : Type*} [DecidableEq α]

def Change.apply (s : Finset α) : Change α → Finset α
  | .add a => insert a s
  | .remove a => s.erase a

/-- The set after the changes have arrived in this order. -/
def settle (s : Finset α) (changes : List (Change α)) : Finset α := changes.foldl Change.apply s

variable {s : Finset α} {changes changes' : List (Change α)} {a : α}

theorem mem_settle (separate : Separate changes) :
    a ∈ settle s changes ↔ Change.add a ∈ changes ∨ a ∈ s ∧ Change.remove a ∉ changes := by
  induction changes generalizing s with
  | nil => simp [settle]
  | cons change changes ih =>
      have later : a ∈ settle s (change :: changes) ↔ Change.add a ∈ changes ∨
          a ∈ change.apply s ∧ Change.remove a ∉ changes := ih separate.tail
      have apart := separate a
      rw [later]
      cases change with
      | add b =>
          by_cases same : a = b
          · subst same
            have kept : Change.remove a ∉ changes := fun removed =>
              apart ⟨List.mem_cons_self, List.mem_cons_of_mem _ removed⟩
            simp [Change.apply, kept]
          · simp [Change.apply, same]
      | remove b =>
          by_cases same : a = b
          · subst same
            have missing : Change.add a ∉ changes := fun added =>
              apart ⟨List.mem_cons_of_mem _ added, List.mem_cons_self⟩
            simp [Change.apply, missing]
          · simp [Change.apply, same]

/-- A member that is removed, and added by no request, is out. -/
theorem not_mem_settle (removed : Change.remove a ∈ changes) (separate : Separate changes) :
    a ∉ settle s changes := by
  rw [mem_settle separate]
  rintro (added | ⟨-, kept⟩)
  · exact separate a ⟨added, removed⟩
  · exact kept removed

/-- Separate changes lead to one set in every order. -/
theorem settle_perm (order : changes.Perm changes') (separate : Separate changes) :
    settle s changes' = settle s changes := by
  ext a
  rw [mem_settle separate, mem_settle (separate.perm order), order.mem_iff, order.mem_iff]

end Settle
end Lib
