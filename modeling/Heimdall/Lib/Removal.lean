import Mathlib.Data.List.Basic

/-!
# Taking the entries with a key from a list

A list loses one entry, at a place that was found in some way. What is left is the list without
the entries of a key exactly when the entry at that place is the only one with the key.
-/
namespace Lib

section Filter
variable {α : Type*} {p : α → Bool} {before after : List α} {y : α}

/-- What is left without one entry is what a filter leaves, when the filter drops that entry
alone. -/
theorem filter_eq_append_iff :
    (before ++ y :: after).filter p = before ++ after ↔
      p y = false ∧ ∀ z ∈ before ++ after, p z = true := by
  constructor
  · intro same
    have others : ∀ z ∈ before ++ after, p z = true := by
      intro z inside
      rw [← same] at inside
      exact (List.mem_filter.mp inside).2
    refine ⟨Bool.eq_false_iff.mpr fun kept => ?_, others⟩
    have every : ∀ z ∈ before ++ y :: after, p z = true := by
      intro z inside
      rcases List.mem_append.mp inside with old | new
      · exact others z (List.mem_append_left _ old)
      · rcases List.mem_cons.mp new with rfl | rest
        · exact kept
        · exact others z (List.mem_append_right _ rest)
    rw [List.filter_eq_self.mpr every] at same
    have lengths := congrArg List.length same
    simp only [List.length_append, List.length_cons] at lengths
    omega
  · rintro ⟨dropped, others⟩
    rw [List.filter_append, List.filter_cons_of_neg (by simp [dropped]), ← List.filter_append]
    exact List.filter_eq_self.mpr others

end Filter

section Key
variable {α κ : Type*} [DecidableEq κ] (key : α → κ)

def without (k : κ) (xs : List α) : List α := xs.filter fun y => key y ≠ k

/-- One entry has the key, at the place between the two parts. -/
def Alone (k : κ) (before : List α) (y : α) (after : List α) : Prop :=
  key y = k ∧ ∀ z ∈ before ++ after, key z ≠ k

variable {key} {k : κ}

theorem append_eq_without_iff {before after : List α} {y : α} :
    before ++ after = without key k (before ++ y :: after) ↔ Alone key k before y after := by
  rw [without, eq_comm, filter_eq_append_iff]
  simp [Alone]

theorem count_eq_one_iff {before after : List α} {y : α} (here : key y = k) :
    (before ++ y :: after).countP (fun z => key z = k) = 1 ↔ ∀ z ∈ before ++ after, key z ≠ k := by
  rw [List.countP_append, List.countP_cons_of_pos (by simpa using here), ← Nat.add_assoc,
    ← List.countP_append, Nat.add_eq_right, List.countP_eq_zero]
  simp

theorem alone_iff {before after : List α} {y : α} : Alone key k before y after ↔
    (before ++ y :: after).countP (fun z => key z = k) = 1 ∧ key y = k := by
  constructor
  · rintro ⟨here, others⟩
    exact ⟨(count_eq_one_iff here).mpr others, here⟩
  · rintro ⟨one, here⟩
    exact ⟨here, (count_eq_one_iff here).mp one⟩

end Key
end Lib
