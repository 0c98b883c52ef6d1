import Mathlib.Data.Int.Notation
import Heimdall.Lib.Removal

/-!
# Arrays of objects

The search by identity and the replacement at an index that the stores are written with. Where
the search finds nothing its answer is -1, which `splice` counts from the end.
-/
namespace Js
variable {α : Type}

/-- `Array.prototype.indexOf` -/
def indexOf [DecidableEq α] (array : List α) (item : α) : ℤ :=
  match array.idxOf? item with
  | some index => index
  | none => -1

/-- `Array.prototype.splice` -/
def splice (array : List α) (start : ℤ) (deleteCount : ℕ) (items : List α) : List α :=
  let first :=
    if start < 0 then (array.length + start).toNat else min start.toNat array.length
  array.take first ++ items ++ array.drop (first + deleteCount)

section Splice
variable {before after items : List α} {item : α}

theorem splice_one : splice (before ++ item :: after) before.length 1 items =
    before ++ items ++ after := by
  have first : min ((before.length : ℤ)).toNat (before ++ item :: after).length =
      before.length := by
    simp
  rw [splice, if_neg (by omega), first, List.take_left, List.append_cons, List.drop_left' (by simp)]

/-- The index -1 is that of the last item. -/
theorem splice_last : splice (before ++ [item]) (-1) 1 items = before ++ items := by
  have first : (((before ++ [item]).length : ℤ) + -1).toNat = before.length := by
    rw [List.length_append, List.length_singleton]
    omega
  rw [splice, if_pos (by omega), first, List.take_left, List.drop_eq_nil_of_le (by simp),
    List.append_nil]

@[simp] theorem splice_nil : splice [] (-1) 1 ([] : List α) = [] := by
  simp [splice]

end Splice

section Removal
variable [DecidableEq α] {array : List α} {item : α}

theorem indexOf_of_not_mem (missing : item ∉ array) : indexOf array item = -1 := by
  rw [indexOf, List.idxOf?_eq_none_iff.mpr missing]

theorem indexOf_append {before after : List α} (first : item ∉ before) :
    indexOf (before ++ item :: after) item = before.length := by
  have found : (before ++ item :: after).idxOf? item = some before.length := by
    induction before with
    | nil => simp [List.idxOf?_cons]
    | cons other before ih =>
        rw [List.mem_cons, not_or] at first
        have different : ¬ (other == item) = true := by simpa using Ne.symm first.1
        rw [List.cons_append, List.idxOf?_cons, if_neg different, ih first.2]
        rfl
  rw [indexOf, found]

theorem indexOf_neg_iff : indexOf array item < 0 ↔ item ∉ array := by
  by_cases inside : item ∈ array
  · obtain ⟨before, after, rfl, first⟩ := List.eq_append_cons_of_mem inside
    rw [indexOf_append first]
    exact iff_of_false (by omega) (fun missing => missing inside)
  · rw [indexOf_of_not_mem inside]
    exact iff_of_true (by decide) inside

theorem splice_indexOf_of_mem (inside : item ∈ array) : ∃ before after,
    array = before ++ item :: after ∧ item ∉ before ∧
      splice array (indexOf array item) 1 [] = before ++ after := by
  obtain ⟨before, after, rfl, first⟩ := List.eq_append_cons_of_mem inside
  refine ⟨before, after, rfl, first, ?_⟩
  rw [indexOf_append first, splice_one, List.append_nil]

/-- What is removed from an array: its first occurrence of the item or, where there is none,
the last item. -/
theorem splice_indexOf_cases (array : List α) (item : α) :
    (array = [] ∧ splice array (indexOf array item) 1 [] = []) ∨
      ∃ before removed after, array = before ++ removed :: after ∧
        splice array (indexOf array item) 1 [] = before ++ after ∧
        (removed = item ∨ item ∉ array ∧ after = []) := by
  by_cases inside : item ∈ array
  · obtain ⟨before, after, shape, -, left⟩ := splice_indexOf_of_mem inside
    exact .inr ⟨before, item, after, shape, left, .inl rfl⟩
  · rw [indexOf_of_not_mem inside]
    rcases List.eq_nil_or_concat' array with rfl | ⟨before, last, rfl⟩
    · exact .inl ⟨rfl, splice_nil⟩
    · exact .inr ⟨before, last, [], rfl, splice_last, .inr ⟨inside, rfl⟩⟩

theorem splice_indexOf_eq_self_iff :
    splice array (indexOf array item) 1 [] = array ↔ array = [] := by
  rcases splice_indexOf_cases array item with ⟨rfl, left⟩ | ⟨before, removed, after, rfl, left, -⟩
  · exact iff_of_true left rfl
  · refine iff_of_false (fun same => ?_) (by simp)
    have lengths := congrArg List.length (left.symm.trans same)
    simp only [List.length_append, List.length_cons] at lengths
    omega

variable {κ : Type} [DecidableEq κ] (key : α → κ)

/-- One item has the key: it is the one searched for or, where that is not found, the last. -/
def Removable (array : List α) (item : α) : Prop :=
  array = [] ∨ array.countP (fun other => key other = key item) = 1 ∧
    (item ∈ array ∨ array.getLast?.map key = some (key item))

instance (array : List α) (item : α) : Decidable (Removable key array item) :=
  inferInstanceAs (Decidable (_ ∨ _ ∧ _))

/-- The removal by identity removes exactly the items with the key of the given one when they
are one, and this is the one found. -/
theorem splice_indexOf_eq_without_iff :
    splice array (indexOf array item) 1 [] = Lib.without key (key item) array ↔
      Removable key array item := by
  rcases splice_indexOf_cases array item with ⟨rfl, left⟩ |
    ⟨before, removed, after, rfl, left, place⟩
  · exact iff_of_true left (.inl rfl)
  · rw [left, Lib.append_eq_without_iff, Lib.alone_iff, Removable,
      or_iff_right (List.append_ne_nil_of_right_ne_nil _ (List.cons_ne_nil _ _))]
    refine and_congr_right fun _ => ?_
    rcases place with rfl | ⟨missing, rfl⟩
    · exact iff_of_true rfl (.inl (List.mem_append_right _ List.mem_cons_self))
    · simp [missing]

end Removal
end Js
