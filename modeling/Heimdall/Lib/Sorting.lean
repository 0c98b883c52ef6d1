import Mathlib.Data.List.Sort
import Heimdall.Lib.Comparator

/-!
# What a sort may return

The contract of a sort that is given a comparison function: a permutation, which is in order if
the function is that of a total preorder on the values that it is asked about.
-/
namespace Lib

variable {α : Type*} {cmp : α → α → ℤ} {xs ys : List α}

/-- The function is that of a total preorder on the members of the list. -/
def LawfulOn (cmp : α → α → ℤ) (xs : List α) : Prop :=
  TotalPreorder fun a b : {x // x ∈ xs} => cmp a.val b.val

structure SortResult (cmp : α → α → ℤ) (xs ys : List α) : Prop where
  perm : ys.Perm xs
  ordered : LawfulOn cmp xs → ys.Pairwise fun a b => cmp a b ≤ 0

theorem TotalPreorder.on (lawful : TotalPreorder cmp) (xs : List α) : LawfulOn cmp xs where
  swap a b := lawful.swap a.val b.val
  trans a b c := lawful.trans a.val b.val c.val

theorem LawfulOn.congr {cmp' : α → α → ℤ} (lawful : LawfulOn cmp' xs)
    (same : ∀ a ∈ xs, ∀ b ∈ xs, cmp a b = cmp' a b) : LawfulOn cmp xs where
  swap a b := by
    rw [same a.val a.2 b.val b.2, same b.val b.2 a.val a.2]
    exact lawful.swap a b
  trans a b c := by
    rw [same a.val a.2 b.val b.2, same b.val b.2 c.val c.2, same a.val a.2 c.val c.2]
    exact lawful.trans a b c

/-- Insertion keeps the contract. -/
theorem sortResult_insertionSort (cmp : α → α → ℤ) (xs : List α) :
    SortResult cmp xs (xs.insertionSort fun a b => cmp a b ≤ 0) where
  perm := List.perm_insertionSort _ _
  ordered lawful := by
    have preorder : TotalPreorder fun a b : {x // x ∈ xs} => cmp a.val b.val := lawful
    have total : Std.Total fun a b : {x // x ∈ xs} => cmp a.val b.val ≤ 0 := ⟨preorder.total⟩
    have trans : IsTrans {x // x ∈ xs} fun a b => cmp a.val b.val ≤ 0 := ⟨preorder.trans⟩
    have inside := List.pairwise_insertionSort
      (fun a b : {x // x ∈ xs} => cmp a.val b.val ≤ 0) xs.attach
    have same := List.map_insertionSort (fun a b : {x // x ∈ xs} => cmp a.val b.val ≤ 0)
      (fun a b => cmp a b ≤ 0) Subtype.val xs.attach fun a _ b _ => Iff.rfl
    rw [List.attach_map_subtype_val] at same
    rw [← same, List.pairwise_map]
    exact inside

end Lib
