import Mathlib.Data.List.Basic

/-!
# Edit distance

The least number of insertions, deletions and substitutions that turn one list into
another, by its recursion on the first letters, and the table that computes it row by row.
-/
namespace Lib

variable {α : Type*} [DecidableEq α]

def editDistance : List α → List α → ℕ
  | [], bs => bs.length
  | _ :: as, [] => as.length + 1
  | a :: as, b :: bs =>
      min (min (editDistance as (b :: bs) + 1) (editDistance (a :: as) bs + 1))
        (editDistance as bs + if a = b then 0 else 1)
termination_by as bs => as.length + bs.length

/-- The row of `a :: as` from the row of `as`; entries belong to the suffixes of `bs`. -/
def nextRow (a : α) : List α → List ℕ → List ℕ
  | b :: bs, d :: e :: row =>
      match nextRow a bs (e :: row) with
      | [] => []
      | f :: rest => min (min (d + 1) (f + 1)) (e + if a = b then 0 else 1) :: f :: rest
  | _, row => row.map fun d => d + 1

def distanceRow (as bs : List α) : List ℕ :=
  as.foldr (fun a row => nextRow a bs row) (bs.tails.map List.length)

def levenshtein (as bs : List α) : ℕ := (distanceRow as bs).headD 0

theorem editDistance_nil (as : List α) : editDistance as [] = as.length := by
  cases as <;> simp [editDistance]

/-- A row lists the distances to all suffixes. -/
theorem nextRow_eq (a : α) (as bs : List α) :
    nextRow a bs (bs.tails.map (editDistance as)) = bs.tails.map (editDistance (a :: as)) := by
  induction bs with
  | nil => simp [nextRow, editDistance_nil]
  | cons b bs ih =>
      obtain ⟨rest, row⟩ : ∃ rest, bs.tails = bs :: rest := by
        cases bs with
        | nil => exact ⟨[], rfl⟩
        | cons c cs => exact ⟨cs.tails, rfl⟩
      rw [row, List.map_cons, List.map_cons] at ih
      rw [List.tails, row, List.map_cons, List.map_cons, nextRow, ih]
      simp only [List.map_cons, editDistance]

theorem distanceRow_eq (as bs : List α) :
    distanceRow as bs = bs.tails.map (editDistance as) := by
  induction as with
  | nil =>
      apply List.map_congr_left
      intro suffix _
      simp [editDistance]
  | cons a as ih =>
      rw [distanceRow, List.foldr_cons, ← distanceRow, ih, nextRow_eq]

theorem levenshtein_eq (as bs : List α) : levenshtein as bs = editDistance as bs := by
  rw [levenshtein, distanceRow_eq]
  cases bs <;> rfl

end Lib
