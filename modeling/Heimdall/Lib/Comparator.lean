import Mathlib.Data.Int.Notation
import Mathlib.Data.List.Basic

/-!
# Comparison functions

Functions that compare two values and answer with a number: negative when the first value
comes before the second, positive when it comes after it. Lists are compared from the left.
-/
namespace Lib

variable {α : Type*}

/-- The comparison is that of a total preorder. -/
structure TotalPreorder (cmp : α → α → ℤ) : Prop where
  swap : ∀ a b, (cmp a b).sign = -(cmp b a).sign
  trans : ∀ a b c, cmp a b ≤ 0 → cmp b c ≤ 0 → cmp a c ≤ 0

namespace TotalPreorder
variable {cmp : α → α → ℤ} (lawful : TotalPreorder cmp)
include lawful

theorem self (a : α) : cmp a a = 0 := by
  have same := lawful.swap a a
  exact Int.sign_eq_zero_iff_zero.mp (by omega)

theorem neg_iff {a b : α} : cmp a b < 0 ↔ 0 < cmp b a := by
  rw [← Int.sign_eq_neg_one_iff_neg, ← Int.sign_eq_one_iff_pos, lawful.swap a b, Int.neg_inj]

theorem zero_iff {a b : α} : cmp a b = 0 ↔ cmp b a = 0 := by
  rw [← Int.sign_eq_zero_iff_zero, lawful.swap a b, Int.neg_eq_zero, Int.sign_eq_zero_iff_zero]

theorem nonpos_iff {a b : α} : cmp a b ≤ 0 ↔ 0 ≤ cmp b a := by
  have before := lawful.neg_iff (a := a) (b := b)
  have same := lawful.zero_iff (a := a) (b := b)
  omega

theorem total (a b : α) : cmp a b ≤ 0 ∨ cmp b a ≤ 0 := by
  rw [lawful.nonpos_iff (a := b)]
  omega

theorem trans_neg {a b c : α} (first : cmp a b ≤ 0) (second : cmp b c < 0) : cmp a c < 0 := by
  by_contra after
  have back : cmp c a ≤ 0 := lawful.nonpos_iff.mpr (by omega)
  have := lawful.nonpos_iff.mp (lawful.trans c a b back first)
  omega

theorem neg_trans {a b c : α} (first : cmp a b < 0) (second : cmp b c ≤ 0) : cmp a c < 0 := by
  by_contra after
  have back : cmp c a ≤ 0 := lawful.nonpos_iff.mpr (by omega)
  have := lawful.nonpos_iff.mp (lawful.trans b c a second back)
  omega

theorem zero_trans {a b c : α} (first : cmp a b = 0) (second : cmp b c = 0) : cmp a c = 0 := by
  have forth := lawful.trans a b c (Int.le_of_eq first) (Int.le_of_eq second)
  have back := lawful.trans c b a (Int.le_of_eq (lawful.zero_iff.mp second))
    (Int.le_of_eq (lawful.zero_iff.mp first))
  rw [lawful.nonpos_iff] at back
  omega

end TotalPreorder

/-- The distance of two ranks compares. -/
theorem totalPreorder_rank (rank : α → ℕ) : TotalPreorder fun a b => (rank a : ℤ) - rank b where
  swap a b := by rw [← Int.sign_neg, Int.neg_sub]
  trans a b c := by omega

section Lists
variable (cmp : α → α → ℤ)

/-- The first difference decides, then the length: the shorter list comes first. -/
def lexCompare : List α → List α → ℤ
  | a :: as, b :: bs =>
      let lc := cmp a b
      if lc ≠ 0 then lc else lexCompare as bs
  | as, bs => (as.length : ℤ) - bs.length

variable {cmp}

theorem lexCompare_nil (bs : List α) : lexCompare cmp [] bs = -bs.length := by
  rw [lexCompare]
  · simp
  · simp

theorem lexCompare_nil_right (as : List α) : lexCompare cmp as [] = as.length := by
  rw [lexCompare]
  · simp
  · simp

theorem lexCompare_of_differ {a b : α} (differ : cmp a b ≠ 0) (as bs : List α) :
    lexCompare cmp (a :: as) (b :: bs) = cmp a b := by
  rw [lexCompare]
  exact if_pos differ

theorem lexCompare_of_same {a b : α} (same : cmp a b = 0) (as bs : List α) :
    lexCompare cmp (a :: as) (b :: bs) = lexCompare cmp as bs := by
  rw [lexCompare]
  exact if_neg (not_not.mpr same)

/-- A list does not come after another when its first value comes before, or is as good and
the rest does not come after. -/
theorem lexCompare_cons_nonpos {a b : α} {as bs : List α} :
    lexCompare cmp (a :: as) (b :: bs) ≤ 0 ↔
      cmp a b < 0 ∨ cmp a b = 0 ∧ lexCompare cmp as bs ≤ 0 := by
  by_cases same : cmp a b = 0
  · rw [lexCompare_of_same same]
    simp [same]
  · rw [lexCompare_of_differ same]
    omega

theorem sign_lexCompare_swap (lawful : TotalPreorder cmp) (as bs : List α) :
    (lexCompare cmp as bs).sign = -(lexCompare cmp bs as).sign := by
  induction as generalizing bs with
  | nil => rw [lexCompare_nil, lexCompare_nil_right, Int.sign_neg]
  | cons a as ih =>
      cases bs with
      | nil => rw [lexCompare_nil, lexCompare_nil_right, Int.sign_neg, Int.neg_neg]
      | cons b bs =>
          by_cases same : cmp a b = 0
          · rw [lexCompare_of_same same, lexCompare_of_same (lawful.zero_iff.mp same), ih]
          · have other : cmp b a ≠ 0 := fun zero => same (lawful.zero_iff.mp zero)
            rw [lexCompare_of_differ same, lexCompare_of_differ other, lawful.swap]

theorem lexCompare_trans (lawful : TotalPreorder cmp) {as bs cs : List α}
    (first : lexCompare cmp as bs ≤ 0) (second : lexCompare cmp bs cs ≤ 0) :
    lexCompare cmp as cs ≤ 0 := by
  induction as generalizing bs cs with
  | nil =>
      rw [lexCompare_nil]
      omega
  | cons a as ih =>
      cases bs with
      | nil =>
          rw [lexCompare_nil_right, List.length_cons] at first
          omega
      | cons b bs =>
          cases cs with
          | nil =>
              rw [lexCompare_nil_right, List.length_cons] at second
              omega
          | cons c cs =>
              rw [lexCompare_cons_nonpos] at first second ⊢
              rcases first with first | ⟨same, first⟩
              · refine .inl (lawful.neg_trans first ?_)
                omega
              · rcases second with second | ⟨same', second⟩
                · exact .inl (lawful.trans_neg (Int.le_of_eq same) second)
                · exact .inr ⟨lawful.zero_trans same same', ih first second⟩

theorem TotalPreorder.lex (lawful : TotalPreorder cmp) : TotalPreorder (lexCompare cmp) where
  swap := sign_lexCompare_swap lawful
  trans _ _ _ := lexCompare_trans lawful

/-- A beginning comes first. -/
theorem lexCompare_of_prefix (lawful : TotalPreorder cmp) {as bs : List α} (starts : as <+: bs) :
    lexCompare cmp as bs ≤ 0 := by
  induction as generalizing bs with
  | nil =>
      rw [lexCompare_nil]
      omega
  | cons a as ih =>
      obtain ⟨rest, rfl⟩ := starts
      rw [List.cons_append, lexCompare_of_same (lawful.self a)]
      exact ih (List.prefix_append _ _)

end Lists
end Lib
