import Mathlib.Data.List.Lex
import Heimdall.Lib.Comparator
import Heimdall.Inspec.Nist

/-!
# The order of the NIST tags

Parsed controls are compared specifier by specifier. The order of the specifiers is that of
the Unicode tables; where it is a total preorder, so is the order of the controls.
-/
namespace Inspec
open Js Lib

/-- The comparison of strings is that of a total preorder. -/
abbrev Collates [UnicodeTables] : Prop := TotalPreorder UnicodeTables.localeCompare

section Ascii

theorem toNat_injective : Function.Injective (List.map UInt16.toNat) :=
  List.map_injective_iff.mpr fun _ _ same => UInt16.toNat_inj.mp same

theorem ascii_compare (a b : JsString) : @UnicodeTables.localeCompare asciiTables a b =
    if a.map UInt16.toNat < b.map UInt16.toNat then -1 else if a = b then 0 else 1 := rfl

theorem ascii_nonpos {a b : JsString} : @UnicodeTables.localeCompare asciiTables a b ≤ 0 ↔
    a.map UInt16.toNat ≤ b.map UInt16.toNat := by
  rw [ascii_compare, le_iff_lt_or_eq (a := a.map UInt16.toNat), toNat_injective.eq_iff]
  by_cases before : a.map UInt16.toNat < b.map UInt16.toNat
  · simp [before]
  · by_cases same : a = b
    · simp [same]
    · simp [before, same]

theorem asciiTables_collates : @Collates asciiTables := by
  refine @TotalPreorder.mk _ _ (fun a b => ?_) fun a b c ab bc => ?_
  · rw [ascii_compare, ascii_compare]
    rcases lt_trichotomy (a.map UInt16.toNat) (b.map UInt16.toNat) with before | same | after
    · have other : a ≠ b := fun same => (ne_of_lt before) (congrArg _ same)
      rw [if_pos before, if_neg (lt_asymm before), if_neg other.symm]
      rfl
    · rw [toNat_injective same, if_neg (lt_irrefl _), if_pos rfl]
      rfl
    · have other : a ≠ b := fun same => (ne_of_gt after) (congrArg _ same)
      rw [if_neg (lt_asymm after), if_neg other, if_pos after]
      rfl
  · rw [ascii_nonpos] at ab bc ⊢
    exact le_trans ab bc

end Ascii

namespace NistControl

section Chains
variable [UnicodeTables]

theorem compareChains_eq (as bs : List JsString) :
    compareChains as bs = lexCompare UnicodeTables.localeCompare as bs := by
  induction as generalizing bs with
  | nil => cases bs <;> rfl
  | cons a as ih =>
      cases bs with
      | nil => rfl
      | cons b bs =>
          rw [compareChains, lexCompare, ih]

theorem localCompare_eq (this other : NistControl) : this.localCompare other =
    lexCompare UnicodeTables.localeCompare this.subSpecifiers other.subSpecifiers :=
  compareChains_eq _ _

theorem localCompare_preorder (collates : Collates) :
    TotalPreorder (localCompare : NistControl → NistControl → ℤ) where
  swap a b := by
    rw [localCompare_eq, localCompare_eq]
    exact collates.lex.swap _ _
  trans a b c := by
    rw [localCompare_eq, localCompare_eq, localCompare_eq]
    exact collates.lex.trans _ _ _

end Chains

section Lineage
variable {this other : NistControl}

/-- What is behind the place decides, once the chains agree before it. -/
theorem lineageFrom_append (before : List JsString) (as bs : List JsString) :
    lineageFrom (before ++ as) (before ++ bs) before.length as.length =
      if as <+: bs then (bs.length : ℤ) - as.length else -1 := by
  induction as generalizing before bs with
  | nil =>
      rw [List.length_nil, lineageFrom, List.append_nil, List.length_append,
        if_pos List.nil_prefix]
      omega
  | cons a as ih =>
      cases bs with
      | nil =>
          rw [List.length_cons, lineageFrom, if_pos (by simp), if_neg (by simp)]
      | cons b bs =>
          rw [List.length_cons, lineageFrom, List.getElem?_append_right (Nat.le_refl _),
            List.getElem?_append_right (Nat.le_refl _), Nat.sub_self]
          by_cases same : a = b
          · subst same
            have next := ih (before ++ [a]) bs
            simp only [List.append_assoc, List.singleton_append, List.length_append,
              List.length_singleton] at next
            rw [if_neg (by simp), next, List.length_cons]
            simp only [List.prefix_cons_inj]
            push_cast
            rw [Int.add_sub_add_right]
          · rw [if_pos (by simpa using same), if_neg fun starts => same (List.cons_prefix_cons.mp starts).1]

/-- The lineage compares the whole chains. -/
theorem compare_lineage_eq (this other : NistControl) : this.compare_lineage other =
    if this.subSpecifiers <+: other.subSpecifiers then
      (other.subSpecifiers.length : ℤ) - this.subSpecifiers.length
    else -1 := by
  have walk := lineageFrom_append [] this.subSpecifiers other.subSpecifiers
  rw [List.nil_append, List.nil_append, List.length_nil] at walk
  rw [compare_lineage, walk]
  split
  · next longer => rw [if_neg fun starts => Nat.not_lt.mpr starts.length_le longer]
  · rfl

theorem compare_lineage_below (starts : this.subSpecifiers <+: other.subSpecifiers) :
    this.compare_lineage other =
      (other.subSpecifiers.length : ℤ) - this.subSpecifiers.length := by
  rw [compare_lineage_eq, if_pos starts]

theorem compare_lineage_unrelated (unrelated : ¬ this.subSpecifiers <+: other.subSpecifiers) :
    this.compare_lineage other = -1 := by
  rw [compare_lineage_eq, if_neg unrelated]

/-- A control contains those whose chain begins with its own. -/
theorem contains_iff :
    this.contains other = true ↔ this.subSpecifiers <+: other.subSpecifiers := by
  rw [contains, decide_eq_true_iff]
  by_cases starts : this.subSpecifiers <+: other.subSpecifiers
  · have shorter := starts.length_le
    rw [compare_lineage_below starts]
    exact iff_of_true (by omega) starts
  · rw [compare_lineage_unrelated starts]
    exact iff_of_false (fun differ => differ rfl) starts

end Lineage
end NistControl
end Inspec
