import Heimdall.Inspec.NistOrder

/-!
# Lineage of NIST controls

How many enhancements a control adds to another one, and the order in which a control is above
those whose chain begins with its own.
-/
namespace Inspec.NistControl
open Js

section Lineage
variable {a b c : NistControl}

theorem compare_lineage_append {further : List JsString}
    (longer : b.subSpecifiers = a.subSpecifiers ++ further) :
    a.compare_lineage b = further.length := by
  have length : b.subSpecifiers.length = a.subSpecifiers.length + further.length := by
    rw [longer, List.length_append]
  rw [compare_lineage_below ⟨further, longer.symm⟩]
  omega

/-- The lineage counts what the chain of the other control has beyond that of this one. -/
theorem compare_lineage_eq_iff (k : ℕ) : a.compare_lineage b = k ↔
    ∃ further, b.subSpecifiers = a.subSpecifiers ++ further ∧ further.length = k := by
  constructor
  · intro same
    by_cases starts : a.subSpecifiers <+: b.subSpecifiers
    · obtain ⟨further, longer⟩ := starts
      rw [compare_lineage_append longer.symm] at same
      exact ⟨further, longer.symm, Int.ofNat.inj same⟩
    · rw [compare_lineage_unrelated starts] at same
      omega
  · rintro ⟨further, longer, rfl⟩
    exact compare_lineage_append longer

theorem compare_lineage_add {m n : ℕ} (first : a.compare_lineage b = m)
    (second : b.compare_lineage c = n) : a.compare_lineage c = (m + n : ℕ) := by
  obtain ⟨further, between, rfl⟩ := (compare_lineage_eq_iff m).mp first
  obtain ⟨beyond, above, rfl⟩ := (compare_lineage_eq_iff n).mp second
  refine (compare_lineage_eq_iff _).mpr ⟨further ++ beyond, ?_, List.length_append⟩
  rw [above, between, List.append_assoc]

/-- Lineage is additive, and containment is an order on the chains. -/
theorem lineage_additive (a b c : NistControl) :
    (∀ k : ℕ, a.compare_lineage b = k ↔
      ∃ further, b.subSpecifiers = a.subSpecifiers ++ further ∧ further.length = k) ∧
    (¬ a.subSpecifiers <+: b.subSpecifiers ↔ a.compare_lineage b = -1) ∧
    (∀ m n : ℤ, 0 ≤ m → 0 ≤ n → a.compare_lineage b = m → b.compare_lineage c = n →
      a.compare_lineage c = m + n) ∧
    a.contains a = true ∧
    (a.contains b = true → b.contains c = true → a.contains c = true) ∧
    (a.contains b = true → b.contains a = true → a.subSpecifiers = b.subSpecifiers) := by
  refine ⟨compare_lineage_eq_iff, ⟨compare_lineage_unrelated, fun same starts => ?_⟩,
    ?_, ?_, ?_, ?_⟩
  · exact of_decide_eq_true (contains_iff.mpr starts) same
  · intro m n positive positive' first second
    obtain ⟨m, rfl⟩ := Int.eq_ofNat_of_zero_le positive
    obtain ⟨n, rfl⟩ := Int.eq_ofNat_of_zero_le positive'
    rw [compare_lineage_add first second, Int.natCast_add]
  · exact contains_iff.mpr (List.prefix_refl _)
  · intro first second
    exact contains_iff.mpr ((contains_iff.mp first).trans (contains_iff.mp second))
  · intro first second
    exact (contains_iff.mp first).eq_of_length_le (contains_iff.mp second).length_le

end Lineage
end Inspec.NistControl
