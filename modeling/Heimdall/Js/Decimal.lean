import Mathlib.Algebra.Ring.Nat
import Mathlib.Data.Int.Notation
import Heimdall.Js.Text

/-!
# Numbers inside text

The decimal digits of a whole number, as a template literal writes it.
-/
namespace Js

/-- A whole number inside a template literal. -/
def decimal (n : ℕ) : JsString := (Nat.toDigits 10 n).map fun c => c.toNat.toUInt16

def signedDecimal : ℤ → JsString
  | .ofNat n => decimal n
  | .negSucc n => js "-" ++ decimal (n + 1)

theorem decimal_length_le {n k : ℕ} (some_digit : 0 < k) :
    (decimal n).length ≤ k ↔ n < 10 ^ k := by
  rw [decimal, List.length_map, Nat.length_toDigits_le_iff (by decide) some_digit]

/-- A digit character is one code unit. -/
theorem toNat_toDigits {n : ℕ} {d : Char} (inside : d ∈ Nat.toDigits 10 n) :
    d.toNat.toUInt16.toNat = d.toNat ∧ 48 ≤ d.toNat ∧ d.toNat ≤ 57 := by
  have digit := Nat.isDigit_of_mem_toDigits (by decide) (by decide) inside
  have low : 48 ≤ d.toNat := (Char.isDigit_iff_toNat.mp digit).1
  have high : d.toNat ≤ 57 := (Char.isDigit_iff_toNat.mp digit).2
  exact ⟨Nat.mod_eq_of_lt (by omega), low, high⟩

theorem isDigit_of_mem_decimal {n : ℕ} {c : CodeUnit} (hc : c ∈ decimal n) : isDigit c = true := by
  obtain ⟨d, inside, rfl⟩ := List.mem_map.mp hc
  obtain ⟨same, low, high⟩ := toNat_toDigits inside
  simp [isDigit, inRange, same, low, high]

/-- The digits are read back as the number. -/
theorem parseDigits_decimal (n : ℕ) : parseDigits (decimal n) = n := by
  have read : parseDigits (decimal n) = Nat.ofDigitChars 10 (Nat.toDigits 10 n) 0 := by
    unfold parseDigits decimal Nat.ofDigitChars
    rw [List.foldl_map]
    apply List.foldl_ext
    intro sofar c inside
    rw [(toNat_toDigits inside).1]
    rfl
  rw [read, Nat.ofDigitChars_ten_toDigits]

theorem decimal_injective : Function.Injective decimal := fun m n same => by
  rw [← parseDigits_decimal m, same, parseDigits_decimal]

end Js
