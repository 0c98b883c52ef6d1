import Heimdall.Lib.Utf8
import Heimdall.Js.Text

/-!
# The bytes of an HTML export

`s2ab` keeps the low byte of every code unit. The template declares UTF-8, so the file is
read back as UTF-8.
-/
namespace Frontend
open Js Lib

/-- `s.charCodeAt(i) & 0xff` -/
def octet (c : CodeUnit) : UInt8 := (c &&& 0xff).toUInt8

/-- Converts a string to an array buffer -/
def s2ab (s : JsString) : List UInt8 := s.map octet

@[simp] theorem s2ab_cons (c : CodeUnit) (s : JsString) :
    s2ab (c :: s) = octet c :: s2ab s := rfl

theorem octet_toNat (c : CodeUnit) : (octet c).toNat = c.toNat % 256 := by
  have low : c.toNat &&& 255 = c.toNat % 256 := Nat.and_two_pow_sub_one_eq_mod _ 8
  simp only [octet, UInt16.toNat_toUInt8, UInt16.toNat_and, UInt16.reduceToNat]
  rw [low]
  exact Nat.mod_mod _ _

/-- A code unit that the low byte stands for: ASCII, or the replacement character, which its low
byte 0xFD is read as. -/
def Preserved (c : CodeUnit) : Prop := c.toNat < 0x80 ∨ c = 0xFFFD

instance (c : CodeUnit) : Decidable (Preserved c) := inferInstanceAs (Decidable (_ ∨ _))

theorem octet_stray : lead (octet 0xFFFD).toNat = none := rfl

theorem preserved_reads (s : JsString) (preserved : ∀ c ∈ s, Preserved c) :
    units none (s2ab s) = s := by
  induction s with
  | nil => rfl
  | cons c s ih =>
      rw [List.forall_mem_cons] at preserved
      have later := ih preserved.2
      rw [s2ab_cons]
      rcases preserved.1 with ascii | rfl
      · have low : (octet c).toNat = c.toNat := by
          rw [octet_toNat]
          omega
        rw [units_ascii (by omega), low, Nat.toUInt16_eq, UInt16.ofNat_toNat]
        exact congrArg (c :: ·) later
      · rw [units_stray (by decide) octet_stray]
        exact congrArg (0xFFFD :: ·) later

theorem preserved_no_mark (s : JsString) (preserved : ∀ c ∈ s, Preserved c) :
    withoutMark (s2ab s) = s2ab s := by
  cases s with
  | nil => rfl
  | cons c s =>
      apply withoutMark_of_head
      intro mark
      have low : (octet c).toNat = 0xEF := congrArg UInt8.toNat mark
      rw [octet_toNat] at low
      rcases preserved c List.mem_cons_self with ascii | rfl
      · omega
      · exact absurd low (by decide)

/-- No unit is read from a byte that begins a longer character. -/
theorem reads_preserved (s : JsString) (reads : units none (s2ab s) = s) :
    ∀ c ∈ s, Preserved c := by
  induction s with
  | nil => exact List.forall_mem_nil _
  | cons c s ih =>
      rw [s2ab_cons] at reads
      rcases begin_cases (octet c).toNat with ⟨ascii, -⟩ | ⟨begun, first, -⟩ | ⟨high, stray, -⟩
      · rw [units_ascii ascii] at reads
        obtain ⟨here, later⟩ := List.cons.inj reads
        refine List.forall_mem_cons.mpr ⟨.inl ?_, ih later⟩
        rw [← here]
        simpa using ascii
      · rw [units_lead first] at reads
        rcases units_after_lead first (s2ab s) with ⟨later, replaced⟩ | short
        · rw [replaced] at reads
          rw [← (List.cons.inj reads).1, octet_stray] at first
          cases first
        · have full := congrArg List.length reads
          simp only [s2ab, List.length_map, List.length_cons] at full short
          omega
      · rw [units_stray high stray] at reads
        obtain ⟨here, later⟩ := List.cons.inj reads
        exact List.forall_mem_cons.mpr ⟨.inr here.symm, ih later⟩

/-- An exported page is read back as it was rendered exactly when the page is ASCII, apart from
replacement characters. -/
theorem utf8Decode_s2ab (body : JsString) :
    utf8Decode (s2ab body) = body ↔ ∀ c ∈ body, Preserved c := by
  constructor
  · intro same
    apply reads_preserved
    rw [← utf8Decode_full (by rw [same, s2ab, List.length_map])]
    exact same
  · intro preserved
    rw [utf8Decode, preserved_no_mark body preserved]
    exact preserved_reads body preserved

theorem utf8Decode_accent : utf8Decode (s2ab (js "café")) ≠ js "café" := by decide +kernel

end Frontend
