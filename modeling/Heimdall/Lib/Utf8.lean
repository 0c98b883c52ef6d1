import Mathlib.Data.List.Basic

/-!
# Reading UTF-8

A decoder that reads one byte at a time and never fails: what is not UTF-8 becomes U+FFFD.
Its output is a text of UTF-16 code units, never longer than the bytes it was read from.
-/
namespace Lib

/-- A character that has been begun: how many bytes are missing after the next one, what the
next one may be, and the bits read so far. -/
structure Begun where
  more : ℕ
  lower : ℕ
  upper : ℕ
  bits : ℕ

def replacement : ℕ := 0xFFFD

/-- The first byte of a character of several bytes. -/
def lead (byte : ℕ) : Option Begun :=
  if 0xC2 ≤ byte ∧ byte ≤ 0xDF then
    some ⟨0, 0x80, 0xBF, byte - 0xC0⟩
  else if 0xE0 ≤ byte ∧ byte ≤ 0xEF then
    some ⟨1, if byte = 0xE0 then 0xA0 else 0x80, if byte = 0xED then 0x9F else 0xBF, byte - 0xE0⟩
  else if 0xF0 ≤ byte ∧ byte ≤ 0xF4 then
    some ⟨2, if byte = 0xF0 then 0x90 else 0x80, if byte = 0xF4 then 0x8F else 0xBF, byte - 0xF0⟩
  else none

/-- A byte between characters: the code points it gives and what it begins. -/
def begin (byte : ℕ) : List ℕ × Option Begun :=
  if byte < 0x80 then ([byte], none)
  else
    match lead byte with
    | some begun => ([], some begun)
    | none => ([replacement], none)

/-- A byte after the beginning of a character. One that does not continue it is read again
as if it came between characters. -/
def proceed (begun : Begun) (byte : ℕ) : List ℕ × Option Begun :=
  if begun.lower ≤ byte ∧ byte ≤ begun.upper then
    match begun.more with
    | 0 => ([begun.bits * 64 + byte % 64], none)
    | more + 1 => ([], some ⟨more, 0x80, 0xBF, begun.bits * 64 + byte % 64⟩)
  else (replacement :: (begin byte).1, (begin byte).2)

/-- The code points of the bytes, read after what has been begun. -/
def codePoints : Option Begun → List UInt8 → List ℕ
  | none, [] => []
  | some _, [] => [replacement]
  | none, byte :: rest =>
      (begin byte.toNat).1 ++ codePoints (begin byte.toNat).2 rest
  | some begun, byte :: rest =>
      (proceed begun byte.toNat).1 ++ codePoints (proceed begun byte.toNat).2 rest

/-- The UTF-16 code units of a code point. -/
def codeUnits (point : ℕ) : List UInt16 :=
  if point < 0x10000 then [point.toUInt16]
  else [(0xD800 + (point - 0x10000) / 0x400).toUInt16,
    (0xDC00 + (point - 0x10000) % 0x400).toUInt16]

def units (begun : Option Begun) (bytes : List UInt8) : List UInt16 :=
  (codePoints begun bytes).flatMap codeUnits

/-- A byte order mark at the start is not part of the text. -/
def withoutMark : List UInt8 → List UInt8
  | 0xEF :: 0xBB :: 0xBF :: rest => rest
  | bytes => bytes

def utf8Decode (bytes : List UInt8) : List UInt16 := units none (withoutMark bytes)

theorem codeUnits_length (point : ℕ) : (codeUnits point).length ≤ 2 := by
  unfold codeUnits
  split
  · exact Nat.le_succ 1
  · exact Nat.le_refl 2

theorem codeUnits_small {point : ℕ} (small : point < 0x10000) :
    codeUnits point = [point.toUInt16] := if_pos small

@[simp] theorem units_nil : units none [] = [] := rfl

@[simp] theorem units_begun_nil (begun : Begun) : units (some begun) [] = [0xFFFD] := rfl

theorem units_cons (byte : UInt8) (rest : List UInt8) :
    units none (byte :: rest) =
      (begin byte.toNat).1.flatMap codeUnits ++ units (begin byte.toNat).2 rest := by
  rw [units, codePoints, List.flatMap_append, units]

theorem units_begun_cons (begun : Begun) (byte : UInt8) (rest : List UInt8) :
    units (some begun) (byte :: rest) =
      (proceed begun byte.toNat).1.flatMap codeUnits ++
        units (proceed begun byte.toNat).2 rest := by
  rw [units, codePoints, List.flatMap_append, units]

/-- The three kinds of byte between characters. -/
theorem begin_cases (byte : ℕ) :
    (byte < 0x80 ∧ begin byte = ([byte], none)) ∨
      (∃ begun, lead byte = some begun ∧ begin byte = ([], some begun)) ∨
      (0x80 ≤ byte ∧ lead byte = none ∧ begin byte = ([replacement], none)) := by
  unfold begin
  by_cases ascii : byte < 0x80
  · exact .inl ⟨ascii, if_pos ascii⟩
  · cases first : lead byte with
    | some begun => exact .inr (.inl ⟨begun, rfl, if_neg ascii⟩)
    | none => exact .inr (.inr ⟨Nat.le_of_not_lt ascii, rfl, if_neg ascii⟩)

/-- A character of two bytes has a code point below 0x800. -/
theorem lead_bits {byte : ℕ} {begun : Begun} (first : lead byte = some begun)
    (last : begun.more = 0) : begun.bits < 0x20 := by
  unfold lead at first
  split at first
  · next range =>
    cases first
    have small : byte - 0xC0 < 0x20 := by omega
    exact small
  · split at first
    · cases first
      exact absurd last Nat.one_ne_zero
    · split at first
      · cases first
        exact absurd last (Nat.succ_ne_zero 1)
      · cases first

/-- A text between characters is no longer than its bytes; one that has been begun owes at most
one unit more. -/
theorem units_length (bytes : List UInt8) :
    (units none bytes).length ≤ bytes.length ∧
      ∀ begun, (units (some begun) bytes).length ≤ bytes.length + 1 := by
  induction bytes with
  | nil => exact ⟨Nat.le_refl 0, fun _ => Nat.le_refl 1⟩
  | cons byte rest ih =>
      have fresh : ((begin byte.toNat).1.flatMap codeUnits ++
          units (begin byte.toNat).2 rest).length ≤ rest.length + 1 := by
        rcases begin_cases byte.toNat with ⟨small, here⟩ | ⟨begun, -, here⟩ | ⟨-, -, here⟩
        · rw [here, List.flatMap_singleton, codeUnits_small (by omega)]
          simpa using ih.1
        · rw [here]
          simpa using ih.2 begun
        · rw [here, List.flatMap_singleton, codeUnits_small (by decide)]
          simpa using ih.1
      constructor
      · rw [units_cons]
        exact fresh
      · intro begun
        rw [units_begun_cons, proceed]
        split
        · split
          · have point := codeUnits_length (begun.bits * 64 + byte.toNat % 64)
            have later := ih.1
            simp only [List.flatMap_singleton, List.length_append, List.length_cons]
            omega
          · next more _ =>
            have later := ih.2 ⟨more, 0x80, 0xBF, begun.bits * 64 + byte.toNat % 64⟩
            simp only [List.flatMap_nil, List.nil_append, List.length_cons]
            omega
        · rw [List.flatMap_cons, codeUnits_small (by decide), List.append_assoc]
          exact Nat.succ_le_succ fresh

theorem units_ascii {byte : UInt8} (ascii : byte.toNat < 0x80) (rest : List UInt8) :
    units none (byte :: rest) = byte.toNat.toUInt16 :: units none rest := by
  have here : begin byte.toNat = ([byte.toNat], none) := if_pos ascii
  rw [units_cons, here, List.flatMap_singleton, codeUnits_small (by omega)]
  rfl

theorem units_stray {byte : UInt8} (high : 0x80 ≤ byte.toNat) (stray : lead byte.toNat = none)
    (rest : List UInt8) : units none (byte :: rest) = 0xFFFD :: units none rest := by
  have here : begin byte.toNat = ([replacement], none) := by
    rw [begin, if_neg (Nat.not_lt.mpr high), stray]
  rw [units_cons, here]
  rfl

theorem units_lead {byte : UInt8} {begun : Begun} (first : lead byte.toNat = some begun)
    (rest : List UInt8) : units none (byte :: rest) = units (some begun) rest := by
  rcases begin_cases byte.toNat with ⟨small, -⟩ | ⟨same, found, here⟩ | ⟨-, stray, -⟩
  · have high : 0x80 ≤ byte.toNat := by
      by_contra low
      rw [lead, if_neg (by omega), if_neg (by omega), if_neg (by omega)] at first
      cases first
    omega
  · rw [first] at found
    cases found
    rw [units_cons, here]
    rfl
  · rw [first] at stray
    cases stray

/-- A character of several bytes is read as U+FFFD, or leaves fewer units than bytes. -/
theorem units_after_lead {byte : ℕ} {begun : Begun} (first : lead byte = some begun)
    (rest : List UInt8) :
    (∃ later, units (some begun) rest = 0xFFFD :: later) ∨
      (units (some begun) rest).length ≤ rest.length := by
  cases rest with
  | nil => exact .inl ⟨[], rfl⟩
  | cons next rest =>
      rw [units_begun_cons, proceed]
      split
      · refine .inr ?_
        split
        · next last =>
          have bits := lead_bits first last
          have later := (units_length rest).1
          rw [List.flatMap_singleton, codeUnits_small (by omega)]
          exact Nat.succ_le_succ later
        · next more _ =>
          exact (units_length rest).2 ⟨more, 0x80, 0xBF, begun.bits * 64 + next.toNat % 64⟩
      · exact .inl ⟨_, rfl⟩

/-- A text that comes out as long as its bytes had no mark to take off. -/
theorem utf8Decode_full {bytes : List UInt8} (full : (utf8Decode bytes).length = bytes.length) :
    utf8Decode bytes = units none bytes := by
  unfold utf8Decode withoutMark at full ⊢
  split at full
  · next rest =>
    have short := (units_length rest).1
    simp only [List.length_cons] at full
    omega
  · rfl

theorem withoutMark_of_head {byte : UInt8} (other : byte ≠ 0xEF) (rest : List UInt8) :
    withoutMark (byte :: rest) = byte :: rest := by
  unfold withoutMark
  split
  · next same => exact absurd (List.cons.inj same).1 other
  · rfl

end Lib
