import Mathlib.Data.List.Infix
import Heimdall.Js.Value

/-!
# Regular expressions of the password rules

The patterns are runs of one character class and a back reference that repeats a
character. A test looks for a match at every position; its specification names the match
as a factor of the string.
-/
namespace Js

/-- `[class]{n,}` at the start of a string. -/
def runHere (cls : CodeUnit → Bool) (n : ℕ) (s : JsString) : Bool :=
  decide ((s.take n).length = n) && (s.take n).all cls

/-- `RegExp('[class]{n,}').test(s)`; `[class]` alone is a run of one. -/
def hasRun (cls : CodeUnit → Bool) (n : ℕ) (s : JsString) : Bool :=
  s.tails.any fun rest => runHere cls n rest

def repeatHere (n : ℕ) : JsString → Bool
  | [] => false
  | c :: rest => !isLineTerminator c && runHere (fun d => d == c) n rest

/-- `RegExp(/(.)\1{n,}/).test(s)` -/
def hasRepeat (n : ℕ) (s : JsString) : Bool := s.tails.any fun rest => repeatHere n rest

/-- The strings that `matchAll` finds for a class of single characters. -/
def matchAll (cls : CodeUnit → Bool) (s : JsString) : List JsString :=
  (s.filter cls).map fun c => [c]

theorem runHere_iff {cls : CodeUnit → Bool} {n : ℕ} {s : JsString} :
    runHere cls n s = true ↔ ∃ run rest, s = run ++ rest ∧ run.length = n ∧
      ∀ c ∈ run, cls c = true := by
  simp only [runHere, Bool.and_eq_true, decide_eq_true_eq, List.all_eq_true]
  constructor
  · rintro ⟨length, every⟩
    exact ⟨s.take n, s.drop n, (List.take_append_drop n s).symm, length, every⟩
  · rintro ⟨run, rest, rfl, rfl, every⟩
    rw [List.take_left]
    exact ⟨rfl, every⟩

/-- Some factor of length `n` lies in the class. -/
theorem hasRun_iff {cls : CodeUnit → Bool} {n : ℕ} {s : JsString} :
    hasRun cls n s = true ↔ ∃ before run after, s = before ++ run ++ after ∧
      run.length = n ∧ ∀ c ∈ run, cls c = true := by
  simp only [hasRun, List.any_eq_true, List.mem_tails, runHere_iff]
  constructor
  · rintro ⟨_, ⟨before, rfl⟩, run, after, rfl, length, every⟩
    exact ⟨before, run, after, by rw [List.append_assoc], length, every⟩
  · rintro ⟨before, run, after, rfl, length, every⟩
    exact ⟨run ++ after, ⟨before, by rw [List.append_assoc]⟩, run, after, rfl, length, every⟩

theorem hasRun_one {cls : CodeUnit → Bool} {s : JsString} :
    hasRun cls 1 s = true ↔ ∃ c ∈ s, cls c = true := by
  rw [hasRun_iff]
  constructor
  · rintro ⟨before, run, after, rfl, length, every⟩
    obtain ⟨c, rfl⟩ := List.length_eq_one_iff.mp length
    exact ⟨c, by simp, every c (List.mem_singleton_self c)⟩
  · rintro ⟨c, here, hc⟩
    obtain ⟨before, after, rfl⟩ := List.append_of_mem here
    exact ⟨before, [c], after, by simp, rfl, by simpa using hc⟩

/-- Some character other than a line terminator stands `n + 1` times in a row. -/
theorem hasRepeat_iff {n : ℕ} {s : JsString} :
    hasRepeat n s = true ↔ ∃ before c after, s = before ++ List.replicate (n + 1) c ++ after ∧
      isLineTerminator c = false := by
  simp only [hasRepeat, List.any_eq_true, List.mem_tails]
  constructor
  · rintro ⟨_ | ⟨c, rest⟩, ⟨before, rfl⟩, found⟩
    · cases found
    · simp only [repeatHere, Bool.and_eq_true, Bool.not_eq_true', runHere_iff, beq_iff_eq] at found
      obtain ⟨plain, run, after, rfl, length, every⟩ := found
      have same : run = List.replicate n c := List.eq_replicate_iff.mpr ⟨length, every⟩
      exact ⟨before, c, after, by simp [same, List.replicate_succ], plain⟩
  · rintro ⟨before, c, after, rfl, plain⟩
    refine ⟨List.replicate (n + 1) c ++ after, ⟨before, by simp⟩, ?_⟩
    simp only [List.replicate_succ, List.cons_append, repeatHere, plain, Bool.not_false,
      Bool.true_and, runHere_iff, beq_iff_eq]
    exact ⟨List.replicate n c, after, rfl, List.length_replicate,
      fun d hd => List.eq_of_mem_replicate hd⟩

/-! `JSON.stringify` of arrays of strings. -/

def hexDigit (n : ℕ) : CodeUnit := (if n < 10 then 48 + n else 87 + n).toUInt16

def unicodeEscape (c : CodeUnit) : JsString :=
  js "\\u" ++ [hexDigit (c.toNat / 4096), hexDigit (c.toNat / 256 % 16),
    hexDigit (c.toNat / 16 % 16), hexDigit (c.toNat % 16)]

def escapeUnit (c : CodeUnit) : JsString :=
  if c = 8 then js "\\b" else if c = 9 then js "\\t" else if c = 10 then js "\\n"
  else if c = 12 then js "\\f" else if c = 13 then js "\\r"
  else if c = 34 then js "\\\"" else if c = 92 then js "\\\\"
  else if c.toNat < 32 then unicodeEscape c else [c]

/-- Surrogates are kept in pairs and escaped alone. -/
def escapeUnits : JsString → JsString
  | [] => []
  | [c] => if isHighSurrogate c || isLowSurrogate c then unicodeEscape c else escapeUnit c
  | c :: d :: rest =>
      if isHighSurrogate c && isLowSurrogate d then c :: d :: escapeUnits rest
      else (if isHighSurrogate c || isLowSurrogate c then unicodeEscape c else escapeUnit c) ++
        escapeUnits (d :: rest)

def quote (s : JsString) : JsString := [34] ++ escapeUnits s ++ [34]

def stringifyArray (items : List JsString) : JsString := js "[" ++ join (js ",") items ++ js "]"

def stringifyMatches (found : List JsString) : JsString :=
  stringifyArray (found.map fun s => stringifyArray [quote s])

end Js
