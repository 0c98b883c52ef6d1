import Heimdall.Js.Json
import Heimdall.Lib.EditDistance
import Heimdall.Backend.Pipes

/-!
# What the password pipes accept

The complexity pipe accepts exactly the strings that its rules describe. The pipe for a changed
password asks for one change more than its message does.
-/
namespace Backend
open Js Lib

section Complexity
variable {password : JsString}

theorem hasClasses_of_complex (complex : Complex password) : hasClasses password = true := by
  obtain ⟨before, line, after, factor, long, plain⟩ := complex.long
  refine hasClasses_iff.mpr ⟨complex.lower, complex.upper, complex.digit, complex.special,
    before, line.take 15, line.drop 15 ++ after, ?_, List.length_take_of_le long, ?_⟩
  · rw [factor, List.append_assoc, List.append_assoc, ← List.append_assoc (line.take 15),
      List.take_append_drop]
  · exact fun c inside => plain c (List.mem_of_mem_take inside)

theorem hasRun_eq_false {cls : CodeUnit → Bool} (noRun : ∀ before line after,
      password = before ++ line ++ after → line.length = 4 → ∃ c ∈ line, cls c = false) :
    hasRun cls 4 password = false := by
  refine Bool.eq_false_iff.mpr fun found => ?_
  obtain ⟨before, line, after, factor, length, every⟩ := hasRun_iff.mp found
  obtain ⟨c, inside, other⟩ := noRun before line after factor length
  rw [every c inside] at other
  cases other

theorem noRepeats_of_complex (complex : Complex password) : noRepeats password = true := by
  have runs : ∀ cls ∈ [isLower, isUpper, isDigit, isSpecial], hasRun cls 4 password = false :=
    fun cls listed => hasRun_eq_false (complex.noRun cls listed)
  simp only [List.forall_mem_cons] at runs
  obtain ⟨lower, upper, digit, special, -⟩ := runs
  have repeats : hasRepeat 3 password = false := by
    refine Bool.eq_false_iff.mpr fun found => ?_
    obtain ⟨before, c, after, factor, plain⟩ := hasRepeat_iff.mp found
    rw [complex.noRepeat before c after factor] at plain
    cases plain
  rw [noRepeats, repeats, lower, upper, digit, special]
  rfl

theorem complexEnough_iff : complexEnough (.str password) = true ↔ Complex password := by
  rw [complexEnough, Bool.and_eq_true]
  constructor
  · rintro ⟨classes, repeats⟩
    exact complex_of_checks classes repeats
  · exact fun complex => ⟨hasClasses_of_complex complex, noRepeats_of_complex complex⟩

/-- A password that is submitted is accepted exactly when it meets the rules. -/
theorem passwordComplexityPipe_iff {value : JsVal}
    (new : value.get (js "password") = .str password)
    (submitted : password ≠ [] ∨ (value.get (js "passwordConfirmation")).truthy = true) :
    (∃ out, passwordComplexityPipe value = .ok out) ↔ Complex password := by
  have notSkipped : ¬ (!(value.get (js "password")).truthy &&
      !(value.get (js "passwordConfirmation")).truthy) = true := by
    rw [new]
    rcases submitted with given | confirmed
    · simp [JsVal.truthy, given]
    · simp [confirmed]
  rw [passwordComplexityPipe, if_neg notSkipped, new, ← complexEnough_iff]
  by_cases accepted : complexEnough (.str password) = true
  · rw [if_pos accepted]
    exact iff_of_true ⟨_, rfl⟩ accepted
  · rw [if_neg accepted]
    refine iff_of_false ?_ accepted
    rintro ⟨out, ⟨⟩⟩

end Complexity

section Change

/-- A match inside the text of its list. -/
def matchText (s : JsString) : JsString := stringifyArray [quote s]

theorem delimits_matchText : Delimits matchText := by
  intro a b s t same
  have shape : ∀ a, matchText a = 91 :: (quote a ++ [93]) := fun a => rfl
  rw [shape, shape] at same
  have inside : quote a ++ ([93] ++ s) = quote b ++ ([93] ++ t) := by
    simpa using same
  obtain ⟨rfl, rest⟩ := delimits_quote a b _ _ inside
  exact ⟨rfl, List.append_cancel_left rest⟩

/-- The text of a list of matches determines the matches. -/
theorem stringifyMatches_injective : Function.Injective stringifyMatches := by
  have lists : Delimits (listCode matchText 44 93) :=
    delimits_matchText.list (by decide) fun a => ⟨91, _, rfl, by decide⟩
  intro found found' same
  apply lists.injective
  rw [← join_close, ← join_close]
  exact (List.cons.inj same).2

theorem classesChanged_eq_true {future current : JsString} : classesChanged future current = true ↔
    ∀ cls ∈ [isLower, isUpper, isDigit, isSpecial], current.filter cls ≠ future.filter cls := by
  rw [classesChanged, List.all_eq_true]
  refine forall₂_congr fun cls _ => ?_
  have singles : Function.Injective (List.map fun c : CodeUnit => [c]) :=
    List.map_injective_iff.mpr fun a b same => (List.cons.inj same).1
  rw [Bool.not_eq_true', beq_eq_false_iff_ne]
  exact (stringifyMatches_injective.comp singles).ne_iff

/-- Each of the four classes has other characters in the one password than in the other. -/
def ClassesDiffer (password currentPassword : JsString) : Prop :=
  ∀ cls ∈ [isLower, isUpper, isDigit, isSpecial], currentPassword.filter cls ≠ password.filter cls

variable {levenshtein : JsString → JsString → ℕ} {value : JsVal}
  {password currentPassword : JsString}
  (new : value.get (js "password") = .str password) (given : password ≠ [])
  (old : value.get (js "currentPassword") = .str currentPassword) (known : currentPassword ≠ [])
include new given old known

theorem passwordChangePipe_accepts : (∃ out, passwordChangePipe levenshtein value = .ok out) ↔
    8 < levenshtein password currentPassword ∧ ClassesDiffer password currentPassword := by
  have notSkipped : ¬ ((!(value.get (js "password")).truthy &&
      !(value.get (js "passwordConfirmation")).truthy) ||
        !(value.get (js "currentPassword")).truthy) = true := by
    simp [new, old, JsVal.truthy, given, known]
  have enough : changedEnough levenshtein (.str password) (.str currentPassword) = true ↔
      8 < levenshtein password currentPassword ∧ ClassesDiffer password currentPassword := by
    rw [changedEnough, Bool.and_eq_true, decide_eq_true_eq, classesChanged_eq_true]
    rfl
  rw [passwordChangePipe, if_neg notSkipped, new, old, ← enough]
  by_cases accepted : changedEnough levenshtein (.str password) (.str currentPassword) = true
  · rw [if_pos accepted]
    exact iff_of_true ⟨_, rfl⟩ accepted
  · rw [if_neg accepted]
    refine iff_of_false ?_ accepted
    rintro ⟨out, ⟨⟩⟩

/-- The pipe asks for eight changes and for a change in each class, as its message says, unless
the classes differ and exactly eight changes lead from the one password to the other. -/
theorem passwordChangePipe_iff
    (distance : ∀ future current, levenshtein future current = editDistance future current) :
    ((∃ out, passwordChangePipe levenshtein value = .ok out) ↔
      8 ≤ editDistance password currentPassword ∧ ClassesDiffer password currentPassword) ↔
    ¬ (editDistance password currentPassword = 8 ∧ ClassesDiffer password currentPassword) := by
  rw [passwordChangePipe_accepts new given old known, distance]
  by_cases differ : ClassesDiffer password currentPassword
  · simp only [differ, and_true]
    omega
  · simp [differ]

end Change

section Samples

/-- A body with these two passwords. -/
def passwordBody (password currentPassword : String) : JsVal := .object
  [(js "password", .str (js password)), (js "passwordConfirmation", .str (js password)),
   (js "currentPassword", .str (js currentPassword))]

theorem passwordComplexityPipe_iff_sample : ∃ out,
    passwordComplexityPipe (passwordBody "xY7$zW8%vU9&tS0" "") = .ok out := by
  have complex : Complex (js "xY7$zW8%vU9&tS0") := complexEnough_iff.mp (by decide +kernel)
  exact (passwordComplexityPipe_iff (by rfl) (.inl (by decide))).mpr complex

theorem passwordChangePipe_iff_sample :
    (∃ out, passwordChangePipe Lib.levenshtein (passwordBody "bB2?bB2?b" "aA1!aA1!a") = .ok out) ↔
      8 ≤ editDistance (js "bB2?bB2?b") (js "aA1!aA1!a") ∧
        ClassesDiffer (js "bB2?bB2?b") (js "aA1!aA1!a") := by
  refine (@passwordChangePipe_iff Lib.levenshtein (passwordBody "bB2?bB2?b" "aA1!aA1!a")
    (js "bB2?bB2?b") (js "aA1!aA1!a") (by rfl) (by decide) (by rfl) (by decide)
    Lib.levenshtein_eq).mpr ?_
  rintro ⟨eight, -⟩
  have nine : Lib.levenshtein (js "bB2?bB2?b") (js "aA1!aA1!a") = 9 := by decide +kernel
  rw [Lib.levenshtein_eq, eight] at nine
  exact absurd nine (by decide)

/-- Eight changes, with all four classes among them, are turned down. -/
theorem eight_changes_rejected :
    8 ≤ editDistance (js "bB2?bB2?") (js "aA1!aA1!") ∧
      ClassesDiffer (js "bB2?bB2?") (js "aA1!aA1!") ∧
      ¬ ∃ out, passwordChangePipe Lib.levenshtein (passwordBody "bB2?bB2?" "aA1!aA1!") =
        .ok out := by
  have eight : Lib.levenshtein (js "bB2?bB2?") (js "aA1!aA1!") = 8 := by decide +kernel
  have changed : classesChanged (js "bB2?bB2?") (js "aA1!aA1!") = true := by decide +kernel
  refine ⟨?_, classesChanged_eq_true.mp changed, ?_⟩
  · rw [← Lib.levenshtein_eq, eight]
  rintro ⟨out, accepted⟩
  have rejected : (passwordChangePipe Lib.levenshtein (passwordBody "bB2?bB2?" "aA1!aA1!")).toBool =
      false := by decide +kernel
  rw [accepted] at rejected
  cases rejected

end Samples
end Backend
