import Heimdall.Js.Pattern
import Heimdall.Backend.Validation

/-!
# Password pipes

The three pipes of the user endpoints, over any value. Each returns the value it was
given or throws; what an accepted value satisfies is stated after each pipe.
-/
namespace Backend
open Js

def passwordsMatchPipe (value : JsVal) : Except HttpError JsVal :=
  if !(value.get (js "currentPassword")).isNil && (value.get (js "password")).isNil &&
      (value.get (js "passwordConfirmation")).isNil then .ok value
  else if (value.get (js "password")).strictEq (value.get (js "passwordConfirmation")) then
    .ok value
  else .error (.badRequest "Passwords do not match")

/-- Every class must give another list of matches. -/
def classesChanged (future current : JsString) : Bool :=
  [isLower, isUpper, isDigit, isSpecial].all fun cls =>
    !(stringifyMatches (matchAll cls current) == stringifyMatches (matchAll cls future))

/-- Both passwords are strings, far enough apart, with every class changed. -/
def changedEnough (levenshtein : JsString → JsString → ℕ) : JsVal → JsVal → Bool
  | .str password, .str currentPassword =>
      decide (levenshtein password currentPassword > 8) && classesChanged password currentPassword
  | _, _ => false

def passwordChangePipe (levenshtein : JsString → JsString → ℕ) (value : JsVal) :
    Except HttpError JsVal :=
  if (!(value.get (js "password")).truthy && !(value.get (js "passwordConfirmation")).truthy) ||
      !(value.get (js "currentPassword")).truthy then .ok value
  else if changedEnough levenshtein (value.get (js "password"))
      (value.get (js "currentPassword")) then .ok value
  else .error (.badRequest
    ("A minimum of four character classes must be changed when updating a password." ++
      " A minimum of eight of the total number of characters must be changed when updating" ++
      " a password."))

def hasClasses (password : JsString) : Bool :=
  hasRun isLower 1 password && hasRun isUpper 1 password && hasRun isDigit 1 password &&
    hasRun isSpecial 1 password && hasRun (fun c => !isLineTerminator c) 15 password

def noRepeats (password : JsString) : Bool :=
  !(hasRepeat 3 password || hasRun isLower 4 password || hasRun isUpper 4 password ||
    hasRun isDigit 4 password || hasRun isSpecial 4 password)

def complexEnough : JsVal → Bool
  | .str password => hasClasses password && noRepeats password
  | _ => false

def passwordComplexityPipe (value : JsVal) : Except HttpError JsVal :=
  if !(value.get (js "password")).truthy && !(value.get (js "passwordConfirmation")).truthy then
    .ok value
  else if complexEnough (value.get (js "password")) then .ok value
  else .error (.badRequest
    ("Password does not meet complexity requirements. Passwords are a minimum of 15" ++
      " characters in length. Passwords must contain at least one special character, number," ++
      " upper-case letter, and lower-case letter. Passwords cannot contain more than three" ++
      " consecutive repeating characters. Passwords cannot contain more than four repeating" ++
      " characters from the same character class."))

/-- The rules of the complexity pipe, said without patterns. -/
structure Complex (password : JsString) : Prop where
  lower : ∃ c ∈ password, isLower c = true
  upper : ∃ c ∈ password, isUpper c = true
  digit : ∃ c ∈ password, isDigit c = true
  special : ∃ c ∈ password, isSpecial c = true
  long : ∃ before line after, password = before ++ line ++ after ∧ 15 ≤ line.length ∧
    ∀ c ∈ line, isLineTerminator c = false
  noRepeat : ∀ before c after, password = before ++ List.replicate 4 c ++ after →
    isLineTerminator c = true
  noRun : ∀ cls ∈ [isLower, isUpper, isDigit, isSpecial], ∀ before line after,
    password = before ++ line ++ after → line.length = 4 → ∃ c ∈ line, cls c = false

theorem hasClasses_iff {password : JsString} :
    hasClasses password = true ↔
      (∃ c ∈ password, isLower c = true) ∧ (∃ c ∈ password, isUpper c = true) ∧
      (∃ c ∈ password, isDigit c = true) ∧ (∃ c ∈ password, isSpecial c = true) ∧
      ∃ before line after, password = before ++ line ++ after ∧ line.length = 15 ∧
        ∀ c ∈ line, isLineTerminator c = false := by
  simp only [hasClasses, Bool.and_eq_true, hasRun_one, and_assoc]
  simp only [hasRun_iff, Bool.not_eq_true']

theorem hasRun_false {cls : CodeUnit → Bool} {password : JsString}
    (h : hasRun cls 4 password = false) : ∀ before line after,
      password = before ++ line ++ after → line.length = 4 → ∃ c ∈ line, cls c = false := by
  intro before line after factor length
  by_contra every
  have every : ∀ c ∈ line, cls c = true := by simpa using every
  have found := hasRun_iff.mpr ⟨before, line, after, factor, length, every⟩
  rw [h] at found
  cases found

theorem noRepeats_spec {password : JsString} (h : noRepeats password = true) :
    (∀ before c after, password = before ++ List.replicate 4 c ++ after →
      isLineTerminator c = true) ∧
    ∀ cls ∈ [isLower, isUpper, isDigit, isSpecial], ∀ before line after,
      password = before ++ line ++ after → line.length = 4 → ∃ c ∈ line, cls c = false := by
  simp only [noRepeats, Bool.not_eq_true', Bool.or_eq_false_iff] at h
  obtain ⟨⟨⟨⟨repeats, lower⟩, upper⟩, digit⟩, special⟩ := h
  refine ⟨?_, ?_⟩
  · intro before c after factor
    by_contra plain
    have plain : isLineTerminator c = false := by simpa using plain
    have found := hasRepeat_iff.mpr ⟨before, c, after, factor, plain⟩
    rw [repeats] at found
    cases found
  · intro cls hcls
    simp only [List.mem_cons, List.not_mem_nil, or_false] at hcls
    rcases hcls with rfl | rfl | rfl | rfl
    · exact hasRun_false lower
    · exact hasRun_false upper
    · exact hasRun_false digit
    · exact hasRun_false special

theorem complex_of_checks {password : JsString} (classes : hasClasses password = true)
    (repeats : noRepeats password = true) : Complex password := by
  obtain ⟨lower, upper, digit, special, before, line, after, factor, length, plain⟩ :=
    hasClasses_iff.mp classes
  obtain ⟨noRepeat, noRun⟩ := noRepeats_spec repeats
  exact ⟨lower, upper, digit, special, ⟨before, line, after, factor, length.ge, plain⟩,
    noRepeat, noRun⟩

theorem passwordsMatchPipe_ok {value out : JsVal} (h : passwordsMatchPipe value = .ok out) :
    out = value ∧
      ((value.get (js "password")).isNil = true ∨
        (value.get (js "password")).strictEq (value.get (js "passwordConfirmation")) = true) := by
  unfold passwordsMatchPipe at h
  split at h
  · rename_i skipped
    simp only [Bool.and_eq_true] at skipped
    exact ⟨(Except.ok.inj h).symm, .inl skipped.1.2⟩
  · split at h
    · rename_i same
      exact ⟨(Except.ok.inj h).symm, .inr same⟩
    · cases h

theorem classesChanged_iff {future current : JsString} (h : classesChanged future current = true) :
    ∀ cls ∈ [isLower, isUpper, isDigit, isSpecial],
      current.filter cls ≠ future.filter cls := by
  intro cls hcls same
  have differ := List.all_eq_true.mp h cls hcls
  simp [matchAll, same] at differ

theorem passwordChangePipe_ok {levenshtein : JsString → JsString → ℕ} {value out : JsVal}
    (h : passwordChangePipe levenshtein value = .ok out) {password currentPassword : JsString}
    (new : value.get (js "password") = .str password) (notEmpty : password ≠ [])
    (old : value.get (js "currentPassword") = .str currentPassword)
    (given : currentPassword ≠ []) :
    8 < levenshtein password currentPassword ∧
      ∀ cls ∈ [isLower, isUpper, isDigit, isSpecial],
        currentPassword.filter cls ≠ password.filter cls := by
  simp only [passwordChangePipe, new, old] at h
  split at h
  · rename_i skipped
    simp [JsVal.truthy, notEmpty, given] at skipped
  · split at h
    · rename_i accepted
      simp only [changedEnough, Bool.and_eq_true, decide_eq_true_eq] at accepted
      exact ⟨accepted.1, classesChanged_iff accepted.2⟩
    · cases h

theorem passwordChangePipe_same {levenshtein : JsString → JsString → ℕ} {value out : JsVal}
    (h : passwordChangePipe levenshtein value = .ok out) : out = value := by
  unfold passwordChangePipe at h
  split at h
  · exact (Except.ok.inj h).symm
  · split at h
    · exact (Except.ok.inj h).symm
    · cases h

theorem passwordComplexityPipe_ok {value out : JsVal}
    (h : passwordComplexityPipe value = .ok out) {password : JsString}
    (new : value.get (js "password") = .str password) (notEmpty : password ≠ []) :
    Complex password := by
  simp only [passwordComplexityPipe, new] at h
  split at h
  · rename_i skipped
    simp [JsVal.truthy, notEmpty] at skipped
  · split at h
    · rename_i accepted
      simp only [complexEnough, Bool.and_eq_true] at accepted
      exact complex_of_checks accepted.1 accepted.2
    · cases h

theorem passwordComplexityPipe_same {value out : JsVal}
    (h : passwordComplexityPipe value = .ok out) : out = value := by
  unfold passwordComplexityPipe at h
  split at h
  · exact (Except.ok.inj h).symm
  · split at h
    · exact (Except.ok.inj h).symm
    · cases h

end Backend
