import Heimdall.Inspec.ExecJson
import Heimdall.Inspec.Nist

/-!
# The HDF view of a control

The derived fields that are computed as soon as a control is wrapped: NIST tags,
severity, segments, status and message. The NIST tags fail exactly when the free-form tag
is neither falsy nor a list of strings. Nothing else of an evaluation fails; a profile's
control with results is taken for one of an execution, which its descriptions are not.
-/
namespace Inspec
open Js Lib

inductive ControlStatus where
  | notApplicable | fromProfile | profileError | passed | failed | notReviewed
  deriving DecidableEq, Repr

inductive Severity where
  | none | low | medium | high | critical
  deriving DecidableEq, Repr

/-- The string that the status is. -/
def ControlStatus.text : ControlStatus → JsString
  | notApplicable => js "Not Applicable"
  | fromProfile => js "From Profile"
  | profileError => js "Profile Error"
  | passed => js "Passed"
  | failed => js "Failed"
  | notReviewed => js "Not Reviewed"

def Severity.text : Severity → JsString
  | none => js "none"
  | low => js "low"
  | medium => js "medium"
  | high => js "high"
  | critical => js "critical"

inductive SegmentStatus where
  | passed | failed | skipped | error | no_status
  deriving DecidableEq, Repr

structure HDFControlSegment where
  status : SegmentStatus
  message : Option JsString
  code_desc : JsString
  skip_message : Option JsString
  exception : Option JsString
  backtrace : Option (List JsString)
  start_time : JsString
  run_time : Option JsNumber
  resource : Option JsString
  deriving DecidableEq

/-- What a control of a profile file has under `results`, which its type does not declare. -/
inductive ProfileResults where
  | absent
  | list (results : List ControlResult)
  | other (value : JsVal)

/-- A control of a profile file. The parser keeps what the type does not declare. -/
structure ProfileJSONControl where
  code : JsString
  desc : Opt JsString
  descriptions : Opt JsObject
  id : JsString
  impact : JsNumber
  tags : JsObject
  title : Opt JsString
  results : ProfileResults
  waiver_data : JsVal

def ProfileResults.toList? : ProfileResults → Option (List ControlResult)
  | list results => some results
  | _ => none

inductive AnyControl where
  | exec (control : ExecJSONControl)
  | profile (control : ProfileJSONControl)

namespace AnyControl

def id : AnyControl → JsString
  | exec c => c.id
  | profile c => c.id

def code : AnyControl → Opt JsString
  | exec c => c.code
  | profile c => .val c.code

def title : AnyControl → Opt JsString
  | exec c => c.title
  | profile c => c.title

def desc : AnyControl → Opt JsString
  | exec c => c.desc
  | profile c => c.desc

def impact : AnyControl → JsNumber
  | exec c => c.impact
  | profile c => c.impact

def tags : AnyControl → JsObject
  | exec c => c.tags
  | profile c => c.tags

def results : AnyControl → Option (List ControlResult)
  | exec c => some c.results
  | profile c => c.results.toList?

end AnyControl

structure HDFControl where
  wraps : AnyControl
  rawNistTags : JsVal
  parsedNistTags : List NistControl
  parsedNistRevision : Option NistRevision
  severity : Severity
  waived : Bool
  descriptions : JsVal
  isProfile : Bool
  message : JsString
  segments : Option (List HDFControlSegment)
  status : ControlStatus

section Shared

def compute_raw_nist_tags (raw : AnyControl) : JsVal :=
  let fetched := raw.tags.get (js "nist")
  if fetched.truthy then fetched else .arr [.str unmapped]

/-- `rawNist.match(..)` exists for strings only. -/
def parse_nist_value : JsVal → Except JsError (Option ParseNist)
  | .str rawNist => .ok (parse_nist rawNist)
  | _ => .error (.typeError "rawNist.match is not a function")

theorem parse_nist_value_returns (v : JsVal) :
    (∃ parsed, parse_nist_value v = .ok parsed) ↔ v.typeOf = .string := by
  cases v <;> simp [parse_nist_value, JsVal.typeOf]

/-- The doubles nearest to 0.1, 0.4, 0.7 and 0.9. -/
def compute_severity (raw : AnyControl) : Severity :=
  if raw.impact.lt (3602879701896397 / 36028797018963968) then .none
  else if raw.impact.lt (3602879701896397 / 9007199254740992) then .low
  else if raw.impact.lt (3152519739159347 / 4503599627370496) then .medium
  else if raw.impact.lt (8106479329266893 / 9007199254740992) then .high
  else .critical

variable [UnicodeTables]

/-- `map` exists for arrays only. -/
def compute_proper_nist_tags :
    JsVal → Except JsError (List NistControl × Option NistRevision)
  | .arr raw => do
      let parsed ← raw.mapM parse_nist_value
      return properTags parsed
  | _ => .error (.typeError "raw.map is not a function")

/-- The constructor that both kinds of control call; the fields that it leaves to them
are empty. -/
def newHDFControl10 (forControl : AnyControl) (isProfile waived : Bool) :
    Except JsError HDFControl := do
  let rawNistTags := compute_raw_nist_tags forControl
  let tmp ← compute_proper_nist_tags rawNistTags
  return {
    wraps := forControl
    rawNistTags := rawNistTags
    parsedNistTags := tmp.1
    parsedNistRevision := tmp.2
    severity := compute_severity forControl
    waived := waived
    descriptions := .object []
    isProfile := isProfile
    message := []
    segments := none
    status := .fromProfile }

end Shared

/-- What stands for a missing description. -/
def noMessage : JsString := js "No message found."

namespace ExecControl

def waived (control : ExecJSONControl) : Bool :=
  match control.waiver_data with
  | .val waiver_data => waiver_data.skipped_due_to_waiver.truthy
  | _ => false

def descriptions (control : ExecJSONControl) : JsVal :=
  match control.descriptions with
  | .val descriptions => descriptions.foldl (fun d x => d.assign x.label (.str x.data)) (.object [])
  | _ => .object []

def to_message_line (r : ControlResult) : JsString :=
  match r.status with
  | .val .skipped => js "SKIPPED -- " ++ r.skip_message.inTemplate ++ js "\n"
  | .val .failed =>
      js "FAILED -- Test: " ++ r.code_desc ++ js "\nMessage: " ++ r.message.inTemplate ++ js "\n"
  | .val .passed => js "PASSED -- " ++ r.code_desc ++ js "\n\""
  | .val .error =>
      js "ERROR -- Test: " ++ r.code_desc ++ js "\nMessage: " ++ r.message.inTemplate
  | _ => js "Exception: " ++ r.exception.inTemplate ++ js "\n"

def compute_message (control : ExecJSONControl) : JsString :=
  if control.impact.isZero then (control.desc.orElse none).getD noMessage
  else (control.results.map to_message_line).flatten

def segmentStatus (result : ControlResult) : SegmentStatus :=
  match result.backtrace with
  | .val _ => .error
  | _ => match result.status with
    | .val .error => .error
    | .val .failed => .failed
    | .val .passed => .passed
    | .val .skipped => .skipped
    | _ => .no_status

/-- `x || undefined` for a number. -/
def numberOrUndefined : Opt JsNumber → Option JsNumber
  | .val n => if n.isZero then none else some n
  | _ => none

def compute_segments (control : ExecJSONControl) : List HDFControlSegment :=
  control.results.map fun result => {
    status := segmentStatus result
    message := result.message.orElse none
    code_desc := result.code_desc
    skip_message := result.skip_message.orElse none
    exception := result.exception.orElse none
    backtrace := result.backtrace.toOption
    start_time := result.start_time
    run_time := numberOrUndefined result.run_time
    resource := result.resource.orElse none }

def compute_status (status_list : List SegmentStatus) (waived : Bool) (impact : JsNumber) :
    ControlStatus :=
  if .error ∈ status_list then .profileError
  else if waived || impact.isZero then .notApplicable
  else if status_list.length = 0 then .profileError
  else if .failed ∈ status_list then .failed
  else if .passed ∈ status_list then .passed
  else if .skipped ∈ status_list then .notReviewed
  else .profileError

end ExecControl

namespace ProfileControl

/-- The descriptions that are strings. -/
def descriptions (control : ProfileJSONControl) : JsVal :=
  match control.descriptions with
  | .val descriptions => descriptions.props.foldl (fun d entry =>
      match entry.2 with
      | .str s => d.assign entry.1 (.str s)
      | _ => d) (.object [])
  | _ => .object []

end ProfileControl

variable [UnicodeTables]

/-- `new ExecControl(control)` -/
def newExecControl (control : ExecJSONControl) : Except JsError HDFControl := do
  let base ← newHDFControl10 (.exec control) false (ExecControl.waived control)
  let segments := ExecControl.compute_segments control
  return { base with
    descriptions := ExecControl.descriptions control
    message := ExecControl.compute_message control
    segments := some segments
    status := ExecControl.compute_status (segments.map (·.status)) base.waived control.impact }

/-- `new ProfileControl(control)` -/
def newProfileControl (control : ProfileJSONControl) : Except JsError HDFControl := do
  let base ← newHDFControl10 (.profile control) true false
  return { base with
    descriptions := ProfileControl.descriptions control
    message := (control.desc.orElse none).getD noMessage }

/-- `ctrl as ResultControl` for a profile's control, but for its descriptions. -/
def ProfileJSONControl.asExec (control : ProfileJSONControl) (results : List ControlResult) :
    ExecJSONControl where
  code := .val control.code
  desc := control.desc
  descriptions := .undefined
  id := control.id
  impact := control.impact
  results := results
  tags := control.tags
  title := control.title
  waiver_data :=
    if control.waiver_data.truthy then
      .val ⟨control.waiver_data.get (js "skipped_due_to_waiver")⟩
    else .undefined

/-- `map` of what is not a list of results. -/
def mapResults (value : JsVal) : JsError :=
  if value.strictEq .null then .typeError "Cannot read properties of null (reading 'map')"
  else .typeError "control.results.map is not a function"

/-- `new ExecControl(control)` for a profile's control with these results. -/
def newCastControl (control : ProfileJSONControl) (results : List ControlResult) :
    Except JsError HDFControl := do
  let hdf ← newExecControl (control.asExec results)
  if control.descriptions.isNil then return { hdf with wraps := .profile control }
  else .error (.typeError "control.descriptions.forEach is not a function")

/-- A control that has results is from an execution. A list with entries of other types is not
told from what is no list. -/
def hdfWrapControl : AnyControl → Except JsError HDFControl
  | .exec control => newExecControl control
  | .profile control =>
      match control.results with
      | .absent => newProfileControl control
      | .list results => newCastControl control results
      | .other value => do
          let _ ← newCastControl control []
          .error (mapResults value)

namespace HDFControl

def status_list (c : HDFControl) : Option (List SegmentStatus) :=
  c.segments.map fun segments => segments.map (·.status)

def finding_details (c : HDFControl) : JsString :=
  match c.status with
  | .failed => js "One or more of the automated tests failed or was inconclusive for the control:\n\n"
      ++ c.message ++ js "\n"
  | .passed => js "All Automated tests passed for the control:\n\n" ++ c.message ++ js "\n"
  | .notReviewed =>
      js "Automated test skipped due to known accepted condition in the control:\n\n"
        ++ c.message ++ js "\n"
  | .notApplicable => js "Justification:\n\n" ++ c.message ++ js "\n"
  | .profileError =>
      if (c.status_list.getD []).isEmpty then js "No describe blocks were run in this control"
      else js "Exception:\n\n" ++ c.message ++ js "\n"
  | .fromProfile => js "No tests are run in a profile json."

end HDFControl

section Wrapping

/-- A free-form `nist` tag that the wrapper can read. -/
def readableNist : JsVal → Bool
  | .arr items => items.all fun item => item.typeOf == .string
  | nist => !nist.truthy

theorem compute_proper_nist_tags_returns (raw : List JsVal) :
    (∃ tags, compute_proper_nist_tags (.arr raw) = .ok tags) ↔
      ∀ item ∈ raw, item.typeOf = .string := by
  simp only [compute_proper_nist_tags, do_eq_ok]
  constructor
  · rintro ⟨tags, parsed, mapped, -⟩ item inside
    obtain ⟨result, -, parsed⟩ := mapM_eq_ok_of_mem mapped inside
    exact (parse_nist_value_returns item).mp ⟨result, parsed⟩
  · intro strings
    obtain ⟨parsed, mapped⟩ := mapM_returns fun item inside =>
      (parse_nist_value_returns item).mpr (strings item inside)
    exact ⟨_, parsed, mapped, rfl⟩

/-- The base constructor returns exactly on the readable tags. -/
theorem newHDFControl10_returns (forControl : AnyControl) (isProfile waived : Bool) :
    (∃ hdf, newHDFControl10 forControl isProfile waived = .ok hdf) ↔
      readableNist (forControl.tags.get (js "nist")) = true := by
  have returns : (∃ hdf, newHDFControl10 forControl isProfile waived = .ok hdf) ↔
      ∃ tags, compute_proper_nist_tags (compute_raw_nist_tags forControl) = .ok tags := by
    simp only [newHDFControl10, do_eq_ok]
    constructor
    · rintro ⟨hdf, tags, h, -⟩
      exact ⟨tags, h⟩
    · rintro ⟨tags, h⟩
      exact ⟨_, tags, h, rfl⟩
  rw [returns]
  simp only [compute_raw_nist_tags]
  generalize forControl.tags.get (js "nist") = nist
  by_cases present : nist.truthy = true
  · rw [if_pos present]
    cases nist with
    | arr items =>
        rw [compute_proper_nist_tags_returns]
        simp [readableNist]
    | _ => simp [compute_proper_nist_tags, readableNist, present]
  · rw [if_neg present]
    have stubbed : ∃ tags, compute_proper_nist_tags (.arr [.str unmapped]) = .ok tags :=
      (compute_proper_nist_tags_returns _).mpr (by simp [JsVal.typeOf])
    cases nist with
    | arr items => exact absurd rfl present
    | _ => simp [stubbed, readableNist, present]

/-- A profile's control that has results is wrapped as one of an execution. -/
def ProfileJSONControl.Castable (control : ProfileJSONControl) : Prop :=
  match control.results with
  | .absent => True
  | .list _ => control.descriptions.isNil = true
  | .other _ => False

/-- The tag of the control can be read, and its results can be taken for those of an
execution. -/
def AnyControl.Wrappable (control : AnyControl) : Prop :=
  readableNist (control.tags.get (js "nist")) = true ∧
    match control with
    | .exec _ => True
    | .profile control => control.Castable

theorem newExecControl_returns (control : ExecJSONControl) :
    (∃ hdf, newExecControl control = .ok hdf) ↔
      readableNist (control.tags.get (js "nist")) = true :=
  returns_bind_pure.trans
    (newHDFControl10_returns (.exec control) false (ExecControl.waived control))

theorem newProfileControl_returns (control : ProfileJSONControl) :
    (∃ hdf, newProfileControl control = .ok hdf) ↔
      readableNist (control.tags.get (js "nist")) = true :=
  returns_bind_pure.trans (newHDFControl10_returns (.profile control) true false)

/-- A profile's control with results is wrapped as the same results of an evaluation are. -/
theorem newCastControl_eq_ok {control : ProfileJSONControl} {results : List ControlResult}
    {hdf : HDFControl} : newCastControl control results = .ok hdf ↔
      control.descriptions.isNil = true ∧ ∃ exec,
        newExecControl (control.asExec results) = .ok exec ∧
          hdf = { exec with wraps := .profile control } := by
  rw [newCastControl, do_eq_ok]
  constructor
  · rintro ⟨exec, made, rest⟩
    split at rest
    · next undescribed => exact ⟨undescribed, exec, made, pure_eq_ok.mp rest⟩
    · cases rest
  · rintro ⟨undescribed, exec, made, rfl⟩
    exact ⟨exec, made, if_pos undescribed⟩

theorem newCastControl_returns (control : ProfileJSONControl) (results : List ControlResult) :
    (∃ hdf, newCastControl control results = .ok hdf) ↔
      readableNist (control.tags.get (js "nist")) = true ∧
        control.descriptions.isNil = true := by
  have tags : (control.asExec results).tags = control.tags := rfl
  rw [← tags, ← newExecControl_returns]
  simp only [newCastControl_eq_ok]
  constructor
  · rintro ⟨hdf, undescribed, exec, made, -⟩
    exact ⟨⟨exec, made⟩, undescribed⟩
  · rintro ⟨⟨exec, made⟩, undescribed⟩
    exact ⟨_, undescribed, exec, made, rfl⟩

theorem hdfWrapControl_returns (control : AnyControl) :
    (∃ hdf, hdfWrapControl control = .ok hdf) ↔ control.Wrappable := by
  cases control with
  | exec control =>
      rw [AnyControl.Wrappable, and_true]
      exact newExecControl_returns control
  | profile control =>
      simp only [hdfWrapControl, AnyControl.Wrappable, ProfileJSONControl.Castable]
      cases control.results with
      | absent =>
          rw [and_true]
          exact newProfileControl_returns control
      | list results => exact newCastControl_returns control results
      | other value =>
          refine iff_of_false ?_ And.right
          rintro ⟨hdf, wrapped⟩
          obtain ⟨-, -, thrown⟩ := do_eq_ok.mp wrapped
          cases thrown

theorem newHDFControl10_wraps {forControl : AnyControl} {isProfile waived : Bool}
    {hdf : HDFControl} (made : newHDFControl10 forControl isProfile waived = .ok hdf) :
    hdf.wraps = forControl := by
  obtain ⟨tags, -, done⟩ := do_eq_ok.mp made
  rw [pure_eq_ok.mp done]

/-- The descriptions of a control, before it is wrapped. -/
def AnyControl.described : AnyControl → JsVal
  | .exec control => ExecControl.descriptions control
  | .profile control =>
      match control.results with
      | .absent => ProfileControl.descriptions control
      | _ => .object []

theorem newExecControl_wraps {control : ExecJSONControl} {hdf : HDFControl}
    (made : newExecControl control = .ok hdf) :
    hdf.wraps = .exec control ∧ hdf.descriptions = ExecControl.descriptions control := by
  obtain ⟨base, made, done⟩ := do_eq_ok.mp made
  have same := newHDFControl10_wraps made
  rw [pure_eq_ok.mp done]
  exact ⟨same, rfl⟩

theorem newProfileControl_wraps {control : ProfileJSONControl} {hdf : HDFControl}
    (made : newProfileControl control = .ok hdf) :
    hdf.wraps = .profile control ∧ hdf.descriptions = ProfileControl.descriptions control := by
  obtain ⟨base, made, done⟩ := do_eq_ok.mp made
  have same := newHDFControl10_wraps made
  rw [pure_eq_ok.mp done]
  exact ⟨same, rfl⟩

/-- How a control was wrapped, by the constructor of its own kind or by that of an execution. -/
theorem hdfWrapControl_cases {control : AnyControl} {hdf : HDFControl}
    (wrapped : hdfWrapControl control = .ok hdf) :
    (∃ exec, control = .exec exec ∧ newExecControl exec = .ok hdf) ∨
    (∃ profile, control = .profile profile ∧ profile.results = .absent ∧
      newProfileControl profile = .ok hdf) ∨
    ∃ profile results exec, control = .profile profile ∧ profile.results = .list results ∧
      newExecControl (profile.asExec results) = .ok exec ∧
        hdf = { exec with wraps := .profile profile } := by
  cases control with
  | exec exec => exact .inl ⟨exec, rfl, wrapped⟩
  | profile profile =>
      simp only [hdfWrapControl] at wrapped
      cases shape : profile.results with
      | absent =>
          rw [shape] at wrapped
          exact .inr (.inl ⟨profile, rfl, shape, wrapped⟩)
      | list results =>
          rw [shape] at wrapped
          obtain ⟨-, exec, made, same⟩ := newCastControl_eq_ok.mp wrapped
          exact .inr (.inr ⟨profile, results, exec, rfl, shape, made, same⟩)
      | other value =>
          rw [shape] at wrapped
          obtain ⟨-, -, thrown⟩ := do_eq_ok.mp wrapped
          cases thrown

theorem hdfWrapControl_wraps {control : AnyControl} {hdf : HDFControl}
    (wrapped : hdfWrapControl control = .ok hdf) :
    hdf.wraps = control ∧ hdf.descriptions = control.described := by
  obtain ⟨exec, rfl, made⟩ | ⟨profile, rfl, absent, made⟩ |
    ⟨profile, results, exec, rfl, list, made, rfl⟩ := hdfWrapControl_cases wrapped
  · exact newExecControl_wraps made
  · rw [AnyControl.described, absent]
    exact newProfileControl_wraps made
  · rw [AnyControl.described, list]
    exact ⟨rfl, (newExecControl_wraps made).2⟩

/-- A wrapped control has the tags that the base constructor gave it. -/
theorem hdfWrapControl_base {control : AnyControl} {hdf : HDFControl}
    (wrapped : hdfWrapControl control = .ok hdf) :
    ∃ forControl isProfile waived base, newHDFControl10 forControl isProfile waived = .ok base ∧
      hdf.parsedNistTags = base.parsedNistTags := by
  obtain ⟨exec, rfl, made⟩ | ⟨profile, rfl, absent, made⟩ |
    ⟨profile, results, exec, rfl, list, made, rfl⟩ := hdfWrapControl_cases wrapped
  all_goals
    obtain ⟨base, here, done⟩ := do_eq_ok.mp made
    exact ⟨_, _, _, base, here, by rw [pure_eq_ok.mp done]⟩

end Wrapping
end Inspec
