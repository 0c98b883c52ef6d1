import Heimdall.Inspec.Schema

/-!
# Evaluation files

The type map of an evaluation file, and the record that the rest of the code reads
from an accepted value. Whatever the parser accepts can be read as such a record.
-/
namespace Inspec
open Js Lib

section TypeMap

def prop (json : String) (typ : Typ) : JsString × Typ := (js json, typ)

/-- `u(undefined, u(null, ''))` -/
def optionalString : Typ := .union [.undefined, .union [.null, .string]]

/-- `u(undefined, u(3.14, null))` -/
def optionalNumber : Typ := .union [.undefined, .union [.number, .null]]

/-- `m('any')` -/
def anyMap : Typ := .object [] .any

def optionalObject (typ : Typ) : Typ := .union [.undefined, .union [.null, typ]]

def optionalArray (typ : Typ) : Typ := .union [.undefined, .union [.array typ, .null]]

namespace TypeMap

def platform : Typ := .object
  [prop "name" .string, prop "release" .string, prop "target_id" optionalString] .any

def controlDescription : Typ := .object [prop "data" .string, prop "label" .string] .any

def reference : Typ := .object
  [prop "ref" (.union [.undefined, .union [.array anyMap, .string]]),
   prop "url" (.union [.undefined, .string]), prop "uri" (.union [.undefined, .string])] .any

def controlResultStatus : Typ :=
  .enum [js "error", js "failed", js "passed", js "skipped"]

def controlResult : Typ := .object
  [prop "backtrace" (optionalArray .string), prop "code_desc" .string,
   prop "exception" optionalString, prop "message" optionalString,
   prop "resource" optionalString, prop "run_time" optionalNumber,
   prop "skip_message" optionalString, prop "start_time" .string,
   prop "status" (.union [.undefined, .union [controlResultStatus, .null]])] .any

def sourceLocation : Typ := .object
  [prop "line" optionalNumber, prop "ref" optionalString] .any

def waiverData : Typ := .object
  [prop "expiration_date" optionalString, prop "justification" optionalString,
   prop "message" optionalString,
   prop "run" (.union [.undefined, .union [.boolean, .null]]),
   prop "skipped_due_to_waiver"
     (.union [.undefined, .union [.boolean, .null, .string]])] .any

def dependency : Typ := .object
  [prop "branch" optionalString, prop "compliance" optionalString, prop "git" optionalString,
   prop "name" optionalString, prop "path" optionalString,
   prop "skip_message" optionalString, prop "status" optionalString,
   prop "supermarket" optionalString, prop "url" optionalString] .any

def controlGroup : Typ := .object
  [prop "controls" (.array .string), prop "id" .string, prop "title" optionalString] .any

def supportedPlatform : Typ := .object
  [prop "os-family" optionalString, prop "os-name" optionalString,
   prop "platform" optionalString, prop "platform-family" optionalString,
   prop "platform-name" optionalString, prop "release" optionalString] .any

def statisticBlock : Typ := .object [prop "total" .number] .any

def statisticHash : Typ := .object
  [prop "failed" (optionalObject statisticBlock), prop "passed" (optionalObject statisticBlock),
   prop "skipped" (optionalObject statisticBlock)] .any

def statistics : Typ := .object
  [prop "controls" (optionalObject statisticHash), prop "duration" optionalNumber] .any

def execJSONControl : Typ := .object
  [prop "code" optionalString, prop "desc" optionalString,
   prop "descriptions" (optionalArray controlDescription), prop "id" .string,
   prop "impact" .number, prop "refs" (.array reference),
   prop "results" (.array controlResult), prop "source_location" sourceLocation,
   prop "tags" anyMap, prop "title" optionalString,
   prop "waiver_data" (optionalObject waiverData)] .any

def execJSONProfile : Typ := .object
  [prop "attributes" (.array anyMap), prop "controls" (.array execJSONControl),
   prop "copyright" optionalString, prop "copyright_email" optionalString,
   prop "depends" (optionalArray dependency), prop "description" optionalString,
   prop "groups" (.array controlGroup), prop "inspec_version" optionalString,
   prop "license" optionalString, prop "maintainer" optionalString, prop "name" .string,
   prop "parent_profile" optionalString, prop "sha256" .string,
   prop "skip_message" optionalString, prop "status" optionalString,
   prop "summary" optionalString, prop "supports" (.array supportedPlatform),
   prop "title" optionalString, prop "version" optionalString] .any

def execJSON : Typ := .object
  [prop "platform" platform, prop "profiles" (.array execJSONProfile),
   prop "statistics" statistics, prop "version" .string] .any

end TypeMap
end TypeMap

inductive ControlResultStatus where
  | error | failed | passed | skipped
  deriving DecidableEq, Repr

structure ControlResult where
  backtrace : Opt (List JsString)
  code_desc : JsString
  exception : Opt JsString
  message : Opt JsString
  resource : Opt JsString
  run_time : Opt JsNumber
  skip_message : Opt JsString
  start_time : JsString
  status : Opt ControlResultStatus
  deriving DecidableEq

structure ControlDescription where
  data : JsString
  label : JsString
  deriving DecidableEq

structure WaiverData where
  skipped_due_to_waiver : JsVal

/-- An object with free-form keys. -/
structure JsObject where
  props : List (JsString × JsVal)
  proto : List (JsString × JsVal)

def JsObject.get (o : JsObject) (key : JsString) : JsVal := (JsVal.obj o.props o.proto).get key

structure ExecJSONControl where
  code : Opt JsString
  desc : Opt JsString
  descriptions : Opt (List ControlDescription)
  id : JsString
  impact : JsNumber
  results : List ControlResult
  tags : JsObject
  title : Opt JsString
  waiver_data : Opt WaiverData

structure ExecJSONProfile where
  name : JsString
  parent_profile : Opt JsString
  controls : List ExecJSONControl

structure Platform where
  name : JsString

structure Statistics where
  duration : Opt JsNumber

structure ExecJSON where
  platform : Platform
  profiles : List ExecJSONProfile
  statistics : Statistics
  version : JsString

section Read

def asString : JsVal → Option JsString
  | .str s => some s
  | _ => none

def asNumber : JsVal → Option JsNumber
  | .num n => some n
  | _ => none

def asObject : JsVal → Option JsObject
  | .obj props proto => some ⟨props, proto⟩
  | _ => none

def asList {α : Type} (item : JsVal → Option α) : JsVal → Option (List α)
  | .arr items => items.mapM item
  | _ => none

def asOpt {α : Type} (value : JsVal → Option α) : JsVal → Option (Opt α)
  | .undefined => some .undefined
  | .null => some .null
  | v => (value v).map .val

def asStatus (v : JsVal) : Option ControlResultStatus := do
  let s ← asString v
  if s = js "error" then return .error
  if s = js "failed" then return .failed
  if s = js "passed" then return .passed
  if s = js "skipped" then return .skipped
  none

def asResult (v : JsVal) : Option ControlResult := do
  return {
    backtrace := ← asOpt (asList asString) (v.get (js "backtrace"))
    code_desc := ← asString (v.get (js "code_desc"))
    exception := ← asOpt asString (v.get (js "exception"))
    message := ← asOpt asString (v.get (js "message"))
    resource := ← asOpt asString (v.get (js "resource"))
    run_time := ← asOpt asNumber (v.get (js "run_time"))
    skip_message := ← asOpt asString (v.get (js "skip_message"))
    start_time := ← asString (v.get (js "start_time"))
    status := ← asOpt asStatus (v.get (js "status")) }

def asDescription (v : JsVal) : Option ControlDescription := do
  return {
    data := ← asString (v.get (js "data"))
    label := ← asString (v.get (js "label")) }

def asWaiver (v : JsVal) : Option WaiverData :=
  some { skipped_due_to_waiver := v.get (js "skipped_due_to_waiver") }

def asControl (v : JsVal) : Option ExecJSONControl := do
  return {
    code := ← asOpt asString (v.get (js "code"))
    desc := ← asOpt asString (v.get (js "desc"))
    descriptions := ← asOpt (asList asDescription) (v.get (js "descriptions"))
    id := ← asString (v.get (js "id"))
    impact := ← asNumber (v.get (js "impact"))
    results := ← asList asResult (v.get (js "results"))
    tags := ← asObject (v.get (js "tags"))
    title := ← asOpt asString (v.get (js "title"))
    waiver_data := ← asOpt asWaiver (v.get (js "waiver_data")) }

def asProfile (v : JsVal) : Option ExecJSONProfile := do
  return {
    name := ← asString (v.get (js "name"))
    parent_profile := ← asOpt asString (v.get (js "parent_profile"))
    controls := ← asList asControl (v.get (js "controls")) }

def asPlatform (v : JsVal) : Option Platform := do
  return { name := ← asString (v.get (js "name")) }

def asStatistics (v : JsVal) : Option Statistics := do
  return { duration := ← asOpt asNumber (v.get (js "duration")) }

def asExecJSON (v : JsVal) : Option ExecJSON := do
  return {
    platform := ← asPlatform (v.get (js "platform"))
    profiles := ← asList asProfile (v.get (js "profiles"))
    statistics := ← asStatistics (v.get (js "statistics"))
    version := ← asString (v.get (js "version")) }

end Read

section Total

/-- Every value of the type can be read. -/
def Reads {α : Type} (typ : Typ) (read : JsVal → Option α) : Prop :=
  ∀ v, Typed typ v → ∃ a, read v = some a

variable {α : Type} {typ : Typ} {read : JsVal → Option α}

theorem reads_string : Reads .string asString := by
  intro v typed
  cases typed with
  | string s => exact ⟨s, rfl⟩

theorem reads_number : Reads .number asNumber := by
  intro v typed
  cases typed with
  | number n => exact ⟨n, rfl⟩

theorem reads_object : Reads anyMap asObject := by
  intro v typed
  cases typed with
  | object => exact ⟨_, rfl⟩

theorem Reads.list (items : Reads typ read) : Reads (.array typ) (asList read) := by
  intro v typed
  cases typed with
  | array each => exact mapM_isSome_iff.mpr fun item inside => items item (each item inside)

/-- `T | null | undefined`, in whatever order the type map lists the three. -/
theorem Reads.opt {union : Typ} (value : Reads typ read)
    (cases : ∀ v, Typed union v → v = .undefined ∨ v = .null ∨ Typed typ v) :
    Reads union (asOpt read) := by
  intro v typed
  rcases cases v typed with rfl | rfl | typed
  · exact ⟨.undefined, rfl⟩
  · exact ⟨.null, rfl⟩
  · obtain ⟨a, done⟩ := value v typed
    cases v with
    | undefined => exact ⟨.undefined, rfl⟩
    | null => exact ⟨.null, rfl⟩
    | _ => exact ⟨.val a, by simp [asOpt, done]⟩

theorem Typed.union_iff {members : List Typ} {v : JsVal} :
    Typed (.union members) v ↔ ∃ typ ∈ members, Typed typ v := by
  constructor
  · intro typed
    cases typed with
    | union member typed => exact ⟨_, member, typed⟩
  · rintro ⟨typ, member, typed⟩
    exact .union member typed

theorem Typed.undefined_iff {v : JsVal} : Typed .undefined v ↔ v = .undefined :=
  ⟨fun typed => by cases typed; rfl, fun same => same ▸ .undefined⟩

theorem Typed.null_iff {v : JsVal} : Typed .null v ↔ v = .null :=
  ⟨fun typed => by cases typed; rfl, fun same => same ▸ .null⟩

theorem Reads.nullable (value : Reads typ read) :
    Reads (.union [.undefined, .union [.null, typ]]) (asOpt read) := by
  apply value.opt
  intro v typed
  simpa [Typed.union_iff, Typed.undefined_iff, Typed.null_iff] using typed

theorem Reads.nullable_swapped (value : Reads typ read) :
    Reads (.union [.undefined, .union [typ, .null]]) (asOpt read) := by
  apply value.opt
  intro v typed
  simpa [Typed.union_iff, Typed.undefined_iff, Typed.null_iff, or_comm] using typed

/-- A declared property has its declared type. -/
theorem Typed.field {props : List (JsString × Typ)} {additional : Typ} {v : JsVal}
    (typed : Typed (.object props additional) v) {p : JsString × Typ} (declared : p ∈ props) :
    Typed p.2 (v.get p.1) := by
  cases typed with
  | object fields => exact fields p declared

theorem Reads.field {props : List (JsString × Typ)} {additional : Typ} {v : JsVal}
    (value : Reads typ read) (name : String) (typed : Typed (.object props additional) v)
    (declared : prop name typ ∈ props) : ∃ a, read (v.get (js name)) = some a :=
  value _ (typed.field declared)

theorem reads_status : Reads TypeMap.controlResultStatus asStatus := by
  intro v typed
  cases typed with
  | enum member =>
      simp only [List.mem_cons, List.not_mem_nil, or_false] at member
      rcases member with rfl | rfl | rfl | rfl
      · exact ⟨.error, by decide⟩
      · exact ⟨.failed, by decide⟩
      · exact ⟨.passed, by decide⟩
      · exact ⟨.skipped, by decide⟩

theorem reads_optionalString : Reads optionalString (asOpt asString) := reads_string.nullable

theorem reads_result : Reads TypeMap.controlResult asResult := by
  intro v typed
  obtain ⟨backtrace, h₁⟩ :=
    reads_string.list.nullable_swapped.field "backtrace" typed (by simp [optionalArray])
  obtain ⟨code_desc, h₂⟩ := reads_string.field "code_desc" typed (by simp)
  obtain ⟨exception, h₃⟩ := reads_optionalString.field "exception" typed (by simp)
  obtain ⟨message, h₄⟩ := reads_optionalString.field "message" typed (by simp)
  obtain ⟨resource, h₅⟩ := reads_optionalString.field "resource" typed (by simp)
  obtain ⟨run_time, h₆⟩ :=
    reads_number.nullable_swapped.field "run_time" typed (by simp [optionalNumber])
  obtain ⟨skip_message, h₇⟩ := reads_optionalString.field "skip_message" typed (by simp)
  obtain ⟨start_time, h₈⟩ := reads_string.field "start_time" typed (by simp)
  obtain ⟨status, h₉⟩ := reads_status.nullable_swapped.field "status" typed (by simp)
  exact ⟨_, by simp only [asResult, h₁, h₂, h₃, h₄, h₅, h₆, h₇, h₈, h₉]; rfl⟩

theorem reads_description : Reads TypeMap.controlDescription asDescription := by
  intro v typed
  obtain ⟨data, h₁⟩ := reads_string.field "data" typed (by simp)
  obtain ⟨label, h₂⟩ := reads_string.field "label" typed (by simp)
  exact ⟨_, by simp only [asDescription, h₁, h₂]; rfl⟩

theorem reads_waiver : Reads TypeMap.waiverData asWaiver := fun _ _ => ⟨_, rfl⟩

theorem reads_control : Reads TypeMap.execJSONControl asControl := by
  intro v typed
  obtain ⟨code, h₁⟩ := reads_optionalString.field "code" typed (by simp)
  obtain ⟨desc, h₂⟩ := reads_optionalString.field "desc" typed (by simp)
  obtain ⟨descriptions, h₃⟩ :=
    reads_description.list.nullable_swapped.field "descriptions" typed (by simp [optionalArray])
  obtain ⟨id, h₄⟩ := reads_string.field "id" typed (by simp)
  obtain ⟨impact, h₅⟩ := reads_number.field "impact" typed (by simp)
  obtain ⟨results, h₆⟩ := reads_result.list.field "results" typed (by simp)
  obtain ⟨tags, h₇⟩ := reads_object.field "tags" typed (by simp)
  obtain ⟨title, h₈⟩ := reads_optionalString.field "title" typed (by simp)
  obtain ⟨waiver, h₉⟩ :=
    reads_waiver.nullable.field "waiver_data" typed (by simp [optionalObject])
  exact ⟨_, by simp only [asControl, h₁, h₂, h₃, h₄, h₅, h₆, h₇, h₈, h₉]; rfl⟩

theorem reads_profile : Reads TypeMap.execJSONProfile asProfile := by
  intro v typed
  obtain ⟨name, h₁⟩ := reads_string.field "name" typed (by simp)
  obtain ⟨parent, h₂⟩ := reads_optionalString.field "parent_profile" typed (by simp)
  obtain ⟨controls, h₃⟩ := reads_control.list.field "controls" typed (by simp)
  exact ⟨_, by simp only [asProfile, h₁, h₂, h₃]; rfl⟩

theorem reads_platform : Reads TypeMap.platform asPlatform := by
  intro v typed
  obtain ⟨name, h⟩ := reads_string.field "name" typed (by simp)
  exact ⟨_, by simp only [asPlatform, h]; rfl⟩

theorem reads_statistics : Reads TypeMap.statistics asStatistics := by
  intro v typed
  obtain ⟨duration, h⟩ :=
    reads_number.nullable_swapped.field "duration" typed (by simp [optionalNumber])
  exact ⟨_, by simp only [asStatistics, h]; rfl⟩

theorem reads_execJSON : Reads TypeMap.execJSON asExecJSON := by
  intro v typed
  obtain ⟨platform, h₁⟩ := reads_platform.field "platform" typed (by simp)
  obtain ⟨profiles, h₂⟩ := reads_profile.list.field "profiles" typed (by simp)
  obtain ⟨statistics, h₃⟩ := reads_statistics.field "statistics" typed (by simp)
  obtain ⟨version, h₄⟩ := reads_string.field "version" typed (by simp)
  exact ⟨_, by simp only [asExecJSON, h₁, h₂, h₃, h₄]; rfl⟩

theorem plain_execJSON : plain TypeMap.execJSON = true := by decide +kernel

end Total

/-- `Convert.toExecJSON`, after `JSON.parse`. -/
def toExecJSON (json : JsVal) : Except JsError ExecJSON :=
  match accepted : transform TypeMap.execJSON json with
  | .ok v => .ok ((asExecJSON v).get (Option.isSome_iff_exists.mpr
      (reads_execJSON v (transform_typed plain_execJSON accepted))))
  | .error e => .error e

/-- The parser accepts what the type map accepts; reading the record never fails. -/
theorem toExecJSON_eq_ok {json : JsVal} {evaluation : ExecJSON} :
    toExecJSON json = .ok evaluation ↔
      ∃ v, transform TypeMap.execJSON json = .ok v ∧ asExecJSON v = some evaluation := by
  unfold toExecJSON
  split
  next v accepted =>
      simp only [accepted, Except.ok.injEq, exists_eq_left', Option.eq_some_iff_get_eq]
      exact ⟨fun same => ⟨_, same⟩, fun ⟨_, same⟩ => same⟩
  next e rejected => simp [rejected]

section Samples

def sampleObject (entries : List (String × JsVal)) : JsVal :=
  .object (entries.map fun entry => (js entry.1, entry.2))

/-- A control with the properties that the type map requires. -/
def sampleControl (id : String) (tags : List (String × JsVal)) : JsVal := sampleObject
  [("id", .str (js id)), ("impact", .num (.finite (1 / 2))), ("refs", .arr []),
   ("results", .arr []), ("source_location", sampleObject []), ("tags", sampleObject tags)]

def sampleProfile (name : String) (parent : List (String × JsVal)) (controls : List JsVal) :
    JsVal := sampleObject
  ([("attributes", .arr []), ("controls", .arr controls), ("groups", .arr []),
    ("name", .str (js name)), ("sha256", .str []), ("supports", .arr [])] ++ parent)

def sampleFile (profiles : List JsVal) : JsVal := sampleObject
  [("platform", sampleObject [("name", .str []), ("release", .str [])]),
   ("profiles", .arr profiles), ("statistics", sampleObject []), ("version", .str [])]

/-- The record that is read from `sampleControl`. -/
def bareControl (id : String) (tags : List (String × JsVal)) : ExecJSONControl where
  code := .undefined
  desc := .undefined
  descriptions := .undefined
  id := js id
  impact := .finite (1 / 2)
  results := []
  tags := ⟨tags.map fun entry => (js entry.1, entry.2), []⟩
  title := .undefined
  waiver_data := .undefined

def sampleResult (status : ControlResultStatus) : ControlResult where
  backtrace := .undefined
  code_desc := []
  exception := .undefined
  message := .undefined
  resource := .undefined
  run_time := .undefined
  skip_message := .undefined
  start_time := []
  status := .val status

/-- The record that is read from `sampleFile`. -/
def sampleExec (profiles : List ExecJSONProfile) : ExecJSON where
  platform := ⟨[]⟩
  profiles := profiles
  statistics := ⟨.undefined⟩
  version := []

/-- A base profile whose only control is repeated by a wrapper. -/
def wrappedJson : JsVal := sampleFile
  [sampleProfile "wrapper" [] [sampleControl "C-1" []],
   sampleProfile "base" [("parent_profile", .str (js "wrapper"))] [sampleControl "C-1" []]]

def wrapped : ExecJSON := sampleExec
  [⟨js "wrapper", .undefined, [bareControl "C-1" []]⟩,
    ⟨js "base", .val (js "wrapper"), [bareControl "C-1" []]⟩]

theorem wrapped_accepted : toExecJSON wrappedJson = .ok wrapped := by rfl

end Samples
end Inspec
