import Heimdall.Inspec.Context

/-!
# Converting a file

The three parsers are tried one after the other: an evaluation, a minimal evaluation, a
profile. The first one that accepts the text decides what sort of file it is.
-/
namespace Inspec
open Js Lib

namespace TypeMap

def execJSONMINControl : Typ := .object
  [prop "backtrace" (optionalArray .string), prop "code_desc" .string,
   prop "exception" optionalString, prop "id" .string, prop "message" optionalString,
   prop "profile_id" optionalString, prop "profile_sha256" .string,
   prop "resource" optionalString, prop "skip_message" optionalString,
   prop "status" .string] .any

def execJsonmin : Typ := .object
  [prop "controls" (.array execJSONMINControl), prop "statistics" statistics,
   prop "version" .string] .any

def generator : Typ := .object [prop "name" .string, prop "version" .string] .any

def profileJSONControl : Typ := .object
  [prop "code" .string, prop "desc" optionalString,
   prop "descriptions" (.union [.undefined, .union [anyMap, .null]]), prop "id" .string,
   prop "impact" .number, prop "refs" (optionalArray reference),
   prop "source_location" (optionalObject sourceLocation), prop "tags" anyMap,
   prop "title" optionalString] .any

def profileJSON : Typ := .object
  [prop "controls" (.array profileJSONControl), prop "copyright" optionalString,
   prop "copyright_email" optionalString, prop "depends" (optionalArray dependency),
   prop "generator" (optionalObject generator), prop "groups" (.array controlGroup),
   prop "inputs" (optionalArray anyMap), prop "maintainer" optionalString,
   prop "name" .string, prop "sha256" .string, prop "status" optionalString,
   prop "supports" (.array supportedPlatform), prop "title" optionalString,
   prop "version" optionalString] .any

end TypeMap

section Read

/-- The results that the parser passes on, of whatever type they are. -/
def asProfileResults (v : JsVal) : ProfileResults :=
  match v with
  | .undefined => .absent
  | v => match asList asResult v with
    | some results => .list results
    | none => .other v

def asProfileControl (v : JsVal) : Option ProfileJSONControl := do
  return {
    code := ← asString (v.get (js "code"))
    desc := ← asOpt asString (v.get (js "desc"))
    descriptions := ← asOpt asObject (v.get (js "descriptions"))
    id := ← asString (v.get (js "id"))
    impact := ← asNumber (v.get (js "impact"))
    tags := ← asObject (v.get (js "tags"))
    title := ← asOpt asString (v.get (js "title"))
    results := asProfileResults (v.get (js "results"))
    waiver_data := v.get (js "waiver_data") }

def asProfileJSON (v : JsVal) : Option ProfileJSON := do
  return {
    name := ← asString (v.get (js "name"))
    controls := ← asList asProfileControl (v.get (js "controls")) }

theorem reads_profileControl : Reads TypeMap.profileJSONControl asProfileControl := by
  intro v typed
  obtain ⟨code, h₁⟩ := reads_string.field "code" typed (by simp)
  obtain ⟨desc, h₂⟩ := reads_optionalString.field "desc" typed (by simp)
  obtain ⟨descriptions, h₃⟩ :=
    reads_object.nullable_swapped.field "descriptions" typed (by simp)
  obtain ⟨id, h₄⟩ := reads_string.field "id" typed (by simp)
  obtain ⟨impact, h₅⟩ := reads_number.field "impact" typed (by simp)
  obtain ⟨tags, h₆⟩ := reads_object.field "tags" typed (by simp)
  obtain ⟨title, h₇⟩ := reads_optionalString.field "title" typed (by simp)
  exact ⟨_, by simp only [asProfileControl, h₁, h₂, h₃, h₄, h₅, h₆, h₇]; rfl⟩

theorem reads_profileJSON : Reads TypeMap.profileJSON asProfileJSON := by
  intro v typed
  obtain ⟨name, h₁⟩ := reads_string.field "name" typed (by simp)
  obtain ⟨controls, h₂⟩ := reads_profileControl.list.field "controls" typed (by simp)
  exact ⟨_, by simp only [asProfileJSON, h₁, h₂]; rfl⟩

theorem plain_profileJSON : plain TypeMap.profileJSON = true := by decide +kernel

end Read

/-- `Convert.toProfileJSON`, after `JSON.parse`. -/
def toProfileJSON (json : JsVal) : Except JsError ProfileJSON :=
  match accepted : transform TypeMap.profileJSON json with
  | .ok v => .ok ((asProfileJSON v).get (Option.isSome_iff_exists.mpr
      (reads_profileJSON v (transform_typed plain_profileJSON accepted))))
  | .error e => .error e

/-- `Convert.toExecJsonmin`, of which only the acceptance is of interest. -/
def toExecJsonmin (json : JsVal) : Except JsError Unit :=
  (transform TypeMap.execJsonmin json).map fun _ => ()

/-- The field that is filled. -/
inductive ConversionResult where
  | execJson (evaluation : ExecJSON)
  | execJsonMin
  | profileJson (profile : ProfileJSON)
  | errors

/-- `convertFile(text, true)`. The argument is the value of the text, if it is JSON at all. -/
def convertFile (json : Option JsVal) : ConversionResult :=
  match json with
  | none => .errors
  | some json =>
      match toExecJSON json with
      | .ok evaluation => .execJson evaluation
      | .error _ =>
          match toExecJsonmin json with
          | .ok _ => .execJsonMin
          | .error _ =>
              match toProfileJSON json with
              | .ok profile => .profileJson profile
              | .error _ => .errors

end Inspec
