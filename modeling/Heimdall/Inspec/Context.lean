import Mathlib.Data.List.Range
import Heimdall.Lib.Chains
import Heimdall.Lib.Links
import Heimdall.Inspec.Hdf

/-!
# Contextualized evaluations

The graph of profiles and controls of one file. The contextualized objects are numbered
in the order of their creation, and a number stands for the reference to its object.
-/
namespace Inspec
open Js Lib

/-- The identity of an evaluation object. -/
abbrev Ref := ℕ

structure ProfileJSON where
  name : JsString
  controls : List ProfileJSONControl

inductive AnyProfile where
  | exec (profile : ExecJSONProfile)
  | profile (profile : ProfileJSON)

namespace AnyProfile

def name : AnyProfile → JsString
  | exec p => p.name
  | profile p => p.name

def controls : AnyProfile → List AnyControl
  | exec p => p.controls.map .exec
  | profile p => p.controls.map .profile

def parent_profile : AnyProfile → Opt JsString
  | exec p => p.parent_profile
  | profile _ => .undefined

end AnyProfile

structure ContextualizedControl where
  data : AnyControl
  sourcedFrom : ℕ
  hdf : HDFControl
  extendsFrom : List ℕ
  extendedBy : List ℕ

structure ContextualizedProfile where
  data : AnyProfile
  sourcedFrom : Option Ref
  contains : List ℕ
  extendsFrom : List ℕ
  extendedBy : List ℕ

structure Graph where
  profiles : List ContextualizedProfile
  controls : List ContextualizedControl

structure ContextualizedEvaluation where
  self : Ref
  data : ExecJSON
  contains : List ℕ
  graph : Graph

/-- A control points to what it extends. -/
instance : Linked ContextualizedControl where
  links cc := ⟨cc.extendsFrom, cc.extendedBy⟩
  withLinks cc l := { cc with extendsFrom := l.out, extendedBy := l.inn }
  links_withLinks _ _ := rfl
  withLinks_withLinks _ _ _ := rfl
  withLinks_links _ := rfl

/-- A profile points to what it is extended by: the child names its parent. -/
instance : Linked ContextualizedProfile where
  links p := ⟨p.extendedBy, p.extendsFrom⟩
  withLinks p l := { p with extendedBy := l.out, extendsFrom := l.inn }
  links_withLinks _ _ := rfl
  withLinks_withLinks _ _ _ := rfl
  withLinks_links _ := rfl

section Build

/-- The parent that a profile names: the first profile of that name. -/
def parentOf (contains : List ContextualizedProfile) (i : ℕ) : Option ℕ :=
  match contains[i]? with
  | none => none
  | some profile =>
      if profile.data.parent_profile = .undefined then none
      else contains.findIdx? fun p => decide (.val p.data.name = profile.data.parent_profile)

def linkProfiles (contains : List ContextualizedProfile) : List ContextualizedProfile :=
  linkAll parentOf contains (List.range contains.length)

def controlId (allControls : List ContextualizedControl) (c : ℕ) : Option JsString :=
  allControls[c]?.map (·.data.id)

/-- `c.hdf.segments && c.hdf.segments.length` -/
def populated (allControls : List ContextualizedControl) (c : ℕ) : Bool :=
  allControls[c]?.any fun cc => !(cc.hdf.segments.getD []).isEmpty

/-- The first control of the extended profiles with this id. -/
def ancestorIn (profiles : List ContextualizedProfile) (allControls : List ContextualizedControl)
    (extendsFrom : List ℕ) (id : JsString) : Option ℕ :=
  extendsFrom.findSome? fun extendedProfile =>
    ((profiles[extendedProfile]?.map (·.contains)).getD []).find? fun c =>
      controlId allControls c == some id

/-- The control that stands for all controls of this id, whatever their profile. -/
def sameIdPopulated (allControls : List ContextualizedControl) (id : JsString) : Option ℕ :=
  let sameId := (List.range allControls.length).filter fun c => controlId allControls c == some id
  (sameId.find? (populated allControls)).or sameId.head?

/-- The control that `cc` is linked to, if any. -/
def ancestorOf (profiles : List ContextualizedProfile) (allControls : List ContextualizedControl)
    (c : ℕ) : Option ℕ :=
  match allControls[c]? with
  | none => none
  | some cc =>
      match profiles[cc.sourcedFrom]? with
      | none => none
      | some source =>
          if source.extendsFrom ≠ [] ∨ source.extendedBy ≠ [] then
            -- For a baseline profile there is nothing to search.
            ancestorIn profiles allControls source.extendsFrom cc.data.id
          else
            let other := sameIdPopulated allControls cc.data.id
            if other = some c then none else other

def linkControls (profiles : List ContextualizedProfile)
    (allControls : List ContextualizedControl) : List ContextualizedControl :=
  linkAll (ancestorOf profiles) allControls (List.range allControls.length)

variable [UnicodeTables]

/-- `new ContextualizedControlImp(data, sourcedFrom, [], [])` -/
def newControl (sourcedFrom : ℕ) (data : AnyControl) : Except JsError ContextualizedControl := do
  let hdf ← hdfWrapControl data
  return { data, sourcedFrom, hdf, extendsFrom := [], extendedBy := [] }

def extractStep (g : Graph) (profile : ContextualizedProfile) : Except JsError Graph := do
  let own ← profile.data.controls.mapM (newControl g.profiles.length)
  return {
    profiles := g.profiles ++
      [{ profile with contains := List.range' g.controls.length own.length }]
    controls := g.controls ++ own }

def extractControls (contains : List ContextualizedProfile) : Except JsError Graph :=
  contains.foldlM extractStep ⟨[], []⟩

def newProfile (sourcedFrom : Option Ref) (data : AnyProfile) : ContextualizedProfile :=
  { data, sourcedFrom, contains := [], extendsFrom := [], extendedBy := [] }

/-- `evalContext` is the identity of the object that is created. -/
def contextualizeEvaluation (evalContext : Ref) (evaluation : ExecJSON) :
    Except JsError ContextualizedEvaluation := do
  let created := evaluation.profiles.map fun profile => newProfile (some evalContext) (.exec profile)
  let linked := linkProfiles created
  let extracted ← extractControls linked
  return {
    self := evalContext
    data := evaluation
    contains := List.range created.length
    graph := { extracted with controls := linkControls extracted.profiles extracted.controls } }

/-- The graph of a profile file: one profile, and its controls without links. -/
def contextualizeProfile (profile : ProfileJSON) : Except JsError Graph :=
  extractControls [newProfile none (.profile profile)]

end Build

namespace Graph

/-- `extendsFrom[0]`, if there is one. -/
def extended (g : Graph) (c : ℕ) : Option ℕ := g.controls[c]?.bind fun cc => cc.extendsFrom.head?

/-- `root`, with fuel for the recursion of the getter. -/
def root (g : Graph) (fuel : ℕ) (c : ℕ) : Option ℕ := follow g.extended fuel c

/-- The code of a control, as `data.code`. -/
def code (g : Graph) (c : ℕ) : Opt JsString :=
  match g.controls[c]? with
  | some cc => cc.data.code
  | none => .undefined

/-- Only a control with code and with an ancestor looks at the code of its root. -/
def is_redundant (g : Graph) (fuel : ℕ) (c : ℕ) : Option Bool :=
  let code := g.code c
  if !code.truthy || (trim code.inTemplate).isEmpty then some true
  else if (g.extended c).isNone then some false
  else (g.root fuel c).map fun root => decide (code = g.code root)

def profileName (g : Graph) (c : ℕ) : JsString :=
  ((g.controls[c]?.bind fun cc => g.profiles[cc.sourcedFrom]?).map (·.data.name)).getD []

def rule : JsString := js "========================================================="

def codeBlock (g : Graph) (c : ℕ) : JsString :=
  rule ++ js "\n# Profile name: " ++ g.profileName c ++ js "\n" ++ rule ++ js "\n\n" ++
    (g.code c).inTemplate

def full_code (g : Graph) : ℕ → ℕ → Option JsString
  | 0, _ => none
  | fuel + 1, c =>
      match g.extended c with
      | none => some (trim (g.codeBlock c))
      | some ancestor => do
          let redundant ← g.is_redundant (fuel + 1) c
          let below ← full_code g fuel ancestor
          if redundant then return below
          else return trim (g.codeBlock c ++ js "\n\n" ++ below)

end Graph
end Inspec
