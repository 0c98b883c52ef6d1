import Heimdall.Inspec.Context

/-!
# The data store

The loaded files, and references to the profiles and controls that they hold.
-/
namespace Frontend
open Js Lib Inspec

abbrev FileID := JsString

structure EvaluationFile where
  uniqueId : FileID
  evaluation : ContextualizedEvaluation

/-- The graph of a profile file has one profile, with the number 0. -/
structure ProfileFile where
  uniqueId : FileID
  profile : Graph

structure InspecData where
  executionFiles : List EvaluationFile
  profileFiles : List ProfileFile

/-- What `allFiles` tells of a loaded file. -/
structure InspecFile where
  uniqueId : FileID
  filename : JsString
  deriving DecidableEq

/-- `allFiles.find((f) => f.uniqueId === fileId)` -/
def findFile (allFiles : List InspecFile) (fileId : FileID) : Option InspecFile :=
  allFiles.find? fun f => decide (f.uniqueId = fileId)

structure StoredProfile where
  file : FileID
  graph : Graph
  index : ℕ

structure StoredControl where
  file : FileID
  graph : Graph
  index : ℕ

/-- The controls that a profile contains. -/
def StoredProfile.contained (p : StoredProfile) : List StoredControl :=
  ((p.graph.profiles[p.index]?.map (·.contains)).getD []).map fun c => ⟨p.file, p.graph, c⟩

namespace StoredControl

def get (c : StoredControl) : Option ContextualizedControl := c.graph.controls[c.index]?

def hdf (c : StoredControl) : Option HDFControl := c.get.map (·.hdf)

/-- `root`; a walk that is longer than the number of controls never ends. -/
def root (c : StoredControl) : Except JsError StoredControl := do
  let r ← orThrow (c.graph.root (c.graph.controls.length + 1) c.index)
    (.rangeError "Maximum call stack size exceeded")
  return { c with index := r }

/-- The HDF view of the root. -/
def rootHdf (c : StoredControl) : Except JsError (Option HDFControl) := do
  let r ← c.root
  return r.hdf

theorem root_eq_ok {file : FileID} {g : Graph} {c r : ℕ}
    (walk : g.root (g.controls.length + 1) c = some r) :
    root ⟨file, g, c⟩ = .ok ⟨file, g, r⟩ := by
  simp only [root, walk]
  rfl

end StoredControl
end Frontend
