import Heimdall.Lib.Unfold
import Heimdall.Inspec.Overlays
import Heimdall.Frontend.DataStore

/-!
# Walking the overlays of a file

The three recursions over `extendsFrom`: the root of a control, its full code, and the tree
of profiles on the profile card. They end for every accepted file whose profiles do not
name each other in a circle, and for no other.
-/
namespace Frontend
open Js Lib Inspec Relation

/-- The key of a profile of the file `uniqueId`. -/
def profile_unique_key (uniqueId : FileID) (profile : ContextualizedProfile) : JsString :=
  match profile.sourcedFrom with
  | none => js "profile_" ++ uniqueId
  | some _ => js "exec_" ++ uniqueId ++ js "-" ++ profile.data.name

inductive TreeItem where
  | mk (id name : JsString) (children : List TreeItem)

section Tree
variable (uniqueId : FileID) (g : Graph)

/-- The profiles that profile `p` extends. -/
def overlaid (p : ℕ) : List ℕ := (g.profiles[p]?.map (·.extendsFrom)).getD []

def treeNode (p : ℕ) (children : List TreeItem) : TreeItem :=
  match g.profiles[p]? with
  | none => .mk [] [] children
  | some profile => .mk (profile_unique_key uniqueId profile) profile.data.name children

/-- `new TreeItem(profile)`, with fuel for the recursion of the constructor. -/
def newTreeItem (fuel : ℕ) (p : ℕ) : Option TreeItem :=
  unfold (overlaid g) (treeNode uniqueId g) fuel p

end Tree

/-- The recursions over the overlays of a file come back, with whatever fuel they need. -/
structure Terminates (uniqueId : FileID) (g : Graph) : Prop where
  root : ∀ c < g.controls.length, ∃ fuel r, g.root fuel c = some r
  full_code : ∀ c < g.controls.length, ∃ fuel code, g.full_code fuel c = some code
  tree : ∀ p < g.profiles.length, ∃ fuel item, newTreeItem uniqueId g fuel p = some item

section Ends
variable [UnicodeTables] {evaluation : ExecJSON} {context : ContextualizedEvaluation}

theorem mem_overlaid (built : Built evaluation context) {p q : ℕ} :
    q ∈ overlaid context.graph p ↔ parents evaluation q = some p := by
  unfold overlaid
  cases here : context.graph.profiles[p]? with
  | some profile => simpa using built.mem_extendsFrom here
  | none =>
      have bound := List.getElem?_eq_none_iff.mp here
      simp only [Option.map_none, Option.getD_none, List.not_mem_nil, false_iff]
      intro named
      have small := (namedParent_bounds named).2
      rw [List.length_map, ← built.length_profiles] at small
      omega

/-- A tree is built exactly where the relation of the named parents is accessible. -/
theorem newTreeItem_returns (built : Built evaluation context) (uniqueId : FileID) (p : ℕ) :
    (∃ fuel item, newTreeItem uniqueId context.graph fuel p = some item) ↔
      Acc (fun q p => parents evaluation q = some p) p := by
  have same : (fun q p => q ∈ overlaid context.graph p) =
      fun q p => parents evaluation q = some p := by
    funext q p
    exact propext (mem_overlaid built)
  rw [← same]
  exact unfold_returns_iff_acc

theorem terminates_of_acyclic (built : Built evaluation context) (uniqueId : FileID)
    (acyclic : Acyclic (Next (parents evaluation))) : Terminates uniqueId context.graph where
  root c _ := by
    unfold Graph.root
    rw [built.extended_eq]
    exact built.ends acyclic c
  full_code c _ := by
    obtain ⟨fuel, r, walk⟩ := built.ends acyclic c
    rw [← built.extended_eq] at walk
    exact ⟨fuel, full_code_of_root walk⟩
  tree p _ := (newTreeItem_returns built uniqueId p).mpr ((wellFounded_parents acyclic).apply p)

theorem acyclic_of_terminates (built : Built evaluation context) {uniqueId : FileID}
    (terminates : Terminates uniqueId context.graph) : Acyclic (Next (parents evaluation)) := by
  have wf : WellFounded fun q p => parents evaluation q = some p := by
    refine ⟨fun p => ?_⟩
    rcases Nat.lt_or_ge p context.graph.profiles.length with inside | outside
    · exact (newTreeItem_returns built uniqueId p).mp (terminates.tree p inside)
    · apply Acc.intro p
      intro q named
      have small := (namedParent_bounds named).2
      rw [List.length_map, ← built.length_profiles] at small
      omega
  exact (acyclic_of_wellFounded wf).swap

/-- The recursions over an accepted file end exactly when no profile is its own ancestor,
each profile being followed to the first profile that bears the name of its parent. -/
theorem terminates_iff_acyclic (json : JsVal) (evalContext : Ref) (uniqueId : FileID) :
    toExecJSON json = .ok evaluation →
    contextualizeEvaluation evalContext evaluation = .ok context →
      (Terminates uniqueId context.graph ↔ Acyclic (Next (parents evaluation))) := by
  intro _ returned
  have built := (contextualizeEvaluation_built returned).2
  exact ⟨acyclic_of_terminates built, terminates_of_acyclic built uniqueId⟩

end Ends

section Samples

theorem terminates_iff_acyclic_sample :
    ∃ context, @contextualizeEvaluation asciiTables 0 wrapped = .ok context ∧
      Terminates (js "f") context.graph :=
  ⟨_, rfl, (@terminates_iff_acyclic asciiTables _ _ wrappedJson 0 _ wrapped_accepted rfl).mpr
    wrapped_acyclic⟩

/-- A profile that names itself as its parent. -/
def selfNamedJson : JsVal := sampleFile
  [sampleProfile "loop" [("parent_profile", .str (js "loop"))] [sampleControl "C-1" []]]

def selfNamed : ExecJSON := sampleExec
  [⟨js "loop", .val (js "loop"), [bareControl "C-1" []]⟩]

theorem selfNamed_accepted : toExecJSON selfNamedJson = .ok selfNamed := by rfl

theorem selfNamed_returns [UnicodeTables] :
    ∃ context, contextualizeEvaluation 0 selfNamed = .ok context := by
  rw [contextualizeEvaluation_returns]
  intro profile inside control here
  simp only [selfNamed, sampleExec, List.mem_singleton] at inside
  subst inside
  simp only [AnyProfile.controls, List.map_cons, List.map_nil, List.mem_singleton] at here
  subst here
  exact ⟨rfl, trivial⟩

/-- An accepted file need not terminate. -/
theorem selfNamed_endless :
    ¬ ∀ [UnicodeTables] (json : JsVal) (evaluation : ExecJSON) (evalContext : Ref) (uniqueId : FileID)
      (context : ContextualizedEvaluation),
      toExecJSON json = .ok evaluation →
      contextualizeEvaluation evalContext evaluation = .ok context →
        Terminates uniqueId context.graph := by
  intro always
  obtain ⟨context, returned⟩ := @selfNamed_returns asciiTables
  have terminates := @always asciiTables _ _ 0 [] context selfNamed_accepted returned
  have built := (@contextualizeEvaluation_built asciiTables _ _ _ returned).2
  have acyclic := @acyclic_of_terminates asciiTables _ _ built _ terminates
  have loop : parents selfNamed 0 = some 0 := by decide +kernel
  exact acyclic 0 (TransGen.single loop)

end Samples
end Frontend
