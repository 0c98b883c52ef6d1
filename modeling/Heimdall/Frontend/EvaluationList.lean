import Heimdall.Js.Arrays
import Heimdall.Frontend.Evaluations

/-!
# The list of evaluations

The store keeps the evaluations of the user as a list of objects. An answer of the server is a new
object, also where it describes an evaluation that the list has already.
-/
namespace Frontend
open Js Inspec

/-- The evaluations that exist as objects, by their identity, and those in the list. -/
structure EvaluationStore where
  objects : List IEvaluation
  allEvaluations : List Ref

namespace EvaluationStore

def idOf (s : EvaluationStore) (evaluation : Ref) : Option JsString :=
  s.objects[evaluation]?.map (·.id)

/-- The object is not the list's, be it an answer or a copy that a dialog works on. -/
def object (s : EvaluationStore) (evaluation : IEvaluation) : EvaluationStore :=
  { s with objects := s.objects ++ [evaluation] }

def SET_ALL_EVALUATION (s : EvaluationStore) (evaluations : List Ref) : EvaluationStore :=
  { s with allEvaluations := evaluations }

/-- Saves an evaluation, in the place of the first one with its id if there is one. -/
def SAVE_EVALUTION (s : EvaluationStore) (evaluationToSave : Ref) : EvaluationStore :=
  match s.allEvaluations.findIdx? fun evaluation =>
      s.idOf evaluationToSave = s.idOf evaluation with
  | some index =>
      { s with allEvaluations := splice s.allEvaluations index 1 [evaluationToSave] }
  | none => { s with allEvaluations := s.allEvaluations ++ [evaluationToSave] }

def REMOVE_EVALUATION (s : EvaluationStore) (evaluation : Ref) : EvaluationStore :=
  { s with allEvaluations :=
      splice s.allEvaluations (indexOf s.allEvaluations evaluation) 1 [] }

inductive Action where
  /-- A component makes an object of its own. -/
  | object (evaluation : IEvaluation)
  /-- The list of the server has come. -/
  | getAllEvaluations (data : List IEvaluation)
  /-- An evaluation was loaded or updated, and has come. -/
  | saveEvaluation (data : IEvaluation)
  | deleteEvaluation (evaluation : Ref) (ok : Bool)

def step (s : EvaluationStore) : Action → EvaluationStore
  | .object evaluation => s.object evaluation
  | .getAllEvaluations data =>
      { s with objects := s.objects ++ data }.SET_ALL_EVALUATION
        (List.range' s.objects.length data.length)
  | .saveEvaluation data => (s.object data).SAVE_EVALUTION s.objects.length
  -- The removal comes before the request, whose answer the list does not wait for.
  | .deleteEvaluation evaluation _ => s.REMOVE_EVALUATION evaluation

def empty : EvaluationStore := ⟨[], []⟩

/-- A deletion that the server accepts takes the entries with the id of the evaluation, and one
that it turns down takes none. -/
def Deletes (s : EvaluationStore) : Action → Prop
  | .deleteEvaluation evaluation true =>
      (s.step (.deleteEvaluation evaluation true)).allEvaluations =
        Lib.without s.idOf (s.idOf evaluation) s.allEvaluations
  | .deleteEvaluation evaluation false =>
      (s.step (.deleteEvaluation evaluation false)).allEvaluations = s.allEvaluations
  | _ => True

/-- The evaluation has one entry, found by identity or the last of the list, or the list is
empty. -/
def Deletable (s : EvaluationStore) : Action → Prop
  | .deleteEvaluation evaluation true => Removable s.idOf s.allEvaluations evaluation
  | .deleteEvaluation _ false => s.allEvaluations = []
  | _ => True

theorem deletes_iff (s : EvaluationStore) (action : Action) :
    s.Deletes action ↔ s.Deletable action := by
  cases action with
  | object | getAllEvaluations | saveEvaluation => exact Iff.rfl
  | deleteEvaluation evaluation ok =>
      cases ok with
      | true => exact splice_indexOf_eq_without_iff s.idOf
      | false => exact splice_indexOf_eq_self_iff

/-- In every run, the deletions do what they should exactly when each finds its evaluation. -/
theorem evaluation_deletions_iff (s : EvaluationStore) (actions : List Action) :
    Lib.Along step Deletes s actions ↔ Lib.Along step Deletable s actions :=
  Lib.along_congr deletes_iff s actions

section Samples

def sampleEvaluation (id : String) : IEvaluation := ⟨js id, js "report.json", .null⟩

/-- After the list was loaded again, the evaluation that was shown before is not found. Where it
is found, it goes also if the server keeps it. -/
theorem evaluation_deletions_fail :
    ¬ Lib.Along step Deletes empty
      [.getAllEvaluations [sampleEvaluation "1", sampleEvaluation "2"],
       .getAllEvaluations [sampleEvaluation "1", sampleEvaluation "2"],
       .deleteEvaluation 0 true] ∧
    ¬ Lib.Along step Deletes empty
      [.getAllEvaluations [sampleEvaluation "1"], .deleteEvaluation 0 false] := by
  constructor
  · rintro ⟨-, -, removed, -⟩
    have lists : ([2] : List Ref) = [3] := removed
    exact absurd lists (by decide)
  · rintro ⟨-, removed, -⟩
    have lists : ([] : List Ref) = [0] := removed
    exact absurd lists (by decide)

end Samples
end EvaluationStore
end Frontend
