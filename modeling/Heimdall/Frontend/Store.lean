import Heimdall.Lib.Selection
import Heimdall.Inspec.FileParse
import Heimdall.Frontend.DataStore

/-!
# The store

The objects that the intake creates, and the state of the two modules that hold them: the
loaded files, and the identifiers of the selected ones. An object is known by its number.
-/
namespace Frontend
open Js Lib Inspec

/-- The identity of a file object. -/
abbrev FileRef := ℕ

/-- The identity of a contextualized profile of a profile file. -/
abbrev ProfileRef := ℕ

/-- An evaluation object; `from_file` is `undefined` until it is set. -/
structure EvaluationObject where
  context : ContextualizedEvaluation
  from_file : Option FileRef

structure ProfileObject where
  graph : Graph
  from_file : Option FileRef

/-- A file object; it holds an evaluation or a profile once that has been set. -/
structure FileObject where
  uniqueId : FileID
  filename : JsString
  database_id : Option JsString
  evaluation : Option Ref
  profile : Option ProfileRef

structure Store where
  evaluations : List EvaluationObject
  profiles : List ProfileObject
  files : List FileObject
  executionFiles : List FileRef
  profileFiles : List FileRef
  selectedEvaluationIds : List FileID
  selectedProfileIds : List FileID

inductive Trinary where
  | On | Off | Mixed
  deriving DecidableEq, Repr

namespace Store

/-- The store of a fresh page. -/
def initial : Store := ⟨[], [], [], [], [], [], []⟩

section Objects

def newFile (s : Store) (file : FileObject) : Store := { s with files := s.files ++ [file] }

def newEvaluation (s : Store) (evaluation : EvaluationObject) : Store :=
  { s with evaluations := s.evaluations ++ [evaluation] }

def newProfile (s : Store) (profile : ProfileObject) : Store :=
  { s with profiles := s.profiles ++ [profile] }

/-- Assign to a field of a file object. -/
def setFile (s : Store) (ref : FileRef) (f : FileObject → FileObject) : Store :=
  { s with files := s.files.modify ref f }

def setEvaluation (s : Store) (ref : Ref) (f : EvaluationObject → EvaluationObject) : Store :=
  { s with evaluations := s.evaluations.modify ref f }

def setProfile (s : Store) (ref : ProfileRef) (f : ProfileObject → ProfileObject) : Store :=
  { s with profiles := s.profiles.modify ref f }

def uniqueId (s : Store) (file : FileRef) : Option FileID := s.files[file]?.map (·.uniqueId)

/-- The identifiers of these files. -/
def ids (s : Store) (files : List FileRef) : List FileID := files.filterMap s.uniqueId

end Objects

section Selection

def SELECT_EVALUATIONS (s : Store) (files : List FileID) : Store :=
  { s with selectedEvaluationIds := distinct (files ++ s.selectedEvaluationIds) }

def SELECT_PROFILES (s : Store) (files : List FileID) : Store :=
  { s with selectedProfileIds := distinct (files ++ s.selectedProfileIds) }

def CLEAR_EVALUATION (s : Store) (removeId : FileID) : Store :=
  { s with selectedEvaluationIds := s.selectedEvaluationIds.filter fun id => id ≠ removeId }

def CLEAR_PROFILE (s : Store) (removeId : FileID) : Store :=
  { s with selectedProfileIds := s.selectedProfileIds.filter fun id => id ≠ removeId }

def CLEAR_ALL_EVALUATIONS (s : Store) : Store := { s with selectedEvaluationIds := [] }

def CLEAR_ALL_PROFILES (s : Store) : Store := { s with selectedProfileIds := [] }

/-- `switch (selected) { case 0: … case loaded: … default: … }` -/
def trinary (selected loaded : ℕ) : Trinary :=
  if selected = 0 then .Off else if selected = loaded then .On else .Mixed

def all_evaluations_selected (s : Store) : Trinary :=
  trinary s.selectedEvaluationIds.length s.executionFiles.length

def all_profiles_selected (s : Store) : Trinary :=
  trinary s.selectedProfileIds.length s.profileFiles.length

def toggle_all_evaluations (s : Store) : Store :=
  if s.all_evaluations_selected = .On then s.CLEAR_ALL_EVALUATIONS
  else s.SELECT_EVALUATIONS (s.ids s.executionFiles)

def toggle_all_profiles (s : Store) : Store :=
  if s.all_profiles_selected = .On then s.CLEAR_ALL_PROFILES
  else s.SELECT_PROFILES (s.ids s.profileFiles)

def select_exclusive_evaluation (s : Store) (fileID : FileID) : Store :=
  s.CLEAR_ALL_EVALUATIONS.SELECT_EVALUATIONS [fileID]

def select_exclusive_profile (s : Store) (fileID : FileID) : Store :=
  s.CLEAR_ALL_PROFILES.SELECT_PROFILES [fileID]

def toggle_evaluation (s : Store) (fileID : FileID) : Store :=
  if fileID ∈ s.selectedEvaluationIds then s.CLEAR_EVALUATION fileID
  else s.SELECT_EVALUATIONS [fileID]

def toggle_profile (s : Store) (fileID : FileID) : Store :=
  if fileID ∈ s.selectedProfileIds then s.CLEAR_PROFILE fileID
  else s.SELECT_PROFILES [fileID]

def clear_file (s : Store) (fileID : FileID) : Store :=
  (s.CLEAR_EVALUATION fileID).CLEAR_PROFILE fileID

end Selection

section Files

def addExecution (s : Store) (newExecution : FileRef) : Store :=
  { s with executionFiles := s.executionFiles ++ [newExecution] }

def addProfile (s : Store) (newProfile : FileRef) : Store :=
  { s with profileFiles := s.profileFiles ++ [newProfile] }

def REMOVE_PROFILE (s : Store) (fileId : FileID) : Store :=
  { s with profileFiles := s.profileFiles.filter fun pf => s.uniqueId pf ≠ some fileId }

def REMOVE_RESULT (s : Store) (fileId : FileID) : Store :=
  { s with executionFiles := s.executionFiles.filter fun ef => s.uniqueId ef ≠ some fileId }

def removeFile (s : Store) (fileId : FileID) : Store :=
  ((s.clear_file fileId).REMOVE_PROFILE fileId).REMOVE_RESULT fileId

/-- Both lists are emptied; the selection is not touched. -/
def reset (s : Store) : Store := { s with profileFiles := [], executionFiles := [] }

/-- The files are visited evaluations first; an empty `database_id` is skipped. -/
def loadedDatabaseIds (s : Store) : List JsString :=
  (s.executionFiles ++ s.profileFiles).filterMap fun file =>
    (s.files[file]?.bind (·.database_id)).filter fun id => !id.isEmpty

end Files
end Store
end Frontend
