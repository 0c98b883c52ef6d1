import Heimdall.Lib.Run
import Heimdall.Inspec.Extraction
import Heimdall.Frontend.Store

/-!
# The intake of files

The two ways in which a file enters the store, and the operations on the store taken
together. An operation that throws leaves the store as it was.
-/
namespace Frontend
open Js Lib Inspec

/-- The text stands for the value that `JSON.parse` finds in it, if it is JSON at all. -/
structure TextLoadOptions where
  filename : JsString
  database_id : Option JsString := none
  text : Option JsVal

namespace Store

section Intake
variable [UnicodeTables]

def loadText (s : Store) (fileID : FileID) (options : TextLoadOptions) :
    Except JsError Store :=
  match convertFile options.text with
  | .execJson exec => do
      let evalFile := s.files.length
      let evaluation := s.evaluations.length
      let s := s.newFile ⟨fileID, options.filename, options.database_id, none, none⟩
      let context ← contextualizeEvaluation evaluation exec
      let s := s.newEvaluation ⟨context, none⟩
      let s := s.setEvaluation evaluation fun e => { e with from_file := some evalFile }
      let s := s.setFile evalFile fun file => { file with evaluation := some evaluation }
      return (s.addExecution evalFile).toggle_evaluation fileID
  | .profileJson profileJson => do
      let profileFile := s.files.length
      let profile := s.profiles.length
      -- A profile file is not given a `database_id`.
      let s := s.newFile ⟨fileID, options.filename, none, none, none⟩
      let graph ← contextualizeProfile profileJson
      let s := s.newProfile ⟨graph, none⟩
      let s := s.setProfile profile fun p => { p with from_file := some profileFile }
      let s := s.setFile profileFile fun file => { file with profile := some profile }
      return (s.addProfile profileFile).toggle_profile fileID
  | _ => .error (.error "Couldn't parse data. See developer's tools for more details.")

/-- The Splunk tab loads an execution that it has put together. -/
def load_event (s : Store) (uniqueId : FileID) (filename : JsString) (exec : ExecJSON) :
    Except JsError Store := do
  let file := s.files.length
  let s := s.newFile ⟨uniqueId, filename ++ js " (Splunk)", none, none, none⟩
  let original := s.evaluations.length
  let context ← contextualizeEvaluation original exec
  let s := s.newEvaluation ⟨context, none⟩
  -- `{...context, from_file: file}` is another object: the profiles still point to the first.
  let contextualized := s.evaluations.length
  let s := s.newEvaluation ⟨{ context with self := contextualized }, some file⟩
  let s := s.setFile file fun f => { f with evaluation := some contextualized }
  return s.addExecution file

inductive Op where
  | loadText (fileID : FileID) (options : TextLoadOptions)
  | load_event (uniqueId : FileID) (filename : JsString) (exec : ExecJSON)
  | removeFile (fileId : FileID)
  | reset
  | toggle_evaluation (fileID : FileID)
  | toggle_profile (fileID : FileID)
  | select_exclusive_evaluation (fileID : FileID)
  | select_exclusive_profile (fileID : FileID)
  | toggle_all_evaluations
  | toggle_all_profiles
  | SELECT_EVALUATIONS (files : List FileID)
  | SELECT_PROFILES (files : List FileID)
  | CLEAR_EVALUATION (removeId : FileID)
  | CLEAR_PROFILE (removeId : FileID)
  | CLEAR_ALL_EVALUATIONS
  | CLEAR_ALL_PROFILES
  | clear_file (fileID : FileID)

def perform (s : Store) : Op → Except JsError Store
  | .loadText fileID options => s.loadText fileID options
  | .load_event uniqueId filename exec => s.load_event uniqueId filename exec
  | .removeFile fileId => .ok (s.removeFile fileId)
  | .reset => .ok s.reset
  | .toggle_evaluation fileID => .ok (s.toggle_evaluation fileID)
  | .toggle_profile fileID => .ok (s.toggle_profile fileID)
  | .select_exclusive_evaluation fileID => .ok (s.select_exclusive_evaluation fileID)
  | .select_exclusive_profile fileID => .ok (s.select_exclusive_profile fileID)
  | .toggle_all_evaluations => .ok s.toggle_all_evaluations
  | .toggle_all_profiles => .ok s.toggle_all_profiles
  | .SELECT_EVALUATIONS files => .ok (s.SELECT_EVALUATIONS files)
  | .SELECT_PROFILES files => .ok (s.SELECT_PROFILES files)
  | .CLEAR_EVALUATION removeId => .ok (s.CLEAR_EVALUATION removeId)
  | .CLEAR_PROFILE removeId => .ok (s.CLEAR_PROFILE removeId)
  | .CLEAR_ALL_EVALUATIONS => .ok s.CLEAR_ALL_EVALUATIONS
  | .CLEAR_ALL_PROFILES => .ok s.CLEAR_ALL_PROFILES
  | .clear_file fileID => .ok (s.clear_file fileID)

def step (s : Store) (op : Op) : Store :=
  match s.perform op with
  | .ok s' => s'
  | .error _ => s

end Intake

section Effects

/-- A file is taken in with the evaluation objects that were created for it. -/
def takeEvaluation (s : Store) (objects : List EvaluationObject) (file : FileObject) : Store :=
  { s with
    evaluations := s.evaluations ++ objects
    files := s.files ++ [file]
    executionFiles := s.executionFiles ++ [s.files.length] }

def takeProfile (s : Store) (object : ProfileObject) (file : FileObject) : Store :=
  { s with
    profiles := s.profiles ++ [object]
    files := s.files ++ [file]
    profileFiles := s.profileFiles ++ [s.files.length] }

section Assignments
variable (s : Store) (file : FileObject)

theorem linked_evaluation (context : ContextualizedEvaluation) :
    ((((s.newFile file).newEvaluation ⟨context, none⟩).setEvaluation s.evaluations.length
      fun e => { e with from_file := some s.files.length }).setFile s.files.length
        fun f => { f with evaluation := some s.evaluations.length }).addExecution s.files.length =
      s.takeEvaluation [⟨context, some s.files.length⟩]
        { file with evaluation := some s.evaluations.length } := by
  simp only [newFile, newEvaluation, setEvaluation, setFile, addExecution, modify_concat]
  rfl

theorem linked_profile (graph : Graph) :
    ((((s.newFile file).newProfile ⟨graph, none⟩).setProfile s.profiles.length
      fun p => { p with from_file := some s.files.length }).setFile s.files.length
        fun f => { f with profile := some s.profiles.length }).addProfile s.files.length =
      s.takeProfile ⟨graph, some s.files.length⟩
        { file with profile := some s.profiles.length } := by
  simp only [newFile, newProfile, setProfile, setFile, addProfile, modify_concat]
  rfl

/-- The second object is a copy of the first one. -/
theorem copied_evaluation (context : ContextualizedEvaluation) :
    ((((s.newFile file).newEvaluation ⟨context, none⟩).newEvaluation
      ⟨{ context with self := s.evaluations.length + 1 }, some s.files.length⟩).setFile
        s.files.length
          fun f => { f with evaluation := some (s.evaluations.length + 1) }).addExecution
            s.files.length =
      s.takeEvaluation [⟨context, none⟩,
          ⟨{ context with self := s.evaluations.length + 1 }, some s.files.length⟩]
        { file with evaluation := some (s.evaluations.length + 1) } := by
  simp only [newFile, newEvaluation, setFile, addExecution, modify_concat, List.append_assoc,
    List.singleton_append]
  rfl

end Assignments

variable [UnicodeTables]

/-- What a text that is accepted does to the store. -/
theorem loadText_eq_ok {s s' : Store} {fileID : FileID} {options : TextLoadOptions} :
    s.loadText fileID options = .ok s' ↔
      (∃ exec context, convertFile options.text = .execJson exec ∧
        contextualizeEvaluation s.evaluations.length exec = .ok context ∧
        s' = (s.takeEvaluation [⟨context, some s.files.length⟩]
          ⟨fileID, options.filename, options.database_id, some s.evaluations.length,
            none⟩).toggle_evaluation fileID) ∨
      ∃ profileJson graph, convertFile options.text = .profileJson profileJson ∧
        contextualizeProfile profileJson = .ok graph ∧
        s' = (s.takeProfile ⟨graph, some s.files.length⟩
          ⟨fileID, options.filename, none, none, some s.profiles.length⟩).toggle_profile
            fileID := by
  unfold loadText
  cases convertFile options.text with
  | execJson exec =>
      simp only [do_eq_ok, ConversionResult.execJson.injEq, reduceCtorEq, false_and, exists_false,
        or_false, exists_and_left, exists_eq_left']
      refine exists_congr fun context => and_congr_right fun _ => ?_
      rw [← linked_evaluation s ⟨fileID, options.filename, options.database_id, none, none⟩]
      exact pure_eq_ok
  | profileJson profileJson =>
      simp only [do_eq_ok, ConversionResult.profileJson.injEq, reduceCtorEq, false_and,
        exists_false, false_or, exists_and_left, exists_eq_left']
      refine exists_congr fun graph => and_congr_right fun _ => ?_
      rw [← linked_profile s ⟨fileID, options.filename, none, none, none⟩]
      exact pure_eq_ok
  | execJsonMin => simp
  | errors => simp

/-- What an execution that is accepted does to the store: the file holds the copy. -/
theorem load_event_eq_ok {s s' : Store} {uniqueId : FileID} {filename : JsString}
    {exec : ExecJSON} :
    s.load_event uniqueId filename exec = .ok s' ↔
      ∃ context, contextualizeEvaluation s.evaluations.length exec = .ok context ∧
        s' = s.takeEvaluation [⟨context, none⟩,
            ⟨{ context with self := s.evaluations.length + 1 }, some s.files.length⟩]
          ⟨uniqueId, filename ++ js " (Splunk)", none, some (s.evaluations.length + 1), none⟩ := by
  simp only [load_event, do_eq_ok]
  refine exists_congr fun context => and_congr_right fun _ => ?_
  rw [← copied_evaluation s ⟨uniqueId, filename ++ js " (Splunk)", none, none, none⟩]
  simp only [newFile, newEvaluation, List.length_append, List.length_singleton]
  exact pure_eq_ok

end Effects

section Narrowing

/-- Files may leave and the selection may change. No object is touched. -/
def Narrows (s s' : Store) : Prop :=
  ∃ execs ⊆ s.executionFiles, ∃ profs ⊆ s.profileFiles, ∃ evaluationIds profileIds,
    s' = { s with
      executionFiles := execs
      profileFiles := profs
      selectedEvaluationIds := evaluationIds
      selectedProfileIds := profileIds }

theorem Narrows.selection (s : Store) (evaluationIds profileIds : List FileID) :
    Narrows s { s with
      selectedEvaluationIds := evaluationIds
      selectedProfileIds := profileIds } :=
  ⟨_, List.Subset.refl _, _, List.Subset.refl _, _, _, rfl⟩

theorem Narrows.choose {s a b : Store} {c : Prop} [Decidable c] (first : Narrows s a)
    (second : Narrows s b) : Narrows s (if c then a else b) := by
  by_cases h : c
  · rw [if_pos h]
    exact first
  · rw [if_neg h]
    exact second

theorem toggle_evaluation_narrows (s : Store) (fileID : FileID) :
    Narrows s (s.toggle_evaluation fileID) :=
  .choose (.selection s _ _) (.selection s _ _)

theorem toggle_profile_narrows (s : Store) (fileID : FileID) :
    Narrows s (s.toggle_profile fileID) :=
  .choose (.selection s _ _) (.selection s _ _)

/-- The operations that take files in. -/
def Op.loads : Op → Bool
  | .loadText _ _ | .load_event _ _ _ => true
  | _ => false

/-- Every other operation returns, and narrows the store. -/
theorem step_narrows [UnicodeTables] (s : Store) {op : Op} (other : op.loads = false) :
    Narrows s (s.step op) := by
  cases op with
  | loadText | load_event => cases other
  | removeFile fileId =>
      exact ⟨_, List.filter_sublist.subset, _, List.filter_sublist.subset, _, _, rfl⟩
  | reset => exact ⟨_, List.nil_subset _, _, List.nil_subset _, _, _, rfl⟩
  | toggle_evaluation fileID => exact toggle_evaluation_narrows s fileID
  | toggle_profile fileID => exact toggle_profile_narrows s fileID
  | toggle_all_evaluations | toggle_all_profiles =>
      exact .choose (.selection s _ _) (.selection s _ _)
  | select_exclusive_evaluation | select_exclusive_profile | SELECT_EVALUATIONS
  | SELECT_PROFILES | CLEAR_EVALUATION | CLEAR_PROFILE | CLEAR_ALL_EVALUATIONS
  | CLEAR_ALL_PROFILES | clear_file => exact .selection s _ _

end Narrowing

section Validity

/-- The loaded files are objects of the store. -/
structure Valid (s : Store) : Prop where
  executionFiles : ∀ file ∈ s.executionFiles, file < s.files.length
  profileFiles : ∀ file ∈ s.profileFiles, file < s.files.length

theorem valid_initial : initial.Valid where
  executionFiles _ inside := by cases inside
  profileFiles _ inside := by cases inside

variable {s s' : Store}

theorem valid_concat {files : List FileRef} {n : ℕ} (valid : ∀ file ∈ files, file < n) :
    ∀ file ∈ files ++ [n], file < n + 1 := by
  intro file inside
  rcases List.mem_append.mp inside with old | new
  · exact Nat.lt_succ_of_lt (valid file old)
  · exact List.mem_singleton.mp new ▸ Nat.lt_succ_self n

theorem Valid.narrow (valid : s.Valid) (narrows : Narrows s s') : s'.Valid := by
  obtain ⟨execs, fewer, profs, fewer', _, _, rfl⟩ := narrows
  exact ⟨fun file inside => valid.executionFiles file (fewer inside),
    fun file inside => valid.profileFiles file (fewer' inside)⟩

theorem Valid.takeEvaluation (valid : s.Valid) (objects : List EvaluationObject)
    (file : FileObject) : (s.takeEvaluation objects file).Valid := by
  have length : (s.takeEvaluation objects file).files.length = s.files.length + 1 :=
    List.length_append
  constructor <;> rw [length]
  · exact valid_concat valid.executionFiles
  · exact fun ref inside => Nat.lt_succ_of_lt (valid.profileFiles ref inside)

theorem Valid.takeProfile (valid : s.Valid) (object : ProfileObject) (file : FileObject) :
    (s.takeProfile object file).Valid := by
  have length : (s.takeProfile object file).files.length = s.files.length + 1 :=
    List.length_append
  constructor <;> rw [length]
  · exact fun ref inside => Nat.lt_succ_of_lt (valid.executionFiles ref inside)
  · exact valid_concat valid.profileFiles

theorem Valid.step [UnicodeTables] (valid : s.Valid) (op : Op) : (s.step op).Valid := by
  cases loads : op.loads with
  | false => exact valid.narrow (step_narrows s loads)
  | true =>
      unfold Store.step
      cases done : s.perform op with
      | error e => exact valid
      | ok s' =>
          cases op with
          | loadText fileID options =>
              rcases loadText_eq_ok.mp done with ⟨exec, context, -, -, rfl⟩ |
                ⟨profileJson, graph, -, -, rfl⟩
              · exact (valid.takeEvaluation _ _).narrow (toggle_evaluation_narrows _ _)
              · exact (valid.takeProfile _ _).narrow (toggle_profile_narrows _ _)
          | load_event uniqueId filename exec =>
              obtain ⟨context, -, rfl⟩ := load_event_eq_ok.mp done
              exact valid.takeEvaluation _ _
          | _ => cases loads

end Validity

end Store
end Frontend
