import Heimdall.Lib.Selection
import Heimdall.Frontend.ReportIntake

/-!
# The selection

The two modules of the store seen as two shelves, one for evaluations and one for profile
files. Every operation acts on each of them by one of the actions of a holding, so that the
selection stays sound exactly as long as no loaded file leaves by a `reset` that does not
deselect it, and only loaded files of the right kind are selected.
-/
namespace Frontend.Store
open Js Lib Inspec

section Shelves
variable (s : Store)

def evaluationShelf : Holding FileID := ⟨s.ids s.executionFiles, s.selectedEvaluationIds⟩

def profileShelf : Holding FileID := ⟨s.ids s.profileFiles, s.selectedProfileIds⟩

/-- What the selection should be. -/
structure SelectionSound : Prop where
  evaluationsDistinct : s.selectedEvaluationIds.Nodup
  evaluationsLoaded : s.selectedEvaluationIds ⊆ s.ids s.executionFiles
  allEvaluations : s.all_evaluations_selected = .On ↔
    s.executionFiles ≠ [] ∧ ∀ id ∈ s.ids s.executionFiles, id ∈ s.selectedEvaluationIds
  profilesDistinct : s.selectedProfileIds.Nodup
  profilesLoaded : s.selectedProfileIds ⊆ s.ids s.profileFiles
  allProfiles : s.all_profiles_selected = .On ↔
    s.profileFiles ≠ [] ∧ ∀ id ∈ s.ids s.profileFiles, id ∈ s.selectedProfileIds

/-- The loaded files of a kind have distinct identifiers. -/
structure Indexed : Prop extends Valid s where
  evaluationIds : (s.ids s.executionFiles).Nodup
  profileIds : (s.ids s.profileFiles).Nodup

end Shelves

section Ids
variable {s : Store} {files : List FileRef}

theorem uniqueId_of_lt {file : FileRef} (valid : file < s.files.length) :
    s.uniqueId file = some s.files[file].uniqueId := by
  rw [uniqueId, List.getElem?_eq_getElem valid, Option.map_some]

theorem length_ids (valid : ∀ file ∈ files, file < s.files.length) :
    (s.ids files).length = files.length := by
  induction files with
  | nil => rfl
  | cons file files ih =>
      rw [ids, List.filterMap_cons_some (uniqueId_of_lt (valid file List.mem_cons_self)),
        List.length_cons, List.length_cons, ← ih fun f inside =>
          valid f (List.mem_cons_of_mem _ inside)]
      rfl

/-- A file that is put behind the old ones. -/
theorem ids_concat {file : FileObject} {s' : Store} (grown : s'.files = s.files ++ [file])
    (valid : ∀ file ∈ files, file < s.files.length) :
    s'.ids files = s.ids files ∧
      s'.ids (files ++ [s.files.length]) = s.ids files ++ [file.uniqueId] := by
  have old : s'.ids files = s.ids files := by
    apply List.filterMap_congr
    intro f inside
    rw [uniqueId, uniqueId, grown, List.getElem?_append_left (valid f inside)]
  have last : s'.uniqueId s.files.length = some file.uniqueId := by
    rw [uniqueId, grown, List.getElem?_concat_length, Option.map_some]
  refine ⟨old, ?_⟩
  unfold ids at old ⊢
  rw [List.filterMap_append, old, List.filterMap_cons_some last, List.filterMap_nil]

theorem ids_filter (k : FileID) :
    s.ids (files.filter fun file => s.uniqueId file ≠ some k) =
      (s.ids files).filter fun id => id ≠ k := by
  induction files with
  | nil => rfl
  | cons file files ih =>
      unfold ids at ih ⊢
      cases known : s.uniqueId file with
      | none => simpa [List.filter_cons, known] using ih
      | some id =>
          by_cases same : id = k
          · simpa [List.filter_cons, known, same] using ih
          · simpa [List.filter_cons, known, same] using ih

theorem trinary_on {selected loaded : ℕ} :
    trinary selected loaded = .On ↔ selected ≠ 0 ∧ selected = loaded := by
  unfold trinary
  by_cases none : selected = 0
  · simp [none]
  · rw [if_neg none]
    by_cases all : selected = loaded
    · rw [if_pos all]
      exact iff_of_true rfl ⟨none, all⟩
    · rw [if_neg all]
      simp [all]

variable (indexed : s.Indexed)
include indexed

theorem all_evaluations_on : s.all_evaluations_selected = .On ↔ s.evaluationShelf.Full := by
  rw [all_evaluations_selected, trinary_on, ← length_ids indexed.executionFiles]
  rfl

theorem all_profiles_on : s.all_profiles_selected = .On ↔ s.profileShelf.Full := by
  rw [all_profiles_selected, trinary_on, ← length_ids indexed.profileFiles]
  rfl

/-- The selection is sound exactly when both shelves are. -/
theorem selectionSound_iff :
    s.SelectionSound ↔ s.evaluationShelf.Sound ∧ s.profileShelf.Sound := by
  have empty : ∀ files : List FileRef, (∀ file ∈ files, file < s.files.length) →
      (files ≠ [] ↔ s.ids files ≠ []) := by
    intro files valid
    rw [← List.length_pos_iff, ← List.length_pos_iff, length_ids valid]
  constructor
  · intro sound
    exact ⟨⟨sound.evaluationsDistinct, sound.evaluationsLoaded⟩,
      ⟨sound.profilesDistinct, sound.profilesLoaded⟩⟩
  · rintro ⟨evaluations, profiles⟩
    exact {
      evaluationsDistinct := evaluations.nodup
      evaluationsLoaded := evaluations.loaded
      allEvaluations := by
        rw [all_evaluations_on indexed, evaluations.full_iff indexed.evaluationIds,
          empty _ indexed.executionFiles]
        rfl
      profilesDistinct := profiles.nodup
      profilesLoaded := profiles.loaded
      allProfiles := by
        rw [all_profiles_on indexed, profiles.full_iff indexed.profileIds,
          empty _ indexed.profileFiles]
        rfl }

end Ids

section Simulation

/-- The identifier of a new file is not that of a loaded one. -/
def Op.Fresh (s : Store) : Op → Prop
  | .loadText id _ | .load_event id _ _ =>
      id ∉ s.ids s.executionFiles ∧ id ∉ s.ids s.profileFiles
  | _ => True

/-- Only loaded files of the right kind are selected, and nothing is selected at a `reset`. -/
def Op.SelectsLoaded (s : Store) : Op → Prop
  | .reset => s.selectedEvaluationIds = [] ∧ s.selectedProfileIds = []
  | .toggle_evaluation id | .select_exclusive_evaluation id => id ∈ s.ids s.executionFiles
  | .toggle_profile id | .select_exclusive_profile id => id ∈ s.ids s.profileFiles
  | .SELECT_EVALUATIONS files => files ⊆ s.ids s.executionFiles
  | .SELECT_PROFILES files => files ⊆ s.ids s.profileFiles
  | _ => True

/-- The two shelves make these moves when the store makes the operation. -/
structure Moves (s s' : Store) (op : Op) (evaluations profiles : Holding.Act FileID) : Prop where
  evaluationShelf : s'.evaluationShelf = s.evaluationShelf.act evaluations
  profileShelf : s'.profileShelf = s.profileShelf.act profiles
  within : op.SelectsLoaded s ↔
    s.evaluationShelf.Within evaluations ∧ s.profileShelf.Within profiles
  new : op.Fresh s → s.evaluationShelf.New evaluations ∧ s.profileShelf.New profiles

variable {s : Store} (indexed : s.Indexed)

theorem evaluationShelf_toggle (s : Store) (id : FileID) :
    (s.toggle_evaluation id).evaluationShelf = s.evaluationShelf.toggle id ∧
      (s.toggle_evaluation id).profileShelf = s.profileShelf := by
  unfold toggle_evaluation Holding.toggle
  by_cases chosen : id ∈ s.selectedEvaluationIds
  · rw [if_pos chosen, if_pos (show id ∈ s.evaluationShelf.selected from chosen)]
    exact ⟨rfl, rfl⟩
  · rw [if_neg chosen, if_neg (show id ∉ s.evaluationShelf.selected from chosen)]
    exact ⟨rfl, rfl⟩

theorem profileShelf_toggle (s : Store) (id : FileID) :
    (s.toggle_profile id).evaluationShelf = s.evaluationShelf ∧
      (s.toggle_profile id).profileShelf = s.profileShelf.toggle id := by
  unfold toggle_profile Holding.toggle
  by_cases chosen : id ∈ s.selectedProfileIds
  · rw [if_pos chosen, if_pos (show id ∈ s.profileShelf.selected from chosen)]
    exact ⟨rfl, rfl⟩
  · rw [if_neg chosen, if_neg (show id ∉ s.profileShelf.selected from chosen)]
    exact ⟨rfl, rfl⟩

include indexed

theorem shelves_takeEvaluation (objects : List EvaluationObject) (file : FileObject) :
    (s.takeEvaluation objects file).evaluationShelf =
        s.evaluationShelf.act (.add file.uniqueId) ∧
      (s.takeEvaluation objects file).profileShelf = s.profileShelf := by
  have grown : (s.takeEvaluation objects file).files = s.files ++ [file] := rfl
  exact ⟨congrArg (Holding.mk · _) (ids_concat grown indexed.executionFiles).2,
    congrArg (Holding.mk · _) (ids_concat grown indexed.profileFiles).1⟩

theorem shelves_takeProfile (object : ProfileObject) (file : FileObject) :
    (s.takeProfile object file).evaluationShelf = s.evaluationShelf ∧
      (s.takeProfile object file).profileShelf = s.profileShelf.act (.add file.uniqueId) := by
  have grown : (s.takeProfile object file).files = s.files ++ [file] := rfl
  exact ⟨congrArg (Holding.mk · _) (ids_concat grown indexed.executionFiles).1,
    congrArg (Holding.mk · _) (ids_concat grown indexed.profileFiles).2⟩

omit indexed in
theorem shelves_removeFile (fileId : FileID) :
    (s.removeFile fileId).evaluationShelf = s.evaluationShelf.act (.remove fileId) ∧
      (s.removeFile fileId).profileShelf = s.profileShelf.act (.remove fileId) :=
  ⟨congrArg (Holding.mk · _) (ids_filter fileId), congrArg (Holding.mk · _) (ids_filter fileId)⟩

theorem shelves_toggle_all_evaluations :
    s.toggle_all_evaluations.evaluationShelf = s.evaluationShelf.act .toggleAll ∧
      s.toggle_all_evaluations.profileShelf = s.profileShelf := by
  unfold toggle_all_evaluations Holding.act
  by_cases full : s.evaluationShelf.Full
  · rw [if_pos full, if_pos ((all_evaluations_on indexed).mpr full)]
    exact ⟨rfl, rfl⟩
  · rw [if_neg full, if_neg fun on => full ((all_evaluations_on indexed).mp on)]
    exact ⟨rfl, rfl⟩

theorem shelves_toggle_all_profiles :
    s.toggle_all_profiles.evaluationShelf = s.evaluationShelf ∧
      s.toggle_all_profiles.profileShelf = s.profileShelf.act .toggleAll := by
  unfold toggle_all_profiles Holding.act
  by_cases full : s.profileShelf.Full
  · rw [if_pos full, if_pos ((all_profiles_on indexed).mpr full)]
    exact ⟨rfl, rfl⟩
  · rw [if_neg full, if_neg fun on => full ((all_profiles_on indexed).mp on)]
    exact ⟨rfl, rfl⟩

variable [UnicodeTables]

theorem moves_loadText {s' : Store} {fileID : FileID} {options : TextLoadOptions}
    (done : s.loadText fileID options = .ok s') :
    ∃ a b, Moves s s' (.loadText fileID options) a b := by
  rcases loadText_eq_ok.mp done with ⟨exec, context, -, -, rfl⟩ | ⟨profileJson, graph, -, -, rfl⟩
  · obtain ⟨evaluations, profiles⟩ := evaluationShelf_toggle (s.takeEvaluation
      [⟨context, some s.files.length⟩] ⟨fileID, options.filename, options.database_id,
        some s.evaluations.length, none⟩) fileID
    have taken := shelves_takeEvaluation indexed [⟨context, some s.files.length⟩]
      ⟨fileID, options.filename, options.database_id, some s.evaluations.length, none⟩
    exact ⟨.load fileID, .idle, {
      evaluationShelf := by
        rw [evaluations, taken.1]
        rfl
      profileShelf := profiles.trans taken.2
      within := iff_of_true trivial ⟨trivial, trivial⟩
      new := fun fresh => ⟨fresh.1, trivial⟩ }⟩
  · obtain ⟨evaluations, profiles⟩ := profileShelf_toggle (s.takeProfile
      ⟨graph, some s.files.length⟩ ⟨fileID, options.filename, none, none,
        some s.profiles.length⟩) fileID
    have taken := shelves_takeProfile indexed ⟨graph, some s.files.length⟩
      ⟨fileID, options.filename, none, none, some s.profiles.length⟩
    exact ⟨.idle, .load fileID, {
      evaluationShelf := evaluations.trans taken.1
      profileShelf := by
        rw [profiles, taken.2]
        rfl
      within := iff_of_true trivial ⟨trivial, trivial⟩
      new := fun fresh => ⟨trivial, fresh.2⟩ }⟩

theorem moves_load_event {s' : Store} {uniqueId : FileID} {filename : JsString}
    {exec : ExecJSON} (done : s.load_event uniqueId filename exec = .ok s') :
    ∃ a b, Moves s s' (.load_event uniqueId filename exec) a b := by
  obtain ⟨context, -, rfl⟩ := load_event_eq_ok.mp done
  obtain ⟨evaluations, profiles⟩ := shelves_takeEvaluation indexed
    [⟨context, none⟩, ⟨{ context with self := s.evaluations.length + 1 }, some s.files.length⟩]
    ⟨uniqueId, filename ++ js " (Splunk)", none, some (s.evaluations.length + 1), none⟩
  exact ⟨.add uniqueId, .idle, {
    evaluationShelf := evaluations
    profileShelf := profiles
    within := iff_of_true trivial ⟨trivial, trivial⟩
    new := fun fresh => ⟨fresh.1, trivial⟩ }⟩

omit indexed [UnicodeTables] in
theorem moves_idle (op : Op) (loads : op.loads = true) : Moves s s op .idle .idle where
  evaluationShelf := rfl
  profileShelf := rfl
  within := by
    cases op with
    | loadText | load_event => exact iff_of_true trivial ⟨trivial, trivial⟩
    | _ => cases loads
  new _ := ⟨trivial, trivial⟩

/-- Every operation is a pair of moves of the two shelves. -/
theorem exists_moves (op : Op) : ∃ a b, Moves s (s.step op) op a b := by
  have quiet : ∀ {a b : Holding.Act FileID}, s.evaluationShelf.New a → s.profileShelf.New b →
      (op.Fresh s → s.evaluationShelf.New a ∧ s.profileShelf.New b) :=
    fun first second _ => ⟨first, second⟩
  have always : True ↔ True ∧ True := (and_iff_left trivial).symm
  cases op with
  | loadText fileID options =>
      unfold step
      cases done : s.perform (.loadText fileID options) with
      | ok s' => exact moves_loadText indexed done
      | error e => exact ⟨_, _, moves_idle _ rfl⟩
  | load_event uniqueId filename exec =>
      unfold step
      cases done : s.perform (.load_event uniqueId filename exec) with
      | ok s' => exact moves_load_event indexed done
      | error e => exact ⟨_, _, moves_idle _ rfl⟩
  | removeFile fileId =>
      obtain ⟨evaluations, profiles⟩ := shelves_removeFile (s := s) fileId
      exact ⟨.remove fileId, .remove fileId, evaluations, profiles,
        always, quiet trivial trivial⟩
  | reset => exact ⟨.empty, .empty, rfl, rfl, Iff.rfl, quiet trivial trivial⟩
  | toggle_evaluation id =>
      obtain ⟨evaluations, profiles⟩ := evaluationShelf_toggle s id
      exact ⟨.toggle id, .idle, evaluations, profiles, (and_iff_left trivial).symm,
        quiet trivial trivial⟩
  | toggle_profile id =>
      obtain ⟨evaluations, profiles⟩ := profileShelf_toggle s id
      exact ⟨.idle, .toggle id, evaluations, profiles, (and_iff_right trivial).symm,
        quiet trivial trivial⟩
  | select_exclusive_evaluation id =>
      exact ⟨.exclusive id, .idle, rfl, rfl, (and_iff_left trivial).symm, quiet trivial trivial⟩
  | select_exclusive_profile id =>
      exact ⟨.idle, .exclusive id, rfl, rfl, (and_iff_right trivial).symm, quiet trivial trivial⟩
  | toggle_all_evaluations =>
      obtain ⟨evaluations, profiles⟩ := shelves_toggle_all_evaluations indexed
      exact ⟨.toggleAll, .idle, evaluations, profiles, always,
        quiet trivial trivial⟩
  | toggle_all_profiles =>
      obtain ⟨evaluations, profiles⟩ := shelves_toggle_all_profiles indexed
      exact ⟨.idle, .toggleAll, evaluations, profiles, always,
        quiet trivial trivial⟩
  | SELECT_EVALUATIONS ids =>
      exact ⟨.select ids, .idle, rfl, rfl, (and_iff_left trivial).symm, quiet trivial trivial⟩
  | SELECT_PROFILES ids =>
      exact ⟨.idle, .select ids, rfl, rfl, (and_iff_right trivial).symm, quiet trivial trivial⟩
  | CLEAR_EVALUATION id =>
      exact ⟨.clear id, .idle, rfl, rfl, always,
        quiet trivial trivial⟩
  | CLEAR_PROFILE id =>
      exact ⟨.idle, .clear id, rfl, rfl, always,
        quiet trivial trivial⟩
  | CLEAR_ALL_EVALUATIONS =>
      exact ⟨.clearAll, .idle, rfl, rfl, always,
        quiet trivial trivial⟩
  | CLEAR_ALL_PROFILES =>
      exact ⟨.idle, .clearAll, rfl, rfl, always,
        quiet trivial trivial⟩
  | clear_file id =>
      exact ⟨.clear id, .clear id, rfl, rfl, always,
        quiet trivial trivial⟩

end Simulation

section Runs
variable [UnicodeTables] {s : Store}

theorem Indexed.step (indexed : s.Indexed) {op : Op} (fresh : op.Fresh s) :
    (s.step op).Indexed := by
  obtain ⟨a, b, moves⟩ := exists_moves indexed op
  obtain ⟨newEvaluation, newProfile⟩ := moves.new fresh
  refine ⟨indexed.toValid.step op, ?_, ?_⟩
  · have distinct := Holding.nodup_act indexed.evaluationIds newEvaluation
    rw [← moves.evaluationShelf] at distinct
    exact distinct
  · have distinct := Holding.nodup_act indexed.profileIds newProfile
    rw [← moves.profileShelf] at distinct
    exact distinct

theorem selectionSound_step (indexed : s.Indexed) {op : Op} (fresh : op.Fresh s)
    (sound : s.SelectionSound) : (s.step op).SelectionSound ↔ op.SelectsLoaded s := by
  obtain ⟨a, b, moves⟩ := exists_moves indexed op
  obtain ⟨evaluations, profiles⟩ := (selectionSound_iff indexed).mp sound
  rw [selectionSound_iff (indexed.step fresh), moves.evaluationShelf, moves.profileShelf,
    evaluations.act_iff, profiles.act_iff, moves.within]

omit [UnicodeTables] in
theorem indexed_initial : initial.Indexed where
  toValid := valid_initial
  evaluationIds := List.nodup_nil
  profileIds := List.nodup_nil

omit [UnicodeTables] in
theorem selectionSound_initial : initial.SelectionSound :=
  (selectionSound_iff indexed_initial).mpr ⟨Holding.sound_nil _, Holding.sound_nil _⟩

/-- Where every new file has a fresh identifier, the selection is sound in every state of
exactly the runs in which only loaded files of the right kind are selected, and a `reset`
finds nothing selected. -/
theorem selectionSound_iff_along (ops : List Op) (fresh : Along step (fun s op => op.Fresh s)
    initial ops) : Throughout step SelectionSound initial ops ↔
      Along step (fun s op => op.SelectsLoaded s) initial ops :=
  throughout_iff_along_of_invariant (fun _ _ indexed fresh => indexed.step fresh)
    (fun _ _ indexed fresh sound => selectionSound_step indexed fresh sound)
    indexed_initial selectionSound_initial fresh

end Runs

section Samples

/-- The smallest evaluation there is. -/
def emptyText : TextLoadOptions where
  filename := js "empty.json"
  text := some (sampleFile [])

def loadEmpty (id : String) : Op := .loadText (js id) emptyText

/-- A file is loaded, deselected and selected again. -/
theorem selectionSound_iff_along_sample :
    @Throughout _ _ (@step asciiTables) SelectionSound initial
      [loadEmpty "u", .toggle_evaluation (js "u"), .toggle_evaluation (js "u")] := by
  let loaded := @step asciiTables initial (loadEmpty "u")
  have first : js "u" ∈ loaded.ids loaded.executionFiles := by decide +kernel
  have second : js "u" ∈ (loaded.toggle_evaluation (js "u")).ids loaded.executionFiles := by
    decide +kernel
  refine (@selectionSound_iff_along asciiTables _ ?_).mpr ?_
  · exact ⟨⟨by decide, by decide⟩, trivial, trivial, trivial⟩
  · exact ⟨trivial, first, second, trivial⟩

/-- A `reset` leaves the identifier of a file that is gone in the selection, and the next file
that is loaded and selected is not reported as all there is. -/
theorem reset_leaves_selection :
    ¬ (∀ [UnicodeTables] (ops : List Op), Along step (fun s op => op.Fresh s) initial ops →
      (∀ op ∈ ops, op = .reset ∨ ∃ id options, op = .loadText id options) →
        Throughout step SelectionSound initial ops) ∧
    (@run _ _ (@step asciiTables) initial [loadEmpty "u", .reset]).selectedEvaluationIds =
      [js "u"] ∧
    (@run _ _ (@step asciiTables) initial [loadEmpty "u", .reset]).executionFiles = [] ∧
    (@run _ _ (@step asciiTables) initial
      [loadEmpty "u", .reset, loadEmpty "v"]).all_evaluations_selected = .Mixed := by
  refine ⟨fun always => ?_, by decide +kernel, by decide +kernel, by decide +kernel⟩
  have sound := (@always asciiTables [loadEmpty "u", .reset]
    ⟨⟨by decide, by decide⟩, trivial, trivial⟩ (by simp [loadEmpty])).last
  have loaded := sound.evaluationsLoaded (a := js "u") (by decide +kernel)
  revert loaded
  decide +kernel

end Samples

end Frontend.Store
