import Heimdall.Frontend.FromFile

/-!
# The JSON export

The selected files go into one archive. An evaluation goes in under its cleaned name, a profile
under the name it was loaded with.
-/
namespace Frontend
open Js Lib Inspec

section Names

/-- `filename.replace(/\s+/g, '_')`: of a run of spaces, the last one becomes the underscore. -/
def replaceSpaces : JsString → JsString
  | [] => []
  | c :: rest =>
      if isSpace c then
        match rest with
        | d :: _ => if isSpace d then replaceSpaces rest else 95 :: replaceSpaces rest
        | [] => [95]
      else c :: replaceSpaces rest

/-- The suffix is compared with six code units, although it has five. -/
def cleanup_filename (filename : JsString) : JsString :=
  let filename := replaceSpaces filename
  if filename.drop (filename.length - 6) ≠ js ".json" then filename ++ js ".json" else filename

/-- What a cleaned name has before the suffix that is appended. -/
def stem (filename : JsString) : JsString :=
  if replaceSpaces filename = js ".json" then [] else replaceSpaces filename

/-- The name is the original one, up to white space, with the suffix appended if it lacks it, and
with some text before the suffix if names have to be told apart. -/
def NamedAfter (filename name : JsString) : Prop := ∃ original mark,
  (replaceSpaces filename = original ++ js ".json" ∨
    replaceSpaces filename = original ∧ ¬ js ".json" <:+ replaceSpaces filename) ∧
  ¬ js ".json" <:+ mark ∧ replaceSpaces name = original ++ mark ++ js ".json"

theorem replaceSpaces_filled (s : JsString) : ∀ c ∈ replaceSpaces s, isSpace c = false := by
  fun_induction replaceSpaces s with
  | case1 => exact nofun
  | case2 c d rest space next ih => exact ih
  | case3 c d rest space next ih => exact List.forall_mem_cons.mpr ⟨by decide, ih⟩
  | case4 c space => exact List.forall_mem_cons.mpr ⟨by decide, nofun⟩
  | case5 c rest filled ih => exact List.forall_mem_cons.mpr ⟨by simpa using filled, ih⟩

theorem replaceSpaces_cons {c : CodeUnit} (filled : isSpace c = false) (s : JsString) :
    replaceSpaces (c :: s) = c :: replaceSpaces s := by
  have notSpace : ¬ isSpace c = true := Bool.eq_false_iff.mp filled
  cases s with
  | nil => rw [replaceSpaces.eq_def]; exact if_neg notSpace
  | cons d s => rw [replaceSpaces.eq_def]; exact if_neg notSpace

theorem replaceSpaces_of_filled {s : JsString} (filled : ∀ c ∈ s, isSpace c = false) :
    replaceSpaces s = s := by
  induction s with
  | nil => rfl
  | cons c s ih =>
      obtain ⟨here, later⟩ := List.forall_mem_cons.mp filled
      rw [replaceSpaces_cons here, ih later]

theorem json_filled : ∀ c ∈ js ".json", isSpace c = false := by
  have filled : ((js ".json").all fun c => !isSpace c) = true := by decide +kernel
  intro c inside
  simpa only [Bool.not_eq_true'] using List.all_eq_true.mp filled c inside

theorem stem_filled (filename : JsString) : ∀ c ∈ stem filename, isSpace c = false := by
  unfold stem
  split
  · exact nofun
  · exact replaceSpaces_filled filename

/-- Six code units at the end are five only where there are no more. -/
theorem drop_six_iff {s t : JsString} (five : t.length = 5) :
    s.drop (s.length - 6) = t ↔ s = t := by
  constructor
  · intro same
    have lengths := congrArg List.length same
    rw [List.length_drop, five] at lengths
    have whole : s.length - 6 = 0 := by omega
    rw [← same, whole, List.drop_zero]
  · rintro rfl
    rw [five, List.drop_zero]

theorem cleanup_filename_eq (filename : JsString) :
    cleanup_filename filename = stem filename ++ js ".json" := by
  have length : (js ".json").length = 5 := by decide
  rw [cleanup_filename, stem]
  simp only [ne_eq, drop_six_iff length]
  by_cases suffix : replaceSpaces filename = js ".json"
  · rw [if_neg (not_not.mpr suffix), if_pos suffix, suffix, List.nil_append]
  · rw [if_pos suffix, if_neg suffix]

theorem replaceSpaces_stem (filename : JsString) :
    replaceSpaces (stem filename ++ js ".json") = stem filename ++ js ".json" :=
  replaceSpaces_of_filled
    (List.forall_mem_append.mpr ⟨stem_filled filename, json_filled⟩)

/-- Cleaning a name a second time appends the suffix again, unless it is all of the name. -/
theorem cleanup_filename_idempotent_iff (filename : JsString) :
    cleanup_filename (cleanup_filename filename) = cleanup_filename filename ↔
      stem filename = [] := by
  rw [cleanup_filename_eq filename, cleanup_filename_eq, List.append_left_inj, stem,
    replaceSpaces_stem]
  by_cases empty : stem filename = []
  · rw [empty, List.nil_append, if_pos rfl]
  · have longer : ¬ stem filename ++ js ".json" = js ".json" := by simpa using empty
    have grown : stem filename ++ js ".json" ≠ stem filename := fun same =>
      absurd (List.append_right_eq_self.mp same) (by decide)
    rw [if_neg longer]
    exact iff_of_false grown empty

/-- A cleaned name is right when the suffix was not there before. -/
theorem namedAfter_cleanup_iff {filename : JsString} :
    NamedAfter filename (cleanup_filename filename) ↔ ¬ js ".json" <:+ stem filename := by
  rw [cleanup_filename_eq]
  constructor
  · rintro ⟨original, mark, named, plain, same⟩ ⟨before, suffix⟩
    rw [replaceSpaces_stem] at same
    have whole : replaceSpaces filename = stem filename := by
      by_cases only : replaceSpaces filename = js ".json"
      · rw [stem, if_pos only] at suffix
        exact absurd (List.append_eq_nil_iff.mp suffix).2 (by decide)
      · rw [stem, if_neg only]
    rcases named with named | ⟨-, lacks⟩
    · have marked : original ++ js ".json" ++ js ".json" = original ++ mark ++ js ".json" := by
        rw [← named, whole]
        exact same
      have mark_eq := List.append_cancel_left (List.append_cancel_right marked)
      exact plain (mark_eq ▸ List.suffix_refl _)
    · exact lacks ⟨before, suffix.trans whole.symm⟩
  · intro lacks
    refine ⟨stem filename, [], ?_, by decide, ?_⟩
    · by_cases only : replaceSpaces filename = js ".json"
      · exact .inl (by rw [stem, if_pos only, only, List.nil_append])
      · have whole : stem filename = replaceSpaces filename := if_neg only
        exact .inr ⟨whole.symm, whole ▸ lacks⟩
    · rw [List.append_nil, replaceSpaces_stem]

/-- A name that is left alone is right when it has the suffix. -/
theorem namedAfter_self_iff {filename : JsString} :
    NamedAfter filename filename ↔ js ".json" <:+ replaceSpaces filename := by
  constructor
  · rintro ⟨original, mark, -, -, same⟩
    exact ⟨_, same.symm⟩
  · rintro ⟨original, same⟩
    exact ⟨original, [], .inl same.symm, by decide, by rw [List.append_nil, same]⟩

end Names

structure FileData where
  name : JsString
  contents : JsString

/-- `JSON.stringify` of the data of an evaluation, and of that of the profile of a file. -/
structure DataText where
  evaluation : ExecJSON → JsString
  profile : ProfileObject → JsString

namespace Store
section Source
variable (s : Store)

/-- `x.from_file`, of which a property is read. -/
def fromFile (from_file : Option FileRef) : Except JsError FileObject :=
  orThrow (from_file.bind (s.files[·]?))
    (.typeError "Cannot read properties of undefined (reading 'uniqueId')")

def contextualExecutions : List EvaluationObject := s.executionFiles.filterMap fun file =>
  (s.files[file]?.bind (·.evaluation)).bind (s.evaluations[·]?)

def contextualProfiles : List ProfileObject := s.profileFiles.filterMap fun file =>
  (s.files[file]?.bind (·.profile)).bind (s.profiles[·]?)

def selected_file_ids : List FileID := s.selectedEvaluationIds ++ s.selectedProfileIds

/-- `files.includes(e.from_file.uniqueId)` -/
def isFrom (files : List FileID) (from_file : Option FileRef) : Except JsError Bool := do
  let file ← s.fromFile from_file
  return file.uniqueId ∈ files

/-- The getter `evaluations` of the filtered data. -/
def filteredEvaluations (files : List FileID) : Except JsError (List EvaluationObject) :=
  filterOk (fun e => s.isFrom files e.from_file) s.contextualExecutions

/-- The getter `profiles` of the filtered data. -/
def filteredProfiles (files : List FileID) : Except JsError (List ProfileObject) :=
  filterOk (fun e => s.isFrom files e.from_file) s.contextualProfiles

variable (text : DataText)

def evaluationData (evaluation : EvaluationObject) : Except JsError FileData := do
  let file ← s.fromFile evaluation.from_file
  return ⟨cleanup_filename file.filename, text.evaluation evaluation.context.data⟩

def profileData (prof : ProfileObject) : Except JsError FileData := do
  let file ← s.fromFile prof.from_file
  let profile ← orThrow (file.profile.bind (s.profiles[·]?))
    (.typeError "Cannot read properties of undefined (reading 'data')")
  return ⟨file.filename, text.profile profile⟩

def populate_files : Except JsError (List FileData) := do
  let ids := s.selected_file_ids
  let evaluations ← s.filteredEvaluations ids
  let fromEvaluations ← evaluations.mapM (s.evaluationData text)
  let profs ← s.filteredProfiles ids
  let fromProfiles ← profs.mapM (s.profileData text)
  return fromEvaluations ++ fromProfiles

/-- exports .zip of jsons if multiple are selected, if one is selected it will export that .json
file. `addBuffer` of the zip library throws when it does not take a name as the path of an
entry. -/
def export_json (addBuffer : JsString → Except JsError Unit) :
    Except JsError (List FileData) := do
  let files ← s.populate_files text
  if files.length ≤ 1 then return files
  else
    let _ ← files.mapM fun file => addBuffer file.name
    return files

end Source

section Export
variable (s : Store) (text : DataText) (addBuffer : JsString → Except JsError Unit)

/-- The selected ones of these files. -/
def selectedOf (files : List FileRef) : List FileObject :=
  (files.filterMap (s.files[·]?)).filter fun file => file.uniqueId ∈ s.selected_file_ids

/-- The entry has the data of the evaluation, or of the profile, that the file holds. -/
def HasEvaluation (file : FileObject) (entry : FileData) : Prop :=
  ∃ e, file.evaluation.bind (s.evaluations[·]?) = some e ∧
    entry.contents = text.evaluation e.context.data

def HasProfile (file : FileObject) (entry : FileData) : Prop :=
  ∃ p, file.profile.bind (s.profiles[·]?) = some p ∧ entry.contents = text.profile p

/-- The export returns an entry for each selected file, with its data, under a name of its own
that is that of the file. -/
def Exports : Prop := ∃ evaluations profiles,
  s.export_json text addBuffer = .ok (evaluations ++ profiles) ∧
    List.Forall₂ (fun file entry => NamedAfter file.filename entry.name ∧
      s.HasEvaluation text file entry) (s.selectedOf s.executionFiles) evaluations ∧
    List.Forall₂ (fun file entry => NamedAfter file.filename entry.name ∧
      s.HasProfile text file entry) (s.selectedOf s.profileFiles) profiles ∧
    ((evaluations ++ profiles).map (·.name)).Nodup

/-- What the names of the selected files have to be like. -/
structure Exportable : Prop where
  /-- Where there are several files, the zip library takes their names. -/
  taken : 1 < (s.selectedOf s.executionFiles).length + (s.selectedOf s.profileFiles).length →
    (∀ file ∈ s.selectedOf s.executionFiles,
      addBuffer (stem file.filename ++ js ".json") = .ok ()) ∧
    ∀ file ∈ s.selectedOf s.profileFiles, addBuffer file.filename = .ok ()
  evaluations : ∀ file ∈ s.selectedOf s.executionFiles, ¬ js ".json" <:+ stem file.filename
  profiles : ∀ file ∈ s.selectedOf s.profileFiles, js ".json" <:+ replaceSpaces file.filename
  distinctEvaluations :
    ((s.selectedOf s.executionFiles).map fun file => stem file.filename).Nodup
  distinctProfiles : ((s.selectedOf s.profileFiles).map (·.filename)).Nodup
  apart : ∀ file ∈ s.selectedOf s.executionFiles, ∀ prof ∈ s.selectedOf s.profileFiles,
    prof.filename ≠ stem file.filename ++ js ".json"

variable {s}

theorem isFrom_eq {from_file : Option FileRef} {f : FileRef} {file : FileObject}
    (back : from_file = some f) (found : s.files[f]? = some file) (files : List FileID) :
    s.isFrom files from_file = .ok (decide (file.uniqueId ∈ files)) ∧
      s.fromFile from_file = .ok file := by
  subst back
  have read : s.fromFile (some f) = .ok file := orThrow_eq_ok.mpr found
  exact ⟨do_eq_ok.mpr ⟨file, read, rfl⟩, read⟩

theorem Attached.filteredEvaluations (attached : s.Attached) :
    ∃ es, s.filteredEvaluations s.selected_file_ids = .ok es ∧ List.Forall₂
      (fun file e => s.fromFile e.from_file = .ok file ∧
        file.evaluation.bind (s.evaluations[·]?) = some e) (s.selectedOf s.executionFiles) es := by
  refine filterOk_filterMap fun f inside => ?_
  obtain ⟨r, e, ⟨⟨field, object⟩, back, -⟩⟩ := attached.evaluations f inside
  obtain ⟨file, found, held⟩ := Option.bind_eq_some_iff.mp field
  obtain ⟨chosen, read⟩ := isFrom_eq back found s.selected_file_ids
  refine ⟨e, file, ?_, found, chosen, read, ?_⟩
  · rw [field, Option.bind_some, object]
  · rw [held, Option.bind_some, object]

theorem Attached.filteredProfiles (attached : s.Attached) :
    ∃ ps, s.filteredProfiles s.selected_file_ids = .ok ps ∧ List.Forall₂
      (fun file p => s.fromFile p.from_file = .ok file ∧
        file.profile.bind (s.profiles[·]?) = some p) (s.selectedOf s.profileFiles) ps := by
  refine filterOk_filterMap fun f inside => ?_
  obtain ⟨r, p, ⟨⟨field, object⟩, back, -⟩⟩ := attached.profiles f inside
  obtain ⟨file, found, held⟩ := Option.bind_eq_some_iff.mp field
  obtain ⟨chosen, read⟩ := isFrom_eq back found s.selected_file_ids
  refine ⟨p, file, ?_, found, chosen, read, ?_⟩
  · rw [field, Option.bind_some, object]
  · rw [held, Option.bind_some, object]

variable (s) in
/-- The entries of the selected files, under the names that the export gives them. -/
structure Entries (evaluations profiles : List FileData) : Prop where
  evaluations : List.Forall₂ (fun file entry => entry.name = stem file.filename ++ js ".json" ∧
    s.HasEvaluation text file entry) (s.selectedOf s.executionFiles) evaluations
  profiles : List.Forall₂ (fun file entry => entry.name = file.filename ∧
    s.HasProfile text file entry) (s.selectedOf s.profileFiles) profiles

/-- The entries, before they go into an archive. -/
theorem Attached.populate_files (attached : s.Attached) : ∃ evaluations profiles,
    s.populate_files text = .ok (evaluations ++ profiles) ∧
      s.Entries text evaluations profiles := by
  obtain ⟨es, filteredEvaluations, evaluationPairs⟩ := attached.filteredEvaluations
  obtain ⟨ps, filteredProfiles, profilePairs⟩ := attached.filteredProfiles
  obtain ⟨evaluations, executions, evaluationEntries⟩ := mapM_forall₂
    (f := s.evaluationData text) (Q := fun file entry =>
      entry.name = stem file.filename ++ js ".json" ∧ s.HasEvaluation text file entry)
    (fun file e ⟨read, held⟩ => ⟨_, do_eq_ok.mpr ⟨file, read, rfl⟩,
      cleanup_filename_eq file.filename, e, held, rfl⟩) evaluationPairs
  obtain ⟨profiles, profs, profileEntries⟩ := mapM_forall₂
    (f := s.profileData text) (Q := fun file entry =>
      entry.name = file.filename ∧ s.HasProfile text file entry)
    (fun file p ⟨read, held⟩ => ⟨_, do_eq_ok.mpr ⟨file, read, do_eq_ok.mpr
      ⟨p, orThrow_eq_ok.mpr held, rfl⟩⟩, rfl, p, held, rfl⟩) profilePairs
  exact ⟨evaluations, profiles, do_eq_ok.mpr ⟨es, filteredEvaluations,
    do_eq_ok.mpr ⟨evaluations, executions, do_eq_ok.mpr ⟨ps, filteredProfiles,
      do_eq_ok.mpr ⟨profiles, profs, rfl⟩⟩⟩⟩, ⟨evaluationEntries, profileEntries⟩⟩

/-- The export returns all entries or throws. -/
theorem export_json_eq_ok {files entries : List FileData}
    (populated : s.populate_files text = .ok files) :
    s.export_json text addBuffer = .ok entries ↔
      (1 < files.length → ∀ file ∈ files, addBuffer file.name = .ok ()) ∧ entries = files := by
  have returned : s.export_json text addBuffer = .ok entries ↔
      (if files.length ≤ 1 then pure files else
        (files.mapM fun file => addBuffer file.name) >>= fun _ => pure files) =
          Except.ok (ε := JsError) entries := by
    rw [export_json, populated]
    rfl
  rw [returned]
  by_cases few : files.length ≤ 1
  · rw [if_pos few, pure_eq_ok]
    exact (and_iff_right fun many => absurd few (Nat.not_le.mpr many)).symm
  · rw [if_neg few, do_eq_ok, forall_prop_of_true (Nat.not_le.mp few)]
    simp only [pure_eq_ok, exists_and_right, mapM_returns_iff]
    exact and_congr_left fun _ => forall₂_congr fun file _ =>
      ⟨fun ⟨_, taken⟩ => taken, fun taken => ⟨(), taken⟩⟩

theorem names_nodup_iff {evaluations profiles : List FileObject} :
    (evaluations.map (fun file => stem file.filename ++ js ".json") ++
      profiles.map (·.filename)).Nodup ↔
    (evaluations.map fun file => stem file.filename).Nodup ∧ (profiles.map (·.filename)).Nodup ∧
      ∀ file ∈ evaluations, ∀ prof ∈ profiles,
        prof.filename ≠ stem file.filename ++ js ".json" := by
  have suffixed : (evaluations.map fun file => stem file.filename ++ js ".json") =
      (evaluations.map fun file => stem file.filename).map (· ++ js ".json") := by
    rw [List.map_map]
    rfl
  rw [List.nodup_append, suffixed, List.nodup_map_iff (List.append_left_injective _)]
  simp only [List.forall_mem_map, ne_comm]

section Entries
variable {text} {evaluations profiles : List FileData}

theorem Entries.names (entries : s.Entries text evaluations profiles) :
    (evaluations ++ profiles).map (·.name) =
      (s.selectedOf s.executionFiles).map (fun file => stem file.filename ++ js ".json") ++
        (s.selectedOf s.profileFiles).map (·.filename) := by
  rw [List.map_append, map_eq_map_of_forall₂ (entries.evaluations.imp fun _ _ => And.left),
    map_eq_map_of_forall₂ (entries.profiles.imp fun _ _ => And.left)]

theorem Entries.length_eq (entries : s.Entries text evaluations profiles) :
    (evaluations ++ profiles).length =
      (s.selectedOf s.executionFiles).length + (s.selectedOf s.profileFiles).length := by
  rw [List.length_append, ← entries.evaluations.length_eq, ← entries.profiles.length_eq]

/-- The zip library takes the entries when it takes the names of the files. -/
theorem Entries.taken_iff (entries : s.Entries text evaluations profiles) :
    (∀ file ∈ evaluations ++ profiles, addBuffer file.name = .ok ()) ↔
      (∀ file ∈ s.selectedOf s.executionFiles,
        addBuffer (stem file.filename ++ js ".json") = .ok ()) ∧
      ∀ file ∈ s.selectedOf s.profileFiles, addBuffer file.filename = .ok () := by
  have names : (∀ file ∈ evaluations ++ profiles, addBuffer file.name = .ok ()) ↔
      ∀ name ∈ (evaluations ++ profiles).map (·.name), addBuffer name = .ok () := by
    rw [List.forall_mem_map]
  rw [names, entries.names, List.forall_mem_append, List.forall_mem_map, List.forall_mem_map]

theorem Entries.evaluations_named_iff (entries : s.Entries text evaluations profiles) :
    List.Forall₂ (fun file entry => NamedAfter file.filename entry.name ∧
        s.HasEvaluation text file entry) (s.selectedOf s.executionFiles) evaluations ↔
      ∀ file ∈ s.selectedOf s.executionFiles, ¬ js ".json" <:+ stem file.filename := by
  refine forall₂_iff_of_forall₂ entries.evaluations fun file entry ⟨name, holds⟩ => ?_
  rw [name, ← cleanup_filename_eq, namedAfter_cleanup_iff, and_iff_left holds]

theorem Entries.profiles_named_iff (entries : s.Entries text evaluations profiles) :
    List.Forall₂ (fun file entry => NamedAfter file.filename entry.name ∧
        s.HasProfile text file entry) (s.selectedOf s.profileFiles) profiles ↔
      ∀ file ∈ s.selectedOf s.profileFiles, js ".json" <:+ replaceSpaces file.filename := by
  refine forall₂_iff_of_forall₂ entries.profiles fun file entry ⟨name, holds⟩ => ?_
  rw [name, namedAfter_self_iff, and_iff_left holds]

end Entries

/-- The export loses no file exactly when the names are like that. -/
theorem Attached.exports_iff (attached : s.Attached) :
    s.Exports text addBuffer ↔ s.Exportable addBuffer := by
  obtain ⟨evaluations, profiles, populated, entries⟩ := attached.populate_files text
  constructor
  · rintro ⟨evaluations', profiles', exported, evaluationPairs, profilePairs, distinct⟩
    obtain ⟨accepted, same⟩ := (export_json_eq_ok text addBuffer populated).mp exported
    have length : evaluations'.length = evaluations.length := by
      rw [← evaluationPairs.length_eq, entries.evaluations.length_eq]
    obtain ⟨rfl, rfl⟩ := List.append_inj same length
    rw [entries.names, names_nodup_iff] at distinct
    exact {
      taken := fun many => (entries.taken_iff addBuffer).mp (accepted (entries.length_eq ▸ many))
      evaluations := entries.evaluations_named_iff.mp evaluationPairs
      profiles := entries.profiles_named_iff.mp profilePairs
      distinctEvaluations := distinct.1
      distinctProfiles := distinct.2.1
      apart := distinct.2.2 }
  · intro exportable
    refine ⟨evaluations, profiles, (export_json_eq_ok text addBuffer populated).mpr ⟨?_, rfl⟩,
      entries.evaluations_named_iff.mpr exportable.evaluations,
      entries.profiles_named_iff.mpr exportable.profiles, ?_⟩
    · exact fun many =>
        (entries.taken_iff addBuffer).mpr (exportable.taken (entries.length_eq ▸ many))
    · rw [entries.names, names_nodup_iff]
      exact ⟨exportable.distinctEvaluations, exportable.distinctProfiles, exportable.apart⟩

/-- In every state that the application reaches, the export loses no file exactly when the names
of the selected files are like that; and cleaning a name again changes it unless nothing but the
suffix was left of it. -/
theorem export_json_iff [UnicodeTables] (ops : List Op) (filename : JsString) :
    ((Lib.run Store.step initial ops).Exports text addBuffer ↔
        (Lib.run Store.step initial ops).Exportable addBuffer) ∧
      (cleanup_filename (cleanup_filename filename) = cleanup_filename filename ↔
        stem filename = []) :=
  ⟨(attached_run ops).exports_iff text addBuffer, cleanup_filename_idempotent_iff filename⟩

end Export

section Samples

def loadReport (id filename : String) : Op :=
  .loadText (js id) { filename := js filename, text := some (sampleFile []) }

theorem exportable_filenames {s : Store} {addBuffer : JsString → Except JsError Unit}
    (exportable : s.Exportable addBuffer) :
    (∀ name ∈ (s.selectedOf s.executionFiles).map (·.filename), ¬ js ".json" <:+ stem name) ∧
      (((s.selectedOf s.executionFiles).map (·.filename)).map stem).Nodup := by
  refine ⟨List.forall_mem_map.mpr exportable.evaluations, ?_⟩
  rw [List.map_map]
  exact exportable.distinctEvaluations

/-- A report that is named with the suffix gets it twice, two reports of one name go into the
archive under one name, and a name that was cleaned before is changed. -/
theorem export_json_misnames :
    ¬ (@Lib.run _ _ (@Store.step asciiTables) initial [loadReport "u" "report.json"]).Exports
        ⟨fun _ => [], fun _ => []⟩ (fun _ => .ok ()) ∧
      ¬ (@Lib.run _ _ (@Store.step asciiTables) initial
          [loadReport "u" "report", loadReport "v" "report"]).Exports
        ⟨fun _ => [], fun _ => []⟩ (fun _ => .ok ()) ∧
      cleanup_filename (cleanup_filename (js "report")) ≠ cleanup_filename (js "report") := by
  refine ⟨fun exported => ?_, fun exported => ?_, by decide⟩
  · have exportable := ((@attached_run asciiTables _).exports_iff _ _).mp exported
    have names : ((@Lib.run _ _ (@Store.step asciiTables) initial
        [loadReport "u" "report.json"]).selectedOf [0]).map (·.filename) =
        [js "report.json"] := by decide +kernel
    exact (exportable_filenames exportable).1 (js "report.json")
      (names ▸ List.mem_cons_self) (by decide)
  · have exportable := ((@attached_run asciiTables _).exports_iff _ _).mp exported
    have names : ((@Lib.run _ _ (@Store.step asciiTables) initial
        [loadReport "u" "report", loadReport "v" "report"]).selectedOf [0, 1]).map (·.filename) =
        [js "report", js "report"] := by decide +kernel
    have distinct := (exportable_filenames exportable).2
    exact absurd (names ▸ distinct) (by decide)

end Samples
end Store
end Frontend
