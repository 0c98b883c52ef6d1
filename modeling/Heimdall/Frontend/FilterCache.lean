import Heimdall.Lib.Cache
import Heimdall.Lib.Run
import Heimdall.Frontend.Compliance
import Heimdall.Frontend.LoadedData
import Heimdall.Frontend.ProfileData
import Heimdall.Frontend.FilterKey

/-!
# The cached filter

The function `controls` as the application calls it: the answers are kept in a cache under the
key of the filter, and the cache is never cleared while files come and go. What is cached is
what the pipeline would return now, except that a search for the empty term walks to the roots
of the controls, and a walk need not end.
-/
namespace Frontend
open Js Lib Inspec

section Calls

def MAX_CACHE_ENTRIES : ℕ := 20

/-- The cache of the application. -/
def controlsCache : Cache (List (JsString × List StoredControl)) JsString (List StoredControl) :=
  lruCache MAX_CACHE_ENTRIES

/-- The identifiers of the loaded files. -/
def InspecData.ids (data : InspecData) : List FileID :=
  data.executionFiles.map (·.uniqueId) ++ data.profileFiles.map (·.uniqueId)

/-- The loaded files, the cache, and the identifiers that were ever given to a file. -/
structure FilteredData (κ : Type) where
  data : InspecData
  localCache : κ
  issued : List FileID

inductive Call where
  | addExecution (newExecution : EvaluationFile)
  | addProfile (newProfile : ProfileFile)
  | removeFile (fileId : FileID)
  | sort (executionFiles : List EvaluationFile) (profileFiles : List ProfileFile)
  | query (filter : FilterObject)

variable [UnicodeTables] {κ : Type} (cache : Cache κ JsString (List StoredControl))

/-- The answer of `controls`, and the cache afterwards. -/
def cachedControls (s : FilteredData κ) (filter : FilterObject) :
    Except JsError (List StoredControl) × κ :=
  let id := filter_cache_key filter
  match cache.get s.localCache id with
  | (some cached, localCache) => (.ok cached, localCache)
  | (none, localCache) =>
      match controls s.data filter.filter with
      | .error e => (.error e, localCache)
      | .ok r => (.ok r, cache.set localCache id r)

def FilteredData.step (s : FilteredData κ) : Call → FilteredData κ
  | .addExecution file => { s with
      data := { s.data with executionFiles := s.data.executionFiles ++ [file] }
      issued := file.uniqueId :: s.issued }
  | .addProfile file => { s with
      data := { s.data with profileFiles := s.data.profileFiles ++ [file] }
      issued := file.uniqueId :: s.issued }
  | .removeFile fileId => { s with
      data := {
        executionFiles := s.data.executionFiles.filter fun file => file.uniqueId ≠ fileId
        profileFiles := s.data.profileFiles.filter fun file => file.uniqueId ≠ fileId } }
  | .sort executionFiles profileFiles => { s with data := ⟨executionFiles, profileFiles⟩ }
  | .query filter => { s with localCache := (cachedControls cache s filter).2 }

/-- The page as it is opened. -/
def FilteredData.initial : FilteredData κ := ⟨⟨[], []⟩, cache.new, []⟩

/-- A file comes in with a new identifier, sorting keeps the files, and a filter names loaded
files only. -/
def Call.Allowed (s : FilteredData κ) : Call → Prop
  | .addExecution file => file.uniqueId ∉ s.issued ∧ ∃ r evaluation context,
      contextualizeEvaluation r evaluation = .ok context ∧
        file.evaluation = { context with self := file.evaluation.self }
  | .addProfile file => file.uniqueId ∉ s.issued ∧ ∃ profile,
      contextualizeProfile profile = .ok file.profile
  | .removeFile _ => True
  | .sort executionFiles profileFiles => executionFiles.Perm s.data.executionFiles ∧
      profileFiles.Perm s.data.profileFiles
  | .query filter => ∀ id ∈ filter.filter.fromFile, id ∈ s.data.ids

/-- The answer is a permutation of what the pipeline returns now. -/
def Call.Coherent (s : FilteredData κ) : Call → Prop
  | .query filter => ∀ cs, (cachedControls cache s filter).1 = .ok cs →
      ∃ ds, controls s.data filter.filter = .ok ds ∧ cs.Perm ds
  | _ => True

def Call.Answers (s : FilteredData κ) : Call → Prop
  | .query filter => ∃ cs, (cachedControls cache s filter).1 = .ok cs
  | _ => True

end Calls

section Reached

/-- The tests before the search. -/
def Filter.beforeSearch (filter : Filter) : List Test :=
  filter.idTest ++ filter.statusTest ++ filter.severityTest ++ filter.overlayTest

/-- A search for the empty term reaches no control whose walk to the root does not end. -/
def Searchable (data : InspecData) (filter : Filter) : Prop :=
  filter.searchTerm = some [] → ∀ c ∈ allControls data filter.fromFile,
    accepts (passes filter.beforeSearch) c = true → c.Rooted

def Call.Searchable {κ : Type} (s : FilteredData κ) : Call → Prop
  | .query filter => Frontend.Searchable s.data filter.filter
  | _ => True

variable {data : InspecData} {a b : Filter} {c : StoredControl} {cs : List StoredControl}

theorem Alike.beforeSearch (alike : Alike a b) : a.beforeSearch = b.beforeSearch := by
  have flag : ∀ asked : Option Bool, asked = some true ↔ asked.getD false = true := by
    intro asked
    cases asked <;> simp
  unfold Filter.beforeSearch Filter.idTest Filter.statusTest Filter.severityTest
    Filter.overlayTest
  simp only [flag, alike.control_id, alike.status, alike.severity, alike.omit_overlayed_controls]

theorem Alike.treeTest (alike : Alike a b) : a.treeTest = b.treeTest := by
  unfold Filter.treeTest
  rw [alike.treeFilters]

variable [UnicodeTables]

theorem Filter.tests_eq (filter : Filter) :
    filter.tests = filter.beforeSearch ++ (filter.searchTest ++ filter.treeTest) := by
  unfold Filter.tests Filter.laterTests Filter.beforeSearch
  simp only [List.append_assoc]

theorem Filter.searchTest_empty (no_letters : UnicodeTables.toLowerCase [] = []) {filter : Filter}
    (empty : filter.searchTerm = some []) : filter.searchTest = [emptySearch] := by
  unfold Filter.searchTest
  rw [empty, Option.map_some, no_letters]
  exact congrArg (fun test => [test]) contains_term_nil

/-- A search for the empty term finds every control that it reaches. -/
theorem selects_of_empty (loaded : data.Loaded) (no_letters : UnicodeTables.toLowerCase [] = [])
    (empty : a.searchTerm.getD [] = []) (searchable : Searchable data a)
    (inside : c ∈ allControls data a.fromFile) :
    a.selects c = passes (a.beforeSearch ++ a.treeTest) c := by
  unfold Filter.selects
  rw [Filter.tests_eq]
  cases term : a.searchTerm with
  | none =>
      unfold Filter.searchTest
      rw [term]
      rfl
  | some t =>
      rw [term] at empty
      have here : a.searchTerm = some [] := term.trans (congrArg some empty)
      rw [Filter.searchTest_empty no_letters here]
      apply passes_insert_of_true
      intro reached
      obtain ⟨hdf, root, -⟩ := loaded.tagged inside (searchable here c inside reached)
      unfold emptySearch
      rw [root]
      rfl

theorem Alike.searchTest (alike : Alike a b) (term : a.searchTerm.getD [] ≠ []) :
    a.searchTest = b.searchTest := by
  have same := alike.searchTerm
  unfold Filter.searchTest
  cases here : a.searchTerm with
  | none => exact absurd (congrArg (Option.getD · []) here) term
  | some t =>
      cases there : b.searchTerm with
      | none =>
          rw [here, there] at same
          rw [here] at term
          exact absurd same term
      | some u =>
          rw [here, there] at same
          rw [show t = u from same]

/-- Alike filters accept the same, where the search for the empty term can be made. -/
theorem selects_congr (loaded : data.Loaded) (no_letters : UnicodeTables.toLowerCase [] = [])
    (alike : Alike a b) (first : Searchable data a) (second : Searchable data b)
    (inside : c ∈ allControls data a.fromFile) : a.selects c = b.selects c := by
  by_cases empty : a.searchTerm.getD [] = []
  · rw [selects_of_empty loaded no_letters empty first inside,
      selects_of_empty loaded no_letters (alike.searchTerm.symm.trans empty) second
        (alike.fromFile ▸ inside), alike.beforeSearch, alike.treeTest]
  · unfold Filter.selects
    rw [Filter.tests_eq, Filter.tests_eq, alike.beforeSearch, alike.searchTest empty,
      alike.treeTest]

/-- The pipeline returns only where the search can be made. -/
theorem searchable_of_controls (no_letters : UnicodeTables.toLowerCase [] = [])
    (returned : controls data a = .ok cs) : Searchable data a := by
  intro empty c inside reached
  have answers := (controls_eq_ok.mp returned).1 c inside
  unfold Filter.selects at answers
  rw [Filter.tests_eq, Filter.searchTest_empty no_letters empty] at answers
  exact answers_emptySearch.mp (answers_reached answers reached)

/-- What the pipeline returns for a filter it returns for an alike one, if and only if the
search of that one can be made. -/
theorem controls_alike (loaded : data.Loaded) (no_letters : UnicodeTables.toLowerCase [] = [])
    (alike : Alike a b) (returned : controls data a = .ok cs) :
    controls data b = .ok cs ↔ Searchable data b := by
  constructor
  · exact searchable_of_controls no_letters
  · intro searchable
    have same : ∀ c ∈ allControls data a.fromFile, a.selects c = b.selects c := fun c =>
      selects_congr loaded no_letters alike (searchable_of_controls no_letters returned) searchable
    obtain ⟨answers, rfl⟩ := controls_eq_ok.mp returned
    refine controls_eq_ok.mpr ⟨fun c inside => ?_, ?_⟩
    · rw [← alike.fromFile] at inside
      obtain ⟨answer, here⟩ := answers c inside
      exact ⟨answer, (same c inside).symm.trans here⟩
    · rw [← alike.fromFile]
      apply List.filter_congr
      intro c inside
      unfold accepts
      rw [same c inside]

end Reached

section Moves
variable {issued : List FileID} {data data' : InspecData}

/-- The files that were ever issued and are loaded now were loaded before, with the same
controls. -/
def Kept (issued : List FileID) (data data' : InspecData) : Prop :=
  ∀ files : List FileID, (∀ id ∈ files, id ∈ issued) → (∀ id ∈ files, id ∈ data'.ids) →
    (∀ id ∈ files, id ∈ data.ids) ∧ (allControls data files).Perm (allControls data' files)

theorem mem_ids {id : FileID} : id ∈ data.ids ↔
    (∃ file ∈ data.executionFiles, file.uniqueId = id) ∨
      ∃ file ∈ data.profileFiles, file.uniqueId = id := by
  unfold InspecData.ids
  rw [List.mem_append, List.mem_map, List.mem_map]

theorem kept_of_selected
    (loaded : ∀ files : List FileID, (∀ id ∈ files, id ∈ issued) → (∀ id ∈ files, id ∈ data'.ids) →
      (∀ id ∈ files, id ∈ data.ids) ∧
        (data.executionFiles.filter fun file => decide (file.uniqueId ∈ files)).Perm
          (data'.executionFiles.filter fun file => decide (file.uniqueId ∈ files)) ∧
        (data.profileFiles.filter fun file => decide (file.uniqueId ∈ files)).Perm
          (data'.profileFiles.filter fun file => decide (file.uniqueId ∈ files))) :
    Kept issued data data' := by
  intro files old now
  obtain ⟨before, executions, profiled⟩ := loaded files old now
  refine ⟨before, List.Perm.flatMap_right _ (List.Perm.append ?_ ?_)⟩
  · exact executions.flatMap_right _
  · exact profiled.map _

/-- A file that was never issued is in no older selection. -/
theorem kept_of_added {added : FileID} (fresh : added ∉ issued)
    (ids : ∀ id ∈ data'.ids, id ≠ added → id ∈ data.ids)
    (loaded : ∀ files : List FileID, added ∉ files →
      (data.executionFiles.filter fun file => decide (file.uniqueId ∈ files)).Perm
          (data'.executionFiles.filter fun file => decide (file.uniqueId ∈ files)) ∧
        (data.profileFiles.filter fun file => decide (file.uniqueId ∈ files)).Perm
          (data'.profileFiles.filter fun file => decide (file.uniqueId ∈ files))) :
    Kept issued data data' := by
  refine kept_of_selected fun files old now => ⟨fun id inside => ?_, loaded files ?_⟩
  · exact ids id (now id inside) fun same => fresh (same ▸ old id inside)
  · exact fun inside => fresh (old added inside)

theorem kept_addExecution {file : EvaluationFile} (fresh : file.uniqueId ∉ issued) :
    Kept issued data { data with executionFiles := data.executionFiles ++ [file] } := by
  refine kept_of_added fresh (fun id here other => ?_) fun files outside => ⟨?_, .refl _⟩
  · rw [mem_ids] at here ⊢
    simpa [other.symm] using here
  · simp [outside]

theorem kept_addProfile {file : ProfileFile} (fresh : file.uniqueId ∉ issued) :
    Kept issued data { data with profileFiles := data.profileFiles ++ [file] } := by
  refine kept_of_added fresh (fun id here other => ?_) fun files outside => ⟨.refl _, ?_⟩
  · rw [mem_ids] at here ⊢
    simpa [other.symm] using here
  · simp [outside]

/-- Files that are not selected may be taken away. -/
theorem filter_selected {α : Type} {uniqueId : α → FileID} {fileId : FileID}
    {files : List FileID} (other : ∀ id ∈ files, id ≠ fileId) (xs : List α) :
    ((xs.filter fun file => uniqueId file ≠ fileId).filter fun file =>
      decide (uniqueId file ∈ files)) = xs.filter fun file => decide (uniqueId file ∈ files) := by
  rw [List.filter_filter]
  apply List.filter_congr
  intro file _
  by_cases selected : uniqueId file ∈ files
  · simp [selected, other _ selected]
  · simp [selected]

theorem kept_removeFile {fileId : FileID} : Kept issued data
    { executionFiles := data.executionFiles.filter fun file => file.uniqueId ≠ fileId
      profileFiles := data.profileFiles.filter fun file => file.uniqueId ≠ fileId } := by
  apply kept_of_selected
  intro files _ now
  have other : ∀ id ∈ files, id ≠ fileId := by
    intro id inside
    have here := now id inside
    rw [mem_ids] at here
    rcases here with ⟨file, member, rfl⟩ | ⟨file, member, rfl⟩
    · exact of_decide_eq_true (List.mem_filter.mp member).2
    · exact of_decide_eq_true (List.mem_filter.mp member).2
  refine ⟨fun id inside => ?_, ?_, ?_⟩
  · have here := now id inside
    rw [mem_ids] at here ⊢
    refine here.imp ?_ ?_
    · exact fun ⟨file, member, same⟩ => ⟨file, (List.mem_filter.mp member).1, same⟩
    · exact fun ⟨file, member, same⟩ => ⟨file, (List.mem_filter.mp member).1, same⟩
  · exact .of_eq (filter_selected other _).symm
  · exact .of_eq (filter_selected other _).symm

theorem kept_sort (executions : data'.executionFiles.Perm data.executionFiles)
    (profiled : data'.profileFiles.Perm data.profileFiles) : Kept issued data data' := by
  refine kept_of_selected fun files _ now => ⟨fun id inside => ?_, ?_, ?_⟩
  · have here := now id inside
    rw [mem_ids] at here ⊢
    simpa only [executions.mem_iff, profiled.mem_iff] using here
  · exact (executions.filter _).symm
  · exact (profiled.filter _).symm

variable [UnicodeTables] {key : JsString} {cs : List StoredControl}

/-- The pipeline returned this once for a filter with the key, and as long as the files of the
filter are loaded it returns the same controls. -/
def Answered (data : InspecData) (issued : List FileID) (key : JsString)
    (cs : List StoredControl) : Prop :=
  ∃ f : FilterObject, filter_cache_key f = key ∧ (∀ id ∈ f.filter.fromFile, id ∈ issued) ∧
    ((∀ id ∈ f.filter.fromFile, id ∈ data.ids) →
      ∃ ds, controls data f.filter = .ok ds ∧ cs.Perm ds)

theorem Answered.move {issued' : List FileID} (answered : Answered data issued key cs)
    (more : ∀ id ∈ issued, id ∈ issued') (kept : Kept issued data data') :
    Answered data' issued' key cs := by
  obtain ⟨f, same, old, valid⟩ := answered
  refine ⟨f, same, fun id inside => more id (old id inside), fun now => ?_⟩
  obtain ⟨before, perm⟩ := kept _ old now
  obtain ⟨ds, returned, answer⟩ := valid before
  rw [controls_eq_sieve] at returned ⊢
  obtain ⟨ds', returned', moved⟩ := sieve_perm perm returned
  exact ⟨ds', returned', answer.trans moved⟩

end Moves

section Coherence
variable [UnicodeTables] {κ : Type} {cache : Cache κ JsString (List StoredControl)}
  {s : FilteredData κ}

/-- Every file was built by the contextualizer and has an issued identifier, and everything in
the cache is an answer. -/
structure FilteredData.Sound (cache : Cache κ JsString (List StoredControl))
    (s : FilteredData κ) : Prop where
  loaded : s.data.Loaded
  issued : ∀ id ∈ s.data.ids, id ∈ s.issued
  cached : cache.Holds (Answered s.data s.issued) s.localCache

theorem sound_initial (lawful : cache.Lawful) : (FilteredData.initial cache).Sound cache where
  loaded := ⟨List.forall_mem_nil _, List.forall_mem_nil _⟩
  issued := List.forall_mem_nil _
  cached := lawful.holds_new

theorem cachedControls_of_cached {filter : FilterObject} {cs : List StoredControl}
    (found : (cache.get s.localCache (filter_cache_key filter)).1 = some cs) :
    (cachedControls cache s filter).1 = .ok cs := by
  unfold cachedControls
  dsimp only
  split
  · rename_i cached localCache here
    rw [here] at found
    exact congrArg _ (Option.some.inj found)
  · rename_i localCache missed
    rw [missed] at found
    cases found

theorem cachedControls_of_missed {filter : FilterObject} {cs : List StoredControl} {localCache : κ}
    (missed : cache.get s.localCache (filter_cache_key filter) = (none, localCache))
    (returned : controls s.data filter.filter = .ok cs) :
    cachedControls cache s filter =
      (.ok cs, cache.set localCache (filter_cache_key filter) cs) := by
  unfold cachedControls
  dsimp only
  rw [missed]
  dsimp only
  rw [returned]

/-- Nothing is cached but what the pipeline returned. -/
theorem holds_cachedControls (lawful : cache.Lawful) (sound : s.Sound cache)
    {filter : FilterObject} (allowed : ∀ id ∈ filter.filter.fromFile, id ∈ s.data.ids) :
    cache.Holds (Answered s.data s.issued) (cachedControls cache s filter).2 := by
  have read := sound.cached.get lawful (filter_cache_key filter)
  unfold cachedControls
  dsimp only
  split
  · rename_i cached localCache found
    rw [found] at read
    exact read
  · rename_i localCache missed
    rw [missed] at read
    split
    · exact read
    · rename_i r returned
      refine read.set lawful ⟨filter, rfl, fun id inside => ?_, fun _ => ?_⟩
      · exact sound.issued id (allowed id inside)
      · exact ⟨r, returned, .refl _⟩

theorem Answered.holds_move {issued issued' : List FileID} {data data' : InspecData} {c : κ}
    (holds : cache.Holds (Answered data issued) c) (more : ∀ id ∈ issued, id ∈ issued')
    (kept : Kept issued data data') : cache.Holds (Answered data' issued') c :=
  holds.mono fun _ _ answered => answered.move more kept

variable {call : Call}

theorem loaded_step (loaded : s.data.Loaded) (allowed : call.Allowed s) :
    (s.step cache call).data.Loaded := by
  cases call with
  | addExecution file =>
      refine ⟨fun other inside => ?_, loaded.profileFiles⟩
      rcases List.mem_append.mp inside with old | new
      · exact loaded.executionFiles other old
      · cases List.mem_singleton.mp new
        exact allowed.2
  | addProfile file =>
      refine ⟨loaded.executionFiles, fun other inside => ?_⟩
      rcases List.mem_append.mp inside with old | new
      · exact loaded.profileFiles other old
      · cases List.mem_singleton.mp new
        exact allowed.2
  | removeFile fileId =>
      refine ⟨fun file inside => ?_, fun file inside => ?_⟩
      · exact loaded.executionFiles file (List.mem_filter.mp inside).1
      · exact loaded.profileFiles file (List.mem_filter.mp inside).1
  | sort executionFiles profileFiles =>
      refine ⟨fun file inside => ?_, fun file inside => ?_⟩
      · exact loaded.executionFiles file (allowed.1.mem_iff.mp inside)
      · exact loaded.profileFiles file (allowed.2.mem_iff.mp inside)
  | query filter => exact loaded

theorem issued_step (issued : ∀ id ∈ s.data.ids, id ∈ s.issued) (allowed : call.Allowed s) :
    ∀ id ∈ (s.step cache call).data.ids, id ∈ (s.step cache call).issued := by
  intro id inside
  rw [mem_ids] at inside
  cases call with
  | addExecution file =>
      rcases inside with ⟨other, member, rfl⟩ | profiled
      · rcases List.mem_append.mp member with old | new
        · exact List.mem_cons_of_mem _ (issued _ (mem_ids.mpr (.inl ⟨other, old, rfl⟩)))
        · cases List.mem_singleton.mp new
          exact List.mem_cons_self
      · exact List.mem_cons_of_mem _ (issued _ (mem_ids.mpr (.inr profiled)))
  | addProfile file =>
      rcases inside with executed | ⟨other, member, rfl⟩
      · exact List.mem_cons_of_mem _ (issued _ (mem_ids.mpr (.inl executed)))
      · rcases List.mem_append.mp member with old | new
        · exact List.mem_cons_of_mem _ (issued _ (mem_ids.mpr (.inr ⟨other, old, rfl⟩)))
        · cases List.mem_singleton.mp new
          exact List.mem_cons_self
  | removeFile fileId =>
      refine issued id (mem_ids.mpr (inside.imp ?_ ?_))
      · exact fun ⟨file, member, same⟩ => ⟨file, (List.mem_filter.mp member).1, same⟩
      · exact fun ⟨file, member, same⟩ => ⟨file, (List.mem_filter.mp member).1, same⟩
  | sort executionFiles profileFiles =>
      refine issued id (mem_ids.mpr (inside.imp ?_ ?_))
      · exact fun ⟨file, member, same⟩ => ⟨file, allowed.1.mem_iff.mp member, same⟩
      · exact fun ⟨file, member, same⟩ => ⟨file, allowed.2.mem_iff.mp member, same⟩
  | query filter => exact issued id (mem_ids.mpr inside)

theorem cached_step (lawful : cache.Lawful) (sound : s.Sound cache) (allowed : call.Allowed s) :
    cache.Holds (Answered (s.step cache call).data (s.step cache call).issued)
      (s.step cache call).localCache := by
  cases call with
  | addExecution file =>
      exact Answered.holds_move sound.cached (fun _ => List.mem_cons_of_mem _)
        (kept_addExecution allowed.1)
  | addProfile file =>
      exact Answered.holds_move sound.cached (fun _ => List.mem_cons_of_mem _)
        (kept_addProfile allowed.1)
  | removeFile fileId => exact Answered.holds_move sound.cached (fun _ => id) kept_removeFile
  | sort executionFiles profileFiles =>
      exact Answered.holds_move sound.cached (fun _ => id) (kept_sort allowed.1 allowed.2)
  | query filter => exact holds_cachedControls lawful sound allowed

theorem sound_step (lawful : cache.Lawful) (sound : s.Sound cache) (allowed : call.Allowed s) :
    (s.step cache call).Sound cache where
  loaded := loaded_step sound.loaded allowed
  issued := issued_step sound.issued allowed
  cached := cached_step lawful sound allowed

/-- An answer, cached or not, is what the pipeline returns now, if and only if the search can
be made now. -/
theorem cachedControls_eq_ok (no_letters : UnicodeTables.toLowerCase [] = [])
    (sound : s.Sound cache) {filter : FilterObject} {cs : List StoredControl}
    (allowed : ∀ id ∈ filter.filter.fromFile, id ∈ s.data.ids)
    (answered : (cachedControls cache s filter).1 = .ok cs) :
    (∃ ds, controls s.data filter.filter = .ok ds ∧ cs.Perm ds) ↔
      Searchable s.data filter.filter := by
  refine ⟨fun ⟨ds, returned, _⟩ => searchable_of_controls no_letters returned, fun search => ?_⟩
  have read := sound.cached (filter_cache_key filter)
  unfold cachedControls at answered
  dsimp only at answered
  split at answered
  · rename_i cached localCache found
    rw [found] at read
    cases answered
    obtain ⟨f, same, -, valid⟩ := read cs rfl
    have alike : Alike f.filter filter.filter := alike_of_key same
    obtain ⟨ds, returned, perm⟩ := valid (alike.fromFile ▸ allowed)
    exact ⟨ds, (controls_alike sound.loaded no_letters alike returned).mpr search, perm⟩
  · split at answered
    · cases answered
    · rename_i r returned
      cases answered
      exact ⟨cs, returned, .refl _⟩

/-- In every run, a query that answers is coherent exactly where its search can be made. -/
theorem coherent_iff_searchable (no_letters : UnicodeTables.toLowerCase [] = [])
    (sound : s.Sound cache) (allowed : call.Allowed s) (answers : call.Answers cache s) :
    call.Coherent cache s ↔ call.Searchable s := by
  cases call with
  | query filter =>
      obtain ⟨cs, answered⟩ := answers
      have here := cachedControls_eq_ok no_letters sound allowed answered
      constructor
      · exact fun coherent => here.mp (coherent cs answered)
      · intro search ds answered'
        cases answered.symm.trans answered'
        exact here.mpr search
  | _ => exact Iff.rfl

theorem coherent_of_searchable (no_letters : UnicodeTables.toLowerCase [] = [])
    (sound : s.Sound cache) (allowed : call.Allowed s) (search : call.Searchable s) :
    call.Coherent cache s := by
  cases call with
  | query filter =>
      intro cs answered
      exact (cachedControls_eq_ok no_letters sound allowed answered).mpr search
  | _ => trivial

/-- The cached answers are those of the pipeline, and filters with one key select the same
controls, wherever no search for the empty term reaches a control without a root. -/
theorem filter_cache_coherent (lawful : cache.Lawful)
    (no_letters : UnicodeTables.toLowerCase [] = []) {calls : List Call}
    (allowed : Along (FilteredData.step cache) Call.Allowed (.initial cache) calls) :
    (Along (FilteredData.step cache) Call.Searchable (.initial cache) calls →
      Along (FilteredData.step cache) (Call.Coherent cache) (.initial cache) calls) ∧
    Along (FilteredData.step cache) (fun s call => call.Answers cache s →
      (call.Coherent cache s ↔ call.Searchable s)) (.initial cache) calls ∧
    ∀ f g : FilterObject, filter_cache_key f = filter_cache_key g → ∀ cs,
      controls (run (FilteredData.step cache) (.initial cache) calls).data f.filter = .ok cs →
        (controls (run (FilteredData.step cache) (.initial cache) calls).data g.filter = .ok cs ↔
          Frontend.Searchable (run (FilteredData.step cache) (.initial cache) calls).data
            g.filter) := by
  have keeps : ∀ (s : FilteredData κ) (call : Call), s.Sound cache → call.Allowed s →
      (s.step cache call).Sound cache := fun _ _ sound here => sound_step lawful sound here
  have start := sound_initial lawful
  obtain ⟨coherent, -⟩ := along_of_invariant keeps (P := fun s call => call.Searchable s →
    call.Coherent cache s) (fun _ _ => coherent_of_searchable no_letters) start allowed
  obtain ⟨exactly, last⟩ := along_of_invariant keeps
    (fun _ _ => coherent_iff_searchable no_letters) start allowed
  refine ⟨coherent.imp, exactly, fun f g same cs returned => ?_⟩
  exact controls_alike last.loaded no_letters (alike_of_key same) returned

end Coherence

section Samples

def fileQuery : FilterObject where
  fields := [.fromFile [js "f"]]
  distinct := by decide
  required := ⟨[js "f"], List.mem_cons_self⟩

/-- The search field is there and empty. -/
def searchQuery : FilterObject where
  fields := [.fromFile [js "f"], .searchTerm (some [])]
  distinct := by decide
  required := ⟨[js "f"], List.mem_cons_self⟩

/-- A file comes in, is shown, listed and searched, and goes. -/
def sampleCalls (context : ContextualizedEvaluation) : List Call :=
  [.addExecution ⟨js "f", context⟩, .query fileQuery, .sort [⟨js "f", context⟩] [],
    .query searchQuery, .removeFile (js "f")]

theorem sampleCalls_allowed {κ : Type} [UnicodeTables]
    (cache : Cache κ JsString (List StoredControl)) {evaluation : ExecJSON}
    {context : ContextualizedEvaluation}
    (returned : contextualizeEvaluation 0 evaluation = .ok context) :
    Along (FilteredData.step cache) Call.Allowed (.initial cache) (sampleCalls context) := by
  have listed : ∀ id ∈ [js "f"], id ∈ [js "f"] := fun _ inside => inside
  exact ⟨⟨List.not_mem_nil, 0, evaluation, context, returned, rfl⟩, listed, ⟨.refl _, .refl _⟩,
    listed, trivial, trivial⟩

theorem filter_cache_coherent_sample : ∃ context,
    @contextualizeEvaluation asciiTables 0 waivedFile = .ok context ∧
      Along (@FilteredData.step asciiTables _ controlsCache)
        (@Call.Coherent asciiTables _ controlsCache) (.initial controlsCache)
        (sampleCalls context) := by
  have accepted : (@contextualizeEvaluation asciiTables 0 waivedFile).isOk = true := by
    decide +kernel
  cases returned : @contextualizeEvaluation asciiTables 0 waivedFile with
  | error e => rw [returned] at accepted; cases accepted
  | ok context =>
      refine ⟨context, rfl, ?_⟩
      have rooted : ∀ c ∈ allControls ⟨[⟨js "f", context⟩], []⟩ [js "f"], c.Rooted := by
        rw [← sampleStore_eq returned]
        exact StoredControl.rooted_of_all (by decide +kernel)
      have coherent := (@filter_cache_coherent asciiTables _ controlsCache
        (lruCache_lawful _) rfl _ (@sampleCalls_allowed _ asciiTables _ _ _ returned)).1
      exact coherent ⟨trivial, fun _ c inside _ => rooted c inside, trivial,
        fun _ c inside _ => rooted c inside, trivial, trivial⟩

/-- The control of a profile that names itself is listed, then found in the cache by a search
for the empty term that the pipeline does not come back from. -/
theorem filter_cache_incoherent :
    ¬ ∀ [UnicodeTables] {κ : Type} (cache : Cache κ JsString (List StoredControl))
      (calls : List Call), cache.Lawful → UnicodeTables.toLowerCase [] = [] →
      Along (FilteredData.step cache) Call.Allowed (.initial cache) calls →
        Along (FilteredData.step cache) (Call.Coherent cache) (.initial cache) calls := by
  intro always
  obtain ⟨context, returned⟩ := @selfNamed_returns asciiTables
  obtain ⟨-, -, -, here, -⟩ := @always asciiTables _ controlsCache (sampleCalls context)
    (lruCache_lawful _) rfl (@sampleCalls_allowed _ asciiTables _ _ _ returned)
  have listed : (@controls asciiTables ⟨[⟨js "f", context⟩], []⟩ fileQuery.filter).isOk =
      true := by
    rw [← sampleStore_eq returned]
    decide +kernel
  have endless : (@controls asciiTables ⟨[⟨js "f", context⟩], []⟩ searchQuery.filter).isOk =
      false := by
    rw [← sampleStore_eq returned]
    decide +kernel
  have key : filter_cache_key searchQuery = filter_cache_key fileQuery := by decide +kernel
  cases selected : @controls asciiTables ⟨[⟨js "f", context⟩], []⟩ fileQuery.filter with
  | error e => rw [selected] at listed; cases listed
  | ok cs =>
      have stored : (@cachedControls asciiTables _ controlsCache
          ⟨⟨[⟨js "f", context⟩], []⟩, [], [js "f"]⟩ fileQuery).2 =
            [(filter_cache_key fileQuery, cs)] := by
        rw [@cachedControls_of_missed asciiTables _ controlsCache _ _ _ [] rfl selected]
        rfl
      have found : (@cachedControls asciiTables _ controlsCache
          ⟨⟨[⟨js "f", context⟩], []⟩, [(filter_cache_key fileQuery, cs)], [js "f"]⟩
            searchQuery).1 = .ok cs := by
        apply @cachedControls_of_cached asciiTables _ _ _ _ _
        rw [key]
        exact congrArg Prod.fst (lruCache_get_singleton MAX_CACHE_ENTRIES _ cs)
      rw [← stored] at found
      obtain ⟨ds, walked, -⟩ := here cs found
      have returns : (@controls asciiTables ⟨[⟨js "f", context⟩], []⟩ searchQuery.filter).isOk =
          true := congrArg Except.isOk walked
      rw [endless] at returns
      cases returns

end Samples
end Frontend
