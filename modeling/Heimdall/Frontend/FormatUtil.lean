import Heimdall.Inspec.WellFormed
import Heimdall.Frontend.ReportIntake

/-!
# Unique keys

The keys of executions, profiles and controls walk the links back to the file object. They
are defined for everything that `loadText` takes in, and for an execution of the Splunk tab
only if it has no profiles.
-/
namespace Frontend.Store
open Js Lib Inspec

section Keys
variable (s : Store)

/-- `x.from_file.uniqueId` -/
def fromFileId (from_file : Option FileRef) : Except JsError FileID :=
  orThrow (from_file.bind s.uniqueId)
    (.typeError "Cannot read properties of undefined (reading 'uniqueId')")

def execution_unique_key (exec : EvaluationObject) : Except JsError JsString := do
  let id ← s.fromFileId exec.from_file
  return js "exec_" ++ id

/-- Only the profile of a profile file has a `from_file`. -/
def profile_unique_key (profile : ContextualizedProfile) (from_file : Option FileRef) :
    Except JsError JsString :=
  match profile.sourcedFrom with
  | none => do
      let id ← s.fromFileId from_file
      return js "profile_" ++ id
  | some sourcedFrom => do
      let exec ← orThrow s.evaluations[sourcedFrom]?
        (.typeError "Cannot read properties of undefined (reading 'from_file')")
      let key ← s.execution_unique_key exec
      return key ++ js "-" ++ profile.data.name

def control_unique_key (g : Graph) (from_file : Option FileRef) (ctrl : ContextualizedControl) :
    Except JsError JsString := do
  let profile ← orThrow g.profiles[ctrl.sourcedFrom]?
    (.typeError "Cannot read properties of undefined (reading 'sourcedFrom')")
  let key ← s.profile_unique_key profile from_file
  return key ++ js "-" ++ ctrl.data.id

variable {s}

theorem profile_unique_key_eq_ok {profile : ContextualizedProfile} {from_file : Option FileRef}
    {key : JsString} : s.profile_unique_key profile from_file = .ok key ↔
      (profile.sourcedFrom = none ∧ ∃ id, s.fromFileId from_file = .ok id ∧
        key = js "profile_" ++ id) ∨
      ∃ r e key', profile.sourcedFrom = some r ∧ s.evaluations[r]? = some e ∧
        s.execution_unique_key e = .ok key' ∧ key = key' ++ js "-" ++ profile.data.name := by
  unfold profile_unique_key
  cases profile.sourcedFrom with
  | none =>
      simp only [do_eq_ok, pure_eq_ok, true_and, reduceCtorEq, false_and, exists_false, or_false]
  | some r =>
      simp only [do_eq_ok, pure_eq_ok, orThrow_eq_ok, Option.some.injEq, reduceCtorEq, false_and,
        false_or, exists_and_left, exists_eq_left']

/-- A control has a key when the profile that it is sourced from has one. -/
theorem control_unique_key_returns {g : Graph} {from_file : Option FileRef}
    {ctrl : ContextualizedControl} {profile : ContextualizedProfile} {key : JsString}
    (source : g.profiles[ctrl.sourcedFrom]? = some profile)
    (known : s.profile_unique_key profile from_file = .ok key) :
    s.control_unique_key g from_file ctrl = .ok (key ++ js "-" ++ ctrl.data.id) :=
  do_eq_ok.mpr ⟨profile, orThrow_eq_ok.mpr source, do_eq_ok.mpr ⟨key, known, rfl⟩⟩

end Keys

section Links

/-- The file holds this evaluation object, or this profile object. -/
structure HoldsEvaluation (s : Store) (file : FileRef) (r : Ref) (e : EvaluationObject) :
    Prop where
  field : (s.files[file]?.bind (·.evaluation)) = some r
  object : s.evaluations[r]? = some e

structure HoldsProfile (s : Store) (file : FileRef) (r : ProfileRef) (p : ProfileObject) :
    Prop where
  field : (s.files[file]?.bind (·.profile)) = some r
  object : s.profiles[r]? = some p

/-- The keys of the profiles and controls of a graph are defined. -/
structure Keyed (s : Store) (g : Graph) (from_file : Option FileRef) : Prop where
  profiles : ∀ profile ∈ g.profiles, ∃ key, s.profile_unique_key profile from_file = .ok key
  controls : ∀ ctrl ∈ g.controls, ∃ key, s.control_unique_key g from_file ctrl = .ok key

/-- The profiles of a loaded evaluation point back to the very object that the file holds,
that object points to the file, and all keys are defined. -/
structure EvaluationLinked (s : Store) (file : FileRef) (r : Ref) (e : EvaluationObject) :
    Prop where
  holds : s.HoldsEvaluation file r e
  from_file : e.from_file = some file
  sourcedFrom : ∀ p ∈ e.context.contains,
    (e.context.graph.profiles[p]?.bind (·.sourcedFrom)) = some r
  key : ∃ key, s.execution_unique_key e = .ok key
  keyed : s.Keyed e.context.graph none

structure ProfileLinked (s : Store) (file : FileRef) (r : ProfileRef) (p : ProfileObject) :
    Prop where
  holds : s.HoldsProfile file r p
  from_file : p.from_file = some file
  keyed : s.Keyed p.graph p.from_file

/-- What should hold of every file that was taken in. -/
structure BackLinked (s : Store) : Prop where
  evaluations : ∀ file ∈ s.executionFiles, ∃ r e, s.EvaluationLinked file r e
  profiles : ∀ file ∈ s.profileFiles, ∃ r p, s.ProfileLinked file r p

end Links

section Growth

/-- Objects were added, and none was changed. -/
structure Grows (s s' : Store) : Prop where
  files : s.files <+: s'.files
  evaluations : s.evaluations <+: s'.evaluations
  profiles : s.profiles <+: s'.profiles

theorem Grows.of_eq {s s' : Store} (files : s'.files = s.files)
    (evaluations : s'.evaluations = s.evaluations) (profiles : s'.profiles = s.profiles) :
    Grows s s' :=
  ⟨files ▸ List.prefix_refl _, evaluations ▸ List.prefix_refl _,
    profiles ▸ List.prefix_refl _⟩

variable {s s' : Store} (grows : Grows s s')
include grows

theorem Grows.uniqueId {file : FileRef} {id : FileID} (known : s.uniqueId file = some id) :
    s'.uniqueId file = some id := by
  obtain ⟨f, here, rfl⟩ := Option.map_eq_some_iff.mp known
  exact Option.map_eq_some_iff.mpr ⟨f, getElem?_of_prefix grows.files here, rfl⟩

theorem Grows.fromFileId {from_file : Option FileRef} {id : FileID}
    (known : s.fromFileId from_file = .ok id) : s'.fromFileId from_file = .ok id := by
  obtain ⟨file, rfl, found⟩ := Option.bind_eq_some_iff.mp (orThrow_eq_ok.mp known)
  exact orThrow_eq_ok.mpr (grows.uniqueId found)

theorem Grows.execution_unique_key {e : EvaluationObject} {key : JsString}
    (known : s.execution_unique_key e = .ok key) : s'.execution_unique_key e = .ok key := by
  obtain ⟨id, found, h⟩ := do_eq_ok.mp known
  exact do_eq_ok.mpr ⟨id, grows.fromFileId found, h⟩

theorem Grows.profile_unique_key {profile : ContextualizedProfile} {from_file : Option FileRef}
    {key : JsString} (known : s.profile_unique_key profile from_file = .ok key) :
    s'.profile_unique_key profile from_file = .ok key := by
  rw [profile_unique_key_eq_ok] at known ⊢
  rcases known with ⟨own, id, found, h⟩ | ⟨r, e, key', source, object, found, h⟩
  · exact .inl ⟨own, id, grows.fromFileId found, h⟩
  · exact .inr ⟨r, e, key', source, getElem?_of_prefix grows.evaluations object,
      grows.execution_unique_key found, h⟩

theorem Grows.keyed {g : Graph} {from_file : Option FileRef} (keyed : s.Keyed g from_file) :
    s'.Keyed g from_file where
  profiles profile inside := by
    obtain ⟨key, known⟩ := keyed.profiles profile inside
    exact ⟨key, grows.profile_unique_key known⟩
  controls ctrl inside := by
    obtain ⟨key, known⟩ := keyed.controls ctrl inside
    obtain ⟨profile, source, h⟩ := do_eq_ok.mp known
    obtain ⟨key', known', h⟩ := do_eq_ok.mp h
    exact ⟨key, do_eq_ok.mpr
      ⟨profile, source, do_eq_ok.mpr ⟨key', grows.profile_unique_key known', h⟩⟩⟩

theorem Grows.holdsEvaluation {file : FileRef} {r : Ref} {e : EvaluationObject}
    (holds : s.HoldsEvaluation file r e) : s'.HoldsEvaluation file r e := by
  obtain ⟨f, here, field⟩ := Option.bind_eq_some_iff.mp holds.field
  exact ⟨Option.bind_eq_some_iff.mpr ⟨f, getElem?_of_prefix grows.files here, field⟩,
    getElem?_of_prefix grows.evaluations holds.object⟩

theorem Grows.holdsProfile {file : FileRef} {r : ProfileRef} {p : ProfileObject}
    (holds : s.HoldsProfile file r p) : s'.HoldsProfile file r p := by
  obtain ⟨f, here, field⟩ := Option.bind_eq_some_iff.mp holds.field
  exact ⟨Option.bind_eq_some_iff.mpr ⟨f, getElem?_of_prefix grows.files here, field⟩,
    getElem?_of_prefix grows.profiles holds.object⟩

theorem Grows.evaluationLinked {file : FileRef} {r : Ref} {e : EvaluationObject}
    (linked : s.EvaluationLinked file r e) : s'.EvaluationLinked file r e where
  holds := grows.holdsEvaluation linked.holds
  from_file := linked.from_file
  sourcedFrom := linked.sourcedFrom
  key := linked.key.imp fun _ known => grows.execution_unique_key known
  keyed := grows.keyed linked.keyed

theorem Grows.profileLinked {file : FileRef} {r : ProfileRef} {p : ProfileObject}
    (linked : s.ProfileLinked file r p) : s'.ProfileLinked file r p where
  holds := grows.holdsProfile linked.holds
  from_file := linked.from_file
  keyed := grows.keyed linked.keyed

/-- What is linked stays so, as long as the files that come in are linked too. -/
theorem BackLinked.grow (linked : s.BackLinked)
    (executionFiles : ∀ file ∈ s'.executionFiles,
      file ∈ s.executionFiles ∨ ∃ r e, s'.EvaluationLinked file r e)
    (profileFiles : ∀ file ∈ s'.profileFiles,
      file ∈ s.profileFiles ∨ ∃ r p, s'.ProfileLinked file r p) : s'.BackLinked where
  evaluations file inside := by
    rcases executionFiles file inside with old | new
    · obtain ⟨r, e, here⟩ := linked.evaluations file old
      exact ⟨r, e, grows.evaluationLinked here⟩
    · exact new
  profiles file inside := by
    rcases profileFiles file inside with old | new
    · obtain ⟨r, p, here⟩ := linked.profiles file old
      exact ⟨r, p, grows.profileLinked here⟩
    · exact new

end Growth

section Intake
variable {s s' : Store}

theorem Grows.narrows (narrows : Narrows s s') : Grows s s' := by
  obtain ⟨execs, _, profs, _, evaluationIds, profileIds, rfl⟩ := narrows
  exact .of_eq rfl rfl rfl

theorem BackLinked.narrow (linked : s.BackLinked) (narrows : Narrows s s') : s'.BackLinked := by
  have grows := Grows.narrows narrows
  obtain ⟨execs, fewer, profs, fewer', evaluationIds, profileIds, rfl⟩ := narrows
  exact linked.grow grows (fun file inside => .inl (fewer inside))
    fun file inside => .inl (fewer' inside)

/-- When every profile of a graph has a key, every control has one. -/
theorem keyed_of_profiles {g : Graph} {from_file : Option FileRef}
    (sourced : ∀ ctrl ∈ g.controls, ∃ p : ContextualizedProfile,
      g.profiles[ctrl.sourcedFrom]? = some p)
    (each : ∀ profile ∈ g.profiles, ∃ key, s.profile_unique_key profile from_file = .ok key) :
    s.Keyed g from_file where
  profiles := each
  controls ctrl inside := by
    obtain ⟨profile, source⟩ := sourced ctrl inside
    obtain ⟨key, known⟩ := each profile (List.mem_of_getElem? source)
    exact ⟨_, control_unique_key_returns source known⟩

/-- The keys of a graph whose profiles are sourced from an evaluation that has a file. -/
theorem keyed_of_evaluation {g : Graph} {r : Ref} {e : EvaluationObject} {id : FileID}
    (sourced : ∀ ctrl ∈ g.controls, ∃ p : ContextualizedProfile,
      g.profiles[ctrl.sourcedFrom]? = some p)
    (sources : ∀ p ∈ g.profiles, p.sourcedFrom = some r) (object : s.evaluations[r]? = some e)
    (known : s.fromFileId e.from_file = .ok id) : s.Keyed g none :=
  keyed_of_profiles sourced fun profile inside =>
    ⟨_, profile_unique_key_eq_ok.mpr (.inr ⟨r, e, _, sources profile inside, object,
      do_eq_ok.mpr ⟨id, known, rfl⟩, rfl⟩)⟩

variable [UnicodeTables]

/-- `loadText` links whatever it takes in. -/
theorem BackLinked.loadText (linked : s.BackLinked) {fileID : FileID}
    {options : TextLoadOptions} (done : s.loadText fileID options = .ok s') : s'.BackLinked := by
  rcases loadText_eq_ok.mp done with ⟨exec, context, -, returned, rfl⟩ |
    ⟨profileJson, graph, -, returned, rfl⟩
  · refine BackLinked.narrow ?_ (toggle_evaluation_narrows _ _)
    obtain ⟨self, built⟩ := contextualizeEvaluation_built returned
    set evalFile : FileObject := ⟨fileID, options.filename, options.database_id,
      some s.evaluations.length, none⟩
    set e : EvaluationObject := ⟨context, some s.files.length⟩
    set taken := s.takeEvaluation [e] evalFile
    have file : taken.files[s.files.length]? = some evalFile := List.getElem?_concat_length
    have object : taken.evaluations[s.evaluations.length]? = some e :=
      List.getElem?_concat_length
    have id : taken.fromFileId e.from_file = .ok fileID :=
      orThrow_eq_ok.mpr (Option.map_eq_some_iff.mpr ⟨evalFile, file, rfl⟩)
    have sources : ∀ p ∈ context.graph.profiles, p.sourcedFrom = some s.evaluations.length :=
      fun p inside => self ▸ built.sources p inside
    refine linked.grow ⟨List.prefix_append _ _, List.prefix_append _ _, List.prefix_refl _⟩ ?_
      fun file inside => .inl inside
    intro ref inside
    refine (List.mem_append.mp inside).imp_right fun new => ⟨s.evaluations.length, e, ?_⟩
    obtain rfl := List.mem_singleton.mp new
    exact {
      holds := ⟨Option.bind_eq_some_iff.mpr ⟨evalFile, file, rfl⟩, object⟩
      from_file := rfl
      sourcedFrom := fun p contained => by
        obtain ⟨profile, here⟩ := built.mem_contains.mp contained
        exact Option.bind_eq_some_iff.mpr
          ⟨profile, here, sources profile (List.mem_of_getElem? here)⟩
      key := ⟨_, do_eq_ok.mpr ⟨fileID, id, rfl⟩⟩
      keyed := keyed_of_evaluation built.source_of_mem sources object id }
  · refine BackLinked.narrow ?_ (toggle_profile_narrows _ _)
    obtain ⟨sources, sourced⟩ := contextualizeProfile_sources returned
    set profileFile : FileObject := ⟨fileID, options.filename, none, none, some s.profiles.length⟩
    set p : ProfileObject := ⟨graph, some s.files.length⟩
    set taken := s.takeProfile p profileFile
    have file : taken.files[s.files.length]? = some profileFile := List.getElem?_concat_length
    have object : taken.profiles[s.profiles.length]? = some p := List.getElem?_concat_length
    have id : taken.fromFileId p.from_file = .ok fileID :=
      orThrow_eq_ok.mpr (Option.map_eq_some_iff.mpr ⟨profileFile, file, rfl⟩)
    refine linked.grow ⟨List.prefix_append _ _, List.prefix_refl _, List.prefix_append _ _⟩
      (fun file inside => .inl inside) ?_
    intro ref inside
    refine (List.mem_append.mp inside).imp_right fun new => ⟨s.profiles.length, p, ?_⟩
    obtain rfl := List.mem_singleton.mp new
    exact {
      holds := ⟨Option.bind_eq_some_iff.mpr ⟨profileFile, file, rfl⟩, object⟩
      from_file := rfl
      keyed := keyed_of_profiles sourced fun profile inside =>
        ⟨_, profile_unique_key_eq_ok.mpr (.inl ⟨sources profile inside, fileID, id, rfl⟩)⟩ }

/-- The profiles of an execution from Splunk point to the object that was copied, so the file
is linked only if there are none. -/
theorem BackLinked.load_event_iff (linked : s.BackLinked) {uniqueId : FileID}
    {filename : JsString} {exec : ExecJSON}
    (done : s.load_event uniqueId filename exec = .ok s') :
    s'.BackLinked ↔ exec.profiles = [] := by
  obtain ⟨context, returned, rfl⟩ := load_event_eq_ok.mp done
  obtain ⟨self, built⟩ := contextualizeEvaluation_built returned
  set file : FileObject := ⟨uniqueId, filename ++ js " (Splunk)", none,
    some (s.evaluations.length + 1), none⟩
  set original : EvaluationObject := ⟨context, none⟩
  set contextualized : EvaluationObject :=
    ⟨{ context with self := s.evaluations.length + 1 }, some s.files.length⟩
  set taken := s.takeEvaluation [original, contextualized] file
  have stored : taken.files[s.files.length]? = some file := List.getElem?_concat_length
  have object : taken.evaluations[s.evaluations.length + 1]? = some contextualized :=
    getElem?_append_add
  constructor
  · intro linked'
    by_contra some_profile
    obtain ⟨r, e, new⟩ := linked'.evaluations s.files.length (List.mem_concat_self)
    -- The file holds the copy, and its first profile is sourced from the original.
    obtain rfl : r = s.evaluations.length + 1 := by
      have field := new.holds.field
      rw [stored] at field
      exact (Option.some.inj field).symm
    obtain rfl : e = contextualized := Option.some.inj (new.holds.object.symm.trans object)
    have first : 0 ∈ context.contains := by
      rw [built.contains, List.mem_range]
      exact List.length_pos_of_ne_nil some_profile
    obtain ⟨profile, here, source⟩ := Option.bind_eq_some_iff.mp (new.sourcedFrom 0 first)
    have original := built.sources profile (List.mem_of_getElem? here)
    rw [self, source] at original
    exact Nat.succ_ne_self _ (Option.some.inj original)
  · intro empty
    have none : context.graph.profiles = [] := by
      have length := built.length_profiles
      rw [empty] at length
      exact List.length_eq_zero_iff.mp length
    have id : taken.fromFileId contextualized.from_file = .ok uniqueId :=
      orThrow_eq_ok.mpr (Option.map_eq_some_iff.mpr ⟨file, stored, rfl⟩)
    refine linked.grow ⟨List.prefix_append _ _, List.prefix_append _ _, List.prefix_refl _⟩ ?_
      fun file inside => .inl inside
    intro ref inside
    refine (List.mem_append.mp inside).imp_right fun new =>
      ⟨s.evaluations.length + 1, contextualized, ?_⟩
    obtain rfl := List.mem_singleton.mp new
    exact {
      holds := ⟨Option.bind_eq_some_iff.mpr ⟨file, stored, rfl⟩, object⟩
      from_file := rfl
      sourcedFrom := fun p contained => by
        obtain ⟨profile, here⟩ := built.mem_contains.mp contained
        rw [none] at here
        cases here
      key := ⟨_, do_eq_ok.mpr ⟨uniqueId, id, rfl⟩⟩
      keyed := keyed_of_profiles built.source_of_mem fun profile inside => by
        rw [none] at inside
        cases inside }

end Intake

section Runs
variable [UnicodeTables]

/-- An execution that the Splunk tab can load has no profiles. -/
def Op.WithoutProfiles : Op → Prop
  | .load_event _ _ exec =>
      (∃ context, contextualizeEvaluation 0 exec = .ok context) → exec.profiles = []
  | _ => True

theorem backLinked_step (s : Store) (op : Op) (linked : s.BackLinked) :
    (s.step op).BackLinked ↔ op.WithoutProfiles := by
  cases loads : op.loads with
  | false =>
      apply iff_of_true (linked.narrow (step_narrows s loads))
      cases op with
      | load_event => cases loads
      | _ => trivial
  | true =>
      cases op with
      | loadText fileID options =>
          refine iff_of_true ?_ trivial
          unfold step
          cases done : s.perform (.loadText fileID options) with
          | ok s' => exact linked.loadText done
          | error e => exact linked
      | load_event uniqueId filename exec =>
          have accepted : (∃ s', s.load_event uniqueId filename exec = .ok s') ↔
              ∃ context, contextualizeEvaluation 0 exec = .ok context := by
            rw [contextualizeEvaluation_returns_any 0 s.evaluations.length]
            simp only [load_event_eq_ok]
            exact ⟨fun ⟨_, context, returned, _⟩ => ⟨context, returned⟩,
              fun ⟨context, returned⟩ => ⟨_, context, returned, rfl⟩⟩
          change (s.step (.load_event uniqueId filename exec)).BackLinked ↔
            ((∃ context, contextualizeEvaluation 0 exec = .ok context) → exec.profiles = [])
          rw [← accepted, step]
          cases done : s.perform (.load_event uniqueId filename exec) with
          | ok s' =>
              refine (linked.load_event_iff done).trans ⟨fun empty _ => empty, fun h => ?_⟩
              exact h ⟨s', done⟩
          | error e =>
              refine iff_of_true linked fun ⟨s', h⟩ => ?_
              rw [show s.load_event uniqueId filename exec = .error e from done] at h
              cases h
      | _ => cases loads

omit [UnicodeTables] in
theorem backLinked_initial : Store.initial.BackLinked where
  evaluations _ inside := by cases inside
  profiles _ inside := by cases inside

/-- In exactly the runs in which no execution with profiles is loaded from Splunk, every
loaded file stays linked and all keys stay defined. -/
theorem backLinked_iff (ops : List Op) :
    Throughout step BackLinked initial ops ↔ ∀ op ∈ ops, op.WithoutProfiles := by
  rw [throughout_iff_along backLinked_step backLinked_initial, along_const]

end Runs

section Samples

/-- The keys of the file that was loaded from Splunk. -/
def splunkStore : Store := @step asciiTables initial (.load_event (js "u") (js "f") wrapped)

/-- A well-formed execution from Splunk is taken in, but its profiles point to another object
than the file does, and the keys of its profiles and controls throw. -/
theorem load_event_unlinked :
    ¬ (∀ [UnicodeTables] (ops : List Op), Throughout step BackLinked initial ops) ∧
    splunkStore.executionFiles = [0] ∧
    (splunkStore.evaluations.map fun e => e.context.graph.profiles.map (·.sourcedFrom)) =
      [[some 0, some 0], [some 0, some 0]] ∧
    (splunkStore.files.map (·.evaluation)) = [some 1] ∧
    (splunkStore.evaluations.map fun e => e.context.graph.profiles.map fun p =>
        (splunkStore.profile_unique_key p none).toOption) = [[none, none], [none, none]] ∧
    (splunkStore.evaluations.map fun e => e.context.graph.controls.map fun c =>
        (splunkStore.control_unique_key e.context.graph none c).toOption) =
      [[none, none], [none, none]] := by
  refine ⟨fun always => ?_, rfl, rfl, rfl, rfl, rfl⟩
  let op : Op := .load_event (js "u") (js "f") wrapped
  have linked := (@always asciiTables [op]).last
  have step := (@backLinked_step asciiTables initial op backLinked_initial).mp linked
  have accepted : ∃ context, @contextualizeEvaluation asciiTables 0 wrapped = .ok context :=
    ⟨_, rfl⟩
  cases step accepted

end Samples

end Frontend.Store
