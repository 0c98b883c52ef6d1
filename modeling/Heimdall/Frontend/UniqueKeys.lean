import Heimdall.Lib.Words
import Heimdall.Frontend.FromFile

/-!
# Whether the unique keys are unique

A key joins the identifier of a file, the name of a profile and the id of a control with hyphens.
The identifiers are of one length. The names and the ids may have hyphens of their own.
-/
namespace Frontend.Store
open Js Lib Inspec

/-- The control at this place of the graph of a loaded evaluation has this key. -/
def EvaluationKey (s : Store) (file : FileRef) (i : ℕ) (key : JsString) : Prop :=
  file ∈ s.executionFiles ∧ ∃ r e ctrl, s.HoldsEvaluation file r e ∧
    e.context.graph.controls[i]? = some ctrl ∧
    s.control_unique_key e.context.graph none ctrl = .ok key

/-- The control at this place of the graph of a loaded profile has this key. -/
def ProfileKey (s : Store) (file : FileRef) (i : ℕ) (key : JsString) : Prop :=
  file ∈ s.profileFiles ∧ ∃ r p ctrl, s.HoldsProfile file r p ∧
    p.graph.controls[i]? = some ctrl ∧ s.control_unique_key p.graph p.from_file ctrl = .ok key

/-- No two controls of the loaded files have one key. -/
def UniqueKeys (s : Store) : Prop := ∀ key file i file' i',
  s.EvaluationKey file i key ∨ s.ProfileKey file i key →
    s.EvaluationKey file' i' key ∨ s.ProfileKey file' i' key → file = file' ∧ i = i'

/-- The names of the profiles differ, and the ids of the controls of each profile. -/
structure Distinct (g : Graph) : Prop where
  names : (g.profiles.map (·.data.name)).Nodup
  ids : (g.controls.map fun ctrl => (ctrl.sourcedFrom, ctrl.data.id)).Nodup

/-- The loaded files have different uuids, of 36 characters each, and what they hold has different
names and ids. -/
structure WellNamedFiles (s : Store) : Prop where
  fresh : ∀ file ∈ s.executionFiles ++ s.profileFiles,
    ∀ file' ∈ s.executionFiles ++ s.profileFiles, s.uniqueId file = s.uniqueId file' → file = file'
  uuid : ∀ file ∈ s.executionFiles ++ s.profileFiles, ∀ id, s.uniqueId file = some id →
    id.length = 36
  evaluations : ∀ file ∈ s.executionFiles, ∀ r e, s.HoldsEvaluation file r e →
    Distinct e.context.graph
  profiles : ∀ file ∈ s.profileFiles, ∀ r p, s.HoldsProfile file r p → Distinct p.graph

/-- The name of a profile goes on, behind a hyphen, where that of another one ends, and so does the
id of a control of the other one where that of a control of the first begins. -/
def Ambiguous (g : Graph) : Prop := ∃ c ∈ g.controls, ∃ d ∈ g.controls, ∃ p q x,
  g.profiles[c.sourcedFrom]? = some p ∧ g.profiles[d.sourcedFrom]? = some q ∧
    q.data.name = p.data.name ++ js "-" ++ x ∧ c.data.id = x ++ js "-" ++ d.data.id

section Keys
variable {s : Store} {file file' : FileRef} {key : JsString}

theorem HoldsEvaluation.unique {r r' : Ref} {e e' : EvaluationObject}
    (holds : s.HoldsEvaluation file r e) (holds' : s.HoldsEvaluation file r' e') :
    r = r' ∧ e = e' := by
  obtain rfl := Option.some.inj (holds.field.symm.trans holds'.field)
  exact ⟨rfl, Option.some.inj (holds.object.symm.trans holds'.object)⟩

theorem HoldsProfile.unique {r r' : ProfileRef} {p p' : ProfileObject}
    (holds : s.HoldsProfile file r p) (holds' : s.HoldsProfile file r' p') : r = r' ∧ p = p' := by
  obtain rfl := Option.some.inj (holds.field.symm.trans holds'.field)
  exact ⟨rfl, Option.some.inj (holds.object.symm.trans holds'.object)⟩

theorem HoldsEvaluation.uniqueId {r : Ref} {e : EvaluationObject}
    (holds : s.HoldsEvaluation file r e) : ∃ id, s.uniqueId file = some id := by
  obtain ⟨f, here, -⟩ := Option.bind_eq_some_iff.mp holds.field
  exact ⟨_, Option.map_eq_some_iff.mpr ⟨f, here, rfl⟩⟩

theorem HoldsProfile.uniqueId {r : ProfileRef} {p : ProfileObject}
    (holds : s.HoldsProfile file r p) : ∃ id, s.uniqueId file = some id := by
  obtain ⟨f, here, -⟩ := Option.bind_eq_some_iff.mp holds.field
  exact ⟨_, Option.map_eq_some_iff.mpr ⟨f, here, rfl⟩⟩

theorem fromFileId_some {id : FileID} (known : s.uniqueId file = some id) :
    s.fromFileId (some file) = .ok id := orThrow_eq_ok.mpr known

def evaluationText (id name control : JsString) : JsString :=
  js "exec_" ++ (id ++ 45 :: (name ++ 45 :: control))

def profileText (id control : JsString) : JsString := js "profile_" ++ (id ++ 45 :: control)

theorem evaluationText_inj {id id' name name' control control' : JsString}
    (length : id.length = id'.length)
    (same : evaluationText id name control = evaluationText id' name' control') :
    id = id' ∧ name ++ 45 :: control = name' ++ 45 :: control' := by
  obtain ⟨ids, rest⟩ := List.append_inj (List.append_cancel_left same) length
  exact ⟨ids, (List.cons.inj rest).2⟩

theorem profileText_inj {id id' control control' : JsString} (length : id.length = id'.length)
    (same : profileText id control = profileText id' control') : id = id' ∧ control = control' := by
  obtain ⟨ids, rest⟩ := List.append_inj (List.append_cancel_left same) length
  exact ⟨ids, (List.cons.inj rest).2⟩

theorem evaluationText_ne {id id' name control control' : JsString} :
    evaluationText id name control ≠ profileText id' control' := by
  intro same
  exact absurd (List.cons.inj same).1 (by decide)

/-- The key of a profile that points to the evaluation. -/
theorem EvaluationAttached.profileKey {r : Ref} {e : EvaluationObject} {id : FileID}
    (attached : s.EvaluationAttached file r e) (known : s.uniqueId file = some id)
    {p : ContextualizedProfile} (source : p.sourcedFrom = some r) :
    s.profile_unique_key p none = .ok (js "exec_" ++ id ++ js "-" ++ p.data.name) := by
  have walk : s.execution_unique_key e = .ok (js "exec_" ++ id) := by
    rw [execution_unique_key, attached.from_file]
    exact do_eq_ok.mpr ⟨id, fromFileId_some known, rfl⟩
  exact profile_unique_key_eq_ok.mpr (.inr ⟨r, e, _, source, attached.holds.object, walk, rfl⟩)

/-- A profile of the evaluation that has a key points to it. -/
theorem EvaluationAttached.source_of_key {r : Ref} {e : EvaluationObject}
    (attached : s.EvaluationAttached file r e) {p : ContextualizedProfile}
    (inside : p ∈ e.context.graph.profiles) (named : s.profile_unique_key p none = .ok key) :
    p.sourcedFrom = some r := by
  rcases attached.sources with sources | ⟨r₀, e₀, object₀, none, sources⟩
  · exact sources p inside
  · rcases profile_unique_key_eq_ok.mp named with ⟨own, -⟩ | ⟨r', e', _, from', object, walk, -⟩
    · exact absurd ((sources p inside).symm.trans own) nofun
    · obtain rfl := Option.some.inj (from'.symm.trans (sources p inside))
      obtain rfl := Option.some.inj (object.symm.trans object₀)
      -- the object that this profile points to came from no file
      obtain ⟨id, found, -⟩ := do_eq_ok.mp walk
      rw [none] at found
      cases found

/-- The keys of an evaluation are defined when its profiles point to it. -/
theorem EvaluationAttached.key_iff {r : Ref} {e : EvaluationObject} {id : FileID}
    (attached : s.EvaluationAttached file r e) (known : s.uniqueId file = some id)
    {ctrl : ContextualizedControl} :
    s.control_unique_key e.context.graph none ctrl = .ok key ↔
      ∃ p, e.context.graph.profiles[ctrl.sourcedFrom]? = some p ∧ p.sourcedFrom = some r ∧
        key = evaluationText id p.data.name ctrl.data.id := by
  have shape : ∀ name : JsString, js "exec_" ++ id ++ js "-" ++ name ++ js "-" ++ ctrl.data.id =
      evaluationText id name ctrl.data.id := by
    intro name
    simp only [evaluationText, List.append_assoc]
    rfl
  constructor
  · intro returned
    obtain ⟨p, found, rest⟩ := do_eq_ok.mp returned
    obtain ⟨profileKey, named, done⟩ := do_eq_ok.mp rest
    have place := orThrow_eq_ok.mp found
    have source := attached.source_of_key (List.mem_of_getElem? place) named
    obtain rfl := Except.ok.inj ((attached.profileKey known source).symm.trans named)
    exact ⟨p, place, source, (pure_eq_ok.mp done).trans (shape _)⟩
  · rintro ⟨p, place, source, rfl⟩
    rw [← shape]
    exact control_unique_key_returns place (attached.profileKey known source)

/-- The keys of a profile file have no name. -/
theorem ProfileAttached.key_iff {r : ProfileRef} {p : ProfileObject} {id : FileID}
    (attached : s.ProfileAttached file r p) (known : s.uniqueId file = some id)
    {ctrl : ContextualizedControl} :
    s.control_unique_key p.graph p.from_file ctrl = .ok key ↔
      ctrl.sourcedFrom = 0 ∧ key = profileText id ctrl.data.id := by
  have shape : js "profile_" ++ id ++ js "-" ++ ctrl.data.id = profileText id ctrl.data.id := by
    simp only [profileText, List.append_assoc]
    rfl
  obtain ⟨profile, only, own⟩ := attached.single
  have named : s.profile_unique_key profile p.from_file = .ok (js "profile_" ++ id) :=
    profile_unique_key_eq_ok.mpr
      (.inl ⟨own, id, attached.from_file ▸ fromFileId_some known, rfl⟩)
  have first : ∀ {source : ContextualizedProfile},
      p.graph.profiles[ctrl.sourcedFrom]? = some source ↔
        ctrl.sourcedFrom = 0 ∧ source = profile := by
    intro source
    rw [only, List.getElem?_singleton]
    by_cases zero : ctrl.sourcedFrom = 0 <;> simp [zero, eq_comm]
  constructor
  · intro returned
    obtain ⟨source, found, rest⟩ := do_eq_ok.mp returned
    obtain ⟨zero, rfl⟩ := first.mp (orThrow_eq_ok.mp found)
    obtain ⟨profileKey, walked, done⟩ := do_eq_ok.mp rest
    obtain rfl := Except.ok.inj (named.symm.trans walked)
    exact ⟨zero, (pure_eq_ok.mp done).trans shape⟩
  · rintro ⟨zero, rfl⟩
    rw [← shape]
    exact control_unique_key_returns (first.mpr ⟨zero, rfl⟩) named

end Keys

section Unique
variable {s : Store} {file file' : FileRef} {i i' : ℕ} {key : JsString}

/-- In the graph of one file, the name and the id tell the controls apart. -/
theorem Distinct.place {g : Graph} (distinct : Distinct g) {i j : ℕ} {c d : ContextualizedControl}
    {p q : ContextualizedProfile} (here : g.controls[i]? = some c) (there : g.controls[j]? = some d)
    (source : g.profiles[c.sourcedFrom]? = some p) (source' : g.profiles[d.sourcedFrom]? = some q)
    (name : p.data.name = q.data.name) (id : c.data.id = d.data.id) : i = j := by
  have inside : c.sourcedFrom < (g.profiles.map (·.data.name)).length := by
    rw [List.length_map]
    exact (List.getElem?_eq_some_iff.mp source).1
  have profile : c.sourcedFrom = d.sourcedFrom := by
    refine (List.getElem?_inj inside distinct.names).mp ?_
    rw [List.getElem?_map, List.getElem?_map, source, source', Option.map_some, Option.map_some,
      name]
  have bound : i < (g.controls.map fun ctrl => (ctrl.sourcedFrom, ctrl.data.id)).length := by
    rw [List.length_map]
    exact (List.getElem?_eq_some_iff.mp here).1
  refine (List.getElem?_inj bound distinct.ids).mp ?_
  rw [List.getElem?_map, List.getElem?_map, here, there, Option.map_some, Option.map_some, profile,
    id]

/-- The profiles of an evaluation point to it when one of them does. -/
theorem EvaluationAttached.all_sources {r : Ref} {e : EvaluationObject}
    (attached : s.EvaluationAttached file r e) {p : ContextualizedProfile}
    (inside : p ∈ e.context.graph.profiles) (source : p.sourcedFrom = some r) :
    ∀ p ∈ e.context.graph.profiles, p.sourcedFrom = some r := by
  rcases attached.sources with sources | ⟨r', e', object, none, sources⟩
  · exact sources
  · obtain rfl := Option.some.inj (source.symm.trans (sources p inside))
    obtain rfl := Option.some.inj (object.symm.trans attached.holds.object)
    exact absurd (none.symm.trans attached.from_file) nofun

/-- Where a key of an evaluation comes from. -/
theorem EvaluationKey.spec (attached : s.Attached) (has : s.EvaluationKey file i key) :
    ∃ r e id ctrl p, s.EvaluationAttached file r e ∧ s.uniqueId file = some id ∧
      e.context.graph.controls[i]? = some ctrl ∧
      e.context.graph.profiles[ctrl.sourcedFrom]? = some p ∧ p.sourcedFrom = some r ∧
      key = evaluationText id p.data.name ctrl.data.id := by
  obtain ⟨inside, r, e, ctrl, holds, here, returned⟩ := has
  obtain ⟨r', e', file_attached⟩ := attached.evaluations file inside
  obtain ⟨rfl, rfl⟩ := holds.unique file_attached.holds
  obtain ⟨id, known⟩ := holds.uniqueId
  obtain ⟨p, source, back, text⟩ := (file_attached.key_iff known).mp returned
  exact ⟨r, e, id, ctrl, p, file_attached, known, here, source, back, text⟩

theorem ProfileKey.spec (attached : s.Attached) (has : s.ProfileKey file i key) :
    ∃ r p id ctrl, s.ProfileAttached file r p ∧ s.uniqueId file = some id ∧
      p.graph.controls[i]? = some ctrl ∧ ctrl.sourcedFrom = 0 ∧
      key = profileText id ctrl.data.id := by
  obtain ⟨inside, r, p, ctrl, holds, here, returned⟩ := has
  obtain ⟨r', p', file_attached⟩ := attached.profiles file inside
  obtain ⟨rfl, rfl⟩ := holds.unique file_attached.holds
  obtain ⟨id, known⟩ := holds.uniqueId
  obtain ⟨zero, text⟩ := (file_attached.key_iff known).mp returned
  exact ⟨r, p, id, ctrl, file_attached, known, here, zero, text⟩

/-- The evaluations whose controls have keys leave no doubt how these are read. -/
def Unambiguous (s : Store) : Prop := ∀ file ∈ s.executionFiles, ∀ r e,
  s.HoldsEvaluation file r e → (∀ p ∈ e.context.graph.profiles, p.sourcedFrom = some r) →
    ¬ Ambiguous e.context.graph

theorem evaluationKeys_unique (attached : s.Attached) (wellNamed : s.WellNamedFiles)
    (unambiguous : s.Unambiguous) (has : s.EvaluationKey file i key)
    (has' : s.EvaluationKey file' i' key) : file = file' ∧ i = i' := by
  obtain ⟨r, e, id, c, p, here, known, place, source, back, text⟩ := has.spec attached
  obtain ⟨r', e', id', d, q, here', known', place', source', -, text'⟩ := has'.spec attached
  have loaded := List.mem_append_left s.profileFiles has.1
  have loaded' := List.mem_append_left s.profileFiles has'.1
  have length : id.length = id'.length :=
    (wellNamed.uuid file loaded id known).trans (wellNamed.uuid file' loaded' id' known').symm
  obtain ⟨rfl, names⟩ := evaluationText_inj length (text.symm.trans text')
  obtain rfl := wellNamed.fresh file loaded file' loaded' (known.trans known'.symm)
  obtain ⟨rfl, rfl⟩ := here.holds.unique here'.holds
  have distinct := wellNamed.evaluations file has.1 r e here.holds
  have plain := unambiguous file has.1 r e here.holds
    (here.all_sources (List.mem_of_getElem? source) back)
  refine ⟨rfl, ?_⟩
  rcases append_separator_cases names with ⟨name, control⟩ | ⟨x, name, control⟩ |
    ⟨x, name, control⟩
  · exact distinct.place place place' source source' name control
  · refine absurd ⟨c, List.mem_of_getElem? place, d, List.mem_of_getElem? place', p, q, x, source,
      source', ?_, ?_⟩ plain
    · rw [name, List.append_assoc]
      rfl
    · rw [control, List.append_assoc]
      rfl
  · refine absurd ⟨d, List.mem_of_getElem? place', c, List.mem_of_getElem? place, q, p, x, source',
      source, ?_, ?_⟩ plain
    · rw [name, List.append_assoc]
      rfl
    · rw [control, List.append_assoc]
      rfl

theorem profileKeys_unique (attached : s.Attached) (wellNamed : s.WellNamedFiles)
    (has : s.ProfileKey file i key) (has' : s.ProfileKey file' i' key) :
    file = file' ∧ i = i' := by
  obtain ⟨r, p, id, c, here, known, place, zero, text⟩ := has.spec attached
  obtain ⟨r', p', id', d, here', known', place', zero', text'⟩ := has'.spec attached
  have loaded := List.mem_append_right s.executionFiles has.1
  have loaded' := List.mem_append_right s.executionFiles has'.1
  have length : id.length = id'.length :=
    (wellNamed.uuid file loaded id known).trans (wellNamed.uuid file' loaded' id' known').symm
  obtain ⟨rfl, control⟩ := profileText_inj length (text.symm.trans text')
  obtain rfl := wellNamed.fresh file loaded file' loaded' (known.trans known'.symm)
  obtain ⟨rfl, rfl⟩ := here.holds.unique here'.holds
  obtain ⟨profile, only, -⟩ := here.single
  have source : p.graph.profiles[c.sourcedFrom]? = some profile := by rw [only, zero]; rfl
  have source' : p.graph.profiles[d.sourcedFrom]? = some profile := by rw [only, zero']; rfl
  exact ⟨rfl, (wellNamed.profiles file has.1 r p here.holds).place place place' source source' rfl
    control⟩

/-- Two readings of a text are keys of two controls. -/
theorem Ambiguous.not_unique {r : Ref} {e : EvaluationObject}
    (attached : s.EvaluationAttached file r e) (inside : file ∈ s.executionFiles)
    (sources : ∀ p ∈ e.context.graph.profiles, p.sourcedFrom = some r)
    (ambiguous : Ambiguous e.context.graph) : ¬ s.UniqueKeys := by
  intro unique
  obtain ⟨c, listed, d, listed', p, q, x, source, source', name, control⟩ := ambiguous
  obtain ⟨i, place⟩ := List.getElem?_of_mem listed
  obtain ⟨j, place'⟩ := List.getElem?_of_mem listed'
  obtain ⟨id, known⟩ := attached.holds.uniqueId
  have text : evaluationText id p.data.name c.data.id =
      evaluationText id q.data.name d.data.id := by
    simp only [evaluationText, name, control, List.append_assoc]
    rfl
  have first := (attached.key_iff known).mpr
    ⟨p, source, sources p (List.mem_of_getElem? source), rfl⟩
  have second := (attached.key_iff known).mpr
    ⟨q, source', sources q (List.mem_of_getElem? source'), rfl⟩
  rw [← text] at second
  obtain ⟨-, rfl⟩ := unique _ file i file j (.inl ⟨inside, r, e, c, attached.holds, place, first⟩)
    (.inl ⟨inside, r, e, d, attached.holds, place', second⟩)
  obtain rfl := Option.some.inj (place.symm.trans place')
  obtain rfl := Option.some.inj (source.symm.trans source')
  have lengths := congrArg List.length name
  rw [List.length_append, List.length_append] at lengths
  have hyphen : (js "-").length = 1 := by decide
  omega

theorem Attached.unique_iff (attached : s.Attached) (wellNamed : s.WellNamedFiles) :
    s.UniqueKeys ↔ s.Unambiguous := by
  constructor
  · intro unique file inside r e holds sources ambiguous
    obtain ⟨r', e', here⟩ := attached.evaluations file inside
    obtain ⟨rfl, rfl⟩ := holds.unique here.holds
    exact ambiguous.not_unique here inside sources unique
  · rintro unambiguous key file i file' i' (has | has) (has' | has')
    · exact evaluationKeys_unique attached wellNamed unambiguous has has'
    · obtain ⟨r, e, id, c, p, -, -, -, -, -, text⟩ := has.spec attached
      obtain ⟨r', p', id', d, -, -, -, -, text'⟩ := has'.spec attached
      exact absurd (text.symm.trans text') evaluationText_ne
    · obtain ⟨r', p', id', d, -, -, -, -, text'⟩ := has.spec attached
      obtain ⟨r, e, id, c, p, -, -, -, -, -, text⟩ := has'.spec attached
      exact absurd (text.symm.trans text') evaluationText_ne
    · exact profileKeys_unique attached wellNamed has has'

/-- In every state that the application reaches, the keys of the loaded controls are unique
exactly when none can be read in two ways. -/
theorem uniqueKeys_iff [UnicodeTables] (ops : List Op)
    (wellNamed : (Lib.run Store.step initial ops).WellNamedFiles) :
    (Lib.run Store.step initial ops).UniqueKeys ↔
      (Lib.run Store.step initial ops).Unambiguous :=
  (attached_run ops).unique_iff wellNamed

end Unique

section Samples

def uuid : JsString := js "00000000-0000-4000-8000-000000000000"

def loadedStore (raw : JsVal) : Store := @Lib.run _ _ (@Store.step asciiTables) initial
  [.loadText uuid { filename := js "f.json", text := some raw }]

def keyAt (s : Store) (file : FileRef) (i : ℕ) : Option JsString := do
  let r ← s.files[file]?.bind (·.evaluation)
  let e ← s.evaluations[r]?
  let ctrl ← e.context.graph.controls[i]?
  (s.control_unique_key e.context.graph none ctrl).toOption

theorem evaluationKey_of_keyAt {s : Store} {file : FileRef} {i : ℕ} {key : JsString}
    (inside : file ∈ s.executionFiles) (found : s.keyAt file i = some key) :
    s.EvaluationKey file i key := by
  obtain ⟨r, field, found⟩ := Option.bind_eq_some_iff.mp found
  obtain ⟨e, object, found⟩ := Option.bind_eq_some_iff.mp found
  obtain ⟨ctrl, here, found⟩ := Option.bind_eq_some_iff.mp found
  refine ⟨inside, r, e, ctrl, ⟨field, object⟩, here, ?_⟩
  cases returned : s.control_unique_key e.context.graph none ctrl with
  | error err =>
      rw [returned] at found
      cases found
  | ok key' =>
      rw [returned] at found
      exact congrArg Except.ok (Option.some.inj found)

/-- One evaluation is loaded, with the one uuid, and its names and ids differ. -/
def wellNamedCheck (s : Store) : Bool :=
  s.executionFiles == [0] && s.profileFiles == [] && s.uniqueId 0 == some uuid &&
    s.evaluations.all fun e =>
      decide (e.context.graph.profiles.map (·.data.name)).Nodup &&
        decide (e.context.graph.controls.map fun ctrl => (ctrl.sourcedFrom, ctrl.data.id)).Nodup

theorem wellNamed_of_check {s : Store} (checked : s.wellNamedCheck = true) :
    s.executionFiles = [0] ∧ s.WellNamedFiles := by
  simp only [wellNamedCheck, Bool.and_eq_true, beq_iff_eq] at checked
  obtain ⟨⟨⟨executions, profiles⟩, known⟩, distinct⟩ := checked
  have loaded : ∀ file ∈ s.executionFiles ++ s.profileFiles, file = 0 := by
    intro file inside
    rw [executions, profiles] at inside
    exact List.mem_singleton.mp inside
  refine ⟨executions, fun file inside file' inside' _ => ?_, fun file inside id found => ?_, ?_, ?_⟩
  · rw [loaded file inside, loaded file' inside']
  · rw [loaded file inside, known] at found
    rw [← Option.some.inj found]
    decide
  · intro file inside r e holds
    have differ := List.all_eq_true.mp distinct e (List.mem_of_getElem? holds.object)
    rw [Bool.and_eq_true, decide_eq_true_eq, decide_eq_true_eq] at differ
    exact ⟨differ.1, differ.2⟩
  · intro file inside
    rw [profiles] at inside
    cases inside

theorem uniqueKeys_iff_sample : (loadedStore wrappedJson).UniqueKeys := by
  have wellNamed : (loadedStore wrappedJson).WellNamedFiles :=
    (wellNamed_of_check (by decide +kernel)).2
  refine (@uniqueKeys_iff asciiTables _ wellNamed).mpr ?_
  rintro file - r e holds - ⟨c, -, d, -, p, q, x, -, source, name, -⟩
  have plain : ((loadedStore wrappedJson).evaluations.all fun e =>
      e.context.graph.profiles.all fun p => !p.data.name.contains 45) = true := by decide +kernel
  have here := List.all_eq_true.mp (List.all_eq_true.mp plain e (List.mem_of_getElem? holds.object))
    q (List.mem_of_getElem? source)
  rw [name] at here
  simp [js, utf16] at here

/-- Profiles `a` and `a-b` with controls `b-c` and `c`. -/
def ambiguousJson : JsVal := sampleFile
  [sampleProfile "a" [] [sampleControl "b-c" []], sampleProfile "a-b" [] [sampleControl "c" []]]

theorem not_uniqueKeys : (loadedStore ambiguousJson).WellNamedFiles ∧
    ¬ (loadedStore ambiguousJson).UniqueKeys := by
  obtain ⟨executions, wellNamed⟩ : (loadedStore ambiguousJson).executionFiles = [0] ∧
      (loadedStore ambiguousJson).WellNamedFiles := wellNamed_of_check (by decide +kernel)
  refine ⟨wellNamed, fun unique => ?_⟩
  have inside : 0 ∈ (loadedStore ambiguousJson).executionFiles :=
    executions ▸ List.mem_singleton_self 0
  have first : (loadedStore ambiguousJson).EvaluationKey 0 0
      (js "exec_" ++ uuid ++ js "-a-b-c") := evaluationKey_of_keyAt inside (by decide +kernel)
  have second : (loadedStore ambiguousJson).EvaluationKey 0 1
      (js "exec_" ++ uuid ++ js "-a-b-c") := evaluationKey_of_keyAt inside (by decide +kernel)
  exact absurd (unique _ 0 0 0 1 (.inl first) (.inl second)).2 (by decide)

end Samples

end Frontend.Store
