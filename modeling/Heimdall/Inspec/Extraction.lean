import Heimdall.Lib.Lists
import Heimdall.Inspec.Context

/-!
# Creating the controls

The controls are created profile by profile. `Extracted` says what holds after any
number of profiles; the creation is the only part that can throw.
-/
namespace Inspec
open Js Lib

section Returns
variable [UnicodeTables]

theorem newControl_eq_ok {sourcedFrom : ℕ} {data : AnyControl} {cc : ContextualizedControl} :
    newControl sourcedFrom data = .ok cc ↔
      ∃ hdf, hdfWrapControl data = .ok hdf ∧
        cc = { data, sourcedFrom, hdf, extendsFrom := [], extendedBy := [] } := by
  simp only [newControl, do_eq_ok]
  constructor
  · rintro ⟨hdf, wrapped, h⟩
    cases h
    exact ⟨hdf, wrapped, rfl⟩
  · rintro ⟨hdf, wrapped, rfl⟩
    exact ⟨hdf, wrapped, rfl⟩

/-- Every control of a profile can be wrapped. -/
def ReadableControls (profile : AnyProfile) : Prop :=
  ∀ control ∈ profile.controls, control.Wrappable

theorem newControl_returns (sourcedFrom : ℕ) (data : AnyControl) :
    (∃ cc, newControl sourcedFrom data = .ok cc) ↔ data.Wrappable := by
  rw [← hdfWrapControl_returns]
  simp only [newControl_eq_ok]
  exact ⟨fun ⟨_, hdf, wrapped, _⟩ => ⟨hdf, wrapped⟩, fun ⟨hdf, wrapped⟩ => ⟨_, hdf, wrapped, rfl⟩⟩

theorem extractStep_returns (g : Graph) (profile : ContextualizedProfile) :
    (∃ g', extractStep g profile = .ok g') ↔ ReadableControls profile.data := by
  simp only [extractStep, do_eq_ok]
  constructor
  · rintro ⟨g', own, mapped, -⟩ control inside
    obtain ⟨made, -, returned⟩ := mapM_eq_ok_of_mem mapped inside
    exact (newControl_returns _ control).mp ⟨made, returned⟩
  · intro readable
    obtain ⟨own, mapped⟩ := mapM_returns fun control inside =>
      (newControl_returns g.profiles.length control).mpr (readable control inside)
    exact ⟨_, own, mapped, rfl⟩

theorem extractControls_returns (contains : List ContextualizedProfile) :
    (∃ g, extractControls contains = .ok g) ↔ ∀ p ∈ contains, ReadableControls p.data :=
  foldlM_returns_iff extractStep_returns

end Returns

section Invariant
variable [UnicodeTables]

/-- A profile before it is given its controls. -/
def uncontained (p : ContextualizedProfile) : ContextualizedProfile := { p with contains := [] }

/-- The graph after the profiles `done`: `contains` and `sourcedFrom` are inverse, and the
controls of a profile are its data items in their order. -/
structure Extracted (done : List ContextualizedProfile) (g : Graph) : Prop where
  profiles : g.profiles.map uncontained = done.map uncontained
  sourced : ∀ (k : ℕ) (cc : ContextualizedControl), g.controls[k]? = some cc →
    ∃ p : ContextualizedProfile, g.profiles[cc.sourcedFrom]? = some p ∧ k ∈ p.contains
  contained : ∀ (j : ℕ) (p : ContextualizedProfile), g.profiles[j]? = some p →
    ∀ k ∈ p.contains, ∃ cc : ContextualizedControl, g.controls[k]? = some cc ∧ cc.sourcedFrom = j
  nodup : ∀ p ∈ g.profiles, p.contains.Nodup
  cover : g.profiles.flatMap (·.contains) = List.range g.controls.length
  items : ∀ p ∈ g.profiles,
    p.contains.map (fun k => g.controls[k]?.map (·.data)) = p.data.controls.map some
  fresh : ∀ cc ∈ g.controls, cc.extendsFrom = [] ∧ cc.extendedBy = []
  wrapped : ∀ cc ∈ g.controls, hdfWrapControl cc.data = .ok cc.hdf

theorem extracted_nil : Extracted [] ⟨[], []⟩ where
  profiles := rfl
  sourced := by simp
  contained := by simp
  nodup := by simp
  cover := rfl
  items := by simp
  fresh := by simp
  wrapped := by simp

/-- What the controls created for one profile look like. -/
theorem created {sourcedFrom : ℕ} {items : List AnyControl} {own : List ContextualizedControl}
    (mapped : items.mapM (newControl sourcedFrom) = .ok own) :
    own.map (·.data) = items ∧ ∀ cc ∈ own, cc.sourcedFrom = sourcedFrom ∧
      (cc.extendsFrom = [] ∧ cc.extendedBy = []) ∧ hdfWrapControl cc.data = .ok cc.hdf := by
  have pairs := mapM_eq_ok.mp mapped
  clear mapped
  induction pairs with
  | nil => simp
  | cons first _ ih =>
      obtain ⟨hdf, wrapped, rfl⟩ := newControl_eq_ok.mp first
      exact ⟨by simp [ih.1], List.forall_mem_cons.mpr ⟨⟨rfl, ⟨rfl, rfl⟩, wrapped⟩, ih.2⟩⟩

theorem extractStep_extracted {done : List ContextualizedProfile} {g g' : Graph}
    {profile : ContextualizedProfile} (inv : Extracted done g)
    (stepped : extractStep g profile = .ok g') : Extracted (done ++ [profile]) g' := by
  simp only [extractStep, do_eq_ok] at stepped
  obtain ⟨own, mapped, h⟩ := stepped
  cases h
  obtain ⟨data, each⟩ := created mapped
  exact {
    profiles := by
      simp [inv.profiles, uncontained]
    sourced := by
      intro k cc found
      rcases getElem?_append_cases found with old | ⟨i, rfl, new⟩
      · obtain ⟨p, source, here⟩ := inv.sourced k cc old
        exact ⟨p, getElem?_append_of_some source, here⟩
      · have bound := (List.getElem?_eq_some_iff.mp new).1
        rw [(each cc (List.mem_of_getElem? new)).1]
        refine ⟨_, List.getElem?_concat_length, ?_⟩
        rw [List.mem_range'_1]
        omega
    contained := by
      intro j p found k here
      rcases getElem?_concat_cases found with old | ⟨rfl, rfl⟩
      · obtain ⟨cc, control, source⟩ := inv.contained j p old k here
        exact ⟨cc, getElem?_append_of_some control, source⟩
      · obtain ⟨i, inside, rfl⟩ := List.mem_range'.mp here
        refine ⟨own[i], ?_, (each _ (List.getElem_mem inside)).1⟩
        rw [Nat.one_mul, getElem?_append_add, List.getElem?_eq_getElem inside]
    nodup := by
      intro p inside
      rcases List.mem_append.mp inside with old | new
      · exact inv.nodup p old
      · rw [List.mem_singleton.mp new]
        exact List.nodup_range'
    cover := by
      rw [List.flatMap_append, inv.cover, List.length_append, List.range_add,
        ← List.range'_eq_map_range]
      simp
    items := by
      intro p inside
      rcases List.mem_append.mp inside with old | new
      · rw [← inv.items p old]
        apply List.map_congr_left
        intro k here
        obtain ⟨j, place⟩ := List.getElem?_of_mem old
        obtain ⟨cc, control, -⟩ := inv.contained j p place k here
        rw [getElem?_append_of_some control, control]
      · rw [List.mem_singleton.mp new, ← data, List.map_map]
        exact map_getElem?_range' (Option.map ContextualizedControl.data)
    fresh := by
      intro cc inside
      rcases List.mem_append.mp inside with old | new
      · exact inv.fresh cc old
      · exact (each cc new).2.1
    wrapped := by
      intro cc inside
      rcases List.mem_append.mp inside with old | new
      · exact inv.wrapped cc old
      · exact (each cc new).2.2 }

theorem extractControls_extracted {contains : List ContextualizedProfile} {g : Graph}
    (returned : extractControls contains = .ok g) : Extracted contains g :=
  foldlM_invariant (I := Extracted) (fun _ _ _ _ inv stepped => extractStep_extracted inv stepped)
    extracted_nil returned

/-- The graph of a profile file is that of a single profile without an evaluation. -/
theorem contextualizeProfile_sources {profile : ProfileJSON} {g : Graph}
    (returned : contextualizeProfile profile = .ok g) :
    (∀ p ∈ g.profiles, p.sourcedFrom = none) ∧
      ∀ cc ∈ g.controls, ∃ p : ContextualizedProfile, g.profiles[cc.sourcedFrom]? = some p := by
  have inv := extractControls_extracted returned
  constructor
  · intro p inside
    have same : uncontained p ∈ [newProfile none (.profile profile)].map uncontained :=
      inv.profiles ▸ List.mem_map_of_mem inside
    rw [List.map_singleton, List.mem_singleton] at same
    exact (congrArg ContextualizedProfile.sourcedFrom same :)
  · intro cc inside
    obtain ⟨k, here⟩ := List.getElem?_of_mem inside
    obtain ⟨p, source, -⟩ := inv.sourced k cc here
    exact ⟨p, source⟩

end Invariant

section Totality

/-- Linking profiles changes nothing but their links. -/
theorem linkProfiles_core (created : List ContextualizedProfile) :
    (linkProfiles created).map core = created.map core := map_core_linkAll _ _ _

theorem linkProfiles_data (created : List ContextualizedProfile) :
    (linkProfiles created).map (·.data) = created.map (·.data) := by
  have same := congrArg (List.map ContextualizedProfile.data) (linkProfiles_core created)
  rw [List.map_map, List.map_map] at same
  exact same

/-- The profiles of an evaluation before they are linked. -/
def createdProfiles (evalContext : Ref) (evaluation : ExecJSON) : List ContextualizedProfile :=
  evaluation.profiles.map fun profile => newProfile (some evalContext) (.exec profile)

variable [UnicodeTables]

theorem contextualizeEvaluation_eq_ok {evalContext : Ref} {evaluation : ExecJSON}
    {context : ContextualizedEvaluation} :
    contextualizeEvaluation evalContext evaluation = .ok context ↔
      ∃ extracted, extractControls (linkProfiles (createdProfiles evalContext evaluation)) =
          .ok extracted ∧
        context = {
          self := evalContext
          data := evaluation
          contains := List.range evaluation.profiles.length
          graph := { extracted with
            controls := linkControls extracted.profiles extracted.controls } } := by
  simp only [contextualizeEvaluation, do_eq_ok, createdProfiles, List.length_map]
  constructor
  · rintro ⟨extracted, returned, h⟩
    cases h
    exact ⟨extracted, returned, rfl⟩
  · rintro ⟨extracted, returned, rfl⟩
    exact ⟨extracted, returned, rfl⟩

theorem contextualizeEvaluation_returns (evalContext : Ref) (evaluation : ExecJSON) :
    (∃ context, contextualizeEvaluation evalContext evaluation = .ok context) ↔
      ∀ profile ∈ evaluation.profiles, ReadableControls (.exec profile) := by
  have returns : (∃ context, contextualizeEvaluation evalContext evaluation = .ok context) ↔
      ∃ g, extractControls (linkProfiles (createdProfiles evalContext evaluation)) = .ok g := by
    simp only [contextualizeEvaluation_eq_ok]
    exact ⟨fun ⟨_, g, h, _⟩ => ⟨g, h⟩, fun ⟨g, h⟩ => ⟨_, g, h, rfl⟩⟩
  have data : (linkProfiles (createdProfiles evalContext evaluation)).map (·.data) =
      evaluation.profiles.map AnyProfile.exec := by
    simp [linkProfiles_data, createdProfiles, newProfile, Function.comp_def]
  rw [returns, extractControls_returns]
  constructor
  · intro readable profile inside
    have mem : AnyProfile.exec profile ∈
        (linkProfiles (createdProfiles evalContext evaluation)).map (·.data) := by
      rw [data]
      exact List.mem_map_of_mem inside
    obtain ⟨p, here, same⟩ := List.mem_map.mp mem
    rw [← same]
    exact readable p here
  · intro readable p inside
    have mem : p.data ∈ evaluation.profiles.map AnyProfile.exec := by
      rw [← data]
      exact List.mem_map_of_mem inside
    obtain ⟨profile, here, same⟩ := List.mem_map.mp mem
    rw [← same]
    exact readable profile here

/-- Whether an evaluation is contextualized does not depend on the identity it is given. -/
theorem contextualizeEvaluation_returns_any (a b : Ref) (evaluation : ExecJSON) :
    (∃ context, contextualizeEvaluation a evaluation = .ok context) ↔
      ∃ context, contextualizeEvaluation b evaluation = .ok context := by
  rw [contextualizeEvaluation_returns, contextualizeEvaluation_returns]

/-- An accepted file is contextualized exactly when every `nist` tag is falsy or a list of
strings. -/
theorem contextualize_accepted_iff (json : JsVal) (evaluation : ExecJSON) (evalContext : Ref) :
    toExecJSON json = .ok evaluation →
      ((∃ context, contextualizeEvaluation evalContext evaluation = .ok context) ↔
        ∀ profile ∈ evaluation.profiles, ∀ control ∈ profile.controls,
          readableNist (control.tags.get (js "nist")) = true) := by
  intro _
  rw [contextualizeEvaluation_returns]
  simp [ReadableControls, AnyProfile.controls, AnyControl.Wrappable, AnyControl.tags]

end Totality

section Samples

/-- A file whose single control carries this `nist` tag. -/
def nistFile (nist : JsVal) : JsVal :=
  sampleFile [sampleProfile "base" [] [sampleControl "C-1" [("nist", nist)]]]

def nistEvaluation (nist : JsVal) : ExecJSON := sampleExec
  [⟨js "base", .undefined, [bareControl "C-1" [("nist", nist)]]⟩]

theorem listTag_accepted : toExecJSON (nistFile (.arr [.str (js "AC-3")])) =
    .ok (nistEvaluation (.arr [.str (js "AC-3")])) := by rfl

theorem stringTag_accepted : toExecJSON (nistFile (.str (js "AC-3"))) =
    .ok (nistEvaluation (.str (js "AC-3"))) := by rfl

/-- The same tag as a list is read. -/
theorem contextualize_accepted_iff_sample :
    ∃ context, @contextualizeEvaluation asciiTables 0
      (nistEvaluation (.arr [.str (js "AC-3")])) = .ok context :=
  (@contextualize_accepted_iff asciiTables _ _ 0 listTag_accepted).mpr (by decide +kernel)

/-- A single tag that is written as a string makes the wrapper throw. -/
theorem string_tag_throws :
    ¬ ∀ [UnicodeTables] (json : JsVal) (evaluation : ExecJSON) (evalContext : Ref),
      toExecJSON json = .ok evaluation →
        ∃ context, contextualizeEvaluation evalContext evaluation = .ok context := by
  intro always
  obtain ⟨context, returned⟩ := @always asciiTables _ _ 0 stringTag_accepted
  have thrown : @contextualizeEvaluation asciiTables 0 (nistEvaluation (.str (js "AC-3"))) =
      .error (.typeError "raw.map is not a function") := rfl
  rw [thrown] at returned
  cases returned

end Samples
end Inspec
