import Heimdall.Frontend.FormatUtil

/-!
# The files that objects come from

What a loaded file holds points back to the file, in every state that the application reaches.
The profiles of an evaluation point to it, or all to one object that has no file.
-/
namespace Frontend.Store
open Js Lib Inspec

structure EvaluationAttached (s : Store) (file : FileRef) (r : Ref) (e : EvaluationObject) :
    Prop where
  holds : s.HoldsEvaluation file r e
  from_file : e.from_file = some file
  sources : (∀ p ∈ e.context.graph.profiles, p.sourcedFrom = some r) ∨
    ∃ r' e', s.evaluations[r']? = some e' ∧ e'.from_file = none ∧
      ∀ p ∈ e.context.graph.profiles, p.sourcedFrom = some r'

structure ProfileAttached (s : Store) (file : FileRef) (r : ProfileRef) (p : ProfileObject) :
    Prop where
  holds : s.HoldsProfile file r p
  from_file : p.from_file = some file
  single : ∃ profile, p.graph.profiles = [profile] ∧ profile.sourcedFrom = none

/-- What the loaded files hold points back to them. -/
structure Attached (s : Store) : Prop where
  evaluations : ∀ file ∈ s.executionFiles, ∃ r e, s.EvaluationAttached file r e
  profiles : ∀ file ∈ s.profileFiles, ∃ r p, s.ProfileAttached file r p

variable {s s' : Store}

theorem Grows.evaluationAttached (grows : Grows s s') {file : FileRef} {r : Ref}
    {e : EvaluationObject} (attached : s.EvaluationAttached file r e) :
    s'.EvaluationAttached file r e where
  holds := grows.holdsEvaluation attached.holds
  from_file := attached.from_file
  sources := attached.sources.imp_right fun ⟨r', e', object, rest⟩ =>
    ⟨r', e', getElem?_of_prefix grows.evaluations object, rest⟩

/-- What is attached stays so, as long as the files that come in are attached too. -/
theorem Attached.grow (attached : s.Attached) (grows : Grows s s')
    (executionFiles : ∀ file ∈ s'.executionFiles,
      file ∈ s.executionFiles ∨ ∃ r e, s'.EvaluationAttached file r e)
    (profileFiles : ∀ file ∈ s'.profileFiles,
      file ∈ s.profileFiles ∨ ∃ r p, s'.ProfileAttached file r p) : s'.Attached where
  evaluations file inside := by
    rcases executionFiles file inside with old | new
    · obtain ⟨r, e, here⟩ := attached.evaluations file old
      exact ⟨r, e, grows.evaluationAttached here⟩
    · exact new
  profiles file inside := by
    rcases profileFiles file inside with old | new
    · obtain ⟨r, p, ⟨holds, back, single⟩⟩ := attached.profiles file old
      exact ⟨r, p, ⟨grows.holdsProfile holds, back, single⟩⟩
    · exact new

theorem Attached.narrow (attached : s.Attached) (narrows : Narrows s s') : s'.Attached := by
  have grows := Grows.narrows narrows
  obtain ⟨execs, fewer, profs, fewer', evaluationIds, profileIds, rfl⟩ := narrows
  exact attached.grow grows (fun file inside => .inl (fewer inside))
    fun file inside => .inl (fewer' inside)

section Taken
variable {objects : List EvaluationObject} {file : FileObject} {r : Ref} {e : EvaluationObject}

theorem Attached.takeEvaluation (attached : s.Attached) (field : file.evaluation = some r)
    (object : (s.evaluations ++ objects)[r]? = some e) (back : e.from_file = some s.files.length)
    (sources : (∀ p ∈ e.context.graph.profiles, p.sourcedFrom = some r) ∨
      ∃ r' e', (s.evaluations ++ objects)[r']? = some e' ∧ e'.from_file = none ∧
        ∀ p ∈ e.context.graph.profiles, p.sourcedFrom = some r') :
    (s.takeEvaluation objects file).Attached := by
  have grows : Grows s (s.takeEvaluation objects file) :=
    ⟨List.prefix_append _ _, List.prefix_append _ _, List.prefix_refl _⟩
  refine attached.grow grows (fun ref inside => ?_) fun ref inside => .inl inside
  refine (List.mem_append.mp inside).imp_right fun new => ?_
  obtain rfl := List.mem_singleton.mp new
  have stored : (s.takeEvaluation objects file).files[s.files.length]? = some file :=
    List.getElem?_concat_length
  exact ⟨r, e, ⟨⟨Option.bind_eq_some_iff.mpr ⟨file, stored, field⟩, object⟩, back, sources⟩⟩

theorem Attached.takeProfile (attached : s.Attached) {p : ProfileObject}
    (field : file.profile = some s.profiles.length) (back : p.from_file = some s.files.length)
    (single : ∃ profile, p.graph.profiles = [profile] ∧ profile.sourcedFrom = none) :
    (s.takeProfile p file).Attached := by
  have grows : Grows s (s.takeProfile p file) :=
    ⟨List.prefix_append _ _, List.prefix_refl _, List.prefix_append _ _⟩
  refine attached.grow grows (fun ref inside => .inl inside) fun ref inside => ?_
  refine (List.mem_append.mp inside).imp_right fun new => ?_
  obtain rfl := List.mem_singleton.mp new
  have stored : (s.takeProfile p file).files[s.files.length]? = some file :=
    List.getElem?_concat_length
  have object : (s.takeProfile p file).profiles[s.profiles.length]? = some p :=
    List.getElem?_concat_length
  exact ⟨_, p, ⟨⟨Option.bind_eq_some_iff.mpr ⟨file, stored, field⟩, object⟩, back, single⟩⟩

end Taken

variable [UnicodeTables]

/-- A profile file has one profile, which is sourced from nothing. -/
theorem contextualizeProfile_single {profile : ProfileJSON} {graph : Graph}
    (returned : contextualizeProfile profile = .ok graph) :
    ∃ p, graph.profiles = [p] ∧ p.sourcedFrom = none := by
  have lengths := congrArg List.length (extractControls_extracted returned).profiles
  rw [List.length_map, List.length_map, List.length_singleton] at lengths
  obtain ⟨p, only⟩ := List.length_eq_one_iff.mp lengths
  exact ⟨p, only, (contextualizeProfile_sources returned).1 p (only ▸ List.mem_singleton_self p)⟩

theorem Attached.step (attached : s.Attached) (op : Op) : (s.step op).Attached := by
  cases loads : op.loads with
  | false => exact attached.narrow (step_narrows s loads)
  | true =>
      unfold Store.step
      cases done : s.perform op with
      | error e => exact attached
      | ok s' =>
          cases op with
          | loadText fileID options =>
              rcases loadText_eq_ok.mp done with ⟨exec, context, -, returned, rfl⟩ |
                ⟨profileJson, graph, -, returned, rfl⟩
              · obtain ⟨self, built⟩ := contextualizeEvaluation_built returned
                refine (attached.takeEvaluation rfl List.getElem?_concat_length rfl
                  (.inl fun p inside => ?_)).narrow (toggle_evaluation_narrows _ _)
                rw [built.sources p inside, self]
              · exact (attached.takeProfile rfl rfl (contextualizeProfile_single returned)).narrow
                  (toggle_profile_narrows _ _)
          | load_event uniqueId filename exec =>
              obtain ⟨context, returned, rfl⟩ := load_event_eq_ok.mp done
              obtain ⟨self, built⟩ := contextualizeEvaluation_built returned
              -- The profiles point to the object that was copied.
              refine attached.takeEvaluation rfl getElem?_append_add rfl
                (.inr ⟨s.evaluations.length, ⟨context, none⟩, ?_, rfl, fun p inside => ?_⟩)
              · exact getElem?_append_add (i := 0)
              · rw [built.sources p inside, self]
          | _ => cases loads

theorem attached_run (ops : List Op) : (Lib.run Store.step initial ops).Attached := by
  have each : ∀ s : Store, s.Attached → (Lib.run Store.step s ops).Attached := by
    induction ops with
    | nil => exact fun _ attached => attached
    | cons op ops ih => exact fun s attached => ih _ (attached.step op)
  exact each initial ⟨nofun, nofun⟩

end Frontend.Store
