import Heimdall.Inspec.NistTags
import Heimdall.Inspec.WellFormed
import Heimdall.Frontend.StatusCards

/-!
# Loaded data

What is known of the controls of a store whose files were all built by the contextualizer:
where the walk to the root ends, it ends at a control, and that control has a tag.
-/
namespace Frontend
open Js Lib Inspec

section Tags
variable [UnicodeTables]

theorem properTags_ne_nil (parsed : List (Option ParseNist)) : (properTags parsed).1 ≠ [] := by
  have mapped : stub ≠ [] := by decide +kernel
  unfold properTags
  dsimp only
  split
  · exact mapped
  · rename_i some_tag
    exact fun empty => some_tag (List.isEmpty_iff.mpr empty)

theorem newHDFControl10_tags {forControl : AnyControl} {isProfile waived : Bool}
    {hdf : HDFControl} (made : newHDFControl10 forControl isProfile waived = .ok hdf) :
    hdf.parsedNistTags ≠ [] := by
  obtain ⟨tags, computed, done⟩ := do_eq_ok.mp made
  rw [pure_eq_ok.mp done]
  cases raw : compute_raw_nist_tags forControl with
  | arr values =>
      rw [raw] at computed
      obtain ⟨parsed, -, rest⟩ := do_eq_ok.mp computed
      rw [pure_eq_ok.mp rest]
      exact properTags_ne_nil parsed
  | _ =>
      rw [raw] at computed
      cases computed

theorem hdfWrapControl_tags {control : AnyControl} {hdf : HDFControl}
    (wrapped : hdfWrapControl control = .ok hdf) : hdf.parsedNistTags ≠ [] := by
  obtain ⟨_, _, _, base, made, same⟩ := hdfWrapControl_base wrapped
  rw [same]
  exact newHDFControl10_tags made

theorem mem_properTags {parsed : List (Option ParseNist)} {c : NistControl}
    (inside : c ∈ (properTags parsed).1) : some (.control c) ∈ parsed ∨ c ∈ stub := by
  unfold properTags at inside
  dsimp only at inside
  split at inside
  · exact .inr inside
  · rw [collectTags_fst, List.mem_insertionSort] at inside
    obtain ⟨x, member, same⟩ := List.mem_filterMap.mp ((firsts_sublist _ _).subset inside)
    rcases x with _ | ⟨d⟩ | ⟨r⟩
    · cases same
    · cases same
      exact .inl member
    · cases same

theorem newHDFControl10_parsed {forControl : AnyControl} {isProfile waived : Bool}
    {hdf : HDFControl} (made : newHDFControl10 forControl isProfile waived = .ok hdf) :
    ∀ t ∈ hdf.parsedNistTags, ∃ s, parse_nist s = some (.control t) := by
  obtain ⟨tags, computed, done⟩ := do_eq_ok.mp made
  rw [pure_eq_ok.mp done]
  intro t inside
  cases raw : compute_raw_nist_tags forControl with
  | arr values =>
      rw [raw] at computed
      obtain ⟨parsed, each, rest⟩ := do_eq_ok.mp computed
      rw [pure_eq_ok.mp rest] at inside
      rcases mem_properTags inside with listed | stubbed
      · obtain ⟨value, -, read⟩ := mem_of_mapM_eq_ok each listed
        cases value with
        | str s => exact ⟨s, Except.ok.inj read⟩
        | _ => cases read
      · rw [stub_eq, List.mem_singleton] at stubbed
        exact ⟨unmapped, stubbed ▸ by decide +kernel⟩
  | _ =>
      rw [raw] at computed
      cases computed

/-- Every tag of a wrapped control was parsed from a text. -/
theorem hdfWrapControl_parsed {control : AnyControl} {hdf : HDFControl}
    (wrapped : hdfWrapControl control = .ok hdf) :
    ∀ t ∈ hdf.parsedNistTags, ∃ s, parse_nist s = some (.control t) := by
  obtain ⟨_, _, _, base, made, same⟩ := hdfWrapControl_base wrapped
  rw [same]
  exact newHDFControl10_parsed made

end Tags

section Whole
variable [UnicodeTables]

/-- Every reference to a control finds one, and every control is wrapped. -/
structure Whole (g : Graph) : Prop where
  contained : ∀ p ∈ g.profiles, ∀ c ∈ p.contains, ∃ cc, g.controls[c]? = some cc
  extended : ∀ c d, g.extended c = some d → ∃ cc, g.controls[d]? = some cc
  wrapped : ∀ cc ∈ g.controls, hdfWrapControl cc.data = .ok cc.hdf

theorem whole_of_built {evaluation : ExecJSON} {context : ContextualizedEvaluation}
    (built : Built evaluation context) : Whole context.graph where
  contained p inside c member := by
    obtain ⟨j, place⟩ := List.getElem?_of_mem inside
    obtain ⟨cc, here, -⟩ := built.contained j p place c member
    exact ⟨cc, here⟩
  extended c d next := by
    obtain ⟨cc, here, first⟩ := Option.bind_eq_some_iff.mp next
    obtain ⟨dd, there, -⟩ := built.control_end here
      (List.mem_append_left _ (List.mem_of_head? first))
    exact ⟨dd, there⟩
  wrapped := built.wrapped

/-- The controls of a profile file have no links. -/
theorem contextualizeProfile_whole {profile : ProfileJSON} {g : Graph}
    (returned : contextualizeProfile profile = .ok g) : Whole g := by
  have inv := extractControls_extracted returned
  refine ⟨fun p inside c member => ?_, fun c d next => ?_, inv.wrapped⟩
  · obtain ⟨j, place⟩ := List.getElem?_of_mem inside
    obtain ⟨cc, here, -⟩ := inv.contained j p place c member
    exact ⟨cc, here⟩
  · obtain ⟨cc, here, first⟩ := Option.bind_eq_some_iff.mp next
    rw [(inv.fresh cc (List.mem_of_getElem? here)).1] at first
    cases first

/-- A walk through a whole graph ends at a control. -/
theorem Whole.follow {g : Graph} (whole : Whole g) {fuel c r : ℕ}
    (start : ∃ cc, g.controls[c]? = some cc) (walk : Lib.follow g.extended fuel c = some r) :
    ∃ cc, g.controls[r]? = some cc := by
  induction fuel generalizing c with
  | zero => cases walk
  | succ fuel ih =>
      cases next : g.extended c with
      | none =>
          rw [follow_of_end next] at walk
          exact Option.some.inj walk ▸ start
      | some d =>
          rw [follow_of_next next] at walk
          exact ih (whole.extended c d next) walk

end Whole

section Loaded
variable [UnicodeTables]

/-- Every file was built by the contextualizer. A file from Splunk holds a copy. -/
structure InspecData.Loaded (data : InspecData) : Prop where
  executionFiles : ∀ file ∈ data.executionFiles, ∃ r evaluation context,
    contextualizeEvaluation r evaluation = .ok context ∧
      file.evaluation = { context with self := file.evaluation.self }
  profileFiles : ∀ file ∈ data.profileFiles, ∃ profile,
    contextualizeProfile profile = .ok file.profile

variable {data : InspecData}

theorem InspecData.Loaded.whole (loaded : data.Loaded) {files : List FileID} {c : StoredControl}
    (inside : c ∈ allControls data files) :
    Whole c.graph ∧ ∃ cc, c.graph.controls[c.index]? = some cc := by
  obtain ⟨p, member, contained⟩ := List.mem_flatMap.mp inside
  have whole : Whole p.graph := by
    rcases List.mem_append.mp member with executed | profiled
    · obtain ⟨file, selected, member⟩ := List.mem_flatMap.mp executed
      obtain ⟨i, -, rfl⟩ := List.mem_map.mp member
      obtain ⟨r, evaluation, context, returned, same⟩ :=
        loaded.executionFiles file (List.mem_filter.mp selected).1
      have graph : file.evaluation.graph = context.graph := by rw [same]
      show Whole file.evaluation.graph
      rw [graph]
      exact whole_of_built (contextualizeEvaluation_built returned).2
    · obtain ⟨file, selected, rfl⟩ := List.mem_map.mp profiled
      obtain ⟨profile, returned⟩ := loaded.profileFiles file (List.mem_filter.mp selected).1
      exact contextualizeProfile_whole returned
  obtain ⟨k, listed, rfl⟩ := List.mem_map.mp contained
  refine ⟨whole, ?_⟩
  cases here : p.graph.profiles[p.index]? with
  | none => rw [here] at listed; cases listed
  | some profile =>
      rw [here] at listed
      exact whole.contained profile (List.mem_of_getElem? here) k listed

/-- The root of a loaded control, where the walk ends, is a control that was wrapped. -/
theorem InspecData.Loaded.rooted (loaded : data.Loaded) {files : List FileID} {c : StoredControl}
    (inside : c ∈ allControls data files) (rooted : c.Rooted) :
    ∃ r cc, c.root = .ok r ∧ r.get = some cc ∧ c.rootHdf = .ok (some cc.hdf) ∧
      hdfWrapControl cc.data = .ok cc.hdf := by
  obtain ⟨whole, start⟩ := loaded.whole inside
  obtain ⟨view, here⟩ := rooted
  obtain ⟨r, walked, done⟩ := do_eq_ok.mp here
  obtain ⟨index, walk, rest⟩ := do_eq_ok.mp walked
  obtain ⟨cc, there⟩ := whole.follow start (orThrow_eq_ok.mp walk)
  have found : r.get = some cc := by
    rw [pure_eq_ok.mp rest]
    exact there
  refine ⟨r, cc, walked, found, ?_, whole.wrapped cc (List.mem_of_getElem? there)⟩
  have same : view = some cc.hdf := by
    rw [pure_eq_ok.mp done, StoredControl.hdf, found]
    rfl
  rw [here, same]

/-- The root of a loaded control, where the walk ends, is a control with a tag. -/
theorem InspecData.Loaded.tagged (loaded : data.Loaded) {files : List FileID} {c : StoredControl}
    (inside : c ∈ allControls data files) (rooted : c.Rooted) :
    ∃ hdf, c.rootHdf = .ok (some hdf) ∧ hdf.parsedNistTags ≠ [] := by
  obtain ⟨r, cc, -, -, view, wrapped⟩ := loaded.rooted inside rooted
  exact ⟨cc.hdf, view, hdfWrapControl_tags wrapped⟩

end Loaded

section Samples

theorem sampleStore_loaded (files : List (String × ExecJSON)) :
    @InspecData.Loaded asciiTables (sampleStore files) := by
  refine @InspecData.Loaded.mk asciiTables _ (fun file inside => ?_) fun file inside => ?_
  · obtain ⟨⟨id, evaluation⟩, -, made⟩ := List.mem_filterMap.mp inside
    dsimp only at made
    split at made
    · rename_i context returned
      cases made
      exact ⟨0, evaluation, context, returned, rfl⟩
    · cases made
  · cases inside

theorem sampleStore_eq {evaluation : ExecJSON} {context : ContextualizedEvaluation}
    (returned : @contextualizeEvaluation asciiTables 0 evaluation = .ok context) :
    sampleStore [("f", evaluation)] = ⟨[⟨js "f", context⟩], []⟩ := by
  unfold sampleStore
  rw [List.filterMap_cons, List.filterMap_nil]
  dsimp only
  rw [returned]

end Samples
end Frontend
