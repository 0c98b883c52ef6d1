import Heimdall.Inspec.Extraction

/-!
# Well-formed context graphs

The links of a contextualized evaluation in closed form: a profile has the links of the
parent that it names, a control those of the one control that it was linked to. Every
well-formedness property is read off from this form.
-/
namespace Inspec
open Js Lib

section Targets

/-- The first profile that bears the name of the parent of profile `i`. -/
def namedParent (profiles : List AnyProfile) (i : ℕ) : Option ℕ :=
  match profiles[i]? with
  | none => none
  | some profile =>
      if profile.parent_profile = .undefined then none
      else profiles.findIdx? fun p => decide (.val p.name = profile.parent_profile)

theorem parentOf_eq (contains : List ContextualizedProfile) (i : ℕ) :
    parentOf contains i = namedParent (contains.map (·.data)) i := by
  simp only [parentOf, namedParent, List.getElem?_map]
  cases contains[i]? with
  | none => rfl
  | some profile => simp [List.findIdx?_map, Function.comp_def]

theorem namedParent_bounds {profiles : List AnyProfile} {i j : ℕ}
    (named : namedParent profiles i = some j) : i < profiles.length ∧ j < profiles.length := by
  unfold namedParent at named
  split at named
  next => cases named
  next profile found =>
      refine ⟨(List.getElem?_eq_some_iff.mp found).1, ?_⟩
      split at named
      · cases named
      · exact (List.findIdx?_eq_some_iff_getElem.mp named).1

variable (allControls : List ContextualizedControl)

theorem controlId_core : controlId (allControls.map core) = controlId allControls := by
  funext c
  simp [controlId, core, Linked.withLinks, Option.map_map, Function.comp_def]

theorem populated_core : populated (allControls.map core) = populated allControls := by
  funext c
  simp [populated, core, Linked.withLinks, Option.any_map]

/-- The search for an ancestor reads no links of controls. -/
theorem ancestorOf_core (profiles : List ContextualizedProfile) :
    ancestorOf profiles (allControls.map core) = ancestorOf profiles allControls := by
  funext c
  simp only [ancestorOf, ancestorIn, sameIdPopulated, controlId_core, populated_core,
    List.length_map, List.getElem?_map]
  cases allControls[c]? with
  | none => rfl
  | some cc => rfl

end Targets

section Closed

/-- Which profile names which as its parent. -/
def parents (evaluation : ExecJSON) : ℕ → Option ℕ :=
  namedParent (evaluation.profiles.map .exec)

/-- The control that each control of a graph is linked to. -/
def Graph.ancestors (g : Graph) : ℕ → Option ℕ := ancestorOf g.profiles g.controls

theorem createdProfiles_data (evalContext : Ref) (evaluation : ExecJSON) :
    (createdProfiles evalContext evaluation).map (·.data) = evaluation.profiles.map .exec := by
  simp [createdProfiles, newProfile, Function.comp_def]

theorem parentOf_reads (xs ys : List ContextualizedProfile) (i : ℕ)
    (same : xs.map core = ys.map core) : parentOf xs i = parentOf ys i := by
  have data := congrArg (List.map ContextualizedProfile.data) same
  rw [List.map_map, List.map_map] at data
  rw [parentOf_eq, parentOf_eq]
  exact congrArg (fun profiles => namedParent profiles i) data

theorem ancestorOf_reads (profiles : List ContextualizedProfile)
    (xs ys : List ContextualizedControl) (i : ℕ) (same : xs.map core = ys.map core) :
    ancestorOf profiles xs i = ancestorOf profiles ys i := by
  rw [← ancestorOf_core xs, same, ancestorOf_core ys]

/-- The links of the profiles before their controls are created. -/
theorem linkProfiles_links {evalContext : Ref} {evaluation : ExecJSON} {j : ℕ}
    {p : ContextualizedProfile}
    (found : (linkProfiles (createdProfiles evalContext evaluation))[j]? = some p) :
    p.extendedBy = (parents evaluation j).toList ∧
      p.extendsFrom = inns (parents evaluation) (List.range evaluation.profiles.length) j := by
  have fresh : ∀ p ∈ createdProfiles evalContext evaluation, Linked.links p = ⟨[], []⟩ := by
    intro p inside
    obtain ⟨profile, -, rfl⟩ := List.mem_map.mp inside
    rfl
  have links := links_linkAll_range parentOf_reads fresh found
  have target : parentOf (createdProfiles evalContext evaluation) = parents evaluation := by
    funext i
    rw [parentOf_eq, createdProfiles_data]
    rfl
  have size : (createdProfiles evalContext evaluation).length = evaluation.profiles.length :=
    List.length_map _
  rw [target, size] at links
  exact ⟨congrArg Links.out links, congrArg Links.inn links⟩

theorem linkControls_core (profiles : List ContextualizedProfile)
    (allControls : List ContextualizedControl) :
    (linkControls profiles allControls).map core = allControls.map core := map_core_linkAll _ _ _

theorem length_linkControls (profiles : List ContextualizedProfile)
    (allControls : List ContextualizedControl) :
    (linkControls profiles allControls).length = allControls.length := by
  simpa using congrArg List.length (linkControls_core profiles allControls)

theorem control_core {v w : ContextualizedControl} (same : core v = core w) :
    v.data = w.data ∧ v.sourcedFrom = w.sourcedFrom ∧ v.hdf = w.hdf := by
  simpa [core, Linked.withLinks] using same

theorem profile_core {v w : ContextualizedProfile} (same : core v = core w) :
    v.data = w.data ∧ v.sourcedFrom = w.sourcedFrom ∧ v.contains = w.contains := by
  simpa [core, Linked.withLinks] using same

theorem profile_uncontained {v w : ContextualizedProfile}
    (same : uncontained v = uncontained w) : v.data = w.data ∧ v.sourcedFrom = w.sourcedFrom ∧
      v.extendsFrom = w.extendsFrom ∧ v.extendedBy = w.extendedBy := by
  simpa [uncontained] using same

end Closed

section Built
variable [UnicodeTables]

/-- Everything that the construction establishes. -/
structure Built (evaluation : ExecJSON) (context : ContextualizedEvaluation) : Prop where
  data : context.data = evaluation
  contains : context.contains = List.range evaluation.profiles.length
  profiles : context.graph.profiles.map (·.data) = evaluation.profiles.map .exec
  sources : ∀ p ∈ context.graph.profiles, p.sourcedFrom = some context.self
  profileLinks : ∀ (j : ℕ) (p : ContextualizedProfile), context.graph.profiles[j]? = some p →
    p.extendedBy = (parents evaluation j).toList ∧
      p.extendsFrom = inns (parents evaluation) (List.range evaluation.profiles.length) j
  controlLinks : ∀ (c : ℕ) (cc : ContextualizedControl), context.graph.controls[c]? = some cc →
    cc.extendsFrom = (context.graph.ancestors c).toList ∧
      cc.extendedBy =
        inns context.graph.ancestors (List.range context.graph.controls.length) c
  sourced : ∀ (k : ℕ) (cc : ContextualizedControl), context.graph.controls[k]? = some cc →
    ∃ p : ContextualizedProfile,
      context.graph.profiles[cc.sourcedFrom]? = some p ∧ k ∈ p.contains
  contained : ∀ (j : ℕ) (p : ContextualizedProfile), context.graph.profiles[j]? = some p →
    ∀ k ∈ p.contains, ∃ cc : ContextualizedControl,
      context.graph.controls[k]? = some cc ∧ cc.sourcedFrom = j
  nodup : ∀ p ∈ context.graph.profiles, p.contains.Nodup
  cover : context.graph.profiles.flatMap (·.contains) =
    List.range context.graph.controls.length
  items : ∀ p ∈ context.graph.profiles,
    p.contains.map (fun k => context.graph.controls[k]?.map (·.data)) =
      p.data.controls.map some
  wrapped : ∀ cc ∈ context.graph.controls, hdfWrapControl cc.data = .ok cc.hdf

variable {evalContext : Ref} {evaluation : ExecJSON} {g : Graph}

theorem Extracted.data
    (inv : Extracted (linkProfiles (createdProfiles evalContext evaluation)) g) :
    g.profiles.map (·.data) = evaluation.profiles.map .exec := by
  have data := congrArg (List.map ContextualizedProfile.data) inv.profiles
  rw [List.map_map, List.map_map] at data
  calc g.profiles.map (·.data)
      = (linkProfiles (createdProfiles evalContext evaluation)).map (·.data) := data
    _ = (createdProfiles evalContext evaluation).map (·.data) := linkProfiles_data _
    _ = evaluation.profiles.map .exec := createdProfiles_data evalContext evaluation

theorem Extracted.source
    (inv : Extracted (linkProfiles (createdProfiles evalContext evaluation)) g)
    {p : ContextualizedProfile} (inside : p ∈ g.profiles) : p.sourcedFrom = some evalContext := by
  obtain ⟨j, place⟩ := List.getElem?_of_mem inside
  obtain ⟨w, linked, same⟩ := getElem?_of_map_eq inv.profiles place
  obtain ⟨v, made, same'⟩ := getElem?_of_map_eq (linkProfiles_core _) linked
  obtain ⟨profile, -, rfl⟩ := List.mem_map.mp (List.mem_of_getElem? made)
  rw [← (profile_uncontained same).2.1, ← (profile_core same').2.1]
  rfl

/-- Creating the controls leaves the links of the profiles alone. -/
theorem Extracted.profileLinks
    (inv : Extracted (linkProfiles (createdProfiles evalContext evaluation)) g) {j : ℕ}
    {p : ContextualizedProfile} (place : g.profiles[j]? = some p) :
    p.extendedBy = (parents evaluation j).toList ∧
      p.extendsFrom = inns (parents evaluation) (List.range evaluation.profiles.length) j := by
  obtain ⟨w, linked, same⟩ := getElem?_of_map_eq inv.profiles place
  obtain ⟨-, -, below, above⟩ := profile_uncontained same
  rw [← below, ← above]
  exact linkProfiles_links linked

/-- The links of the controls, in terms of the graph that carries them. -/
theorem Extracted.controlLinks {done : List ContextualizedProfile} (inv : Extracted done g) {c : ℕ}
    {cc : ContextualizedControl} (place : (linkControls g.profiles g.controls)[c]? = some cc) :
    let linked := linkControls g.profiles g.controls
    cc.extendsFrom = (ancestorOf g.profiles linked c).toList ∧
      cc.extendedBy = inns (ancestorOf g.profiles linked) (List.range linked.length) c := by
  have fresh : ∀ v ∈ g.controls, Linked.links v = ⟨[], []⟩ := by
    intro v inside
    obtain ⟨below, above⟩ := inv.fresh v inside
    change Links.mk v.extendsFrom v.extendedBy = _
    rw [below, above]
  have links := links_linkAll_range (ancestorOf_reads g.profiles) fresh place
  have target : ancestorOf g.profiles g.controls =
      ancestorOf g.profiles (linkControls g.profiles g.controls) := by
    funext i
    exact (ancestorOf_reads _ _ _ i (linkControls_core _ _)).symm
  rw [target, ← length_linkControls g.profiles g.controls] at links
  exact ⟨congrArg Links.out links, congrArg Links.inn links⟩

theorem contextualizeEvaluation_built {context : ContextualizedEvaluation}
    (returned : contextualizeEvaluation evalContext evaluation = .ok context) :
    context.self = evalContext ∧ Built evaluation context := by
  obtain ⟨extracted, made, rfl⟩ := contextualizeEvaluation_eq_ok.mp returned
  have inv := extractControls_extracted made
  have controls := linkControls_core extracted.profiles extracted.controls
  refine ⟨rfl, {
    data := rfl
    contains := rfl
    profiles := inv.data
    sources := fun _ => inv.source
    profileLinks := fun _ _ => inv.profileLinks
    controlLinks := fun _ _ => inv.controlLinks
    nodup := inv.nodup
    sourced := by
      intro k cc place
      obtain ⟨w, made, same⟩ := getElem?_of_map_eq controls place
      rw [← (control_core same).2.1]
      exact inv.sourced k w made
    contained := by
      intro j p place k here
      obtain ⟨w, made, source⟩ := inv.contained j p place k here
      obtain ⟨cc, linked, same⟩ := getElem?_of_map_eq controls.symm made
      exact ⟨cc, linked, (control_core same).2.1.trans source⟩
    cover := inv.cover.trans (congrArg List.range (length_linkControls _ _).symm)
    items := by
      intro p inside
      have data := congrArg (List.map ContextualizedControl.data) controls
      rw [List.map_map, List.map_map] at data
      rw [← inv.items p inside]
      apply List.map_congr_left
      intro k _
      rw [← List.getElem?_map, ← List.getElem?_map]
      exact congrArg (fun controls => controls[k]?) data
    wrapped := by
      intro cc inside
      obtain ⟨k, place⟩ := List.getElem?_of_mem inside
      obtain ⟨w, made, same⟩ := getElem?_of_map_eq controls place
      rw [← (control_core same).1, ← (control_core same).2.2]
      exact inv.wrapped w (List.mem_of_getElem? made) }⟩

end Built

section Ids

theorem ancestorIn_id {profiles : List ContextualizedProfile}
    {allControls : List ContextualizedControl} {extendsFrom : List ℕ} {id : JsString} {d : ℕ}
    (found : ancestorIn profiles allControls extendsFrom id = some d) :
    controlId allControls d = some id := by
  obtain ⟨extended, -, here⟩ := List.exists_of_findSome?_eq_some found
  simpa using List.find?_some here

theorem sameIdPopulated_id {allControls : List ContextualizedControl} {id : JsString} {d : ℕ}
    (found : sameIdPopulated allControls id = some d) : controlId allControls d = some id := by
  have member : d ∈ (List.range allControls.length).filter
      fun c => controlId allControls c == some id := by
    rcases Option.or_eq_some_iff.mp found with first | ⟨-, first⟩
    · exact List.mem_of_find?_eq_some first
    · exact List.mem_of_head? first
  simpa using (List.mem_filter.mp member).2

/-- A control is linked to a control of its own id. -/
theorem ancestorOf_id {profiles : List ContextualizedProfile}
    {allControls : List ContextualizedControl} {c d : ℕ}
    (linked : ancestorOf profiles allControls c = some d) :
    ∃ cc dd, allControls[c]? = some cc ∧ allControls[d]? = some dd ∧ dd.data.id = cc.data.id := by
  unfold ancestorOf at linked
  split at linked
  next => cases linked
  next cc here =>
      have same : controlId allControls d = some cc.data.id := by
        split at linked
        next => cases linked
        next source _ =>
            split at linked
            · exact ancestorIn_id linked
            · simp only at linked
              split at linked
              · cases linked
              · exact sameIdPopulated_id linked
      obtain ⟨dd, there, same⟩ := Option.map_eq_some_iff.mp same
      exact ⟨cc, dd, here, there, same⟩

end Ids

section WellFormed

/-- The two directions of every relation agree, and links stay inside the evaluation. -/
structure WellFormed (context : ContextualizedEvaluation) : Prop where
  profileLinks : ∀ (a b : ℕ) (pa pb : ContextualizedProfile),
    context.graph.profiles[a]? = some pa → context.graph.profiles[b]? = some pb →
      pb.extendedBy.count a = pa.extendsFrom.count b
  controlLinks : ∀ (a b : ℕ) (ca cb : ContextualizedControl),
    context.graph.controls[a]? = some ca → context.graph.controls[b]? = some cb →
      cb.extendedBy.count a = ca.extendsFrom.count b
  oneAncestor : ∀ cc ∈ context.graph.controls, cc.extendsFrom.length ≤ 1
  oneOverlay : ∀ p ∈ context.graph.profiles, p.extendedBy.length ≤ 1
  sameId : ∀ cc ∈ context.graph.controls, ∀ d ∈ cc.extendsFrom ++ cc.extendedBy,
    ∃ dd : ContextualizedControl, context.graph.controls[d]? = some dd ∧ dd.data.id = cc.data.id
  profileEnds : ∀ p ∈ context.graph.profiles, ∀ q ∈ p.extendsFrom ++ p.extendedBy,
    q ∈ context.contains
  controlEnds : ∀ cc ∈ context.graph.controls, ∀ d ∈ cc.extendsFrom ++ cc.extendedBy,
    ∃ p ∈ context.contains, ∃ profile : ContextualizedProfile,
      context.graph.profiles[p]? = some profile ∧ d ∈ profile.contains
  profileSource : ∀ p : ℕ, p ∈ context.contains ↔ ∃ profile : ContextualizedProfile,
    context.graph.profiles[p]? = some profile ∧ profile.sourcedFrom = some context.self
  controlSource : ∀ (p : ℕ) (profile : ContextualizedProfile),
    context.graph.profiles[p]? = some profile → ∀ c : ℕ, c ∈ profile.contains ↔
      ∃ cc : ContextualizedControl, context.graph.controls[c]? = some cc ∧ cc.sourcedFrom = p
  sources : ∀ cc ∈ context.graph.controls, cc.sourcedFrom ∈ context.contains
  once : context.contains.Nodup ∧ ∀ p ∈ context.graph.profiles, p.contains.Nodup

variable [UnicodeTables] {evaluation : ExecJSON} {context : ContextualizedEvaluation}

theorem Built.length_profiles (built : Built evaluation context) :
    context.graph.profiles.length = evaluation.profiles.length := by
  simpa using congrArg List.length built.profiles

theorem Built.mem_contains (built : Built evaluation context) {p : ℕ} :
    p ∈ context.contains ↔ ∃ profile : ContextualizedProfile,
      context.graph.profiles[p]? = some profile := by
  rw [built.contains, List.mem_range, ← built.length_profiles]
  exact ⟨fun inside => ⟨_, List.getElem?_eq_getElem inside⟩,
    fun ⟨_, found⟩ => (List.getElem?_eq_some_iff.mp found).1⟩

theorem Built.source_of_mem (built : Built evaluation context) :
    ∀ cc ∈ context.graph.controls, ∃ p : ContextualizedProfile,
      context.graph.profiles[cc.sourcedFrom]? = some p := by
  intro cc inside
  obtain ⟨k, here⟩ := List.getElem?_of_mem inside
  obtain ⟨p, source, -⟩ := built.sourced k cc here
  exact ⟨p, source⟩

/-- The other end of any link of a control. -/
theorem Built.control_end (built : Built evaluation context) {c d : ℕ}
    {cc : ContextualizedControl} (here : context.graph.controls[c]? = some cc)
    (linked : d ∈ cc.extendsFrom ++ cc.extendedBy) : ∃ dd : ContextualizedControl,
      context.graph.controls[d]? = some dd ∧ dd.data.id = cc.data.id := by
  obtain ⟨out, inn⟩ := built.controlLinks c cc here
  rcases List.mem_append.mp linked with below | above
  · rw [out, Option.mem_toList] at below
    obtain ⟨cc', dd, here', there, same⟩ := ancestorOf_id below
    obtain rfl : cc' = cc := Option.some.inj (here'.symm.trans here)
    exact ⟨dd, there, same⟩
  · rw [inn, mem_inns_range] at above
    obtain ⟨dd, cc', there, here', same⟩ := ancestorOf_id above.2
    obtain rfl : cc' = cc := Option.some.inj (here'.symm.trans here)
    exact ⟨dd, there, same.symm⟩

theorem Built.wellFormed (built : Built evaluation context) : WellFormed context where
  profileLinks a b pa pb ha hb := by
    have bound : b < evaluation.profiles.length :=
      built.length_profiles ▸ (List.getElem?_eq_some_iff.mp hb).1
    rw [(built.profileLinks b pb hb).1, (built.profileLinks a pa ha).2,
      ← count_outs_eq_count_inns _ bound, outs_range _ bound]
  controlLinks a b ca cb ha hb := by
    have bound := (List.getElem?_eq_some_iff.mp ha).1
    rw [(built.controlLinks a ca ha).1, (built.controlLinks b cb hb).2,
      ← count_outs_eq_count_inns _ bound, outs_range _ bound]
  oneAncestor cc inside := by
    obtain ⟨c, here⟩ := List.getElem?_of_mem inside
    rw [(built.controlLinks c cc here).1]
    exact Option.length_toList_le
  oneOverlay p inside := by
    obtain ⟨j, here⟩ := List.getElem?_of_mem inside
    rw [(built.profileLinks j p here).1]
    exact Option.length_toList_le
  sameId cc inside d linked := by
    obtain ⟨c, here⟩ := List.getElem?_of_mem inside
    exact built.control_end here linked
  profileEnds p inside q linked := by
    obtain ⟨j, here⟩ := List.getElem?_of_mem inside
    obtain ⟨out, inn⟩ := built.profileLinks j p here
    rw [built.contains, List.mem_range]
    rcases List.mem_append.mp linked with below | above
    · rw [inn, mem_inns_range] at below
      exact below.1
    · rw [out, Option.mem_toList] at above
      simpa using (namedParent_bounds above).2
  controlEnds cc inside d linked := by
    obtain ⟨c, here⟩ := List.getElem?_of_mem inside
    obtain ⟨dd, there, -⟩ := built.control_end here linked
    obtain ⟨profile, source, contained⟩ := built.sourced d dd there
    exact ⟨dd.sourcedFrom, built.mem_contains.mpr ⟨profile, source⟩, profile, source, contained⟩
  profileSource p := by
    rw [built.mem_contains]
    exact ⟨fun ⟨profile, here⟩ => ⟨profile, here, built.sources _ (List.mem_of_getElem? here)⟩,
      fun ⟨profile, here, _⟩ => ⟨profile, here⟩⟩
  controlSource p profile here c := by
    constructor
    · exact built.contained p profile here c
    · rintro ⟨cc, there, rfl⟩
      obtain ⟨profile', here', contained⟩ := built.sourced c cc there
      obtain rfl : profile' = profile := Option.some.inj (here'.symm.trans here)
      exact contained
  sources cc inside := by
    obtain ⟨c, here⟩ := List.getElem?_of_mem inside
    obtain ⟨profile, source, -⟩ := built.sourced c cc here
    exact built.mem_contains.mpr ⟨profile, source⟩
  once := ⟨built.contains ▸ List.nodup_range, built.nodup⟩

/-- Whatever is returned for an evaluation is well formed. -/
theorem contextualizeEvaluation_wellFormed (evalContext : Ref)
    (returned : contextualizeEvaluation evalContext evaluation = .ok context) :
    WellFormed context :=
  (contextualizeEvaluation_built returned).2.wellFormed

end WellFormed

theorem contextualizeEvaluation_wellFormed_sample :
    ∃ context, @contextualizeEvaluation asciiTables 0 wrapped = .ok context ∧
      context.graph.controls.map (·.extendsFrom) = [[1], []] ∧ WellFormed context :=
  ⟨_, rfl, rfl, @contextualizeEvaluation_wellFormed asciiTables wrapped _ 0 rfl⟩

end Inspec
