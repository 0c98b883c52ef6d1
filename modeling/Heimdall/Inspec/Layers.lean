import Heimdall.Inspec.Overlays

/-!
# Layered evaluations

With distinct names and ids, no circle of parents and no profile left aside, the controls
form disjoint chains: every root has exactly one control on top.
-/
namespace Inspec
open Js Lib Relation

/-- Distinct names and ids, parents without a circle, and a single profile or none that
takes no part in a link. -/
structure Layered (evaluation : ExecJSON) : Prop where
  names : (evaluation.profiles.map (·.name)).Nodup
  ids : ∀ profile ∈ evaluation.profiles, (profile.controls.map (·.id)).Nodup
  acyclic : Acyclic (Next (parents evaluation))
  linked : evaluation.profiles.length = 1 ∨ ∀ p < evaluation.profiles.length,
    parents evaluation p ≠ none ∨ ∃ q, parents evaluation q = some p

theorem wrapped_layered : Layered wrapped where
  names := by decide +kernel
  ids := by decide +kernel
  acyclic := wrapped_acyclic
  linked := .inr (by
    intro p inside
    change p < 2 at inside
    obtain rfl | rfl : p = 0 ∨ p = 1 := by omega
    · exact .inr ⟨1, by decide +kernel⟩
    · exact .inl (by decide +kernel))

section Chains
variable [UnicodeTables] {evaluation : ExecJSON} {context : ContextualizedEvaluation}

theorem Built.eq_of_id (built : Built evaluation context) (layered : Layered evaluation)
    {a b : ℕ} {ca cb : ContextualizedControl} (ha : context.graph.controls[a]? = some ca)
    (hb : context.graph.controls[b]? = some cb) (source : ca.sourcedFrom = cb.sourcedFrom)
    (id : ca.data.id = cb.data.id) : a = b := by
  obtain ⟨p, here, inA⟩ := built.sourced a ca ha
  obtain ⟨p', here', inB⟩ := built.sourced b cb hb
  rw [← source] at here'
  obtain rfl : p' = p := Option.some.inj (here'.symm.trans here)
  have ids : (p'.contains.map (controlId context.graph.controls)).Nodup := by
    have items := congrArg (List.map (Option.map AnyControl.id))
      (built.items p' (List.mem_of_getElem? here))
    rw [List.map_map, List.map_map] at items
    have same : p'.contains.map (controlId context.graph.controls) =
        (p'.data.controls.map AnyControl.id).map some := by
      rw [List.map_map]
      refine Eq.trans (List.map_congr_left fun k _ => ?_) items
      simp [controlId, Option.map_map, Function.comp_def]
    have member : p'.data ∈ evaluation.profiles.map AnyProfile.exec := by
      rw [← built.profiles]
      exact List.mem_map_of_mem (List.mem_of_getElem? here)
    obtain ⟨profile, inside, exec⟩ := List.mem_map.mp member
    rw [same, ← exec]
    apply List.Nodup.map (Option.some_injective _)
    have distinct := layered.ids profile inside
    simpa [AnyProfile.controls, AnyControl.id, Function.comp_def] using distinct
  apply List.inj_on_of_nodup_map ids inA inB
  simp [controlId, ha, hb, id]

/-- In a layered evaluation controls are only linked along the links of their profiles. -/
theorem Built.step_down (built : Built evaluation context) (layered : Layered evaluation)
    {c d : ℕ} (next : context.graph.ancestors c = some d) :
    ∃ cc dd : ContextualizedControl, context.graph.controls[c]? = some cc ∧
      context.graph.controls[d]? = some dd ∧ dd.data.id = cc.data.id ∧
      parents evaluation dd.sourcedFrom = some cc.sourcedFrom := by
  obtain ⟨cc, dd, control, control', id⟩ := ancestorOf_id next
  obtain ⟨cc', source, again, here, way⟩ := ancestorOf_cases next
  obtain rfl : cc' = cc := Option.some.inj (again.symm.trans control)
  refine ⟨cc', dd, control, control', id, ?_⟩
  rcases way with ⟨-, q, member, below, place, contained⟩ | ⟨alone, other, -⟩
  · obtain ⟨dd', control'', rfl⟩ := built.contained q below place d contained
    obtain rfl : dd' = dd := Option.some.inj (control''.symm.trans control')
    exact (built.mem_extendsFrom here).mp member
  · have bound := (List.getElem?_eq_some_iff.mp here).1
    have bound' : dd.sourcedFrom < context.graph.profiles.length := by
      obtain ⟨p, place, -⟩ := built.sourced d dd control'
      exact (List.getElem?_eq_some_iff.mp place).1
    rw [built.length_profiles] at bound bound'
    rcases layered.linked with single | all
    · exact absurd (built.eq_of_id layered control' control (by omega) id) other
    · rcases all _ bound with child | ⟨q, parent⟩
      · obtain ⟨p, named⟩ := Option.ne_none_iff_exists'.mp child
        exact absurd (built.isLinked_of_parent here named) alone
      · have member := (built.mem_extendsFrom here).mpr parent
        exact absurd (.inl (List.ne_nil_of_mem member)) alone

/-- The links of the controls form disjoint finite chains. -/
theorem Built.disjoint (built : Built evaluation context) (layered : Layered evaluation) :
    Disjoint context.graph.ancestors context.graph.controls.length where
  bounded c d next := by
    obtain ⟨cc, dd, control, control', -⟩ := built.step_down layered next
    exact ⟨(List.getElem?_eq_some_iff.mp control).1, (List.getElem?_eq_some_iff.mp control').1⟩
  injective a b c ha hb := by
    obtain ⟨ca, cc, hca, hcc, idA, parentA⟩ := built.step_down layered ha
    obtain ⟨cb, cc', hcb, hcc', idB, parentB⟩ := built.step_down layered hb
    obtain rfl : cc' = cc := Option.some.inj (hcc'.symm.trans hcc)
    have source := Option.some.inj (parentA.symm.trans parentB)
    exact built.eq_of_id layered hca hcb source (idA.symm.trans idB)
  acyclic c cycle := not_ends_of_cycle cycle (built.ends layered.acyclic c)

end Chains

section Tops

def Graph.isRoot (g : Graph) (c : ℕ) : Bool := g.controls[c]?.any fun cc => cc.extendsFrom.isEmpty

def Graph.isTop (g : Graph) (c : ℕ) : Bool := g.controls[c]?.any fun cc => cc.extendedBy.isEmpty

def Graph.roots (g : Graph) : List ℕ := (List.range g.controls.length).filter g.isRoot

def Graph.tops (g : Graph) : List ℕ := (List.range g.controls.length).filter g.isTop

variable [UnicodeTables] {evaluation : ExecJSON} {context : ContextualizedEvaluation}

theorem Built.isRoot_iff (built : Built evaluation context) {c : ℕ}
    (inside : c < context.graph.controls.length) :
    context.graph.isRoot c = true ↔ context.graph.ancestors c = none := by
  have here := List.getElem?_eq_getElem inside
  simp only [Graph.isRoot, here, Option.any_some, (built.controlLinks c _ here).1]
  cases context.graph.ancestors c <;> simp

theorem Built.isTop_iff (built : Built evaluation context) (layered : Layered evaluation) {c : ℕ}
    (inside : c < context.graph.controls.length) :
    context.graph.isTop c = true ↔ IsStart context.graph.ancestors c := by
  have here := List.getElem?_eq_getElem inside
  simp only [Graph.isTop, here, Option.any_some, (built.controlLinks c _ here).2,
    List.isEmpty_iff, List.eq_nil_iff_forall_not_mem, mem_inns_range]
  constructor
  · intro none b next
    exact none b ⟨((built.disjoint layered).bounded b c next).1, next⟩
  · intro start b next
    exact start b next.2

/-- Every root is the root of exactly one control that nothing extends. -/
theorem Built.existsUnique_top (built : Built evaluation context) (layered : Layered evaluation)
    {r : ℕ} (root : r ∈ context.graph.roots) :
    ∃! t, t ∈ context.graph.tops ∧ ∃ fuel, context.graph.root fuel t = some r := by
  obtain ⟨inside, isRoot⟩ := List.mem_filter.mp root
  rw [List.mem_range] at inside
  have none := (built.isRoot_iff inside).mp isRoot
  have chains := built.disjoint layered
  obtain ⟨t, ⟨start, walk⟩, unique⟩ := chains.existsUnique_start none
  have bound : ∀ s, (∃ m, follow context.graph.ancestors m s = some r) →
      s < context.graph.controls.length := by
    rintro s ⟨m, walk⟩
    rcases ReflTransGen.cases_head (follow_reaches walk).1 with rfl | ⟨b, next, -⟩
    · exact inside
    · exact (chains.bounded s b next).1
  refine ⟨t, ⟨?_, ?_⟩, ?_⟩
  · exact List.mem_filter.mpr ⟨List.mem_range.mpr (bound t walk),
      (built.isTop_iff layered (bound t walk)).mpr start⟩
  · simpa only [Graph.root, built.extended_eq] using walk
  · rintro s ⟨top, walk'⟩
    obtain ⟨inside', isTop⟩ := List.mem_filter.mp top
    simp only [Graph.root, built.extended_eq] at walk'
    exact unique s ⟨(built.isTop_iff layered (List.mem_range.mp inside')).mp isTop, walk'⟩

/-- From every control the walk to a root is over after all controls at the latest. -/
theorem Built.root_within (built : Built evaluation context) (layered : Layered evaluation) {c : ℕ}
    (inside : c < context.graph.controls.length) : ∃ r ∈ context.graph.roots,
      context.graph.root (context.graph.controls.length + 1) c = some r := by
  have chains := built.disjoint layered
  obtain ⟨r, walk⟩ := (built.ends layered.acyclic c).within fun a b next =>
    (chains.bounded a b next).2
  obtain ⟨path, none⟩ := follow_reaches walk
  have bound : r < context.graph.controls.length := by
    rcases ReflTransGen.cases_tail path with rfl | ⟨b, -, next⟩
    · exact inside
    · exact (chains.bounded b r next).2
  refine ⟨r, ?_, by simpa only [Graph.root, built.extended_eq] using walk⟩
  exact List.mem_filter.mpr ⟨List.mem_range.mpr bound, (built.isRoot_iff bound).mpr none⟩

/-- Going to the root is a bijection from the controls on top to the roots. -/
theorem Built.tops_perm (built : Built evaluation context) (layered : Layered evaluation) :
    (context.graph.tops.map (context.graph.root (context.graph.controls.length + 1))).Perm
      (context.graph.roots.map some) := by
  have ends : ∀ t ∈ context.graph.tops, ∃ r ∈ context.graph.roots,
      context.graph.root (context.graph.controls.length + 1) t = some r := fun t top =>
    built.root_within layered (List.mem_range.mp (List.mem_filter.mp top).1)
  refine (List.perm_ext_iff_of_nodup ?_ ?_).mpr ?_
  · refine List.Nodup.map_on ?_ (List.nodup_range.filter _)
    intro s topS t topT same
    obtain ⟨r, root, walk⟩ := ends s topS
    exact (built.existsUnique_top layered root).unique ⟨topS, _, walk⟩ ⟨topT, _, same ▸ walk⟩
  · exact (List.nodup_range.filter _).map (Option.some_injective _)
  · intro found
    constructor
    · intro member
      obtain ⟨t, top, rfl⟩ := List.mem_map.mp member
      obtain ⟨r, root, walk⟩ := ends t top
      rw [walk]
      exact List.mem_map_of_mem root
    · intro member
      obtain ⟨r, root, rfl⟩ := List.mem_map.mp member
      obtain ⟨t, ⟨top, fuel, walk⟩, -⟩ := built.existsUnique_top layered root
      obtain ⟨r', -, walk'⟩ := ends t top
      rw [follow_unique walk walk', ← walk']
      exact List.mem_map_of_mem top

end Tops
end Inspec
