import Heimdall.Inspec.WellFormed

/-!
# Overlay chains

Where the parent relation of the profiles has no cycle, every chain of controls ends, and
with it the getters that walk along it.
-/
namespace Inspec
open Js Lib Relation

section Getters
variable {g : Graph}

theorem is_redundant_returns {fuel c r : ℕ} (root : g.root fuel c = some r) :
    ∃ b, g.is_redundant fuel c = some b := by
  unfold Graph.is_redundant
  simp only
  split
  · exact ⟨true, rfl⟩
  · split
    · exact ⟨false, rfl⟩
    · exact ⟨_, by rw [root, Option.map_some]⟩

theorem full_code_of_root {fuel c r : ℕ} (root : g.root fuel c = some r) :
    ∃ code, g.full_code fuel c = some code := by
  induction fuel generalizing c with
  | zero => cases root
  | succ fuel ih =>
      cases next : g.extended c with
      | none => exact ⟨_, by simp only [Graph.full_code, next]; rfl⟩
      | some ancestor =>
          obtain ⟨redundant, test⟩ := is_redundant_returns root
          rw [Graph.root, follow_of_next next] at root
          obtain ⟨below, code⟩ := ih root
          refine ⟨if redundant then below else trim (g.codeBlock c ++ js "\n\n" ++ below), ?_⟩
          simp only [Graph.full_code, next, test, code]
          cases redundant <;> rfl

end Getters

section Links

/-- A profile that takes part in a link. -/
def ContextualizedProfile.isLinked (p : ContextualizedProfile) : Prop :=
  p.extendsFrom ≠ [] ∨ p.extendedBy ≠ []

/-- Two ways to be linked: inside linked profiles along the profile links, elsewhere to the
one control that stands for the id. -/
theorem ancestorOf_cases {profiles : List ContextualizedProfile}
    {allControls : List ContextualizedControl} {c d : ℕ}
    (linked : ancestorOf profiles allControls c = some d) :
    ∃ (cc : ContextualizedControl) (source : ContextualizedProfile),
      allControls[c]? = some cc ∧ profiles[cc.sourcedFrom]? = some source ∧
      ((source.isLinked ∧ ∃ q ∈ source.extendsFrom, ∃ below : ContextualizedProfile,
          profiles[q]? = some below ∧ d ∈ below.contains) ∨
        (¬ source.isLinked ∧ d ≠ c ∧ sameIdPopulated allControls cc.data.id = some d)) := by
  unfold ancestorOf at linked
  split at linked
  next => cases linked
  next cc here =>
      split at linked
      next => cases linked
      next source at_source =>
          refine ⟨cc, source, here, at_source, ?_⟩
          split at linked
          next joined =>
              obtain ⟨q, member, found⟩ := List.exists_of_findSome?_eq_some linked
              refine .inl ⟨joined, q, member, ?_⟩
              cases place : profiles[q]? with
              | none => simp [place] at found
              | some below =>
                  rw [place] at found
                  exact ⟨below, rfl, List.mem_of_find?_eq_some found⟩
          next alone =>
              simp only at linked
              split at linked
              next => cases linked
              next other => exact .inr ⟨alone, fun same => other (same ▸ linked), linked⟩

/-- Without cycles among the parents, a profile has no endless chain of extensions. -/
theorem wellFounded_parents {evaluation : ExecJSON}
    (acyclic : Acyclic (Next (parents evaluation))) :
    WellFounded fun q p => parents evaluation q = some p :=
  acyclic.swap.wellFounded fun _ _ named => (namedParent_bounds named).1

theorem wrapped_acyclic : Acyclic (Next (parents wrapped)) := by
  have smaller : ∀ {b a : ℕ}, parents wrapped a = some b → b < a := by
    intro b a named
    have bound : a < 2 := (namedParent_bounds named).1
    obtain rfl | rfl : a = 0 ∨ a = 1 := by omega
    · have root : parents wrapped 0 = none := by decide +kernel
      rw [root] at named
      cases named
    · have child : parents wrapped 1 = some 0 := by decide +kernel
      rw [child] at named
      cases named
      exact Nat.zero_lt_one
  exact acyclic_of_wellFounded (Subrelation.wf smaller Nat.lt_wfRel.wf)

end Links

section Chains
variable [UnicodeTables] {evaluation : ExecJSON} {context : ContextualizedEvaluation}

theorem Built.extended_eq (built : Built evaluation context) :
    context.graph.extended = context.graph.ancestors := by
  funext c
  unfold Graph.extended
  cases here : context.graph.controls[c]? with
  | none => simp [Graph.ancestors, ancestorOf, here]
  | some cc =>
      rw [Option.bind_some, (built.controlLinks c cc here).1]
      cases context.graph.ancestors c <;> rfl

theorem Built.mem_extendsFrom (built : Built evaluation context) {p q : ℕ}
    {profile : ContextualizedProfile} (here : context.graph.profiles[p]? = some profile) :
    q ∈ profile.extendsFrom ↔ parents evaluation q = some p := by
  rw [(built.profileLinks p profile here).2, mem_inns_range]
  refine ⟨And.right, fun named => ⟨?_, named⟩⟩
  simpa using (namedParent_bounds named).1

/-- A profile that is named as an extension is linked to the profile that it names. -/
theorem Built.isLinked_of_parent (built : Built evaluation context) {p q : ℕ}
    {profile : ContextualizedProfile} (here : context.graph.profiles[q]? = some profile)
    (named : parents evaluation q = some p) : profile.isLinked := by
  refine .inr ?_
  rw [(built.profileLinks q profile here).1, named]
  exact List.cons_ne_nil _ _

/-- Inside linked profiles every chain of controls ends. -/
theorem Built.ends_of_isLinked (built : Built evaluation context)
    (acyclic : Acyclic (Next (parents evaluation))) (p : ℕ) :
    ∀ (source : ContextualizedProfile), context.graph.profiles[p]? = some source →
      source.isLinked → ∀ c ∈ source.contains, Ends context.graph.ancestors c := by
  induction p using (wellFounded_parents acyclic).induction with
  | _ p ih =>
      intro source here joined c inside
      obtain ⟨cc, control, rfl⟩ := built.contained p source here c inside
      cases next : context.graph.ancestors c with
      | none => exact ⟨1, c, follow_of_end next 0⟩
      | some d =>
          obtain ⟨cc', source', control', here', way⟩ := ancestorOf_cases next
          obtain rfl : cc' = cc := Option.some.inj (control'.symm.trans control)
          obtain rfl : source' = source := Option.some.inj (here'.symm.trans here)
          rcases way with ⟨-, q, member, below, place, contained⟩ | ⟨alone, -⟩
          · have named := (built.mem_extendsFrom here).mp member
            obtain ⟨n, e, walk⟩ := ih q named below place
              (built.isLinked_of_parent place named) d contained
            exact ⟨n + 1, e, (follow_of_next next n).trans walk⟩
          · exact absurd joined alone

theorem Built.ends (built : Built evaluation context)
    (acyclic : Acyclic (Next (parents evaluation))) (c : ℕ) : Ends context.graph.ancestors c := by
  have linked : ∀ (c : ℕ) (cc : ContextualizedControl) (source : ContextualizedProfile),
      context.graph.controls[c]? = some cc →
      context.graph.profiles[cc.sourcedFrom]? = some source → source.isLinked →
      Ends context.graph.ancestors c := by
    intro c cc source control here joined
    obtain ⟨source', here', inside⟩ := built.sourced c cc control
    obtain rfl : source' = source := Option.some.inj (here'.symm.trans here)
    exact built.ends_of_isLinked acyclic _ source' here joined c inside
  cases next : context.graph.ancestors c with
  | none => exact ⟨1, c, follow_of_end next 0⟩
  | some d =>
      obtain ⟨cc, source, control, here, way⟩ := ancestorOf_cases next
      rcases way with ⟨joined, -⟩ | ⟨alone, -, standing⟩
      · exact linked c cc source control here joined
      · -- `d` stands for the id, so that it is linked to nothing or inside linked profiles.
        suffices rest : Ends context.graph.ancestors d by
          obtain ⟨n, e, walk⟩ := rest
          exact ⟨n + 1, e, (follow_of_next next n).trans walk⟩
        cases after : context.graph.ancestors d with
        | none => exact ⟨1, d, follow_of_end after 0⟩
        | some e =>
            obtain ⟨dd, source', control', here', way⟩ := ancestorOf_cases after
            rcases way with ⟨joined, -⟩ | ⟨-, moves, standing'⟩
            · exact linked d dd source' control' here' joined
            · obtain ⟨cc₁, dd₁, one, two, same⟩ := ancestorOf_id next
              obtain rfl : cc₁ = cc := Option.some.inj (one.symm.trans control)
              obtain rfl : dd₁ = dd := Option.some.inj (two.symm.trans control')
              rw [same, standing] at standing'
              exact absurd (Option.some.inj standing').symm moves

end Chains
end Inspec
