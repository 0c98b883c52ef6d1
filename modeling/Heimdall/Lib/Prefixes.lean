import Mathlib.Logic.Relation
import Mathlib.Data.List.Induction

/-!
# Trees labelled with paths

A forest whose nodes carry the path that leads to them: every edge adds one step to the
path. Then the nodes below a node are those whose path begins with its path.
-/
namespace Lib
open Relation

variable {ι α : Type*}

/-- Every edge adds a step, every path with a step belongs to the child of a node, and no
two nodes share a path. -/
structure PathTree (path : ι → Option (List α)) (child : ι → ι → Prop) : Prop where
  distinct : ∀ i j c, path i = some c → path j = some c → i = j
  adds : ∀ i j, child i j → ∃ c x, path i = some c ∧ path j = some (c ++ [x])
  linked : ∀ j c x, path j = some (c ++ [x]) → ∃ i, path i = some c ∧ child i j

namespace PathTree
variable {path : ι → Option (List α)} {child : ι → ι → Prop} (tree : PathTree path child)
include tree

theorem prefix_of_below {i j : ι} (below : ReflTransGen child i j) {p c : List α}
    (here : path i = some p) (there : path j = some c) : p <+: c := by
  induction below generalizing c with
  | refl =>
      rw [here] at there
      exact Option.some.inj there ▸ List.prefix_refl p
  | tail _ edge ih =>
      obtain ⟨c', x, before, after⟩ := tree.adds _ _ edge
      rw [there] at after
      rw [Option.some.inj after]
      exact (ih before).trans (List.prefix_append _ _)

theorem below_of_prefix {i j : ι} {p c : List α} (here : path i = some p)
    (there : path j = some c) (starts : p <+: c) : ReflTransGen child i j := by
  induction c using List.reverseRecOn generalizing j with
  | nil =>
      rw [List.prefix_nil.mp starts] at here
      rw [tree.distinct i j [] here there]
  | append_singleton c x ih =>
      rcases List.prefix_concat_iff.mp starts with rfl | shorter
      · rw [tree.distinct i j _ here there]
      · obtain ⟨k, before, edge⟩ := tree.linked j c x there
        exact (ih before shorter).tail edge

/-- The nodes below a node are those whose path begins with its path. -/
theorem below_iff {i j : ι} {p c : List α} (here : path i = some p) (there : path j = some c) :
    ReflTransGen child i j ↔ p <+: c :=
  ⟨fun below => tree.prefix_of_below below here there,
    fun starts => tree.below_of_prefix here there starts⟩

end PathTree
end Lib
