import Mathlib.Algebra.BigOperators.Group.List.Basic
import Mathlib.Algebra.Order.Field.Rat
import Mathlib.Tactic.Ring
import Heimdall.Frontend.TreemapUtil

/-!
# The weights of the tree map

The values by which the nodes of the tree map are drawn. A node is worth the sum over its subtree,
in which an empty node counts 1 and a leaf its share of the node that it is in.
-/
namespace Frontend
open Js Lib Inspec

namespace TreemapNode

/-- `is_parent(d)` -/
def is_parent : TreemapNode → Bool
  | parent _ => true
  | leaf _ => false

end TreemapNode

namespace Treemap

def width (t : Treemap) (n : ℕ) : ℕ := ((t.nodes[n]?.map (·.children)).getD []).length

/-- What a node counts by itself. -/
def nodeValue (t : Treemap) : TreemapNode → ℚ
  | .parent n => if t.width n = 0 then 1 else 0
  | .leaf l =>
      match t.leaves[l]?.bind (·.parent) with
      | some parent => 1 / t.width parent
      | none => 0

/-- `sum`: the values over the subtree, in a tree whose depth the fuel is enough for. -/
def sum (t : Treemap) : ℕ → TreemapNode → Option ℚ
  | 0, _ => none
  | _ + 1, .leaf l => some (t.nodeValue (.leaf l))
  | fuel + 1, .parent n => do
      let below ← ((t.nodes[n]?.map (·.children)).getD []).mapM (t.sum fuel)
      return t.nodeValue (.parent n) + below.sum

end Treemap

section Parented

/-- The node is looked up for the tag. -/
def Scaffold.finds (s : Scaffold) (i : ℕ) (tag : NistControl) : Bool :=
  match s.controlLookup.get (lookup_key_for tag depthMax) with
  | .own parent => parent == i
  | _ => false

theorem Scaffold.finds_iff {s : Scaffold} {i : ℕ} {tag : NistControl} :
    s.finds i tag = true ↔ s.controlLookup.get (lookup_key_for tag depthMax) = .own i := by
  unfold finds
  cases s.controlLookup.get (lookup_key_for tag depthMax) <;> simp

/-- Every leaf among the children of a node knows the node, and there are as many as tags for
which the node is looked up. -/
structure Parented (s : Scaffold) (done : List TreemapNodeLeaf) (t : Treemap) : Prop where
  parents : ∀ i l : ℕ, HasChild t.nodes i (.leaf l) →
    ∃ leaf, t.leaves[l]? = some leaf ∧ leaf.parent = some i
  counts : ∀ (i : ℕ) (node : TreemapNodeParent), t.nodes[i]? = some node →
    node.children.countP (fun child => !child.is_parent) =
      done.countP fun leaf => s.finds i leaf.nist_control

variable {s : Scaffold} {t t' : Treemap} {done : List TreemapNodeLeaf}

theorem parented_nil (sound : s.Sound [0]) : Parented s [] ⟨s.nodes, []⟩ where
  parents i l child := absurd child (sound.leafless i l)
  counts i node here := by
    rw [List.countP_nil, List.countP_eq_zero]
    intro child inside
    cases child with
    | parent n => simp [TreemapNode.is_parent]
    | leaf l => exact absurd ⟨node, here, inside⟩ (sound.leafless i l)

theorem Parented.parents_concat (parented : Parented s done t) {i l : ℕ} (last : TreemapNodeLeaf)
    (child : HasChild t.nodes i (.leaf l)) :
    ∃ leaf, (t.leaves ++ [last])[l]? = some leaf ∧ leaf.parent = some i := by
  obtain ⟨leaf, there, parent⟩ := parented.parents i l child
  exact ⟨leaf, getElem?_append_of_some there, parent⟩

theorem Parented.counts_concat (parented : Parented s done t) {i : ℕ} {node : TreemapNodeParent}
    (here : t.nodes[i]? = some node) (last : TreemapNodeLeaf) :
    (done ++ [last]).countP (fun leaf => s.finds i leaf.nist_control) =
      node.children.countP (fun child => !child.is_parent) +
        if s.finds i last.nist_control then 1 else 0 := by
  rw [List.countP_append, List.countP_singleton, parented.counts i node here]

theorem Parented.place (parented : Parented s done t) (populated : Populated s done t)
    (sound : s.Sound [0]) {leaf : TreemapNodeLeaf}
    (step : placeLeaf s.controlLookup depthMax t leaf = .ok t') :
    Parented s (done ++ [leaf]) t' := by
  unfold placeLeaf at step
  cases known : s.controlLookup.get (lookup_key_for leaf.nist_control depthMax) with
  | own parent =>
      rw [known] at step
      cases step
      obtain ⟨c, path, -⟩ := (sound.found _ parent).mp known
      rw [← populated.paths] at path
      have inside := lt_of_path path
      refine ⟨fun i l child => ?_, fun i node here => ?_⟩
      · rcases (hasChild_push inside).mp child with old | ⟨rfl, new⟩
        · exact parented.parents_concat _ old
        · obtain rfl := TreemapNode.leaf.inj new
          exact ⟨_, List.getElem?_concat_length, rfl⟩
      · rw [getElem?_push] at here
        obtain ⟨before, there, rfl⟩ := Option.map_eq_some_iff.mp here
        have finds : s.finds i leaf.nist_control = (parent == i) := by
          rw [Scaffold.finds, known]
        rw [parented.counts_concat there, finds]
        by_cases same : parent = i
        · rw [if_pos same, if_pos (by simpa using same), List.countP_append]
          rfl
        · rw [if_neg same, if_neg (by simpa using same), Nat.add_zero]
  | inherited =>
      rw [known] at step
      cases step
  | absent =>
      rw [known] at step
      cases step
      refine ⟨fun i l child => parented.parents_concat _ child, fun i node here => ?_⟩
      have finds : s.finds i leaf.nist_control = false := by
        rw [Scaffold.finds, known]
      rw [parented.counts_concat here, finds]
      rfl

theorem populate_parented (sound : s.Sound [0]) {data : List TreemapNodeLeaf}
    (returned : populate_tree_map s.controlLookup data depthMax s.nodes = .ok t) :
    Parented s data t := by
  have invariant := foldlM_invariant (I := fun done t => Populated s done t ∧ Parented s done t)
    (fun done t leaf t' ⟨populated, parented⟩ step =>
      ⟨populated.place sound step, parented.place populated sound step⟩)
    ⟨populated_nil sound, parented_nil sound⟩ returned
  exact invariant.2

end Parented

section Weights

theorem sum_map_ite {α : Type} (p : α → Bool) (a b : ℚ) (xs : List α) :
    (xs.map fun x => if p x then a else b).sum =
      xs.countP p * a + (xs.countP fun x => !p x) * b := by
  induction xs with
  | nil => simp
  | cons x xs ih =>
      rw [List.map_cons, List.sum_cons, ih]
      cases here : p x with
      | true =>
          rw [List.countP_cons_of_pos here, List.countP_cons_of_neg (by simp [here])]
          rw [if_pos rfl, Nat.cast_succ]
          ring
      | false =>
          rw [List.countP_cons_of_neg (by simp [here]), List.countP_cons_of_pos (by simp [here])]
          rw [if_neg (by decide), Nat.cast_succ]
          ring

/-- What a node is worth with this many categories and leaves in it. -/
def weight (categories leaves : ℕ) : ℚ :=
  if categories + leaves = 0 then 1 else categories + leaves / (categories + leaves)

theorem weight_zero (leaves : ℕ) : weight 0 leaves = 1 := by
  unfold weight
  rw [Nat.zero_add]
  by_cases none : leaves = 0
  · rw [if_pos none]
  · have some : (leaves : ℚ) ≠ 0 := Nat.cast_ne_zero.mpr none
    rw [if_neg none, Nat.cast_zero, zero_add, zero_add, div_self some]

variable {s : Scaffold} {t : Treemap} {done : List TreemapNodeLeaf} {n : ℕ}
  {node : TreemapNodeParent}

theorem Parented.leaf_value (parented : Parented s done t) {l : ℕ}
    (child : HasChild t.nodes n (.leaf l)) : t.nodeValue (.leaf l) = 1 / t.width n := by
  obtain ⟨leaf, there, parent⟩ := parented.parents n l child
  rw [Treemap.nodeValue, there, Option.bind_some, parent]

/-- The sum of a node whose categories are worth 1 each. -/
theorem Parented.node_sum (parented : Parented s done t) (here : t.nodes[n]? = some node) (fuel : ℕ)
    (categories : ∀ j, .parent j ∈ node.children → t.sum (fuel + 1) (.parent j) = some 1) :
    t.sum (fuel + 2) (.parent n) = some (weight (node.children.countP (·.is_parent))
      (node.children.countP fun child => !child.is_parent)) := by
  have below : node.children.mapM (t.sum (fuel + 1)) = some
      (node.children.map fun child => if child.is_parent then 1 else 1 / (t.width n : ℚ)) := by
    refine mapM_eq_some_map fun child inside => ?_
    cases child with
    | parent j => exact categories j inside
    | leaf l =>
        rw [Treemap.sum, parented.leaf_value ⟨node, here, inside⟩]
        rfl
  set k := node.children.countP (·.is_parent)
  set m := node.children.countP fun child => !child.is_parent
  have width : t.width n = k + m := by
    rw [Treemap.width, here, Option.map_some, Option.getD_some,
      List.length_eq_countP_add_countP (·.is_parent)]
    simp only [Bool.not_eq_true, Bool.decide_eq_false]
    rfl
  have value : t.sum (fuel + 2) (.parent n) =
      some (t.nodeValue (.parent n) + (k * 1 + m * (1 / (t.width n : ℚ)))) := by
    rw [Treemap.sum, here, Option.map_some, Option.getD_some, below, ← sum_map_ite]
    rfl
  rw [value, Treemap.nodeValue, weight, width]
  by_cases none : k + m = 0
  · obtain ⟨noCategory, noLeaf⟩ := Nat.add_eq_zero_iff.mp none
    rw [if_pos none, if_pos none, noCategory, noLeaf]
    simp
  · rw [if_neg none, if_neg none]
    push_cast
    ring_nf

/-- A category is worth 1, however many leaves fall into it. -/
theorem Parented.category_sum (parented : Parented s done t) (populated : Populated s done t)
    (sound : s.Sound [0]) (here : t.nodes[n]? = some node)
    (two : node.nist_control.subSpecifiers.length = depthMax) (fuel : ℕ) :
    t.sum (fuel + 2) (.parent n) = some 1 := by
  have childless : ∀ j, .parent j ∉ node.children := by
    intro j inside
    obtain ⟨c, x, above, below⟩ := sound.adds n j ((populated.inner n j).mp ⟨node, here, inside⟩)
    rw [← populated.paths] at above
    obtain rfl := Option.some.inj ((path_of_node here).symm.trans above)
    have short := (sound.plain _ (List.mem_of_getElem? below)).2
    rw [List.length_append, two] at short
    exact Nat.not_succ_le_self _ short
  have none : node.children.countP (·.is_parent) = 0 := by
    rw [List.countP_eq_zero]
    intro child inside
    cases child with
    | parent j => exact absurd inside (childless j)
    | leaf l => exact Bool.false_ne_true
  rw [parented.node_sum here fuel fun j inside => absurd inside (childless j), none, weight_zero]

/-- The key of a family is the key of the tags that are the bare family, and of no others. -/
theorem lookup_key_family {family : JsString} (plain : Plain [family]) (tag : NistControl) :
    lookup_key_for tag depthMax = family ↔ tag.subSpecifiers = [family] := by
  obtain ⟨filled, undashed⟩ := plain family List.mem_cons_self
  have key : lookup_key_for tag depthMax = join (js "-") (tag.subSpecifiers.take depthMax) :=
    if_pos (by decide)
  rw [key]
  match tag.subSpecifiers with
  | [] => exact iff_of_false (fun same => filled same.symm) (by simp)
  | [x] => exact List.singleton_inj.symm
  | x :: y :: rest =>
      refine iff_of_false (fun same => undashed ?_) (by simp)
      rw [← same, show (x :: y :: rest).take depthMax = [x, y] from rfl, join_cons_cons]
      simp

/-- A family is looked up for the tags that are the bare family. -/
theorem finds_family (sound : s.Sound [0]) (root : (paths s.nodes)[0]? = some [])
    {family : JsString} (path : (paths s.nodes)[n]? = some [family]) (tag : NistControl) :
    s.finds n tag = decide (tag.subSpecifiers = [family]) := by
  have plain := (sound.plain _ (List.mem_of_getElem? path)).1
  have registered : n ∉ [0] :=
    registered_of_filled root (path.trans rfl) (List.cons_ne_nil family [])
  rw [Bool.eq_iff_iff, Scaffold.finds_iff, sound.found, decide_eq_true_iff,
    ← lookup_key_family plain]
  constructor
  · rintro ⟨c, there, same, -⟩
    obtain rfl := Option.some.inj (path.symm.trans there)
    exact same.symm
  · intro same
    exact ⟨_, path, same.symm, registered⟩

/-- The sum of a family: every category counts 1, and the leaves share another 1 with them. -/
theorem Parented.family_sum (parented : Parented s done t) (populated : Populated s done t)
    (sound : s.Sound [0]) (root : (paths s.nodes)[0]? = some []) (here : t.nodes[n]? = some node)
    {family : JsString} (chain : node.nist_control.subSpecifiers = [family]) (fuel : ℕ) :
    t.sum (fuel + 3) (.parent n) = some (weight (node.children.countP (·.is_parent))
      (done.countP fun leaf => leaf.nist_control.subSpecifiers = [family])) := by
  have path := path_of_node here
  rw [chain] at path
  have categories : ∀ j, .parent j ∈ node.children → t.sum (fuel + 2) (.parent j) = some 1 := by
    intro j inside
    obtain ⟨c, x, above, below⟩ := sound.adds n j ((populated.inner n j).mp ⟨node, here, inside⟩)
    rw [← populated.paths] at above below
    obtain rfl := Option.some.inj (path.symm.trans above)
    obtain ⟨category, there, same⟩ := node_of_path below
    exact parented.category_sum populated sound there (by rw [same]; rfl) fuel
  rw [populated.paths] at path
  rw [parented.node_sum here (fuel + 1) categories, parented.counts n node here]
  simp only [finds_family sound root path]

end Weights

section Built
variable {control_unique_key : StoredControl → Except JsError JsString}
  {cs : List StoredControl} {tree : Treemap}

/-- In a tree map that was built every category is worth 1, and a family with `k` categories and
`m` tags that are the bare family is worth `k + m / (k + m)`. -/
theorem treemap_weights (built : build_nist_tree_map control_unique_key cs = .ok tree) {n : ℕ}
    {node : TreemapNodeParent} (here : tree.nodes[n]? = some node) (fuel : ℕ) :
    (node.nist_control.subSpecifiers.length = 2 →
      tree.sum (fuel + 2) (.parent n) = some 1) ∧
    ∀ family, node.nist_control.subSpecifiers = [family] →
      tree.sum (fuel + 3) (.parent n) = some (weight (node.children.countP (·.is_parent))
        ((cs.flatMap (·.tags)).countP fun tag => tag.subSpecifiers = [family])) := by
  obtain ⟨s, leaves, furnished, made, returned⟩ := build_steps built
  have populated := populate_populated furnished.sound returned
  have parented := populate_parented furnished.sound returned
  refine ⟨fun two => parented.category_sum populated furnished.sound here two fuel,
    fun family chain => ?_⟩
  have tags : leaves.map (·.nist_control) = cs.flatMap (·.tags) := by
    calc leaves.map (·.nist_control)
        = (leaves.map TreemapNodeLeaf.shows).map Prod.snd := by
          rw [List.map_map]
          rfl
      _ = cs.flatMap (·.tags) := by
          rw [(controls_to_leaves made).2, List.map_flatMap]
          simp only [List.map_map, Function.comp_def, List.map_id']
  rw [parented.family_sum populated furnished.sound furnished.root here chain fuel, ← tags,
    List.countP_map]
  rfl

end Built

section Samples

def familyFile : ExecJSON := sampleExec
  [⟨js "base", .undefined,
    [bareControl "C-1" [("nist", .arr [.str (js "AU"), .str (js "AU-2")])]]⟩]

def familyControls : List StoredControl := allControls (sampleStore [("f", familyFile)]) [js "f"]

theorem familyControls_mapped : ∀ c ∈ familyControls, ∀ t ∈ c.tags, Mapped t := by
  have tags : (familyControls.all fun c => c.tags.all fun t =>
      t = ⟨[js "AU"], some (js "AU")⟩ || t = audit) = true := by decide +kernel
  intro c inside t listed
  have known := List.all_eq_true.mp (List.all_eq_true.mp tags c inside) t listed
  rcases Bool.or_eq_true_iff.mp known with family | category
  · rw [of_decide_eq_true family]
    exact mapped_of_family (by decide +kernel) _
  · rw [of_decide_eq_true category]
    exact mapped_of_number (n := js "AU-2") (by decide +kernel) (by decide +kernel)
      (by decide +kernel)

theorem treemap_weights_sample : ∃ (tree : Treemap) (family category : ℕ)
    (familyNode categoryNode : TreemapNodeParent),
    build_nist_tree_map (fun c => .ok c.file) familyControls = .ok tree ∧
      tree.nodes[family]? = some familyNode ∧ familyNode.nist_control.subSpecifiers = [js "AU"] ∧
      tree.sum 3 (.parent family) =
        some (weight (familyNode.children.countP (·.is_parent)) 1) ∧
      tree.nodes[category]? = some categoryNode ∧
      categoryNode.nist_control.subSpecifiers = audit.subSpecifiers ∧
      tree.sum 2 (.parent category) = some 1 := by
  have rooted : ∀ c ∈ familyControls, c.Rooted := StoredControl.rooted_of_all (by decide +kernel)
  have viewed : ∀ c ∈ familyControls, ∃ hdf, c.rootHdf = .ok (some hdf) := by
    intro c inside
    exact (@InspecData.Loaded.tagged asciiTables _ (sampleStore_loaded _) _ c inside
      (rooted c inside)).imp fun _ => And.left
  obtain ⟨tree, built⟩ := build_returns viewed (fun c _ => ⟨c.file, rfl⟩) familyControls_mapped
  obtain ⟨family, familyNode, here, chain⟩ := exists_node built audit_family
  obtain ⟨category, categoryNode, there, pair⟩ := exists_node (t := audit) built
    (mapped_of_number (n := js "AU-2") (by decide +kernel) (by decide +kernel) (by decide +kernel))
  have tagged : (familyControls.flatMap (·.tags)).countP
      (fun tag => tag.subSpecifiers = [js "AU"]) = 1 := by decide +kernel
  have worth := (treemap_weights built here 0).2 (js "AU") chain
  rw [tagged] at worth
  have one := (treemap_weights built there 0).1 (by rw [pair]; rfl)
  exact ⟨tree, family, category, familyNode, categoryNode, built, here, chain, worth, there, pair,
    one⟩

end Samples
end Frontend
