import Heimdall.Lib.Prefixes
import Heimdall.Inspec.NistHierarchy
import Heimdall.Inspec.NistOrder
import Heimdall.Frontend.LoadedData

/-!
# The tree map

The scaffold of families and categories that is built from the NIST hierarchy, and the leaves
that are placed in it: one for every tag of every control. A node and its children refer to
each other, so nodes and leaves are known by their numbers.
-/
namespace Frontend
open Js Lib Inspec Relation

def depthMax : ℕ := 2

/-- A child: another node, or a leaf. -/
inductive TreemapNode where
  | parent (node : ℕ)
  | leaf (leaf : ℕ)

structure TreemapNodeParent where
  nist_control : NistControl
  parent : Option ℕ
  children : List TreemapNode

structure TreemapNodeLeaf where
  key : JsString
  control : StoredControl
  nist_control : NistControl
  parent : Option ℕ

structure Treemap where
  nodes : List TreemapNodeParent
  leaves : List TreemapNodeLeaf

/-- The nodes that were made so far, and the table in which they are looked up. -/
structure Scaffold where
  nodes : List TreemapNodeParent
  controlLookup : Hash ℕ

section Leaves
variable (control_unique_key : StoredControl → Except JsError JsString)

/-- The leaves of one control. The key of the control may throw. -/
def leavesOf (cc : StoredControl) : Except JsError (List TreemapNodeLeaf) := do
  let hdf ← cc.rootHdf
  let hdf ← orThrow hdf (.typeError "Cannot read properties of undefined (reading 'status')")
  hdf.parsedNistTags.mapM fun nc => do
    let key ← control_unique_key cc
    return {
      key := key ++ nc.rawText.getD (js "undefined")
      control := cc
      nist_control := nc
      parent := none }

def controls_to_nist_node_data (contextualizedControls : List StoredControl) :
    Except JsError (List TreemapNodeLeaf) := do
  let leaves ← contextualizedControls.mapM (leavesOf control_unique_key)
  return leaves.flatten

end Leaves

section Build

/-- `nodes[parent].children.push(child)` -/
def push (nodes : List TreemapNodeParent) (parent : ℕ) (child : TreemapNode) :
    List TreemapNodeParent :=
  nodes.modify parent fun node => { node with children := node.children ++ [child] }

def lookup_key_for (x : NistControl) (maxDepth : ℕ) : JsString :=
  if maxDepth ≠ 0 then join (js "-") (x.subSpecifiers.take maxDepth)
  else join (js "-") x.subSpecifiers

/-- The node that was made is pushed to the children of its parent. -/
def adopt (parent : ℕ) (made : ℕ × Scaffold) : Scaffold :=
  { made.2 with nodes := push made.2.nodes parent (.parent made.1) }

/-- The number of the new node. The fuel is never used up by a hierarchy without a cycle. -/
def recursive_nist_map (h : NistHierarchy) (maxDepth : ℕ) :
    ℕ → Option ℕ → ℕ → Scaffold → Except JsError (ℕ × Scaffold)
  | 0, _, _, _ => .error (.rangeError "Maximum call stack size exceeded")
  | fuel + 1, parent, node, s =>
      match h.nodes[node]? with
      | none => .error (.typeError "Cannot read properties of undefined (reading 'control')")
      | some node => do
          let ret := s.nodes.length
          let s := { s with nodes := s.nodes ++ [⟨node.control, parent, []⟩] }
          let s ← if node.control.subSpecifiers.length < maxDepth then
              node.children.foldlM (fun s child => do
                let made ← recursive_nist_map h maxDepth fuel (some ret) child s
                return adopt ret made) s
            else .ok s
          return (ret, { s with
            controlLookup := s.controlLookup.set (lookup_key_for node.control maxDepth) ret })

/-- Every inherited member is truthy and has no children. -/
def placeLeaf (lookup : Hash ℕ) (maxDepth : ℕ) (t : Treemap) (leaf : TreemapNodeLeaf) :
    Except JsError Treemap :=
  match lookup.get (lookup_key_for leaf.nist_control maxDepth) with
  | .own parent => .ok {
      nodes := push t.nodes parent (.leaf t.leaves.length)
      leaves := t.leaves ++ [{ leaf with parent := some parent }] }
  | .inherited => .error (.typeError "Cannot read properties of undefined (reading 'push')")
  | .absent => .ok { t with leaves := t.leaves ++ [leaf] }

def populate_tree_map (lookup : Hash ℕ) (leaves : List TreemapNodeLeaf) (maxDepth : ℕ)
    (nodes : List TreemapNodeParent) : Except JsError Treemap :=
  leaves.foldlM (placeLeaf lookup maxDepth) ⟨nodes, []⟩

/-- The root, and below it a node for every root of the hierarchy. -/
def scaffold (h : NistHierarchy) : Except JsError Scaffold :=
  h.roots.foldlM (fun s n => do
    let made ← recursive_nist_map h depthMax (h.nodes.length + 1) (some 0) n s
    return adopt 0 made)
    ⟨[⟨⟨[], some (js "NIST-853")⟩, none, []⟩], []⟩

def build_populated_nist_map (data : List TreemapNodeLeaf) : Except JsError Treemap := do
  let hierarchy ← FULL_NIST_HIERARCHY
  let s ← scaffold hierarchy
  populate_tree_map s.controlLookup data depthMax s.nodes

def build_nist_tree_map (control_unique_key : StoredControl → Except JsError JsString)
    (data : List StoredControl) : Except JsError Treemap := do
  let leaves ← controls_to_nist_node_data control_unique_key data
  build_populated_nist_map leaves

end Build

section Scaffolding

def paths (nodes : List TreemapNodeParent) : List (List JsString) :=
  nodes.map (·.nist_control.subSpecifiers)

def HasChild (nodes : List TreemapNodeParent) (i : ℕ) (child : TreemapNode) : Prop :=
  ∃ node : TreemapNodeParent, nodes[i]? = some node ∧ child ∈ node.children

variable {nodes : List TreemapNodeParent}

theorem length_paths (nodes : List TreemapNodeParent) : (paths nodes).length = nodes.length :=
  List.length_map _

theorem paths_concat (nodes : List TreemapNodeParent) (node : TreemapNodeParent) :
    paths (nodes ++ [node]) = paths nodes ++ [node.nist_control.subSpecifiers] := List.map_append

theorem lt_of_path {i : ℕ} {c : List JsString} (here : (paths nodes)[i]? = some c) :
    i < nodes.length := by
  rw [← length_paths]
  exact (List.getElem?_eq_some_iff.mp here).1

theorem path_of_node {i : ℕ} {node : TreemapNodeParent} (here : nodes[i]? = some node) :
    (paths nodes)[i]? = some node.nist_control.subSpecifiers :=
  (List.getElem?_map ..).trans (congrArg _ here)

theorem node_of_path {i : ℕ} {c : List JsString} (here : (paths nodes)[i]? = some c) :
    ∃ node, nodes[i]? = some node ∧ node.nist_control.subSpecifiers = c :=
  Option.map_eq_some_iff.mp ((List.getElem?_map ..).symm.trans here)

theorem paths_concat_of_some {i : ℕ} {c : List JsString} (here : (paths nodes)[i]? = some c)
    (node : TreemapNodeParent) : (paths (nodes ++ [node]))[i]? = some c := by
  rw [paths_concat]
  exact getElem?_append_of_some here

theorem paths_concat_last (nodes : List TreemapNodeParent) (node : TreemapNodeParent) :
    (paths (nodes ++ [node]))[nodes.length]? = some node.nist_control.subSpecifiers := by
  rw [paths_concat, ← length_paths, List.getElem?_concat_length]

theorem paths_concat_cases {node : TreemapNodeParent} {i : ℕ} {c : List JsString}
    (here : (paths (nodes ++ [node]))[i]? = some c) :
    (paths nodes)[i]? = some c ∨ i = nodes.length ∧ c = node.nist_control.subSpecifiers := by
  rw [paths_concat] at here
  rw [← length_paths]
  exact getElem?_concat_cases here

theorem getElem?_push (nodes : List TreemapNodeParent) (parent : ℕ) (child : TreemapNode)
    (i : ℕ) : (push nodes parent child)[i]? = nodes[i]?.map fun node =>
      if parent = i then { node with children := node.children ++ [child] } else node :=
  List.getElem?_modify ..

theorem paths_push (nodes : List TreemapNodeParent) (parent : ℕ) (child : TreemapNode) :
    paths (push nodes parent child) = paths nodes := by
  refine List.ext_getElem? fun i => ?_
  unfold paths
  rw [List.getElem?_map, List.getElem?_map, getElem?_push, Option.map_map]
  refine congrArg (fun f => Option.map f nodes[i]?) (funext fun node => ?_)
  show (if parent = i then _ else node : TreemapNodeParent).nist_control.subSpecifiers = _
  split <;> rfl

theorem hasChild_concat {control : NistControl} {parent : Option ℕ} {i : ℕ}
    {child : TreemapNode} :
    HasChild (nodes ++ [⟨control, parent, []⟩]) i child ↔ HasChild nodes i child := by
  constructor
  · rintro ⟨node, here, inside⟩
    rcases getElem?_concat_cases here with old | ⟨-, rfl⟩
    · exact ⟨node, old, inside⟩
    · cases inside
  · rintro ⟨node, here, inside⟩
    exact ⟨node, getElem?_append_of_some here, inside⟩

theorem hasChild_push {parent i : ℕ} {new child : TreemapNode} (known : parent < nodes.length) :
    HasChild (push nodes parent new) i child ↔
      HasChild nodes i child ∨ i = parent ∧ child = new := by
  unfold HasChild
  rw [getElem?_push]
  by_cases here : parent = i
  · subst here
    rw [List.getElem?_eq_getElem known]
    simp
  · have other : i ≠ parent := fun same => here same.symm
    simp [here, other]

namespace Scaffold

/-- The nodes `pending` are made but not yet looked up, nor among the children of a node. -/
structure Sound (pending : List ℕ) (s : Scaffold) : Prop where
  plain : ∀ c ∈ paths s.nodes, Plain c ∧ c.length ≤ depthMax
  distinct : ∀ (i j : ℕ) (c : List JsString), (paths s.nodes)[i]? = some c →
    (paths s.nodes)[j]? = some c → i = j
  found : ∀ (key : JsString) (i : ℕ), s.controlLookup.get key = .own i ↔
    ∃ c, (paths s.nodes)[i]? = some c ∧ join (js "-") c = key ∧ i ∉ pending
  adds : ∀ i j : ℕ, HasChild s.nodes i (.parent j) →
    ∃ c x, (paths s.nodes)[i]? = some c ∧ (paths s.nodes)[j]? = some (c ++ [x])
  linked : ∀ (j : ℕ) (c : List JsString) (x : JsString),
    (paths s.nodes)[j]? = some (c ++ [x]) → j ∉ pending →
    ∃ i, (paths s.nodes)[i]? = some c ∧ HasChild s.nodes i (.parent j)
  leafless : ∀ i l, ¬ HasChild s.nodes i (.leaf l)

variable {pending : List ℕ} {s : Scaffold}

theorem Sound.alloc (sound : Sound pending s) {control : NistControl} (parent : Option ℕ)
    (plain : Plain control.subSpecifiers) (short : control.subSpecifiers.length ≤ depthMax)
    (fresh : control.subSpecifiers ∉ paths s.nodes) :
    Sound (s.nodes.length :: pending)
      { s with nodes := s.nodes ++ [⟨control, parent, []⟩] } := by
  refine ⟨fun c inside => ?_, fun i j c hi hj => ?_, fun key i => ?_, fun i j child => ?_,
    fun j c x here registered => ?_, fun i l => ?_⟩
  · change c ∈ paths (s.nodes ++ [⟨control, parent, []⟩]) at inside
    rw [paths_concat] at inside
    rcases List.mem_append.mp inside with before | new
    · exact sound.plain c before
    · rw [List.mem_singleton.mp new]
      exact ⟨plain, short⟩
  · rcases paths_concat_cases hi with hi | ⟨rfl, rfl⟩
    · rcases paths_concat_cases hj with hj | ⟨-, rfl⟩
      · exact sound.distinct i j c hi hj
      · exact absurd (List.mem_of_getElem? hi) fresh
    · rcases paths_concat_cases hj with hj | ⟨rfl, -⟩
      · exact absurd (List.mem_of_getElem? hj) fresh
      · rfl
  · rw [sound.found key i]
    constructor
    · rintro ⟨c, here, same, registered⟩
      exact ⟨c, paths_concat_of_some here _, same,
        List.not_mem_cons_of_ne_of_not_mem (Nat.ne_of_lt (lt_of_path here)) registered⟩
    · rintro ⟨c, here, same, registered⟩
      obtain ⟨other, registered⟩ := List.ne_and_not_mem_of_not_mem_cons registered
      exact ⟨c, (paths_concat_cases here).resolve_right fun new => other new.1, same,
        registered⟩
  · obtain ⟨c, x, above, below⟩ := sound.adds i j (hasChild_concat.mp child)
    exact ⟨c, x, paths_concat_of_some above _, paths_concat_of_some below _⟩
  · obtain ⟨other, registered⟩ := List.ne_and_not_mem_of_not_mem_cons registered
    obtain ⟨i, above, child⟩ := sound.linked j c x
      ((paths_concat_cases here).resolve_right fun new => other new.1) registered
    exact ⟨i, paths_concat_of_some above _, hasChild_concat.mpr child⟩
  · rw [hasChild_concat]
    exact sound.leafless i l

theorem Sound.finish {r p : ℕ} (sound : Sound (r :: pending) s) (once : r ∉ pending)
    {c : List JsString} {x : JsString} (here : (paths s.nodes)[r]? = some (c ++ [x]))
    (parent : (paths s.nodes)[p]? = some c) :
    Sound pending {
      nodes := push s.nodes p (.parent r)
      controlLookup := s.controlLookup.set (join (js "-") (c ++ [x])) r } := by
  have known := lt_of_path parent
  have plain := fun {i c} (at_i : (paths s.nodes)[i]? = some c) =>
    (sound.plain c (List.mem_of_getElem? at_i)).1
  refine ⟨?_, ?_, fun key i => ?_, fun i j child => ?_, fun j d y there registered => ?_,
    fun i l => ?_⟩
  · rw [paths_push]
    exact sound.plain
  · rw [paths_push]
    exact sound.distinct
  · rw [paths_push, Hash.get_set]
    by_cases same : key = join (js "-") (c ++ [x])
    · rw [if_pos same]
      constructor
      · rintro ⟨⟩
        exact ⟨_, here, same.symm, once⟩
      · rintro ⟨d, there, key', -⟩
        obtain rfl := join_injective (plain there) (plain here) (key'.trans same)
        exact congrArg _ (sound.distinct r i _ here there)
    · rw [if_neg same, sound.found key i]
      constructor
      · rintro ⟨d, there, key', registered⟩
        exact ⟨d, there, key', List.not_mem_of_not_mem_cons registered⟩
      · rintro ⟨d, there, rfl, registered⟩
        refine ⟨d, there, rfl, List.not_mem_cons_of_ne_of_not_mem ?_ registered⟩
        rintro rfl
        exact same (congrArg _ (Option.some.inj (there.symm.trans here)))
  · rw [paths_push]
    rcases (hasChild_push known).mp child with old | ⟨rfl, new⟩
    · exact sound.adds i j old
    · cases new
      exact ⟨c, x, parent, here⟩
  · rw [paths_push] at there ⊢
    by_cases new : j = r
    · subst new
      obtain ⟨rfl, -⟩ := List.append_inj' (Option.some.inj (there.symm.trans here)) rfl
      exact ⟨p, parent, (hasChild_push known).mpr (.inr ⟨rfl, rfl⟩)⟩
    · obtain ⟨i, above, child⟩ :=
        sound.linked j d y there (List.not_mem_cons_of_ne_of_not_mem new registered)
      exact ⟨i, above, (hasChild_push known).mpr (.inl child)⟩
  · rw [hasChild_push known]
    rintro (old | ⟨-, new⟩)
    · exact sound.leafless i l old
    · cases new

/-- The table and the lists of children of the root alone. -/
theorem sound_root (control : NistControl) (empty : control.subSpecifiers = []) :
    Sound [0] ⟨[⟨control, none, []⟩], []⟩ := by
  have only : ∀ {i : ℕ} {c : List JsString},
      (paths [⟨control, none, []⟩])[i]? = some c → i = 0 ∧ c = [] := by
    intro i c here
    have inside : ([] ++ [control.subSpecifiers])[i]? = some c := here
    rcases getElem?_concat_cases inside with none | ⟨rfl, rfl⟩
    · cases none
    · exact ⟨rfl, empty⟩
  have childless : ∀ i child, ¬ HasChild [⟨control, none, []⟩] i child := by
    rintro i child ⟨node, here, inside⟩
    rw [List.mem_singleton.mp (List.mem_of_getElem? here)] at inside
    cases inside
  refine ⟨fun c inside => ?_, fun i j c hi hj => ?_, fun key i => ?_, fun i j child => ?_,
    fun j c x here => ?_, fun i l => childless i _⟩
  · obtain ⟨i, here⟩ := List.getElem?_of_mem inside
    rw [(only here).2]
    exact ⟨List.forall_mem_nil _, Nat.zero_le _⟩
  · rw [(only hi).1, (only hj).1]
  · refine iff_of_false (fun known => ?_) ?_
    · unfold Hash.get at known
      change (if key ∈ objectPrototype then Member.inherited else .absent) = _ at known
      split at known <;> cases known
    · rintro ⟨c, here, -, registered⟩
      exact registered (List.mem_singleton.mpr (only here).1)
  · exact absurd child (childless i _)
  · have nothing := (only here).2
    simp at nothing

variable {h : NistHierarchy}

/-- A category ends the recursion. -/
theorem recursive_category {node : NistHierarchyNode} {i : ℕ} (fuel : ℕ) (parent : Option ℕ)
    (here : h.nodes[i]? = some node) (two : node.control.subSpecifiers.length = depthMax)
    (s : Scaffold) :
    recursive_nist_map h depthMax (fuel + 1) parent i s = .ok (s.nodes.length, {
      nodes := s.nodes ++ [⟨node.control, parent, []⟩]
      controlLookup := s.controlLookup.set (join (js "-") node.control.subSpecifiers)
        s.nodes.length }) := by
  have key : lookup_key_for node.control depthMax = join (js "-") node.control.subSpecifiers := by
    unfold lookup_key_for
    rw [if_pos (by decide), ← two, List.take_length]
  rw [recursive_nist_map, here]
  simp only [two, lt_self_iff_false, if_false, key]
  rfl

/-- A category is made below its family. -/
theorem sound_category {p i : ℕ} {node : NistHierarchyNode} {family x : JsString} (fuel : ℕ)
    (found : h.nodes[i]? = some node) (same : node.control.subSpecifiers = [family] ++ [x])
    (plain : Plain ([family] ++ [x])) (fresh : [family] ++ [x] ∉ paths s.nodes)
    (sound : Sound pending s) (bound : ∀ i ∈ pending, i < (paths s.nodes).length)
    (here : (paths s.nodes)[p]? = some [family]) :
    ∃ s', (do
        let made ← recursive_nist_map h depthMax (fuel + 1) (some p) i s
        return adopt p made) = Except.ok s' ∧
      Sound pending s' ∧ paths s'.nodes = paths s.nodes ++ [[family] ++ [x]] := by
  have made := recursive_category fuel (some p) found (by rw [same]; rfl) s
  have concat := paths_concat s.nodes ⟨node.control, some p, []⟩
  have allocated := sound.alloc (some p) (same ▸ plain) (by rw [same]; rfl) (same ▸ fresh)
  have once : s.nodes.length ∉ pending := by
    intro inside
    exact Nat.lt_irrefl _ (length_paths s.nodes ▸ bound _ inside)
  have self : (paths (s.nodes ++ [⟨node.control, some p, []⟩]))[s.nodes.length]? =
      some ([family] ++ [x]) := by
    rw [paths_concat_last, same]
  have parent := paths_concat_of_some here ⟨node.control, some p, []⟩
  rw [same] at made concat
  refine ⟨_, do_eq_ok.mpr ⟨_, made, rfl⟩, allocated.finish once self parent, ?_⟩
  exact (paths_push _ _ _).trans concat

/-- The children of a family are made and registered one after the other. -/
theorem sound_categories {fuel p : ℕ} {family : JsString} {children : List ℕ}
    {below : List (List JsString)}
    (lists : NistHierarchy.Lists (NistHierarchy.chains h.nodes) children below)
    (each : ∀ c ∈ below, Plain c ∧ ∃ x, c = [family] ++ [x])
    (distinct : (paths s.nodes ++ below).Nodup) (sound : Sound pending s)
    (bound : ∀ i ∈ pending, i < (paths s.nodes).length)
    (here : (paths s.nodes)[p]? = some [family]) :
    ∃ s', children.foldlM (fun s child => do
        let made ← recursive_nist_map h depthMax (fuel + 1) (some p) child s
        return adopt p made) s = .ok s' ∧
      Sound pending s' ∧ paths s'.nodes = paths s.nodes ++ below := by
  induction children generalizing below s with
  | nil =>
      cases below with
      | nil => exact ⟨s, rfl, sound, (List.append_nil _).symm⟩
      | cons c below => cases lists
  | cons i children ih =>
      cases below with
      | nil => cases lists
      | cons c below =>
          obtain ⟨there, others⟩ := List.cons.inj lists
          obtain ⟨⟨plain, x, rfl⟩, later⟩ := List.forall_mem_cons.mp each
          obtain ⟨node, found, same⟩ :=
            Option.map_eq_some_iff.mp ((List.getElem?_map ..).symm.trans there)
          have fresh : [family] ++ [x] ∉ paths s.nodes := fun inside =>
            (List.nodup_append.mp distinct).2.2 _ inside _ List.mem_cons_self rfl
          obtain ⟨s₁, step, sound₁, paths₁⟩ :=
            sound_category fuel found same plain fresh sound bound here
          rw [List.append_cons, ← paths₁] at distinct ⊢
          obtain ⟨s₂, rest, spec⟩ := ih others later distinct sound₁ (fun i inside => by
              rw [paths₁, List.length_append]
              exact Nat.lt_add_right _ (bound i inside)) (by
              rw [paths₁]
              exact getElem?_append_of_some here)
          exact ⟨s₂, foldlM_cons_of_ok step rest, spec⟩

variable {controls : List NistControl}

/-- A family is made below the root, with its categories. -/
theorem sound_family {i fuel : ℕ} (catalogue : Catalogue controls) (complete : Complete controls h)
    {family : JsString} (inside : i ∈ h.roots) (known : ALL_NIST_FAMILIES[i]? = some family)
    (distinct : (paths s.nodes ++ block controls family).Nodup) (sound : Sound [0] s)
    (here : (paths s.nodes)[0]? = some []) :
    ∃ s', (do
        let made ← recursive_nist_map h depthMax (fuel + 2) (some 0) i s
        return adopt 0 made) = Except.ok s' ∧
      Sound [0] s' ∧ paths s'.nodes = paths s.nodes ++ block controls family := by
  obtain ⟨family', node, known', found, same, lists⟩ := complete.root inside
  obtain rfl : family' = family := Option.some.inj (known'.symm.trans known)
  have concat := paths_concat s.nodes ⟨node.control, some 0, []⟩
  rw [same] at concat
  rw [block, List.append_cons, ← concat] at distinct ⊢
  have fresh : [family'] ∉ paths s.nodes := by
    rw [concat, List.append_assoc] at distinct
    exact fun member => (List.nodup_append.mp distinct).2.2 _ member _ List.mem_cons_self rfl
  have plain : Plain [family'] :=
    List.forall_mem_singleton.mpr (families_plain _ (List.mem_of_getElem? known))
  have allocated := sound.alloc (some 0) (same ▸ plain) (same ▸ Nat.le_succ 1) (same ▸ fresh)
  have self : (paths (s.nodes ++ [⟨node.control, some 0, []⟩]))[s.nodes.length]? =
      some ([] ++ [family']) := by
    rw [paths_concat_last, same, List.nil_append]
  have bound : ∀ i ∈ [s.nodes.length, 0],
      i < (paths (s.nodes ++ [⟨node.control, some 0, []⟩])).length := by
    intro i pending
    rw [concat, List.length_append, length_paths]
    rcases List.mem_pair.mp pending with rfl | rfl
    · exact Nat.lt_succ_self _
    · exact Nat.succ_pos _
  obtain ⟨s₁, loop, sound₁, paths₁⟩ := sound_categories lists
    (fun c listed => catalogue.mem_below listed) distinct allocated bound self
  have made : recursive_nist_map h depthMax (fuel + 2) (some 0) i s = .ok (s.nodes.length,
      { s₁ with
        controlLookup := s₁.controlLookup.set (join (js "-") ([] ++ [family']))
          s.nodes.length }) := by
    rw [recursive_nist_map, found]
    dsimp only
    rw [same, if_pos (show [family'].length < depthMax from Nat.lt_succ_self 1)]
    refine do_eq_ok.mpr ⟨s₁, loop, ?_⟩
    unfold lookup_key_for
    rw [same]
    rfl
  refine ⟨_, do_eq_ok.mpr ⟨_, made, rfl⟩, sound₁.finish ?_ ?_ ?_, (paths_push _ _ _).trans paths₁⟩
  · rw [List.mem_singleton]
    exact Nat.ne_of_gt (lt_of_path here)
  · rw [paths₁]
    exact getElem?_append_of_some self
  · rw [paths₁]
    exact getElem?_append_of_some (paths_concat_of_some here _)

/-- One root of the hierarchy after the other. -/
theorem sound_families {fuel : ℕ} {roots : List ℕ} {families : List JsString}
    (catalogue : Catalogue controls) (complete : Complete controls h)
    (pairs : List.Forall₂ (fun i family => i ∈ h.roots ∧ ALL_NIST_FAMILIES[i]? = some family)
      roots families)
    (distinct : (paths s.nodes ++ families.flatMap (block controls)).Nodup) (sound : Sound [0] s)
    (here : (paths s.nodes)[0]? = some []) :
    ∃ s', roots.foldlM (fun s n => do
        let made ← recursive_nist_map h depthMax (fuel + 2) (some 0) n s
        return adopt 0 made) s = .ok s' ∧
      Sound [0] s' ∧ paths s'.nodes = paths s.nodes ++ families.flatMap (block controls) := by
  induction pairs generalizing s with
  | nil => exact ⟨s, rfl, sound, (List.append_nil _).symm⟩
  | @cons i family roots families first _ ih =>
      rw [List.flatMap_cons, ← List.append_assoc] at distinct ⊢
      obtain ⟨s₁, step, sound₁, paths₁⟩ := sound_family catalogue complete first.1 first.2
        (List.nodup_append.mp distinct).1 sound here
      rw [← paths₁] at distinct ⊢
      obtain ⟨s₂, rest, spec⟩ := ih distinct sound₁ (by
        rw [paths₁]
        exact getElem?_append_of_some here)
      exact ⟨s₂, foldlM_cons_of_ok step rest, spec⟩

/-- The scaffold: the root, and below it the families and their categories. -/
theorem scaffold_sound (catalogue : Catalogue controls) (complete : Complete controls h) :
    ∃ s, scaffold h = .ok s ∧ Sound [0] s ∧ paths s.nodes = [] :: blocks controls := by
  have pairs : List.Forall₂
      (fun i family => i ∈ h.roots ∧ ALL_NIST_FAMILIES[i]? = some family) h.roots
      ALL_NIST_FAMILIES := by
    rw [complete.roots, List.forall₂_iff_get]
    refine ⟨List.length_range, fun i inside inside' => ?_⟩
    rw [List.get_eq_getElem, List.get_eq_getElem, List.getElem_range]
    exact ⟨List.mem_range.mpr inside', List.getElem?_eq_getElem inside'⟩
  have fuel : ∃ fuel, h.nodes.length + 1 = fuel + 2 := by
    have families := complete.families.length_le
    rw [NistHierarchy.length_chains, List.length_map] at families
    exact ⟨h.nodes.length - 1, by have : 1 ≤ ALL_NIST_FAMILIES.length := (by decide); omega⟩
  obtain ⟨fuel, enough⟩ := fuel
  unfold scaffold
  rw [enough]
  exact sound_families catalogue complete pairs catalogue.nodup (sound_root _ rfl) rfl

end Scaffold
end Scaffolding

section Population

/-- What a leaf shows: a control and one of its tags. -/
def TreemapNodeLeaf.shows (leaf : TreemapNodeLeaf) : StoredControl × NistControl :=
  (leaf.control, leaf.nist_control)

/-- The tree `t` after the leaves `done` were placed in the scaffold `s`. -/
structure Populated (s : Scaffold) (done : List TreemapNodeLeaf) (t : Treemap) : Prop where
  paths : paths t.nodes = paths s.nodes
  inner : ∀ i j : ℕ, HasChild t.nodes i (.parent j) ↔ HasChild s.nodes i (.parent j)
  leaves : ∀ i l : ℕ, HasChild t.nodes i (.leaf l) ↔ ∃ leaf, t.leaves[l]? = some leaf ∧
    s.controlLookup.get (lookup_key_for leaf.nist_control depthMax) = .own i
  shown : t.leaves.map TreemapNodeLeaf.shows = done.map TreemapNodeLeaf.shows

variable {s : Scaffold} {t t' : Treemap} {done : List TreemapNodeLeaf}

theorem populated_nil (sound : s.Sound [0]) : Populated s [] ⟨s.nodes, []⟩ where
  paths := rfl
  inner _ _ := Iff.rfl
  leaves i l := iff_of_false (sound.leafless i l) (by simp)
  shown := rfl

/-- What a lookup finds for a longer list of leaves. -/
theorem Populated.leaves_concat (populated : Populated s done t) (i l : ℕ)
    (last : TreemapNodeLeaf) :
    (∃ leaf, (t.leaves ++ [last])[l]? = some leaf ∧
        s.controlLookup.get (lookup_key_for leaf.nist_control depthMax) = .own i) ↔
      HasChild t.nodes i (.leaf l) ∨ l = t.leaves.length ∧
        s.controlLookup.get (lookup_key_for last.nist_control depthMax) = .own i := by
  rw [populated.leaves i l]
  constructor
  · rintro ⟨leaf, here, found⟩
    rcases getElem?_concat_cases here with old | ⟨rfl, rfl⟩
    · exact .inl ⟨leaf, old, found⟩
    · exact .inr ⟨rfl, found⟩
  · rintro (⟨leaf, old, found⟩ | ⟨rfl, found⟩)
    · exact ⟨leaf, getElem?_append_of_some old, found⟩
    · exact ⟨last, List.getElem?_concat_length, found⟩

/-- A leaf goes to the node that is looked up for its tag. -/
theorem Populated.place (populated : Populated s done t) (sound : s.Sound [0])
    {leaf : TreemapNodeLeaf} (placed : placeLeaf s.controlLookup depthMax t leaf = .ok t') :
    Populated s (done ++ [leaf]) t' := by
  unfold placeLeaf at placed
  cases known : s.controlLookup.get (lookup_key_for leaf.nist_control depthMax) with
  | own parent =>
      rw [known] at placed
      cases placed
      obtain ⟨c, here, -⟩ := (sound.found _ parent).mp known
      rw [← populated.paths] at here
      have inside := lt_of_path here
      refine ⟨(paths_push _ _ _).trans populated.paths, fun i j => ?_, fun i l => ?_, ?_⟩
      · rw [hasChild_push inside, populated.inner i j]
        simp
      · refine (hasChild_push inside).trans (Iff.trans ?_
          (populated.leaves_concat i l { leaf with parent := some parent }).symm)
        rw [known]
        apply or_congr_right
        rw [TreemapNode.leaf.injEq, Member.own.injEq, and_comm, eq_comm (a := i)]
      · rw [List.map_append, List.map_append, populated.shown]
        rfl
  | inherited =>
      rw [known] at placed
      cases placed
  | absent =>
      rw [known] at placed
      cases placed
      refine ⟨populated.paths, populated.inner, fun i l => ?_, ?_⟩
      · refine Iff.trans ?_ (populated.leaves_concat i l leaf).symm
        rw [known]
        simp
      · rw [List.map_append, List.map_append, populated.shown]

theorem populate_populated (sound : s.Sound [0]) {data : List TreemapNodeLeaf}
    (returned : populate_tree_map s.controlLookup data depthMax s.nodes = .ok t) :
    Populated s data t := by
  have invariant := foldlM_invariant (I := Populated s)
    (fun done t leaf t' populated placed => populated.place sound placed)
    (populated_nil sound) returned
  exact invariant

theorem registered_of_filled {nodes : List TreemapNodeParent}
    (root : (Frontend.paths nodes)[0]? = some []) {m : ℕ} {chain : List JsString}
    (there : (Frontend.paths nodes)[m]? = some (chain.take depthMax)) (filled : chain ≠ []) :
    m ∉ [0] := by
  intro inside
  rw [List.mem_singleton.mp inside, root] at there
  cases chain with
  | nil => exact filled rfl
  | cons x rest => cases there

/-- The leaf is in the subtree of the node. -/
def Treemap.Under (t : Treemap) (n l : ℕ) : Prop :=
  ∃ m, ReflTransGen (fun i j => HasChild t.nodes i (.parent j)) n m ∧ HasChild t.nodes m (.leaf l)

theorem Populated.pathTree (populated : Populated s done t) (sound : s.Sound [0])
    (root : (Frontend.paths s.nodes)[0]? = some []) :
    PathTree (fun i => (Frontend.paths t.nodes)[i]?)
      fun i j => HasChild t.nodes i (.parent j) := by
  rw [populated.paths]
  refine ⟨sound.distinct, fun i j child => ?_, fun j c x here => ?_⟩
  · exact sound.adds i j ((populated.inner i j).mp child)
  · have registered : j ∉ [0] := by
      rintro inside
      rw [List.mem_singleton.mp inside, root] at here
      simp at here
    obtain ⟨i, above, child⟩ := sound.linked j c x here registered
    exact ⟨i, above, (populated.inner i j).mpr child⟩

/-- The leaves in the subtree of a node are those with a tag below the control of the node. -/
theorem Populated.under_iff (populated : Populated s done t) (sound : s.Sound [0])
    (root : (Frontend.paths s.nodes)[0]? = some []) {n l : ℕ} {p : List JsString}
    (here : (Frontend.paths t.nodes)[n]? = some p) {leaf : TreemapNodeLeaf}
    (placed : t.leaves[l]? = some leaf)
    (occurs : leaf.nist_control.subSpecifiers.take depthMax ∈ Frontend.paths s.nodes)
    (filled : leaf.nist_control.subSpecifiers ≠ []) :
    t.Under n l ↔ p <+: leaf.nist_control.subSpecifiers := by
  obtain ⟨m, there⟩ := List.getElem?_of_mem occurs
  have registered := registered_of_filled root there filled
  have key : lookup_key_for leaf.nist_control depthMax =
      join (js "-") (leaf.nist_control.subSpecifiers.take depthMax) := if_pos (by decide)
  have only : ∀ m', HasChild t.nodes m' (.leaf l) ↔ m' = m := by
    intro m'
    rw [populated.leaves, placed]
    constructor
    · rintro ⟨_, ⟨⟩, found⟩
      obtain ⟨c, at_m', same, -⟩ := (sound.found _ m').mp found
      rw [key] at same
      obtain rfl := join_injective (sound.plain c (List.mem_of_getElem? at_m')).1
        (sound.plain _ occurs).1 same
      exact sound.distinct m' m _ at_m' there
    · rintro rfl
      exact ⟨leaf, rfl, (sound.found _ m').mpr ⟨_, there, key.symm, registered⟩⟩
  have short : p.length ≤ depthMax := by
    rw [populated.paths] at here
    exact (sound.plain p (List.mem_of_getElem? here)).2
  have tree := populated.pathTree sound root
  rw [← populated.paths] at there
  calc t.Under n l
      ↔ ReflTransGen (fun i j => HasChild t.nodes i (.parent j)) n m := by
        unfold Treemap.Under
        simp only [only, exists_eq_right]
    _ ↔ p <+: leaf.nist_control.subSpecifiers.take depthMax := tree.below_iff here there
    _ ↔ p <+: leaf.nist_control.subSpecifiers := by
        rw [List.prefix_take_iff]
        exact and_iff_left short

end Population

section Shown

/-- The tags of the root, where the walk ends. -/
def StoredControl.tags (c : StoredControl) : List NistControl :=
  (c.view.map (·.parsedNistTags)).getD []

theorem underTree_of_rooted {c : StoredControl} {hdf : HDFControl}
    (here : c.rootHdf = .ok (some hdf)) (path : List JsString) :
    underTree path c = .ok (c.tags.any fun t => (NistControl.mk path none).contains t) := by
  unfold underTree StoredControl.tags
  rw [here, StoredControl.view_of_ok here]
  rfl

variable {control_unique_key : StoredControl → Except JsError JsString} {c : StoredControl}
  {cs : List StoredControl} {leaves : List TreemapNodeLeaf}

theorem leavesOf_eq_ok (returned : leavesOf control_unique_key c = .ok leaves) :
    (∃ hdf, c.rootHdf = .ok (some hdf)) ∧
      leaves.map TreemapNodeLeaf.shows = c.tags.map fun t => (c, t) := by
  obtain ⟨view, here, rest⟩ := do_eq_ok.mp returned
  obtain ⟨hdf, known, mapped⟩ := do_eq_ok.mp rest
  obtain rfl := orThrow_eq_ok.mp known
  refine ⟨⟨hdf, here⟩, ?_⟩
  unfold StoredControl.tags
  rw [StoredControl.view_of_ok here]
  show _ = hdf.parsedNistTags.map _
  have pairs := mapM_eq_ok.mp mapped
  generalize hdf.parsedNistTags = tags at pairs ⊢
  clear mapped rest returned
  induction pairs with
  | nil => rfl
  | cons first _ ih =>
      obtain ⟨key, -, done⟩ := do_eq_ok.mp first
      rw [List.map_cons, List.map_cons, ih, pure_eq_ok.mp done]
      rfl

theorem leavesOf_returns {hdf : HDFControl} {key : JsString} (here : c.rootHdf = .ok (some hdf))
    (known : control_unique_key c = .ok key) :
    ∃ leaves, leavesOf control_unique_key c = .ok leaves := by
  have made : ∃ leaves, hdf.parsedNistTags.mapM (fun nc => do
      let key ← control_unique_key c
      return (⟨key ++ nc.rawText.getD (js "undefined"), c, nc, none⟩ : TreemapNodeLeaf)) =
        .ok leaves := mapM_returns fun nc _ => ⟨_, do_eq_ok.mpr ⟨key, known, rfl⟩⟩
  obtain ⟨leaves, made⟩ := made
  exact ⟨leaves, do_eq_ok.mpr ⟨_, here, do_eq_ok.mpr ⟨hdf, rfl, made⟩⟩⟩

/-- There is a leaf for every tag of every control. -/
theorem controls_to_leaves (returned : controls_to_nist_node_data control_unique_key cs =
    .ok leaves) : (∀ c ∈ cs, ∃ hdf, c.rootHdf = .ok (some hdf)) ∧
      leaves.map TreemapNodeLeaf.shows = cs.flatMap fun c => c.tags.map fun t => (c, t) := by
  obtain ⟨lists, mapped, done⟩ := do_eq_ok.mp returned
  rw [pure_eq_ok.mp done]
  have pairs := mapM_eq_ok.mp mapped
  clear mapped done returned
  induction pairs with
  | nil => exact ⟨List.forall_mem_nil _, rfl⟩
  | cons first _ ih =>
      obtain ⟨view, shows⟩ := leavesOf_eq_ok first
      obtain ⟨views, rest⟩ := ih
      refine ⟨List.forall_mem_cons.mpr ⟨view, views⟩, ?_⟩
      rw [List.flatten_cons, List.map_append, shows, rest, List.flatMap_cons]

end Shown

section Selection

/-- The first two specifiers of the tag occur in the hierarchy. -/
def Mapped (t : NistControl) : Prop :=
  ∃ h, FULL_NIST_HIERARCHY = .ok h ∧ Occurs h (t.subSpecifiers.take depthMax)

theorem mapped_of_block {t : NistControl} (short : t.subSpecifiers.length ≤ depthMax)
    (listed : ∀ controls, Catalogue controls → t.subSpecifiers ∈ blocks controls) : Mapped t := by
  obtain ⟨controls, catalogue⟩ := exists_catalogue
  obtain ⟨h, generated, complete⟩ := full_nist_hierarchy catalogue
  refine ⟨h, generated, ?_⟩
  rw [List.take_of_length_le short]
  exact (occurs_iff catalogue complete short).mpr (listed controls catalogue)

theorem mapped_of_family {family : JsString} (known : family ∈ ALL_NIST_FAMILIES)
    (rawText : Option JsString) : Mapped ⟨[family], rawText⟩ :=
  mapped_of_block (Nat.le_succ 1) fun _ _ =>
    List.mem_flatMap.mpr ⟨family, known, List.mem_cons_self⟩

theorem mapped_of_number {family x n : JsString} {rawText : Option JsString}
    (known : family ∈ ALL_NIST_FAMILIES) (listed : n ∈ ALL_NIST_CONTROL_NUMBERS)
    (parsed : controlOf n = some ⟨[family, x], rawText⟩) : Mapped ⟨[family, x], rawText⟩ := by
  apply mapped_of_block (le_refl 2)
  intro controls catalogue
  refine List.mem_flatMap.mpr ⟨family, known, List.mem_cons_of_mem _ ?_⟩
  refine List.mem_filter.mpr ⟨List.mem_map.mpr ⟨⟨[family, x], rawText⟩, ?_, rfl⟩, by simp⟩
  rw [← (mapM_eq_some catalogue.numbers).1]
  exact List.mem_filterMap.mpr ⟨n, listed, parsed⟩

/-- What the tree map is built in. -/
structure Furnished (s : Scaffold) : Prop where
  sound : s.Sound [0]
  root : (paths s.nodes)[0]? = some []
  mapped : ∀ t : NistControl, Mapped t →
    t.subSpecifiers.take depthMax ∈ paths s.nodes ∧ t.subSpecifiers ≠ []

theorem exists_furnished : ∃ h s, FULL_NIST_HIERARCHY = .ok h ∧ scaffold h = .ok s ∧
    Furnished s := by
  obtain ⟨controls, catalogue⟩ := exists_catalogue
  obtain ⟨h, generated, complete⟩ := full_nist_hierarchy catalogue
  obtain ⟨s, scaffolded, sound, nodes⟩ := Scaffold.scaffold_sound catalogue complete
  refine ⟨h, s, generated, scaffolded, sound, by rw [nodes]; rfl, ?_⟩
  rintro t ⟨h', generated', occurs⟩
  obtain rfl : h = h' := Except.ok.inj (generated.symm.trans generated')
  have inside := (occurs_iff catalogue complete (List.length_take_le _ _)).mp occurs
  refine ⟨nodes ▸ List.mem_cons_of_mem _ inside, fun empty => ?_⟩
  rw [empty] at inside
  exact (List.nodup_cons.mp catalogue.nodup).1 inside

/-- The lookup finds a node for the tag. -/
theorem Furnished.lookup {s : Scaffold} (furnished : Furnished s) {t : NistControl}
    (mapped : Mapped t) : ∃ i, s.controlLookup.get (lookup_key_for t depthMax) = .own i := by
  obtain ⟨occurs, filled⟩ := furnished.mapped t mapped
  obtain ⟨i, there⟩ := List.getElem?_of_mem occurs
  exact ⟨i, (furnished.sound.found _ i).mpr
    ⟨_, there, (if_pos (by decide)).symm, registered_of_filled furnished.root there filled⟩⟩

variable {control_unique_key : StoredControl → Except JsError JsString}
  {cs : List StoredControl} {tree : Treemap}

/-- The steps of building the tree map. -/
theorem build_steps (built : build_nist_tree_map control_unique_key cs = .ok tree) :
    ∃ s leaves, Furnished s ∧ controls_to_nist_node_data control_unique_key cs = .ok leaves ∧
      populate_tree_map s.controlLookup leaves depthMax s.nodes = .ok tree := by
  obtain ⟨leaves, made, built⟩ := do_eq_ok.mp built
  obtain ⟨h, s, generated, scaffolded, furnished⟩ := exists_furnished
  obtain ⟨h', generated', built⟩ := do_eq_ok.mp built
  obtain rfl : h = h' := Except.ok.inj (generated.symm.trans generated')
  obtain ⟨s', scaffolded', populated⟩ := do_eq_ok.mp built
  obtain rfl : s = s' := Except.ok.inj (scaffolded.symm.trans scaffolded')
  exact ⟨s, leaves, furnished, made, populated⟩

theorem build_eq_ok (built : build_nist_tree_map control_unique_key cs = .ok tree) :
    ∃ s leaves, Furnished s ∧ controls_to_nist_node_data control_unique_key cs = .ok leaves ∧
      Populated s leaves tree := by
  obtain ⟨s, leaves, furnished, made, populated⟩ := build_steps built
  exact ⟨s, leaves, furnished, made, populate_populated furnished.sound populated⟩

/-- The tree map is built when every control has a key, its root can be found, and its tags
are in the hierarchy. -/
theorem build_returns (rooted : ∀ c ∈ cs, ∃ hdf, c.rootHdf = .ok (some hdf))
    (keyed : ∀ c ∈ cs, ∃ key, control_unique_key c = .ok key)
    (mapped : ∀ c ∈ cs, ∀ t ∈ c.tags, Mapped t) :
    ∃ tree, build_nist_tree_map control_unique_key cs = .ok tree := by
  have made : ∃ leaves, controls_to_nist_node_data control_unique_key cs = .ok leaves := by
    obtain ⟨lists, done⟩ := mapM_returns fun c inside => by
      obtain ⟨hdf, here⟩ := rooted c inside
      obtain ⟨key, known⟩ := keyed c inside
      exact leavesOf_returns here known
    exact ⟨_, do_eq_ok.mpr ⟨lists, done, rfl⟩⟩
  obtain ⟨leaves, made⟩ := made
  obtain ⟨h, s, generated, scaffolded, furnished⟩ := exists_furnished
  have step : ∀ t leaf, (∃ t', placeLeaf s.controlLookup depthMax t leaf = .ok t') ↔
      s.controlLookup.get (lookup_key_for leaf.nist_control depthMax) ≠ .inherited := by
    intro t leaf
    unfold placeLeaf
    cases s.controlLookup.get (lookup_key_for leaf.nist_control depthMax) <;> simp
  have placed : ∃ tree, populate_tree_map s.controlLookup leaves depthMax s.nodes = .ok tree := by
    apply (foldlM_returns_iff step).mpr
    intro leaf inside inherited
    have shown := List.mem_map_of_mem (f := TreemapNodeLeaf.shows) inside
    rw [(controls_to_leaves made).2] at shown
    obtain ⟨c, member, tagged⟩ := List.mem_flatMap.mp shown
    obtain ⟨t, listed, same⟩ := List.mem_map.mp tagged
    obtain rfl : t = leaf.nist_control := (Prod.mk.inj same).2
    obtain ⟨_, own⟩ := furnished.lookup (mapped c member _ listed)
    rw [own] at inherited
    cases inherited
  obtain ⟨tree, populated⟩ := placed
  exact ⟨tree, do_eq_ok.mpr ⟨leaves, made, do_eq_ok.mpr ⟨h, generated,
    do_eq_ok.mpr ⟨s, scaffolded, populated⟩⟩⟩⟩

/-- What a further tree filter selects. -/
theorem filterWhen_tree (path : List JsString) {cs : List StoredControl}
    (rooted : ∀ c ∈ cs, ∃ hdf, c.rootHdf = .ok (some hdf) ∧ hdf.parsedNistTags ≠ []) :
    ∃ selected, filterWhen ((some path).filter fun path => !path.isEmpty) underTree cs =
        .ok selected ∧
      ∀ c, c ∈ selected ↔ c ∈ cs ∧ ∃ t ∈ c.tags, path <+: t.subSpecifiers := by
  cases path with
  | nil =>
      refine ⟨cs, rfl, fun c => ⟨fun inside => ⟨inside, ?_⟩, And.left⟩⟩
      obtain ⟨hdf, here, some_tag⟩ := rooted c inside
      obtain ⟨t, listed⟩ := List.exists_mem_of_ne_nil _ some_tag
      refine ⟨t, ?_, List.nil_prefix⟩
      unfold StoredControl.tags
      rw [StoredControl.view_of_ok here]
      exact listed
  | cons x rest =>
      refine ⟨cs.filter (accepts (underTree (x :: rest))),
        filterOk_eq_ok.mpr ⟨fun c inside => ?_, rfl⟩, fun c => ?_⟩
      · obtain ⟨hdf, here, -⟩ := rooted c inside
        exact ⟨_, underTree_of_rooted here _⟩
      · rw [List.mem_filter]
        apply and_congr_right
        intro inside
        obtain ⟨hdf, here, -⟩ := rooted c inside
        rw [accepts_of_ok (underTree_of_rooted here _), List.any_eq_true]
        simp only [NistControl.contains_iff]

/-- A tree filter finds the root of every control that it looks at. -/
theorem rooted_of_filterWhen {asked : Option (List JsString)} {cs kept : List StoredControl}
    (returned : filterWhen asked underTree cs = .ok kept) (rooted : ∀ c ∈ kept, c.Rooted) :
    ∀ c ∈ cs, c.Rooted := by
  cases asked with
  | none => exact Except.ok.inj returned ▸ rooted
  | some path =>
      intro c inside
      obtain ⟨answer, here⟩ := (filterOk_eq_ok.mp returned).1 c inside
      obtain ⟨hdf, found, -⟩ := do_eq_ok.mp here
      exact ⟨hdf, found⟩

/-- The leaves of a built tree map: one for every tag of every control. -/
theorem shown_iff {s : Scaffold} {leaves : List TreemapNodeLeaf}
    (made : controls_to_nist_node_data control_unique_key cs = .ok leaves)
    (populated : Populated s leaves tree) {c : StoredControl} {t : NistControl} :
    (∃ (l : ℕ) (leaf : TreemapNodeLeaf), tree.leaves[l]? = some leaf ∧ leaf.shows = (c, t)) ↔
      c ∈ cs ∧ t ∈ c.tags := by
  have shown : (c, t) ∈ tree.leaves.map TreemapNodeLeaf.shows ↔ c ∈ cs ∧ t ∈ c.tags := by
    rw [populated.shown, (controls_to_leaves made).2]
    simp only [List.mem_flatMap, List.mem_map, Prod.mk.injEq]
    constructor
    · rintro ⟨c', member, t', listed, rfl, rfl⟩
      exact ⟨member, listed⟩
    · rintro ⟨member, listed⟩
      exact ⟨c, member, t, listed, rfl, rfl⟩
  rw [← shown, List.mem_map]
  constructor
  · rintro ⟨l, leaf, placed, same⟩
    exact ⟨leaf, List.mem_of_getElem? placed, same⟩
  · rintro ⟨leaf, inside, same⟩
    obtain ⟨l, placed⟩ := List.getElem?_of_mem inside
    exact ⟨l, leaf, placed, same⟩

theorem exists_node (built : build_nist_tree_map control_unique_key cs = .ok tree) {t : NistControl}
    (mapped : Mapped t) : ∃ (n : ℕ) (node : TreemapNodeParent), tree.nodes[n]? = some node ∧
      node.nist_control.subSpecifiers = t.subSpecifiers.take depthMax := by
  obtain ⟨s, leaves, furnished, -, populated⟩ := build_eq_ok built
  obtain ⟨n, there⟩ := List.getElem?_of_mem (furnished.mapped t mapped).1
  rw [← populated.paths] at there
  exact ⟨n, node_of_path there⟩

variable [UnicodeTables] {data : InspecData} {filter : Filter}

/-- The tree filter is the last step. -/
theorem controls_treeFilters (asked : Option (List JsString)) :
    controls data { filter with treeFilters := asked } =
      controls data { filter with treeFilters := none } >>=
        filterWhen (asked.filter fun path => !path.isEmpty) underTree := by
  have tests : Filter.tests { filter with treeFilters := asked } =
      Filter.tests { filter with treeFilters := none } ++
        whenAsked (asked.filter fun path => !path.isEmpty) underTree := by
    have nothing : Filter.treeTest { filter with treeFilters := none } = [] := rfl
    unfold Filter.tests Filter.laterTests
    rw [nothing, List.append_nil]
    simp only [List.append_assoc]
    rfl
  rw [controls_eq_sieve, controls_eq_sieve, tests, sieve_append, filterWhen_eq_sieve]

/-- What a tree filter selects where the filter already has a tree filter above it. -/
theorem controls_below (loaded : data.Loaded) {path : List JsString}
    (above : filter.treeFilters.getD [] <+: path) (returned : controls data filter = .ok cs)
    (rooted : ∀ c ∈ cs, c.Rooted) :
    ∃ selected, controls data { filter with treeFilters := some path } = .ok selected ∧
      ∀ c, c ∈ selected ↔ c ∈ cs ∧ ∃ t ∈ c.tags, path <+: t.subSpecifiers := by
  -- Both filters are tests on the controls that the other steps leave.
  have before := @controls_treeFilters _ data filter filter.treeFilters
  obtain ⟨all, left, cut⟩ := do_eq_ok.mp (before.symm.trans returned)
  have inside : ∀ c ∈ all, c ∈ allControls data filter.fromFile := by
    rw [(controls_eq_ok.mp left).2]
    exact fun c member => (List.mem_filter.mp member).1
  have tagged : ∀ c ∈ all, ∃ hdf, c.rootHdf = .ok (some hdf) ∧ hdf.parsedNistTags ≠ [] :=
    fun c member => loaded.tagged (inside c member) (rooted_of_filterWhen cut rooted c member)
  have asked : (filter.treeFilters.filter fun path => !path.isEmpty) =
      (some (filter.treeFilters.getD [])).filter fun path => !path.isEmpty := by
    cases filter.treeFilters <;> rfl
  obtain ⟨cs', cut', wide⟩ := filterWhen_tree (filter.treeFilters.getD []) tagged
  obtain rfl : cs = cs' := Except.ok.inj (cut.symm.trans (asked ▸ cut'))
  obtain ⟨selected, kept, narrow⟩ := filterWhen_tree path tagged
  refine ⟨selected, ?_, fun c => ?_⟩
  · rw [controls_treeFilters, left]
    exact kept
  · rw [narrow c, wide c]
    constructor
    · rintro ⟨member, t, listed, starts⟩
      exact ⟨⟨member, t, listed, above.trans starts⟩, t, listed, starts⟩
    · rintro ⟨⟨member, -⟩, below⟩
      exact ⟨member, below⟩

/-- Selecting a node of the tree map that was built from the controls of a filter selects the
controls that have a leaf in the subtree of the node. A tree filter of the filter itself is
above the node. -/
theorem tree_selection (loaded : data.Loaded)
    (mapped : ∀ c ∈ allControls data filter.fromFile, ∀ t ∈ c.tags, Mapped t)
    (returned : controls data filter = .ok cs)
    (built : build_nist_tree_map control_unique_key cs = .ok tree) {n : ℕ}
    {node : TreemapNodeParent} (here : tree.nodes[n]? = some node)
    (above : filter.treeFilters.getD [] <+: node.nist_control.subSpecifiers) :
    ∃ selected, controls data { filter with
        treeFilters := some node.nist_control.subSpecifiers } = .ok selected ∧
      ∀ c, c ∈ selected ↔ c ∈ cs ∧ ∃ (l : ℕ) (leaf : TreemapNodeLeaf),
        tree.leaves[l]? = some leaf ∧ leaf.control = c ∧ tree.Under n l := by
  obtain ⟨s, leaves, furnished, made, populated⟩ := build_eq_ok built
  obtain ⟨views, shows⟩ := controls_to_leaves made
  have inside : ∀ c ∈ cs, c ∈ allControls data filter.fromFile := by
    rw [(controls_eq_ok.mp returned).2]
    exact fun c member => (List.mem_filter.mp member).1
  have rooted : ∀ c ∈ cs, c.Rooted := by
    intro c member
    obtain ⟨hdf, found⟩ := views c member
    exact ⟨some hdf, found⟩
  obtain ⟨selected, kept, spec⟩ := controls_below loaded above returned rooted
  refine ⟨selected, kept, fun c => (spec c).trans (and_congr_right fun member => ?_)⟩
  have path := path_of_node here
  have under : ∀ {l : ℕ} {leaf : TreemapNodeLeaf}, tree.leaves[l]? = some leaf →
      leaf.nist_control ∈ c.tags → (tree.Under n l ↔
        node.nist_control.subSpecifiers <+: leaf.nist_control.subSpecifiers) := by
    intro l leaf placed listed
    obtain ⟨occurs, filled⟩ := furnished.mapped _ (mapped c (inside c member) _ listed)
    exact populated.under_iff furnished.sound furnished.root path placed occurs filled
  constructor
  · rintro ⟨t, listed, starts⟩
    obtain ⟨l, leaf, placed, same⟩ := (shown_iff made populated).mpr ⟨member, listed⟩
    obtain ⟨control, rfl⟩ := Prod.mk.inj same
    exact ⟨l, leaf, placed, control, (under placed listed).mpr starts⟩
  · rintro ⟨l, leaf, placed, rfl, below⟩
    obtain ⟨-, listed⟩ := (shown_iff made populated).mp ⟨l, leaf, placed, rfl⟩
    exact ⟨leaf.nist_control, listed, (under placed listed).mp below⟩

end Selection

section Samples

/-- One control, with the tag `AU-2`. -/
def auditFile : ExecJSON := sampleExec
  [⟨js "base", .undefined, [bareControl "C-1" [("nist", .arr [.str (js "AU-2")])]]⟩]

def auditStore : InspecData := sampleStore [("f", auditFile)]

def audit : NistControl := ⟨[js "AU", js "2"], some (js "AU-2")⟩

theorem audit_mapped : ∀ c ∈ allControls auditStore [js "f"], ∀ t ∈ c.tags, Mapped t := by
  have tags : ((allControls auditStore [js "f"]).all fun c => c.tags.all fun t => t = audit) =
      true := by decide +kernel
  intro c inside t listed
  rw [of_decide_eq_true (List.all_eq_true.mp (List.all_eq_true.mp tags c inside) t listed)]
  exact mapped_of_number (n := js "AU-2") (by decide +kernel) (by decide +kernel)
    (by decide +kernel)

theorem audit_family : Mapped ⟨[js "AU"], none⟩ := mapped_of_family (by decide +kernel) none

theorem tree_selection_sample : ∃ (tree : Treemap) (n : ℕ) (node : TreemapNodeParent)
    (selected : List StoredControl),
    build_nist_tree_map (fun c => .ok c.file) (allControls auditStore [js "f"]) = .ok tree ∧
      tree.nodes[n]? = some node ∧ node.nist_control.subSpecifiers = [js "AU"] ∧
      @controls asciiTables auditStore { fromFile := [js "f"], treeFilters := some [js "AU"] } =
        .ok selected ∧ selected.length = 1 ∧
      ∀ c ∈ selected, ∃ (l : ℕ) (leaf : TreemapNodeLeaf),
        tree.leaves[l]? = some leaf ∧ leaf.control = c ∧ tree.Under n l := by
  have loaded := sampleStore_loaded [("f", auditFile)]
  have rooted : ∀ c ∈ allControls auditStore [js "f"], c.Rooted :=
    StoredControl.rooted_of_all (by decide +kernel)
  have viewed : ∀ c ∈ allControls auditStore [js "f"], ∃ hdf, c.rootHdf = .ok (some hdf) := by
    intro c inside
    exact (@InspecData.Loaded.tagged asciiTables _ loaded _ c inside (rooted c inside)).imp
      fun _ => And.left
  obtain ⟨tree, built⟩ := @build_returns (fun c => .ok c.file) _ viewed
    (fun c _ => ⟨c.file, rfl⟩) audit_mapped
  obtain ⟨n, node, here, chain⟩ := exists_node built audit_family
  have chain : node.nist_control.subSpecifiers = [js "AU"] := chain
  obtain ⟨selected, kept, spec⟩ := @tree_selection _ _ _ asciiTables auditStore
    { fromFile := [js "f"] } loaded audit_mapped rfl built n node here List.nil_prefix
  rw [chain] at kept
  have length : (@controls asciiTables auditStore
      { fromFile := [js "f"], treeFilters := some [js "AU"] }).map List.length = .ok 1 := by
    decide +kernel
  rw [kept] at length
  exact ⟨tree, n, node, selected, built, here, chain, kept, Except.ok.inj length,
    fun c inside => ((spec c).mp inside).2⟩

/-- A tree filter of the filter itself is overridden. The one control is not below `AC`, but
it is selected when the node `AU` is. -/
theorem tree_selection_overrides :
    ¬ ∀ [UnicodeTables] (control_unique_key : StoredControl → Except JsError JsString)
      (data : InspecData) (filter : Filter) (cs : List StoredControl) (tree : Treemap) (n : ℕ)
      (node : TreemapNodeParent), data.Loaded →
        (∀ c ∈ allControls data filter.fromFile, ∀ t ∈ c.tags, Mapped t) →
        controls data filter = .ok cs → build_nist_tree_map control_unique_key cs = .ok tree →
        tree.nodes[n]? = some node →
        ∃ selected, controls data { filter with
            treeFilters := some node.nist_control.subSpecifiers } = .ok selected ∧
          ∀ c, c ∈ selected ↔ c ∈ cs ∧ ∃ (l : ℕ) (leaf : TreemapNodeLeaf),
            tree.leaves[l]? = some leaf ∧ leaf.control = c ∧ tree.Under n l := by
  intro agree
  obtain ⟨tree, built⟩ := @build_returns (fun c => .ok c.file) [] (List.forall_mem_nil _)
    (List.forall_mem_nil _) (List.forall_mem_nil _)
  obtain ⟨n, node, here, chain⟩ := exists_node built audit_family
  have chain : node.nist_control.subSpecifiers = [js "AU"] := chain
  have nothing : (@controls asciiTables auditStore
      { fromFile := [js "f"], treeFilters := some [js "AC"] }).map List.length = .ok 0 := by
    decide +kernel
  have one : (@controls asciiTables auditStore
      { fromFile := [js "f"], treeFilters := some [js "AU"] }).map List.length = .ok 1 := by
    decide +kernel
  cases returned : @controls asciiTables auditStore
      { fromFile := [js "f"], treeFilters := some [js "AC"] } with
  | error e => rw [returned] at nothing; cases nothing
  | ok cs =>
      rw [returned] at nothing
      obtain rfl := List.length_eq_zero_iff.mp (Except.ok.inj nothing)
      obtain ⟨selected, kept, spec⟩ := @agree asciiTables _ auditStore _ [] tree n node
        (sampleStore_loaded [("f", auditFile)]) audit_mapped returned built here
      rw [chain] at kept
      rw [kept] at one
      obtain ⟨c, inside⟩ := List.exists_mem_of_length_pos (l := selected)
        (by rw [Except.ok.inj one]; exact Nat.one_pos)
      cases ((spec c).mp inside).1

end Samples
end Frontend
