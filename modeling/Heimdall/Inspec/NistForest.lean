import Heimdall.Inspec.NistHierarchy

/-!
# Forests of controls

What the hierarchy generator builds of any families and any numbers. Nodes are known by their
keys: every node lists the controls whose parent has its key, one entry for every time that
such a control is listed.
-/
namespace Inspec
open Js Lib

def keyOf (chain : List JsString) : JsString := join (js "-") chain

namespace NistHierarchy

/-- The listed chains whose parent has this key. -/
def under (done : List (List JsString)) (key : JsString) : List (List JsString) :=
  done.filter fun e => keyOf e.dropLast = key

/-- The chains `listed` were given a node, and the chains `done` were put under their parents. -/
structure Keyed (families : List JsString) (listed done : List (List JsString))
    (h : NistHierarchy) : Prop where
  roots : h.roots = List.range families.length
  root : ∀ (i : ℕ) (f : JsString), families[i]? = some f → ∃ node, h.nodes[i]? = some node ∧
    key_for node.control = f ∧
      (node.control.subSpecifiers = [f] ∨ node.control.subSpecifiers ∈ listed)
  known : ∀ key i, nodeOf h.map key = some i →
    ∃ node, h.nodes[i]? = some node ∧ key_for node.control = key
  /-- The root of a family that is named again is not in the map any more. -/
  registered : ∀ (i : ℕ) (node : NistHierarchyNode), h.nodes[i]? = some node →
    nodeOf h.map (key_for node.control) = some i ∨
      node.children = [] ∧ ∃ f, node.control.subSpecifiers = [f]
  children : ∀ (i : ℕ) (node : NistHierarchyNode), h.nodes[i]? = some node →
    nodeOf h.map (key_for node.control) = some i →
      node.children.map some =
        (under done (key_for node.control)).map fun e => nodeOf h.map (keyOf e)
  family : ∀ f ∈ families, ∃ i, families[i]? = some f ∧ nodeOf h.map f = some i
  member : ∀ e ∈ listed, ∃ i node, nodeOf h.map (keyOf e) = some i ∧ h.nodes[i]? = some node ∧
    node.control.subSpecifiers ∈ listed
  parent : ∀ e ∈ done, ∃ i, nodeOf h.map (keyOf e.dropLast) = some i
  interned : ∀ e ∈ done, e ∈ listed

section Steps
variable {families : List JsString} {listed listed' done done' : List (List JsString)}
  {h : NistHierarchy}

theorem Keyed.append (keyed : Keyed families listed done h) {node : NistHierarchyNode}
    (fresh : nodeOf h.map (key_for node.control) = none) (grown : ∀ e ∈ listed, e ∈ listed')
    (member : ∀ e ∈ listed', e ∈ listed ∨
      keyOf e = key_for node.control ∧ node.control.subSpecifiers ∈ listed')
    (interned : ∀ e ∈ done', e ∈ listed)
    (others : ∀ key i, nodeOf h.map key = some i → under done' key = under done key)
    (lists : node.children.map some =
      (under done' (key_for node.control)).map fun e => nodeOf h.map (keyOf e))
    (parent : ∀ e ∈ done', keyOf e.dropLast = key_for node.control ∨
      ∃ i, nodeOf h.map (keyOf e.dropLast) = some i) :
    Keyed families listed' done' { h with
      nodes := h.nodes ++ [node]
      map := h.map.set (key_for node.control) h.nodes.length } := by
  have old : ∀ {key i}, nodeOf h.map key = some i →
      nodeOf (h.map.set (key_for node.control) h.nodes.length) key = some i :=
    fun here => nodeOf_set_of_fresh fresh here
  have new : nodeOf (h.map.set (key_for node.control) h.nodes.length) (key_for node.control) =
      some h.nodes.length := nodeOf_set_self ..
  have listsOld : ∀ κ, ((under done' κ).map fun e =>
      nodeOf (h.map.set (key_for node.control) h.nodes.length) (keyOf e)) =
        (under done' κ).map fun e => nodeOf h.map (keyOf e) := by
    refine fun κ => List.map_congr_left fun e inside => ?_
    obtain ⟨i, -, here, -⟩ := keyed.member e (interned e (List.mem_filter.mp inside).1)
    rw [old here, here]
  exact {
    roots := keyed.roots
    root := fun i f named => by
      obtain ⟨node', here, key, chain⟩ := keyed.root i f named
      exact ⟨node', getElem?_append_of_some here, key, chain.imp_right (grown _)⟩
    known := fun key i here => by
      rcases nodeOf_set_cases here with ⟨rfl, rfl⟩ | before
      · exact ⟨node, List.getElem?_concat_length, rfl⟩
      · obtain ⟨node', found, key⟩ := keyed.known key i before
        exact ⟨node', getElem?_append_of_some found, key⟩
    registered := fun i node' here => by
      rcases getElem?_concat_cases here with before | ⟨rfl, rfl⟩
      · exact (keyed.registered i node' before).imp_left old
      · exact .inl new
    children := fun i node' here found => by
      rw [listsOld]
      rcases getElem?_concat_cases here with before | ⟨rfl, rfl⟩
      · have known : nodeOf h.map (key_for node'.control) = some i := by
          apply (nodeOf_set_cases found).resolve_left
          rintro ⟨-, rfl⟩
          exact absurd (List.getElem?_eq_some_iff.mp before).1 (lt_irrefl _)
        rw [others _ _ known]
        exact keyed.children i node' before known
      · exact lists
    family := fun f inside => by
      obtain ⟨i, named, here⟩ := keyed.family f inside
      exact ⟨i, named, old here⟩
    member := fun e inside => by
      rcases member e inside with before | ⟨key, chain⟩
      · obtain ⟨i, node', here, found, chain⟩ := keyed.member e before
        exact ⟨i, node', old here, getElem?_append_of_some found, grown _ chain⟩
      · exact ⟨_, node, key ▸ new, List.getElem?_concat_length, chain⟩
    parent := fun e inside => by
      rcases parent e inside with key | ⟨i, here⟩
      · rw [key]
        exact ⟨_, new⟩
      · exact ⟨i, old here⟩
    interned := fun e inside => grown e (interned e inside) }

/-- A node that is in the map is changed, but not its key. -/
theorem Keyed.modify (keyed : Keyed families listed done h) {key : JsString} {i : ℕ}
    (here : nodeOf h.map key = some i) {change : NistHierarchyNode → NistHierarchyNode}
    (grown : ∀ e ∈ listed, e ∈ listed')
    (changed : ∀ node, h.nodes[i]? = some node → key_for node.control = key →
      key_for (change node).control = key ∧
        ((change node).control.subSpecifiers = node.control.subSpecifiers ∨
          (change node).control.subSpecifiers ∈ listed') ∧
        (change node).children.map some = (under done' key).map fun e => nodeOf h.map (keyOf e))
    (member : ∀ e ∈ listed', e ∈ listed ∨
      keyOf e = key ∧ ∀ node, (change node).control.subSpecifiers ∈ listed')
    (interned : ∀ e ∈ done', e ∈ listed')
    (others : ∀ other, other ≠ key → under done' other = under done other)
    (parent : ∀ e ∈ done', ∃ j, nodeOf h.map (keyOf e.dropLast) = some j) :
    Keyed families listed' done' { h with nodes := h.nodes.modify i change } := by
  obtain ⟨node, found, rfl⟩ := keyed.known key i here
  obtain ⟨sameKey, chain, lists⟩ := changed node found rfl
  -- What holds of a node holds of what it is changed to.
  have place : ∀ {j node'}, h.nodes[j]? = some node' →
      (j ≠ i ∧ (h.nodes.modify i change)[j]? = some node') ∨
        (j = i ∧ node' = node ∧ (h.nodes.modify i change)[j]? = some (change node)) := by
    intro j node' there
    rcases getElem?_modify_of_some change i there with kept | ⟨rfl, new⟩
    · exact .inl kept
    · cases there.symm.trans found
      exact .inr ⟨rfl, rfl, new⟩
  exact {
    roots := keyed.roots
    root := fun j f named => by
      obtain ⟨node', there, key, chains⟩ := keyed.root j f named
      rcases place there with ⟨-, kept⟩ | ⟨rfl, rfl, new⟩
      · exact ⟨node', kept, key, chains.imp_right (grown _)⟩
      · refine ⟨_, new, sameKey.trans key, ?_⟩
        rcases chain with same | new
        · rw [same]
          exact chains.imp_right (grown _)
        · exact .inr new
    known := fun other j there => by
      obtain ⟨node', at_j, key⟩ := keyed.known other j there
      rcases place at_j with ⟨-, kept⟩ | ⟨rfl, rfl, new⟩
      · exact ⟨node', kept, key⟩
      · exact ⟨_, new, sameKey.trans key⟩
    registered := fun j node' there => by
      rcases getElem?_modify_cases there with ⟨-, old⟩ | ⟨old, rfl, at_i, rfl⟩
      · exact keyed.registered j node' old
      · cases at_i.symm.trans found
        rw [sameKey]
        exact .inl here
    children := fun j node' there known => by
      rcases getElem?_modify_cases there with ⟨other, old⟩ | ⟨old, rfl, at_i, rfl⟩
      · rw [others]
        · exact keyed.children j node' old known
        · rintro same
          rw [same, here] at known
          exact other (Option.some.inj known).symm
      · cases at_i.symm.trans found
        rw [sameKey]
        exact lists
    family := keyed.family
    member := fun e inside => by
      rcases member e inside with before | ⟨key, new⟩
      · obtain ⟨j, node', there, at_j, chains⟩ := keyed.member e before
        rcases place at_j with ⟨-, kept⟩ | ⟨rfl, rfl, new⟩
        · exact ⟨j, node', there, kept, grown _ chains⟩
        · refine ⟨j, _, there, new, ?_⟩
          rcases chain with same | new
          · rw [same]
            exact grown _ chains
          · exact new
      · rcases place found with ⟨other, -⟩ | ⟨-, -, at_i⟩
        · exact absurd rfl other
        · exact ⟨i, _, key ▸ here, at_i, new node⟩
    parent := parent
    interned := interned }

theorem under_concat (done : List (List JsString)) (c : List JsString) (key : JsString) :
    under (done ++ [c]) key = under done key ++ if keyOf c.dropLast = key then [c] else [] := by
  unfold under
  rw [List.filter_append, List.filter_singleton]
  by_cases same : keyOf c.dropLast = key
  · simp [same]
  · simp [same]

theorem under_parent (done : List (List JsString)) (c : List JsString) :
    under (done ++ [c]) (keyOf c.dropLast) = under done (keyOf c.dropLast) ++ [c] := by
  rw [under_concat, if_pos rfl]

theorem under_other {c : List JsString} {key : JsString} (other : keyOf c.dropLast ≠ key)
    (done : List (List JsString)) : under (done ++ [c]) key = under done key := by
  rw [under_concat, if_neg other, List.append_nil]

/-- Nothing is under a key that is not in the map. -/
theorem Keyed.under_of_fresh (keyed : Keyed families listed done h) {key : JsString}
    (fresh : nodeOf h.map key = none) : under done key = [] := by
  apply List.filter_eq_nil_iff.mpr
  intro e inside same
  obtain ⟨i, here⟩ := keyed.parent e inside
  rw [of_decide_eq_true same, fresh] at here
  cases here

theorem Keyed.intern (keyed : Keyed families listed done h) (asControl : NistControl) :
    Keyed families (listed ++ [asControl.subSpecifiers]) done (h.intern asControl).2 ∧
      nodeOf (h.intern asControl).2.map (key_for asControl) = some (h.intern asControl).1 := by
  have grown : ∀ e ∈ listed, e ∈ listed ++ [asControl.subSpecifiers] := fun e inside =>
    List.mem_append_left _ inside
  have last : asControl.subSpecifiers ∈ listed ++ [asControl.subSpecifiers] :=
    List.mem_append_right _ List.mem_cons_self
  unfold NistHierarchy.intern
  cases here : nodeOf h.map (key_for asControl) with
  | some i =>
      refine ⟨keyed.modify here grown (fun node found key => ⟨rfl, .inr last, ?_⟩) ?_
        (fun e inside => grown e (keyed.interned e inside)) (fun _ _ => rfl) keyed.parent, here⟩
      · have lists := keyed.children i node found (key ▸ here)
        rwa [key] at lists
      · intro e inside
        refine (List.mem_append.mp inside).imp_right fun new => ⟨?_, fun _ => last⟩
        rw [List.mem_singleton.mp new]
        rfl
  | none =>
      refine ⟨keyed.append here grown ?_ keyed.interned (fun _ _ _ => rfl) ?_
        fun e inside => .inr (keyed.parent e inside), nodeOf_set_self ..⟩
      · intro e inside
        refine (List.mem_append.mp inside).imp_right fun new => ⟨?_, last⟩
        rw [List.mem_singleton.mp new]
        rfl
      · rw [keyed.under_of_fresh here]
        rfl

theorem Keyed.attach (keyed : Keyed families listed done h) {c : List JsString} {asNode : ℕ}
    (listed_c : c ∈ listed) (here : nodeOf h.map (keyOf c) = some asNode) :
    Keyed families listed (done ++ [c]) (h.attach asNode ⟨c.dropLast, none⟩) := by
  have interned : ∀ e ∈ done ++ [c], e ∈ listed :=
    List.forall_mem_append.mpr ⟨keyed.interned, List.forall_mem_singleton.mpr listed_c⟩
  unfold NistHierarchy.attach
  rw [show key_for ⟨c.dropLast, none⟩ = keyOf c.dropLast from rfl]
  cases parent : nodeOf h.map (keyOf c.dropLast) with
  | some k =>
      refine keyed.modify parent (fun _ => id) (fun node found key => ⟨key, .inl rfl, ?_⟩)
        (fun _ => .inl) interned (fun other differs => ?_) ?_
      · have lists := keyed.children k node found (key ▸ parent)
        rw [key] at lists
        rw [under_parent, List.map_append, List.map_append, lists, List.map_singleton,
          List.map_singleton, here]
      · exact under_other differs.symm done
      · exact List.forall_mem_append.mpr ⟨keyed.parent, List.forall_mem_singleton.mpr ⟨k, parent⟩⟩
  | none =>
      have alone : under (done ++ [c]) (keyOf c.dropLast) = [c] := by
        rw [under_parent, keyed.under_of_fresh parent, List.nil_append]
      refine keyed.append parent (fun _ => id) (fun _ => .inl) interned (fun key i there => ?_) ?_ ?_
      · refine under_other ?_ done
        rintro rfl
        rw [parent] at there
        cases there
      · refine Eq.trans ?_ (congrArg (List.map fun e => nodeOf h.map (keyOf e)) alone).symm
        rw [List.map_singleton, List.map_singleton, here]
      · refine List.forall_mem_append.mpr ⟨fun e inside => .inr (keyed.parent e inside), ?_⟩
        exact List.forall_mem_singleton.mpr (.inl rfl)

theorem Keyed.addControl (keyed : Keyed families done done h) {asControl : NistControl}
    (filled : asControl.subSpecifiers ≠ []) :
    Keyed families (done ++ [asControl.subSpecifiers]) (done ++ [asControl.subSpecifiers])
      (h.addControl asControl) := by
  obtain ⟨interned, here⟩ := keyed.intern asControl
  unfold NistHierarchy.addControl
  simp only [control_parent_of_filled filled]
  exact interned.attach (List.mem_append_right _ List.mem_cons_self) here

/-- One control after the other. -/
theorem keyed_controls {controls : List NistControl}
    (filled : ∀ c ∈ controls, c.subSpecifiers ≠ []) (keyed : Keyed families done done h) :
    Keyed families (done ++ controls.map (·.subSpecifiers))
      (done ++ controls.map (·.subSpecifiers)) (controls.foldl NistHierarchy.addControl h) := by
  induction controls generalizing h done with
  | nil =>
      rw [List.map_nil, List.append_nil]
      exact keyed
  | cons c controls ih =>
      obtain ⟨first, filled⟩ := List.forall_mem_cons.mp filled
      rw [List.map_cons, List.append_cons]
      exact ih filled (keyed.addControl first)

end Steps

section Roots
variable {families : List JsString} {h : NistHierarchy}

def rootNode (family : JsString) : NistHierarchyNode := ⟨⟨[family], some family⟩, []⟩

/-- The families alone; a name that comes again takes the place of the first in the map. -/
structure Rooted (families : List JsString) (h : NistHierarchy) : Prop where
  nodes : h.nodes = families.map rootNode
  roots : h.roots = List.range families.length
  known : ∀ key i, nodeOf h.map key = some i → families[i]? = some key
  found : ∀ f ∈ families, ∃ i, nodeOf h.map f = some i

theorem Rooted.addRoot (rooted : Rooted families h) (f : JsString) :
    Rooted (families ++ [f]) (h.addRoot f) := by
  have length : h.nodes.length = families.length := by rw [rooted.nodes, List.length_map]
  have key : key_for ⟨[f], some f⟩ = f := rfl
  unfold NistHierarchy.addRoot
  rw [key, length]
  refine ⟨?_, ?_, fun other i here => ?_, fun g inside => ?_⟩
  · rw [rooted.nodes, List.map_append]
    rfl
  · rw [rooted.roots, List.length_append, List.length_singleton, List.range_succ]
  · rcases nodeOf_set_cases here with ⟨rfl, rfl⟩ | before
    · exact List.getElem?_concat_length
    · exact getElem?_append_of_some (rooted.known other i before)
  · rw [nodeOf_set]
    split
    · exact ⟨_, rfl⟩
    · rename_i other
      rcases List.mem_append.mp inside with before | last
      · exact rooted.found g before
      · exact absurd (List.mem_singleton.mp last) other

theorem rooted_families {before : List JsString} (rooted : Rooted before h) :
    Rooted (before ++ families) (families.foldl NistHierarchy.addRoot h) := by
  induction families generalizing h before with
  | nil =>
      rw [List.append_nil]
      exact rooted
  | cons f families ih =>
      rw [List.append_cons]
      exact ih (rooted.addRoot f)

theorem Rooted.keyed (rooted : Rooted families h) : Keyed families [] [] h := by
  have place : ∀ {i : ℕ} {f}, families[i]? = some f → h.nodes[i]? = some (rootNode f) := by
    intro i f named
    rw [rooted.nodes, List.getElem?_map, named]
    rfl
  have shape : ∀ {i : ℕ} {node}, h.nodes[i]? = some node → ∃ f, node = rootNode f := by
    intro i node here
    rw [rooted.nodes, List.getElem?_map] at here
    obtain ⟨f, -, rfl⟩ := Option.map_eq_some_iff.mp here
    exact ⟨f, rfl⟩
  exact {
    roots := rooted.roots
    root := fun i f named => ⟨_, place named, rfl, .inl rfl⟩
    known := fun key i here => ⟨_, place (rooted.known key i here), rfl⟩
    registered := fun i node here => by
      obtain ⟨f, rfl⟩ := shape here
      exact .inr ⟨rfl, f, rfl⟩
    children := fun i node here _ => by
      obtain ⟨f, rfl⟩ := shape here
      rfl
    family := fun f inside => by
      obtain ⟨i, here⟩ := rooted.found f inside
      exact ⟨i, rooted.known f i here, here⟩
    member := List.forall_mem_nil _
    parent := List.forall_mem_nil _
    interned := List.forall_mem_nil _ }

theorem keyed_families (families : List JsString) :
    Keyed families [] [] (families.foldl NistHierarchy.addRoot .empty) := by
  have none : Rooted [] NistHierarchy.empty := by
    refine ⟨rfl, rfl, fun key i here => ?_, List.forall_mem_nil _⟩
    cases (nodeOf_nil key).symm.trans here
  exact (rooted_families none).keyed

end Roots
end NistHierarchy

section Places

/-- A place in the answer: a root, or a child of a node. -/
inductive Place where
  | root (k : ℕ)
  | child (i k : ℕ)

namespace NistHierarchy
variable (h : NistHierarchy)

/-- The node at a place. -/
def occupant : Place → Option ℕ
  | .root k => h.roots[k]?
  | .child i k => h.nodes[i]?.bind fun node => node.children[k]?

def chainOf (i : ℕ) : Option (List JsString) := (chains h.nodes)[i]?

/-- The place is in the answer: it is a root, or a child of a node in the answer. -/
def Live : Place → Prop
  | .root _ => True
  | .child i _ => InForest h i

end NistHierarchy

/-- No node of the answer has two places, and every listed chain has one: it is a child of the
node whose chain is one specifier shorter. -/
structure Arranged (listed : List (List JsString)) (h : NistHierarchy) : Prop where
  forest : ∀ p q i, h.Live p → h.Live q → h.occupant p = some i → h.occupant q = some i → p = q
  once : ∀ c ∈ listed, ∃ i k, InForest h i ∧ h.chainOf i = some c.dropLast ∧
    (h.occupant (.child i k)).bind h.chainOf = some c ∧
      ∀ p, h.Live p → (h.occupant p).bind h.chainOf = some c → p = .child i k

/-- No chain is listed twice, none is that of a family alone, no step is left out, and no key
stands for two of the listed chains and families. -/
structure Separated (families : List JsString) (listed : List (List JsString)) : Prop where
  nodup : listed.Nodup
  long : ∀ c ∈ listed, 2 ≤ c.length
  gapless : ∀ c ∈ listed, 3 ≤ c.length → c.dropLast ∈ listed
  apart : ∀ c ∈ listed, ∀ d ∈ listed, keyOf c = keyOf d → c = d
  families : ∀ c ∈ listed, keyOf c ∉ families

theorem Separated.ne_family {families : List JsString} {listed : List (List JsString)}
    (separated : Separated families listed) {c : List JsString} (inside : c ∈ listed)
    (f : JsString) : c ≠ [f] := by
  rintro rfl
  exact absurd (separated.long [f] inside) (by simp)

theorem InForest.occupant {h : NistHierarchy} {i : ℕ} (inside : InForest h i) {k j : ℕ}
    (here : h.occupant (.child i k) = some j) : InForest h j := by
  obtain ⟨node, found, entry⟩ := Option.bind_eq_some_iff.mp here
  exact .child inside found (List.mem_of_getElem? entry)

namespace NistHierarchy
variable {families : List JsString} {done : List (List JsString)} {h : NistHierarchy}

theorem occupant_of_node {i : ℕ} {node : NistHierarchyNode} (found : h.nodes[i]? = some node)
    (k : ℕ) : h.occupant (.child i k) = node.children[k]? := by
  show (h.nodes[i]?.bind fun node => node.children[k]?) = _
  rw [found, Option.bind_some]

theorem mem_under {key : JsString} {k : ℕ} {e : List JsString}
    (place : (under done key)[k]? = some e) : e ∈ done ∧ keyOf e.dropLast = key := by
  obtain ⟨inside, same⟩ := List.mem_filter.mp (List.mem_of_getElem? place)
  exact ⟨inside, of_decide_eq_true same⟩

theorem Keyed.mem_roots (keyed : Keyed families done done h) {r : ℕ} :
    r ∈ h.roots ↔ ∃ f, families[r]? = some f := by
  rw [keyed.roots, List.mem_range]
  constructor
  · intro bound
    exact ⟨_, List.getElem?_eq_getElem bound⟩
  · rintro ⟨f, named⟩
    exact (List.getElem?_eq_some_iff.mp named).1

theorem Keyed.occupant_root (keyed : Keyed families done done h) {k i : ℕ} :
    h.occupant (.root k) = some i ↔ k = i ∧ i ∈ h.roots := by
  show h.roots[k]? = some i ↔ _
  rw [keyed.roots, List.mem_range, List.getElem?_eq_some_iff]
  constructor
  · rintro ⟨bound, same⟩
    rw [List.getElem_range] at same
    rw [List.length_range] at bound
    exact ⟨same, same ▸ bound⟩
  · rintro ⟨rfl, bound⟩
    exact ⟨by rwa [List.length_range], List.getElem_range _⟩

theorem Keyed.chain_of_key (keyed : Keyed families done done h) {key : JsString} {i : ℕ}
    (here : nodeOf h.map key = some i) : ∃ c, h.chainOf i = some c ∧ keyOf c = key := by
  obtain ⟨node, found, same⟩ := keyed.known key i here
  exact ⟨_, chains_getElem? found, same⟩

theorem Keyed.chain_of_listed (keyed : Keyed families done done h) {e : List JsString} {j : ℕ}
    (inside : e ∈ done) (here : nodeOf h.map (keyOf e) = some j) :
    ∃ c ∈ done, h.chainOf j = some c := by
  obtain ⟨i, node, there, found, chain⟩ := keyed.member e inside
  cases there.symm.trans here
  exact ⟨_, chain, chains_getElem? found⟩

/-- The children of the node of a key, place by place. -/
theorem Keyed.occupant_child (keyed : Keyed families done done h) {key : JsString} {i : ℕ}
    (here : nodeOf h.map key = some i) {k : ℕ} {e : List JsString}
    (place : (under done key)[k]? = some e) :
    h.occupant (.child i k) = nodeOf h.map (keyOf e) := by
  obtain ⟨node, found, rfl⟩ := keyed.known key i here
  have entry := congrArg (·[k]?) (keyed.children i node found here)
  rw [List.getElem?_map, List.getElem?_map, place] at entry
  rw [occupant_of_node found]
  cases child : node.children[k]? with
  | none => rw [child] at entry; cases entry
  | some j => rw [child] at entry; exact Option.some.inj entry

theorem Keyed.of_child (keyed : Keyed families done done h) {i k j : ℕ}
    (here : h.occupant (.child i k) = some j) : ∃ e, nodeOf h.map (keyOf e.dropLast) = some i ∧
      (under done (keyOf e.dropLast))[k]? = some e ∧ nodeOf h.map (keyOf e) = some j := by
  obtain ⟨node, found, child⟩ := Option.bind_eq_some_iff.mp here
  rcases keyed.registered i node found with known | ⟨bare, -⟩
  · have entry := congrArg (·[k]?) (keyed.children i node found known)
    rw [List.getElem?_map, List.getElem?_map, child] at entry
    obtain ⟨e, place, same⟩ := Option.map_eq_some_iff.mp entry.symm
    have key := (mem_under place).2
    rw [← key] at place known
    exact ⟨e, known, place, same⟩
  · rw [bare] at child
    cases child

/-- The nodes of the answer are those of families and of listed controls. -/
theorem Keyed.chain_of_live (keyed : Keyed families done done h) {i : ℕ}
    (inside : InForest h i) : ∃ c, h.chainOf i = some c ∧ ((∃ f, c = [f]) ∨ c ∈ done) := by
  cases inside with
  | root inside =>
      obtain ⟨f, named⟩ := keyed.mem_roots.mp inside
      obtain ⟨node, found, -, chain⟩ := keyed.root i f named
      exact ⟨_, chains_getElem? found, chain.imp_left fun same => ⟨_, same⟩⟩
  | @child i' _ node _ found member =>
      obtain ⟨k, child⟩ := List.getElem?_of_mem member
      obtain ⟨e, -, place, here⟩ := keyed.of_child ((occupant_of_node found k).trans child)
      obtain ⟨c, listed, chain⟩ := keyed.chain_of_listed (mem_under place).1 here
      exact ⟨c, chain, .inr listed⟩

section Separate
variable (keyed : Keyed families done done h) (separated : Separated families done)
include keyed separated

/-- The node of a listed key has the listed chain. -/
theorem Keyed.chain_eq {e : List JsString} {j : ℕ} (inside : e ∈ done)
    (here : nodeOf h.map (keyOf e) = some j) : h.chainOf j = some e := by
  obtain ⟨c, listed, chain⟩ := keyed.chain_of_listed inside here
  obtain ⟨c', chain', key⟩ := keyed.chain_of_key here
  cases chain.symm.trans chain'
  rw [chain, separated.apart c listed e inside key]

theorem Keyed.root_chain {i : ℕ} {f : JsString} (named : families[i]? = some f) :
    h.chainOf i = some [f] := by
  obtain ⟨node, found, key, chain⟩ := keyed.root i f named
  rcases chain with same | listed
  · exact same ▸ chains_getElem? found
  · refine absurd ?_ (separated.families _ listed)
    rw [show keyOf node.control.subSpecifiers = f from key]
    exact List.mem_of_getElem? named

/-- Where a listed chain is put. -/
theorem Keyed.placed {c : List JsString} (inside : c ∈ done) :
    ∃ i k j, nodeOf h.map (keyOf c.dropLast) = some i ∧
      (under done (keyOf c.dropLast))[k]? = some c ∧ h.occupant (.child i k) = some j ∧
        h.chainOf j = some c := by
  obtain ⟨i, parent⟩ := keyed.parent c inside
  obtain ⟨j, -, here, -⟩ := keyed.member c inside
  have listed : c ∈ under done (keyOf c.dropLast) :=
    List.mem_filter.mpr ⟨inside, decide_eq_true rfl⟩
  obtain ⟨k, place⟩ := List.getElem?_of_mem listed
  refine ⟨i, k, j, parent, place, ?_, keyed.chain_eq separated inside here⟩
  rw [keyed.occupant_child parent place, here]

/-- The node above a listed chain is in the answer. -/
theorem Keyed.parent_live (fromFamilies : ∀ c ∈ done, ∃ f ∈ families, c.head? = some f)
    {c : List JsString} (inside : c ∈ done) {i : ℕ}
    (parent : nodeOf h.map (keyOf c.dropLast) = some i) :
    InForest h i ∧ h.chainOf i = some c.dropLast := by
  induction length : c.length using Nat.strong_induction_on generalizing c i with
  | _ n ih =>
      by_cases short : c.length = 2
      · obtain ⟨f, named, first⟩ := fromFamilies c inside
        obtain ⟨a, b, rfl⟩ := List.length_eq_two.mp short
        cases first
        obtain ⟨r, place, here⟩ := keyed.family f named
        cases here.symm.trans parent
        exact ⟨.root (keyed.mem_roots.mpr ⟨f, place⟩), keyed.root_chain separated place⟩
      · have long := separated.long c inside
        have above := separated.gapless c inside (by omega)
        obtain ⟨i', k, j, parent', place, child, chain⟩ := keyed.placed separated above
        have here := keyed.occupant_child parent' place
        rw [parent, child] at here
        cases here
        have shorter : c.dropLast.length < n := by
          rw [List.length_dropLast]
          omega
        exact ⟨(ih _ shorter above parent' rfl).1.occupant child, chain⟩

theorem Keyed.place_unique {i k j i' k' j' : ℕ} (first : h.occupant (.child i k) = some j)
    (second : h.occupant (.child i' k') = some j') (same : h.chainOf j = h.chainOf j') :
    Place.child i k = .child i' k' := by
  obtain ⟨e, parent, place, here⟩ := keyed.of_child first
  obtain ⟨e', parent', place', here'⟩ := keyed.of_child second
  rw [keyed.chain_eq separated (mem_under place).1 here,
    keyed.chain_eq separated (mem_under place').1 here'] at same
  cases same
  cases parent.symm.trans parent'
  have bound := (List.getElem?_eq_some_iff.mp place).1
  have nodup : (under done (keyOf e.dropLast)).Nodup := separated.nodup.filter _
  rw [(List.getElem?_inj bound nodup).mp (place.trans place'.symm)]

/-- A root is not a child as well. -/
theorem Keyed.root_not_child {r i k : ℕ} (inside : r ∈ h.roots) :
    h.occupant (.child i k) ≠ some r := by
  intro child
  obtain ⟨e, -, place, here⟩ := keyed.of_child child
  obtain ⟨f, named⟩ := keyed.mem_roots.mp inside
  have chain := keyed.root_chain separated named
  rw [keyed.chain_eq separated (mem_under place).1 here] at chain
  exact separated.ne_family (mem_under place).1 f (Option.some.inj chain)

theorem Keyed.arranged (fromFamilies : ∀ c ∈ done, ∃ f ∈ families, c.head? = some f) :
    Arranged done h where
  forest p q i _ _ hp hq := by
    cases p with
    | root k =>
        obtain ⟨rfl, root⟩ := keyed.occupant_root.mp hp
        cases q with
        | root k' => rw [(keyed.occupant_root.mp hq).1]
        | child i' k' => exact absurd hq (keyed.root_not_child separated root)
    | child i' k' =>
        cases q with
        | root k =>
            obtain ⟨-, root⟩ := keyed.occupant_root.mp hq
            exact absurd hp (keyed.root_not_child separated root)
        | child i'' k'' => exact keyed.place_unique separated hp hq rfl
  once c inside := by
    obtain ⟨i, k, j, parent, -, child, chain⟩ := keyed.placed separated inside
    obtain ⟨live, above⟩ := keyed.parent_live separated fromFamilies inside parent
    refine ⟨i, k, live, above, by rw [child, Option.bind_some, chain], fun p _ there => ?_⟩
    obtain ⟨j', here, same⟩ := Option.bind_eq_some_iff.mp there
    cases p with
    | child i' k' => exact keyed.place_unique separated here child (same.trans chain.symm)
    | root r =>
        obtain ⟨f, named⟩ := keyed.mem_roots.mp (keyed.occupant_root.mp here).2
        rw [keyed.root_chain separated named] at same
        exact absurd (Option.some.inj same).symm (separated.ne_family inside f)

end Separate

section Arrange
variable (keyed : Keyed families done done h) (arranged : Arranged done h)
include keyed arranged

/-- The node of a listed key is the child that has the listed chain. -/
theorem Keyed.listed_node {c : List JsString} (inside : c ∈ done) :
    ∃ i k j, InForest h i ∧ nodeOf h.map (keyOf c.dropLast) = some i ∧
      h.occupant (.child i k) = some j ∧ nodeOf h.map (keyOf c) = some j ∧
        h.chainOf j = some c := by
  obtain ⟨i, k, live, above, there, -⟩ := arranged.once c inside
  obtain ⟨j, child, chain⟩ := Option.bind_eq_some_iff.mp there
  obtain ⟨e, parent, place, here⟩ := keyed.of_child child
  obtain ⟨c', chain', key⟩ := keyed.chain_of_key here
  obtain ⟨p, above', key'⟩ := keyed.chain_of_key parent
  cases chain.symm.trans chain'
  cases above.symm.trans above'
  rw [← key] at here
  rw [← key'] at parent
  exact ⟨i, k, j, live, parent, child, here, chain⟩

/-- The chain above a listed one is listed, or that of a family. -/
theorem Keyed.above {c : List JsString} (inside : c ∈ done) :
    c.dropLast ∈ done ∨ ∃ f, c.dropLast = [f] := by
  obtain ⟨i, k, live, above, -⟩ := arranged.once c inside
  obtain ⟨d, chain, kind⟩ := keyed.chain_of_live live
  cases above.symm.trans chain
  exact kind.symm

/-- An entry that is there twice would be a node with two places. -/
theorem Keyed.under_nodup (key : JsString) : (under done key).Nodup := by
  refine List.nodup_iff_getElem?_ne_getElem?.mpr fun k k' less bound same => ?_
  have second := List.getElem?_eq_getElem bound
  have first := same.trans second
  obtain ⟨listed, same_key⟩ := mem_under second
  obtain ⟨i, -, j, live, parent, -, here, -⟩ := keyed.listed_node arranged listed
  rw [same_key] at parent
  have place := (keyed.occupant_child parent first).trans here
  have place' := (keyed.occupant_child parent second).trans here
  cases arranged.forest (.child i k) (.child i k') j live live place place'
  exact absurd less (lt_irrefl k)

/-- In an answer that is arranged, nothing is listed twice and nothing stands in for another. -/
theorem Keyed.separated (filled : ∀ c ∈ done, c ≠ []) : Separated families done where
  nodup := by
    apply List.nodup_iff_count_le_one.mpr
    intro c
    have whole : (under done (keyOf c.dropLast)).count c = done.count c :=
      List.count_filter (decide_eq_true rfl)
    rw [← whole]
    exact List.nodup_iff_count_le_one.mp (keyed.under_nodup arranged _) c
  long c inside := by
    have above : c.dropLast ≠ [] := by
      rcases keyed.above arranged inside with listed | ⟨f, same⟩
      · exact filled _ listed
      · rw [same]
        exact List.cons_ne_nil _ _
    have positive := List.length_pos_of_ne_nil above
    rw [List.length_dropLast] at positive
    omega
  gapless c inside longer := by
    apply (keyed.above arranged inside).resolve_right
    rintro ⟨f, same⟩
    have length := congrArg List.length same
    rw [List.length_dropLast, List.length_singleton] at length
    omega
  apart c hc d hd same := by
    obtain ⟨i, k, j, -, -, -, here, chain⟩ := keyed.listed_node arranged hc
    obtain ⟨i', k', j', -, -, -, here', chain'⟩ := keyed.listed_node arranged hd
    rw [same, here'] at here
    cases here
    exact Option.some.inj (chain.symm.trans chain')
  families c inside named := by
    obtain ⟨i, k, j, live, -, child, here, -⟩ := keyed.listed_node arranged inside
    obtain ⟨r, place, here'⟩ := keyed.family _ named
    cases here.symm.trans here'
    have root : h.occupant (.root j) = some j :=
      keyed.occupant_root.mpr ⟨rfl, keyed.mem_roots.mpr ⟨_, place⟩⟩
    cases arranged.forest (.root j) (.child i k) j trivial live root child

end Arrange

end NistHierarchy

/-- The chains of the controls that the numbers stand for. -/
def listedChains (numbers : List JsString) : List (List JsString) :=
  (numbers.filterMap controlOf).map (·.subSpecifiers)

theorem mem_listedChains {numbers : List JsString} {chain : List JsString} :
    chain ∈ listedChains numbers ↔
      ∃ n ∈ numbers, ∃ c, controlOf n = some c ∧ c.subSpecifiers = chain := by
  unfold listedChains
  simp only [List.mem_map, List.mem_filterMap]
  constructor
  · rintro ⟨c, ⟨n, inside, parsed⟩, same⟩
    exact ⟨n, inside, c, parsed, same⟩
  · rintro ⟨n, inside, c, parsed, same⟩
    exact ⟨c, ⟨n, inside, parsed⟩, same⟩

/-- The answer is a forest with one place for every listed control, under the control one
specifier shorter, exactly when the list is separated. -/
theorem generate_arranged_iff (families numbers : List JsString)
    (parses : ∀ n ∈ numbers, ∃ c, parse_nist n = some (.control c) ∧
      ∃ f ∈ families, c.subSpecifiers.head? = some f) :
    ∃ h, generate_full_nist_hierarchy families numbers = .ok h ∧
      (Arranged (listedChains numbers) h ↔ Separated families (listedChains numbers)) := by
  have control : ∀ n ∈ numbers, ∃ c, controlOf n = some c ∧
      ∃ f ∈ families, c.subSpecifiers.head? = some f := by
    intro n inside
    obtain ⟨c, parsed, named⟩ := parses n inside
    refine ⟨c, ?_, named⟩
    unfold controlOf
    rw [parsed]
  have fromFamilies : ∀ c ∈ listedChains numbers, ∃ f ∈ families, c.head? = some f := by
    intro chain inside
    obtain ⟨n, listed, c, parsed, rfl⟩ := mem_listedChains.mp inside
    obtain ⟨c', parsed', named⟩ := control n listed
    cases parsed.symm.trans parsed'
    exact named
  have filled : ∀ c ∈ listedChains numbers, c ≠ [] := by
    rintro c inside rfl
    obtain ⟨f, -, first⟩ := fromFamilies [] inside
    cases first
  have keyed : NistHierarchy.Keyed families (listedChains numbers) (listedChains numbers)
      ((numbers.filterMap controlOf).foldl NistHierarchy.addControl
        (families.foldl NistHierarchy.addRoot .empty)) :=
    NistHierarchy.keyed_controls (fun c inside => filled _ (List.mem_map_of_mem inside))
      (NistHierarchy.keyed_families families)
  refine ⟨_, generate_eq_ok.mpr ⟨fun n inside => ?_, rfl⟩, ?_, ?_⟩
  · obtain ⟨c, parsed, -⟩ := control n inside
    rw [parsed]
    rfl
  · exact fun arranged => keyed.separated arranged filled
  · exact fun separated => keyed.arranged separated fromFamilies

theorem parses_of_all {families numbers : List JsString}
    (all : (numbers.all fun n => match parse_nist n with
      | some (.control c) => families.any fun f => decide (c.subSpecifiers.head? = some f)
      | _ => false) = true) :
    ∀ n ∈ numbers, ∃ c, parse_nist n = some (.control c) ∧
      ∃ f ∈ families, c.subSpecifiers.head? = some f := by
  intro n inside
  have one := List.all_eq_true.mp all n inside
  split at one
  · rename_i c parsed
    obtain ⟨f, named, first⟩ := List.any_eq_true.mp one
    exact ⟨c, parsed, f, named, of_decide_eq_true first⟩
  · cases one

theorem generate_arranged_iff_sample :
    ∃ h, generate_full_nist_hierarchy [js "TR"] [js "TR-1 (1)", js "TR-1"] = .ok h ∧
      Arranged (listedChains [js "TR-1 (1)", js "TR-1"]) h := by
  obtain ⟨h, built, iff⟩ := generate_arranged_iff [js "TR"] [js "TR-1 (1)", js "TR-1"]
    (parses_of_all (by decide +kernel))
  refine ⟨h, built, iff.mpr ?_⟩
  exact ⟨by decide +kernel, by decide +kernel, by decide +kernel, by decide +kernel,
    by decide +kernel⟩

/-- The enhancement that is listed twice, as in the catalogue, has two places. -/
theorem generate_twice :
    ¬ ∀ families numbers : List JsString, (∀ n ∈ numbers, ∃ c, parse_nist n = some (.control c) ∧
      ∃ f ∈ families, c.subSpecifiers.head? = some f) →
        ∃ h, generate_full_nist_hierarchy families numbers = .ok h ∧
          Arranged (listedChains numbers) h := by
  intro always
  obtain ⟨h, built, arranged⟩ := always [js "TR"] [js "TR-1", js "TR-1 (1)", js "TR-1 (1)"]
    (parses_of_all (by decide +kernel))
  have same := (generate_eq_ok.mp built).2
  have family : 0 ∈ h.roots ∧ h.occupant (.child 0 0) = some 1 := by
    rw [same]
    decide +kernel
  have places : h.occupant (.child 1 0) = some 2 ∧ h.occupant (.child 1 1) = some 2 := by
    rw [same]
    decide +kernel
  have live : InForest h 1 := (InForest.root family.1).occupant family.2
  cases arranged.forest (.child 1 0) (.child 1 1) 2 live live places.1 places.2

end Places
end Inspec
