import Mathlib.Data.List.Rotate
import Heimdall.Lib.Lists
import Heimdall.Lib.Throws
import Heimdall.Js.Hash
import Heimdall.Inspec.Nist
import Heimdall.Inspec.RawNist

/-!
# The NIST hierarchy

The forest of families and controls that is built from the catalogue. The nodes are objects:
they are known by their number, and both the map and the lists of children refer to them.
-/
namespace Inspec
open Js Lib

structure NistHierarchyNode where
  control : NistControl
  children : List ℕ

structure NistHierarchy where
  nodes : List NistHierarchyNode
  map : Hash ℕ
  roots : List ℕ

section Generate

/-- Null for the empty chain, which cannot get any shorter. -/
def control_parent (c : NistControl) : Option NistControl :=
  if c.subSpecifiers.isEmpty then none else some ⟨c.subSpecifiers.dropLast, none⟩

theorem control_parent_of_filled {c : NistControl} (filled : c.subSpecifiers ≠ []) :
    control_parent c = some ⟨c.subSpecifiers.dropLast, none⟩ :=
  if_neg fun empty => filled (List.isEmpty_iff.mp empty)

def key_for (c : NistControl) : JsString := join (js "-") c.subSpecifiers

namespace NistHierarchy

def empty : NistHierarchy := ⟨[], [], []⟩

def addRoot (h : NistHierarchy) (family : JsString) : NistHierarchy where
  nodes := h.nodes ++ [⟨⟨[family], some family⟩, []⟩]
  map := h.map.set (key_for ⟨[family], some family⟩) h.nodes.length
  roots := h.roots ++ [h.nodes.length]

/-- The node that is registered under a key. The key of a parsed control begins with two
capitals, and no object inherits a member of such a name. -/
def nodeOf (map : Hash ℕ) (key : JsString) : Option ℕ :=
  match map.get key with
  | .own node => some node
  | _ => none

/-- The node of a control; one that is there already is given the control. -/
def intern (h : NistHierarchy) (asControl : NistControl) : ℕ × NistHierarchy :=
  match nodeOf h.map (key_for asControl) with
  | some asNode =>
      (asNode, { h with
        nodes := h.nodes.modify asNode fun node => { node with control := asControl } })
  | none =>
      (h.nodes.length, { h with
        nodes := h.nodes ++ [⟨asControl, []⟩]
        map := h.map.set (key_for asControl) h.nodes.length })

/-- Append a node to the children of its parent, or to those of a stub. -/
def attach (h : NistHierarchy) (asNode : ℕ) (parent : NistControl) : NistHierarchy :=
  match nodeOf h.map (key_for parent) with
  | some parentNode =>
      { h with
        nodes := h.nodes.modify parentNode fun node =>
          { node with children := node.children ++ [asNode] } }
  | none =>
      { h with
        nodes := h.nodes ++ [⟨parent, [asNode]⟩]
        map := h.map.set (key_for parent) h.nodes.length }

def addControl (h : NistHierarchy) (asControl : NistControl) : NistHierarchy :=
  let (asNode, h) := h.intern asControl
  match control_parent asControl with
  | none => { h with
      nodes := h.nodes ++ [⟨asControl, []⟩]
      roots := h.roots ++ [h.nodes.length] }
  | some parent => h.attach asNode parent

/-- The text of a string, for a message. -/
def text (s : JsString) : String := String.ofList (s.map fun c => Char.ofNat c.toNat)

def addNumber (h : NistHierarchy) (n : JsString) : Except JsError NistHierarchy :=
  match parse_nist n with
  | none => .error (.error ("Invalid nist control constant " ++ text n))
  | some (.revision _) => .error (.typeError "Cannot read properties of undefined (reading 'join')")
  | some (.control asControl) => .ok (h.addControl asControl)

end NistHierarchy

def generate_full_nist_hierarchy (families numbers : List JsString) :
    Except JsError NistHierarchy :=
  numbers.foldlM NistHierarchy.addNumber (families.foldl NistHierarchy.addRoot .empty)

@[irreducible] def FULL_NIST_HIERARCHY : Except JsError NistHierarchy :=
  generate_full_nist_hierarchy ALL_NIST_FAMILIES ALL_NIST_CONTROL_NUMBERS

end Generate

section Keys

/-- Specifiers from which a joined key can be read back. -/
def Plain (chain : List JsString) : Prop := ∀ s ∈ chain, s ≠ [] ∧ 45 ∉ s

instance : DecidablePred Plain := fun _ => List.decidableBAll _ _

theorem Plain.dropLast {chain : List JsString} (plain : Plain chain) : Plain chain.dropLast :=
  fun s inside => plain s (List.dropLast_subset _ inside)

theorem cut_eq {a b : JsString} (ha : 45 ∉ a) (hb : 45 ∉ b) {s t : JsString}
    (same : a ++ 45 :: s = b ++ 45 :: t) : a = b ∧ s = t := by
  induction a generalizing b with
  | nil =>
      cases b with
      | nil => exact ⟨rfl, (List.cons.inj same).2⟩
      | cons c b =>
          obtain ⟨rfl, -⟩ := List.cons.inj same
          exact absurd List.mem_cons_self hb
  | cons c a ih =>
      cases b with
      | nil =>
          obtain ⟨rfl, -⟩ := List.cons.inj same
          exact absurd List.mem_cons_self ha
      | cons d b =>
          obtain ⟨rfl, rest⟩ := List.cons.inj same
          rw [List.mem_cons, not_or] at ha hb
          obtain ⟨rfl, rfl⟩ := ih ha.2 hb.2 rest
          exact ⟨rfl, rfl⟩

theorem ne_of_undashed {a b s : JsString} (undashed : 45 ∉ a) : a ≠ b ++ 45 :: s := by
  rintro rfl
  exact undashed (List.mem_append_right b List.mem_cons_self)

theorem join_cons_cons (s t : JsString) (rest : List JsString) :
    join (js "-") (s :: t :: rest) = s ++ 45 :: join (js "-") (t :: rest) := by
  rw [join, List.append_assoc]
  rfl

/-- Plain chains are told apart by their keys. -/
theorem join_injective {a b : List JsString} (ha : Plain a) (hb : Plain b)
    (same : join (js "-") a = join (js "-") b) : a = b := by
  induction a generalizing b with
  | nil =>
      cases b with
      | nil => rfl
      | cons t b =>
          have empty : t = [] := by
            cases b with
            | nil => exact same.symm
            | cons u b =>
                rw [join_cons_cons] at same
                cases t <;> cases same
          exact absurd empty (hb t List.mem_cons_self).1
  | cons s a ih =>
      obtain ⟨⟨filled, undashed⟩, ha⟩ := List.forall_mem_cons.mp ha
      cases b with
      | nil =>
          have empty : s = [] := by
            cases a with
            | nil => exact same
            | cons u a =>
                rw [join_cons_cons] at same
                cases s <;> cases same
          exact absurd empty filled
      | cons t b =>
          obtain ⟨⟨-, undashed'⟩, below⟩ := List.forall_mem_cons.mp hb
          cases a with
          | nil =>
              cases b with
              | nil => exact congrArg (· :: []) same
              | cons u b =>
                  rw [join_cons_cons] at same
                  exact absurd same (ne_of_undashed undashed)
          | cons v a =>
              cases b with
              | nil =>
                  rw [join_cons_cons] at same
                  exact absurd same.symm (ne_of_undashed undashed')
              | cons u b =>
                  rw [join_cons_cons, join_cons_cons] at same
                  obtain ⟨rfl, rest⟩ := cut_eq undashed undashed' same
                  exact congrArg (s :: ·) (ih ha below rest)

end Keys
namespace NistHierarchy

/-- The chains of specifiers of the nodes. -/
def chains (nodes : List NistHierarchyNode) : List (List JsString) :=
  nodes.map (·.control.subSpecifiers)

section Nodes
variable {nodes : List NistHierarchyNode} {i : ℕ} {node : NistHierarchyNode}

theorem length_chains (nodes : List NistHierarchyNode) : (chains nodes).length = nodes.length :=
  List.length_map _

theorem chains_concat (nodes : List NistHierarchyNode) (node : NistHierarchyNode) :
    chains (nodes ++ [node]) = chains nodes ++ [node.control.subSpecifiers] := List.map_append

theorem chains_getElem? (here : nodes[i]? = some node) :
    (chains nodes)[i]? = some node.control.subSpecifiers := by
  unfold chains
  rw [List.getElem?_map, here]
  rfl

theorem chains_modify {change : NistHierarchyNode → NistHierarchyNode}
    (same : ∀ node, nodes[i]? = some node →
      (change node).control.subSpecifiers = node.control.subSpecifiers) :
    chains (nodes.modify i change) = chains nodes := by
  refine List.ext_getElem? fun j => ?_
  unfold chains
  rw [List.getElem?_map, List.getElem?_map, List.getElem?_modify]
  cases here : nodes[j]? with
  | none => rfl
  | some node =>
      by_cases changed : i = j
      · subst changed
        simpa using same node here
      · simp [changed]

end Nodes

section Index

theorem nodeOf_set (map : Hash ℕ) (key other : JsString) (i : ℕ) :
    nodeOf (map.set key i) other = if other = key then some i else nodeOf map other := by
  unfold nodeOf
  rw [Hash.get_set]
  by_cases same : other = key
  · rw [if_pos same, if_pos same]
  · rw [if_neg same, if_neg same]

theorem nodeOf_set_self (map : Hash ℕ) (key : JsString) (i : ℕ) :
    nodeOf (map.set key i) key = some i := by
  rw [nodeOf_set, if_pos rfl]

theorem nodeOf_set_cases {map : Hash ℕ} {key other : JsString} {i j : ℕ}
    (here : nodeOf (map.set key i) other = some j) :
    (other = key ∧ i = j) ∨ nodeOf map other = some j := by
  rw [nodeOf_set] at here
  by_cases same : other = key
  · rw [if_pos same] at here
    exact .inl ⟨same, Option.some.inj here⟩
  · rw [if_neg same] at here
    exact .inr here

/-- A new key displaces no other. -/
theorem nodeOf_set_of_fresh {map : Hash ℕ} {key other : JsString} {i j : ℕ}
    (fresh : nodeOf map key = none) (here : nodeOf map other = some j) :
    nodeOf (map.set key i) other = some j := by
  have differ : other ≠ key := by
    rintro rfl
    rw [fresh] at here
    cases here
  rw [nodeOf_set, if_neg differ, here]

theorem nodeOf_nil (key : JsString) : nodeOf [] key = none := by
  unfold nodeOf Hash.get
  by_cases known : key ∈ objectPrototype
  · simp [pick, known]
  · simp [pick, known]

/-- The map finds the one node of every plain chain. -/
structure Indexed (chains : List (List JsString)) (map : Hash ℕ) : Prop where
  plain : ∀ c ∈ chains, Plain c
  found : ∀ c, Plain c → ∀ i, nodeOf map (join (js "-") c) = some i ↔ chains[i]? = some c

variable {chains : List (List JsString)} {map : Hash ℕ}

theorem indexed_nil : Indexed [] [] where
  plain := List.forall_mem_nil _
  found c _ i := by
    rw [nodeOf_nil, List.getElem?_nil]
    simp

theorem Indexed.distinct (indexed : Indexed chains map) {i j : ℕ} {c : List JsString}
    (hi : chains[i]? = some c) (hj : chains[j]? = some c) : i = j := by
  have plain := indexed.plain c (List.mem_of_getElem? hi)
  exact Option.some.inj
    (((indexed.found c plain i).mpr hi).symm.trans ((indexed.found c plain j).mpr hj))

theorem Indexed.fresh (indexed : Indexed chains map) {c : List JsString} (plain : Plain c)
    (unknown : nodeOf map (join (js "-") c) = none) : c ∉ chains := by
  intro inside
  obtain ⟨i, here⟩ := List.getElem?_of_mem inside
  rw [(indexed.found c plain i).mpr here] at unknown
  cases unknown

/-- A new node is registered under its key. -/
theorem Indexed.append (indexed : Indexed chains map) {c : List JsString} (plain : Plain c)
    (fresh : c ∉ chains) :
    Indexed (chains ++ [c]) (map.set (join (js "-") c) chains.length) where
  plain d inside := by
    rcases List.mem_append.mp inside with old | new
    · exact indexed.plain d old
    · rwa [List.mem_singleton.mp new]
  found d plain' i := by
    rw [nodeOf_set]
    by_cases same : d = c
    · subst same
      rw [if_pos rfl]
      constructor
      · rintro ⟨⟩
        exact List.getElem?_concat_length
      · intro here
        rcases getElem?_concat_cases here with old | ⟨rfl, -⟩
        · exact absurd (List.mem_of_getElem? old) fresh
        · rfl
    · rw [if_neg fun key => same (join_injective plain' plain key), indexed.found d plain' i]
      constructor
      · exact getElem?_append_of_some
      · intro here
        rcases getElem?_concat_cases here with old | ⟨-, new⟩
        · exact old
        · exact absurd new same

end Index

section Invariant

/-- The children of a node are these, in this order. -/
def Lists (chains : List (List JsString)) (children : List ℕ) (below : List (List JsString)) :
    Prop := children.map (chains[·]?) = below.map some

theorem Lists.of_child {chains : List (List JsString)} {children : List ℕ}
    {below : List (List JsString)} (lists : Lists chains children below) {i : ℕ}
    (inside : i ∈ children) : ∃ c ∈ below, chains[i]? = some c := by
  have known : chains[i]? ∈ below.map some := lists ▸ List.mem_map_of_mem inside
  obtain ⟨c, listed, here⟩ := List.mem_map.mp known
  exact ⟨c, listed, here.symm⟩

theorem Lists.child_of {chains : List (List JsString)} {children : List ℕ}
    {below : List (List JsString)} (lists : Lists chains children below) {c : List JsString}
    (listed : c ∈ below) : ∃ i ∈ children, chains[i]? = some c := by
  have known : some c ∈ children.map (chains[·]?) := lists ▸ List.mem_map_of_mem listed
  exact List.mem_map.mp known

theorem Lists.mono {chains chains' : List (List JsString)} {children : List ℕ}
    {below : List (List JsString)} (lists : Lists chains children below)
    (more : chains <+: chains') : Lists chains' children below := by
  refine Eq.trans (List.map_congr_left fun i inside => ?_) lists
  obtain ⟨c, -, here⟩ := lists.of_child inside
  rw [here]
  exact getElem?_of_prefix more here

theorem Lists.concat {chains : List (List JsString)} {children : List ℕ}
    {below : List (List JsString)} (lists : Lists chains children below) {i : ℕ}
    {c : List JsString} (here : chains[i]? = some c) :
    Lists chains (children ++ [i]) (below ++ [c]) := by
  unfold Lists at lists ⊢
  rw [List.map_append, List.map_append, lists, List.map_singleton, here]
  rfl

/-- The chains of `done` that are one specifier longer. -/
def below (done : List (List JsString)) (c : List JsString) : List (List JsString) :=
  done.filter fun d => d.dropLast = c

/-- After the chains `done`: every node lists those one specifier longer than its own, and
every chain has a node for the chain one shorter. -/
structure Sound (done : List (List JsString)) (nodes : List NistHierarchyNode) (map : Hash ℕ) :
    Prop where
  indexed : Indexed (chains nodes) map
  children : ∀ (i : ℕ) (node : NistHierarchyNode), nodes[i]? = some node →
    Lists (chains nodes) node.children (below done node.control.subSpecifiers)
  parents : ∀ c ∈ done, c.dropLast ∈ chains nodes

variable {done done' : List (List JsString)} {nodes : List NistHierarchyNode} {map : Hash ℕ}

theorem Sound.below_of_fresh (sound : Sound done nodes map) {c : List JsString}
    (fresh : c ∉ chains nodes) : below done c = [] := by
  refine List.filter_eq_nil_iff.mpr fun d inside same => fresh ?_
  rw [← of_decide_eq_true same]
  exact sound.parents d inside

/-- A new node; the other nodes list what they did. -/
theorem Sound.append (sound : Sound done nodes map) {node : NistHierarchyNode}
    (plain : Plain node.control.subSpecifiers)
    (fresh : node.control.subSpecifiers ∉ chains nodes)
    (lists : Lists (chains nodes) node.children (below done' node.control.subSpecifiers))
    (others : ∀ c ∈ chains nodes, below done' c = below done c)
    (parents : ∀ c ∈ done', c.dropLast ∈ chains nodes ++ [node.control.subSpecifiers]) :
    Sound done' (nodes ++ [node]) (map.set (key_for node.control) nodes.length) := by
  have more := List.prefix_append (chains nodes) [node.control.subSpecifiers]
  refine ⟨?_, fun i node' here => ?_, ?_⟩ <;> rw [chains_concat]
  · rw [← length_chains]
    exact sound.indexed.append plain fresh
  · rcases getElem?_concat_cases here with old | ⟨-, rfl⟩
    · rw [others _ (List.mem_of_getElem? (chains_getElem? old))]
      exact (sound.children i node' old).mono more
    · exact lists.mono more
  · exact parents

/-- A node is changed but keeps its chain; the other nodes list what they did. -/
theorem Sound.modify (sound : Sound done nodes map) {i : ℕ}
    {change : NistHierarchyNode → NistHierarchyNode}
    (changed : ∀ node, nodes[i]? = some node →
      (change node).control.subSpecifiers = node.control.subSpecifiers ∧
        Lists (chains nodes) (change node).children (below done' node.control.subSpecifiers))
    (others : ∀ j ≠ i, ∀ c, (chains nodes)[j]? = some c → below done' c = below done c)
    (parents : ∀ c ∈ done', c.dropLast ∈ chains nodes) :
    Sound done' (nodes.modify i change) map := by
  have same := chains_modify fun node here => (changed node here).1
  refine ⟨?_, fun j node here => ?_, ?_⟩ <;> rw [same]
  · exact sound.indexed
  · rcases getElem?_modify_cases here with ⟨other, old⟩ | ⟨old, rfl, found, rfl⟩
    · rw [others j other _ (chains_getElem? old)]
      exact sound.children j node old
    · rw [(changed old found).1]
      exact (changed old found).2
  · exact parents

theorem below_concat (done : List (List JsString)) (d c : List JsString) :
    below (done ++ [d]) c = below done c ++ if d.dropLast = c then [d] else [] := by
  unfold below
  rw [List.filter_append, List.filter_singleton]
  by_cases same : d.dropLast = c
  · simp [same]
  · simp [same]

variable {h : NistHierarchy}

/-- A control is given a node: the one of its chain, or a new one without children. -/
theorem Sound.intern (sound : Sound done h.nodes h.map) {asControl : NistControl}
    (plain : Plain asControl.subSpecifiers) :
    Sound done (h.intern asControl).2.nodes (h.intern asControl).2.map ∧
      chains h.nodes <+: chains (h.intern asControl).2.nodes ∧
      (chains (h.intern asControl).2.nodes)[(h.intern asControl).1]? =
        some asControl.subSpecifiers ∧
      (h.intern asControl).2.roots = h.roots := by
  unfold NistHierarchy.intern
  cases known : nodeOf h.map (key_for asControl) with
  | some i =>
      have here := (sound.indexed.found _ plain i).mp known
      have same : ∀ node, h.nodes[i]? = some node →
          asControl.subSpecifiers = node.control.subSpecifiers := fun node found =>
        Option.some.inj (here.symm.trans (chains_getElem? found))
      have kept : chains (h.nodes.modify i fun node => { node with control := asControl }) =
          chains h.nodes := chains_modify same
      refine ⟨?_, ?_, ?_, rfl⟩
      · refine sound.modify (fun node found => ⟨same node found, ?_⟩) (fun _ _ _ _ => rfl)
          sound.parents
        exact sound.children i node found
      · exact kept.symm ▸ List.prefix_refl _
      · rw [kept]
        exact here
  | none =>
      have fresh := sound.indexed.fresh plain known
      refine ⟨?_, ?_, ?_, rfl⟩
      · refine sound.append plain fresh ?_ (fun _ _ => rfl) fun c inside => ?_
        · rw [sound.below_of_fresh fresh]
          rfl
        · exact List.mem_append_left _ (sound.parents c inside)
      · rw [chains_concat]
        exact List.prefix_append _ _
      · rw [chains_concat, ← length_chains]
        exact List.getElem?_concat_length

/-- A node is put under its parent: the node of the shorter chain, or a stub. -/
theorem Sound.attach (sound : Sound done h.nodes h.map) {asNode : ℕ} {c : List JsString}
    (plain : Plain c) (here : (chains h.nodes)[asNode]? = some c) :
    Sound (done ++ [c]) (h.attach asNode ⟨c.dropLast, none⟩).nodes
        (h.attach asNode ⟨c.dropLast, none⟩).map ∧
      chains h.nodes <+: chains (h.attach asNode ⟨c.dropLast, none⟩).nodes ∧
      (h.attach asNode ⟨c.dropLast, none⟩).roots = h.roots := by
  unfold NistHierarchy.attach
  cases known : nodeOf h.map (key_for ⟨c.dropLast, none⟩) with
  | some k =>
      have parent := (sound.indexed.found _ plain.dropLast k).mp known
      have same : ∀ node, h.nodes[k]? = some node →
          c.dropLast = node.control.subSpecifiers := fun node found =>
        Option.some.inj (parent.symm.trans (chains_getElem? found))
      have kept : chains (h.nodes.modify k fun node =>
          { node with children := node.children ++ [asNode] }) = chains h.nodes :=
        chains_modify fun _ _ => rfl
      refine ⟨?_, ?_, rfl⟩
      · refine sound.modify (fun node found => ⟨rfl, ?_⟩) (fun j other d found => ?_) ?_
        · rw [below_concat, if_pos (same node found)]
          exact (sound.children k node found).concat here
        · rw [below_concat, if_neg, List.append_nil]
          rintro rfl
          exact other (sound.indexed.distinct found parent)
        · rw [List.forall_mem_append, List.forall_mem_singleton]
          exact ⟨sound.parents, List.mem_of_getElem? parent⟩
      · exact kept.symm ▸ List.prefix_refl _
  | none =>
      have fresh := sound.indexed.fresh plain.dropLast known
      refine ⟨?_, ?_, rfl⟩
      · refine sound.append plain.dropLast fresh ?_ (fun d inside => ?_) ?_
        · rw [below_concat, if_pos rfl, sound.below_of_fresh fresh]
          exact (show Lists (chains h.nodes) [] [] from rfl).concat here
        · rw [below_concat, if_neg, List.append_nil]
          rintro rfl
          exact fresh inside
        · rw [List.forall_mem_append, List.forall_mem_singleton]
          exact ⟨fun d inside => List.mem_append_left _ (sound.parents d inside),
            List.mem_append_right _ List.mem_cons_self⟩
      · rw [chains_concat]
        exact List.prefix_append _ _

theorem Sound.addControl (sound : Sound done h.nodes h.map) {asControl : NistControl}
    (plain : Plain asControl.subSpecifiers) (filled : asControl.subSpecifiers ≠ []) :
    Sound (done ++ [asControl.subSpecifiers]) (h.addControl asControl).nodes
        (h.addControl asControl).map ∧
      chains h.nodes <+: chains (h.addControl asControl).nodes ∧
      (h.addControl asControl).roots = h.roots := by
  obtain ⟨interned, more, here, roots⟩ := sound.intern plain
  obtain ⟨attached, further, roots'⟩ := interned.attach plain here
  unfold NistHierarchy.addControl
  simp only [control_parent_of_filled filled]
  exact ⟨attached, more.trans further, roots'.trans roots⟩

theorem sound_empty : Sound [] empty.nodes empty.map where
  indexed := indexed_nil
  children i node here := by cases here
  parents := List.forall_mem_nil _

theorem Sound.addRoot (sound : Sound [] h.nodes h.map) {family : JsString}
    (plain : Plain [family]) (fresh : [family] ∉ chains h.nodes) :
    Sound [] (h.addRoot family).nodes (h.addRoot family).map :=
  sound.append plain fresh rfl (fun _ _ => rfl) (List.forall_mem_nil _)

/-- One family after the other. -/
theorem sound_roots {families before : List JsString} (plain : Plain families)
    (distinct : (before ++ families).Nodup) (sound : Sound [] h.nodes h.map)
    (chains_eq : chains h.nodes = before.map fun family => [family])
    (roots : h.roots = List.range before.length) :
    Sound [] (families.foldl NistHierarchy.addRoot h).nodes
        (families.foldl NistHierarchy.addRoot h).map ∧
      chains (families.foldl NistHierarchy.addRoot h).nodes =
        (before ++ families).map (fun family => [family]) ∧
      (families.foldl NistHierarchy.addRoot h).roots = List.range (before ++ families).length := by
  induction families generalizing h before with
  | nil =>
      rw [List.append_nil]
      exact ⟨sound, chains_eq, roots⟩
  | cons family families ih =>
      obtain ⟨here, plain⟩ := List.forall_mem_cons.mp plain
      have fresh : [family] ∉ chains h.nodes := by
        rw [chains_eq, List.mem_map]
        rintro ⟨other, inside, same⟩
        obtain rfl : other = family := (List.cons.inj same).1
        exact (List.nodup_append.mp distinct).2.2 _ inside _ List.mem_cons_self rfl
      have length : h.nodes.length = before.length := by
        rw [← length_chains, chains_eq, List.length_map]
      rw [List.append_cons] at distinct ⊢
      refine ih plain distinct
        (sound.addRoot (List.forall_mem_singleton.mpr here) fresh) ?_ ?_
      · show chains (h.nodes ++ [_]) = _
        rw [chains_concat, chains_eq, List.map_append]
        rfl
      · show h.roots ++ [h.nodes.length] = _
        rw [roots, length, List.length_append]
        exact List.range_succ.symm

/-- One control after the other. -/
theorem sound_controls {controls : List NistControl} {before : List (List JsString)}
    (plain : ∀ c ∈ controls, Plain c.subSpecifiers ∧ c.subSpecifiers ≠ [])
    (sound : Sound before h.nodes h.map) :
    Sound (before ++ controls.map (·.subSpecifiers)) (controls.foldl addControl h).nodes
        (controls.foldl addControl h).map ∧
      chains h.nodes <+: chains (controls.foldl addControl h).nodes ∧
      (controls.foldl addControl h).roots = h.roots := by
  induction controls generalizing h before with
  | nil =>
      rw [List.map_nil, List.append_nil]
      exact ⟨sound, List.prefix_refl _, rfl⟩
  | cons c controls ih =>
      obtain ⟨here, plain⟩ := List.forall_mem_cons.mp plain
      obtain ⟨added, more, roots⟩ := sound.addControl here.1 here.2
      obtain ⟨done, further, roots'⟩ := ih plain added
      rw [List.map_cons, List.append_cons]
      exact ⟨done, more.trans further, roots'.trans roots⟩

end Invariant
end NistHierarchy

/-- The control that a number of the catalogue stands for. -/
def controlOf (n : JsString) : Option NistControl :=
  match parse_nist n with
  | some (.control c) => some c
  | _ => none

namespace NistHierarchy

/-- What is added for a number. -/
def grow (h : NistHierarchy) (n : JsString) : NistHierarchy := (controlOf n).elim h h.addControl

theorem foldl_grow (numbers : List JsString) (h : NistHierarchy) :
    numbers.foldl grow h = (numbers.filterMap controlOf).foldl addControl h := by
  induction numbers generalizing h with
  | nil => rfl
  | cons n numbers ih =>
      rw [List.foldl_cons, ih, grow, List.filterMap_cons]
      cases controlOf n <;> rfl

theorem addNumber_eq_ok {h h' : NistHierarchy} {n : JsString} : h.addNumber n = .ok h' ↔
    (controlOf n).isSome = true ∧ h' = h.grow n := by
  unfold addNumber grow controlOf
  rcases parse_nist n with _ | ⟨c⟩ | ⟨r⟩
  · simp
  · exact ⟨fun done => ⟨rfl, (Except.ok.inj done).symm⟩, fun ⟨_, done⟩ => congrArg _ done.symm⟩
  · simp

end NistHierarchy

theorem generate_eq_ok {families numbers : List JsString} {h : NistHierarchy} :
    generate_full_nist_hierarchy families numbers = .ok h ↔
      (∀ n ∈ numbers, (controlOf n).isSome = true) ∧
        h = (numbers.filterMap controlOf).foldl NistHierarchy.addControl
          (families.foldl NistHierarchy.addRoot .empty) := by
  rw [← NistHierarchy.foldl_grow]
  exact foldlM_eq_ok_iff fun h n h' => @NistHierarchy.addNumber_eq_ok h h' n

section Catalogue

theorem mapM_eq_some {α β : Type} {f : α → Option β} {xs : List α} {ys : List β}
    (mapped : xs.mapM f = some ys) : xs.filterMap f = ys ∧ ∀ x ∈ xs, (f x).isSome = true := by
  induction xs generalizing ys with
  | nil => exact ⟨Option.some.inj mapped, List.forall_mem_nil _⟩
  | cons x xs ih =>
      rw [List.mapM_cons] at mapped
      obtain ⟨y, here, rest⟩ := Option.bind_eq_some_iff.mp mapped
      obtain ⟨zs, others, done⟩ := Option.bind_eq_some_iff.mp rest
      obtain ⟨kept, each⟩ := ih others
      refine ⟨?_, List.forall_mem_cons.mpr ⟨Option.isSome_of_eq_some here, each⟩⟩
      rw [List.filterMap_cons_some here, kept]
      exact Option.some.inj done

/-- The first letters of a key as one number, to compare keys quickly. -/
def code (chain : List JsString) : ℕ :=
  (List.range 8).foldl (fun n i => 256 * n + ((join (js "-") chain).getD i 0).toNat) 0

/-- The chains of two specifiers are in order, but for the first. -/
def inOrder (controls : List NistControl) : Prop :=
  (((controls.map (·.subSpecifiers)).filter fun c => c.length = 2).map code |>.rotate 1).IsChain
    (· < ·)

instance (controls : List NistControl) : Decidable (inOrder controls) :=
  inferInstanceAs (Decidable (List.IsChain (· < ·) _))

def catalogued : Bool :=
  match ALL_NIST_CONTROL_NUMBERS.mapM controlOf with
  | some controls =>
      (controls.all fun c => decide (Plain c.subSpecifiers ∧ c.subSpecifiers ≠ [])) &&
        decide (inOrder controls)
  | none => false

theorem catalogued_true : catalogued = true := by decide +kernel

/-- The controls of the catalogue. -/
structure Catalogue (controls : List NistControl) : Prop where
  numbers : ALL_NIST_CONTROL_NUMBERS.mapM controlOf = some controls
  plain : ∀ c ∈ controls, Plain c.subSpecifiers ∧ c.subSpecifiers ≠ []
  distinct : ((controls.map (·.subSpecifiers)).filter fun c => c.length = 2).Nodup

theorem exists_catalogue : ∃ controls, Catalogue controls := by
  have checked := catalogued_true
  unfold catalogued at checked
  cases numbers : ALL_NIST_CONTROL_NUMBERS.mapM controlOf with
  | none => rw [numbers] at checked; cases checked
  | some controls =>
      rw [numbers] at checked
      obtain ⟨plain, order⟩ := (Bool.and_eq_true _ _).mp checked
      refine ⟨controls, numbers, fun c inside => ?_, ?_⟩
      · exact of_decide_eq_true (List.all_eq_true.mp plain c inside)
      · have rotated := (of_decide_eq_true order : inOrder controls).pairwise.imp
          fun {a b} (less : a < b) => Nat.ne_of_lt less
        exact ((List.rotate_perm _ 1).nodup_iff.mp rotated).of_map

theorem families_plain : Plain ALL_NIST_FAMILIES := by decide +kernel

theorem families_nodup : ALL_NIST_FAMILIES.Nodup := by decide +kernel

/-- The hierarchy as the generator leaves it. -/
structure Complete (controls : List NistControl) (h : NistHierarchy) : Prop where
  sound : NistHierarchy.Sound (controls.map (·.subSpecifiers)) h.nodes h.map
  families : ALL_NIST_FAMILIES.map (fun family => [family]) <+: NistHierarchy.chains h.nodes
  roots : h.roots = List.range ALL_NIST_FAMILIES.length

theorem full_nist_hierarchy {controls : List NistControl} (catalogue : Catalogue controls) :
    ∃ h, FULL_NIST_HIERARCHY = .ok h ∧ Complete controls h := by
  obtain ⟨same, parsed⟩ := mapM_eq_some catalogue.numbers
  obtain ⟨sound, chains, roots⟩ := NistHierarchy.sound_roots families_plain
    (show ([] ++ ALL_NIST_FAMILIES).Nodup from families_nodup) NistHierarchy.sound_empty rfl rfl
  obtain ⟨sound, more, roots'⟩ := NistHierarchy.sound_controls catalogue.plain sound
  refine ⟨_, ?_, sound, chains ▸ more, roots'.trans roots⟩
  unfold FULL_NIST_HIERARCHY
  exact generate_eq_ok.mpr ⟨parsed, by rw [same]⟩

end Catalogue

section Forest

/-- The nodes that the final answer holds: the roots and what is below them. -/
inductive InForest (h : NistHierarchy) : ℕ → Prop where
  | root {i : ℕ} : i ∈ h.roots → InForest h i
  | child {i j : ℕ} {node : NistHierarchyNode} : InForest h i → h.nodes[i]? = some node →
      j ∈ node.children → InForest h j

/-- Some node of the hierarchy has this chain. -/
def Occurs (h : NistHierarchy) (chain : List JsString) : Prop :=
  ∃ i, InForest h i ∧ (NistHierarchy.chains h.nodes)[i]? = some chain

/-- A family and its categories. -/
def block (controls : List NistControl) (family : JsString) : List (List JsString) :=
  [family] :: NistHierarchy.below (controls.map (·.subSpecifiers)) [family]

def blocks (controls : List NistControl) : List (List JsString) :=
  ALL_NIST_FAMILIES.flatMap (block controls)

variable {controls : List NistControl} {h : NistHierarchy}

theorem Catalogue.mem_below (catalogue : Catalogue controls) {c p : List JsString}
    (inside : c ∈ NistHierarchy.below (controls.map (·.subSpecifiers)) p) :
    Plain c ∧ ∃ x, c = p ++ [x] := by
  obtain ⟨listed, same⟩ := List.mem_filter.mp inside
  obtain ⟨control, member, rfl⟩ := List.mem_map.mp listed
  obtain ⟨plain, filled⟩ := catalogue.plain control member
  refine ⟨plain, control.subSpecifiers.getLast filled, ?_⟩
  rw [← of_decide_eq_true same, List.dropLast_append_getLast]

theorem Catalogue.mem_block (catalogue : Catalogue controls) {c : List JsString}
    {family : JsString} (inside : c ∈ block controls family) : [family] <+: c ∧ c.length ≤ 2 := by
  rcases List.mem_cons.mp inside with rfl | listed
  · exact ⟨List.prefix_refl _, Nat.le_succ 1⟩
  · obtain ⟨-, x, rfl⟩ := catalogue.mem_below listed
    exact ⟨List.prefix_append _ _, le_refl 2⟩

/-- No family and no category is there twice. -/
theorem Catalogue.nodup (catalogue : Catalogue controls) : ([] :: blocks controls).Nodup := by
  rw [List.nodup_cons, blocks, List.nodup_flatMap]
  refine ⟨fun inside => ?_, fun family _ => ?_, ?_⟩
  · obtain ⟨family, -, inside⟩ := List.mem_flatMap.mp inside
    cases List.prefix_nil.mp (catalogue.mem_block inside).1
  · rw [block, List.nodup_cons]
    refine ⟨fun inside => ?_, catalogue.distinct.sublist ?_⟩
    · obtain ⟨-, x, same⟩ := catalogue.mem_below inside
      cases same
    · refine List.monotone_filter_right _ fun c same => decide_eq_true ?_
      have one : c.length - 1 = 1 := by
        rw [← List.length_dropLast, of_decide_eq_true same]
        rfl
      omega
  · refine families_nodup.imp fun {a b} other c inside inside' => other ?_
    have starts := List.prefix_of_prefix_length_le (catalogue.mem_block inside).1
      (catalogue.mem_block inside').1 (le_refl 1)
    exact (List.cons.inj (starts.eq_of_length rfl)).1

theorem Complete.root (complete : Complete controls h) {i : ℕ} (inside : i ∈ h.roots) :
    ∃ family node, ALL_NIST_FAMILIES[i]? = some family ∧ h.nodes[i]? = some node ∧
      node.control.subSpecifiers = [family] ∧
      NistHierarchy.Lists (NistHierarchy.chains h.nodes) node.children
        (NistHierarchy.below (controls.map (·.subSpecifiers)) [family]) := by
  rw [complete.roots, List.mem_range] at inside
  have here := List.getElem?_eq_getElem inside
  have chain := getElem?_of_prefix complete.families
    ((List.getElem?_map ..).trans (congrArg _ here))
  unfold NistHierarchy.chains at chain
  rw [List.getElem?_map] at chain
  obtain ⟨node, found, same⟩ := Option.map_eq_some_iff.mp chain
  have lists := complete.sound.children i node found
  rw [same] at lists
  exact ⟨_, node, here, found, same, lists⟩

/-- The short chains that occur are those of the families and of the categories. -/
theorem occurs_iff (catalogue : Catalogue controls) (complete : Complete controls h)
    {c : List JsString} (short : c.length ≤ 2) : Occurs h c ↔ c ∈ blocks controls := by
  constructor
  · rintro ⟨i, inside, here⟩
    have reached : ∀ c, (NistHierarchy.chains h.nodes)[i]? = some c →
        c ≠ [] ∧ (c.length ≤ 2 → c ∈ blocks controls) := by
      clear here short
      induction inside with
      | root inside =>
          obtain ⟨family, node, known, found, same, -⟩ := complete.root inside
          intro c here
          obtain rfl : c = [family] :=
            Option.some.inj (here.symm.trans (same ▸ NistHierarchy.chains_getElem? found))
          exact ⟨List.cons_ne_nil _ _, fun _ =>
            List.mem_flatMap.mpr ⟨family, List.mem_of_getElem? known, List.mem_cons_self⟩⟩
      | @child i j node _ found member ih =>
          intro c here
          obtain ⟨c', listed, there⟩ := (complete.sound.children i node found).of_child member
          obtain rfl : c' = c := Option.some.inj (there.symm.trans here)
          obtain ⟨-, x, same⟩ := catalogue.mem_below listed
          obtain ⟨filled, earlier⟩ := ih _ (NistHierarchy.chains_getElem? found)
          refine ⟨by simp [same], fun short => ?_⟩
          rw [same, List.length_append, List.length_singleton] at short
          obtain ⟨family, known, inside⟩ := List.mem_flatMap.mp (earlier (by omega))
          refine List.mem_flatMap.mpr ⟨family, known, List.mem_cons_of_mem _ ?_⟩
          -- The parent has one specifier, so it is the family.
          have starts := (catalogue.mem_block inside).1
          have one := List.length_pos_of_ne_nil filled
          rw [starts.eq_of_length_le (by simpa using by omega)]
          exact listed
    exact (reached c here).2 short
  · intro inside
    obtain ⟨family, known, inside⟩ := List.mem_flatMap.mp inside
    obtain ⟨i, here⟩ := List.getElem?_of_mem known
    have root : i ∈ h.roots := by
      rw [complete.roots, List.mem_range]
      exact (List.getElem?_eq_some_iff.mp here).1
    obtain ⟨family', node, known', found, same, lists⟩ := complete.root root
    obtain rfl : family' = family := Option.some.inj (known'.symm.trans here)
    rcases List.mem_cons.mp inside with rfl | listed
    · exact ⟨i, .root root, same ▸ NistHierarchy.chains_getElem? found⟩
    · obtain ⟨j, child, there⟩ := lists.child_of listed
      exact ⟨j, .child (.root root) found child, there⟩

end Forest
end Inspec
