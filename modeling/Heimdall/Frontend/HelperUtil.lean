import Heimdall.Lib.Throws
import Heimdall.Lib.Grouping
import Heimdall.Js.Hash
import Heimdall.Inspec.NistOrder

/-!
# Helper functions

`compare_arrays` orders as the comparison of NIST controls does. `group_by` looks a group up
with a plain property access, so it groups by the key exactly when no item has the name of a
member of `Object.prototype` as its key.
-/
namespace Frontend
open Js Lib Inspec

section Arrays
variable {α : Type}

def compare_arrays : List α → List α → (α → α → ℤ) → ℤ
  | x :: a, y :: b, comparator =>
      let first := comparator x y
      if first ≠ 0 then first else compare_arrays a b comparator
  | a, b, _ =>
      -- The two indices moved together, so what is left differs in length as the arrays do.
      if a.length > b.length then 1 else if a.length = b.length then 0 else -1

/-- The two loops answer with one sign. -/
theorem sign_compare_arrays (a b : List α) (comparator : α → α → ℤ) :
    (compare_arrays a b comparator).sign = (lexCompare comparator a b).sign := by
  induction a generalizing b with
  | nil =>
      rw [lexCompare_nil]
      cases b with
      | nil => rfl
      | cons y b => exact (Int.sign_eq_neg_one_of_neg (by simp; omega)).symm
  | cons x a ih =>
      cases b with
      | nil =>
          rw [lexCompare_nil_right]
          exact (Int.sign_eq_one_of_pos (by simp)).symm
      | cons y b =>
          rw [compare_arrays, lexCompare]
          split
          · rfl
          · exact ih b

variable [UnicodeTables]

/-- The comparison of controls is that of a total preorder, puts a control before those that it
contains, and agrees with the comparison of arrays. -/
theorem localCompare_order (collates : Collates) :
    (∀ a : NistControl, a.localCompare a = 0) ∧
    (∀ a b c : NistControl, a.localCompare b ≤ 0 → b.localCompare c ≤ 0 →
      a.localCompare c ≤ 0) ∧
    (∀ a b : NistControl, a.localCompare b ≤ 0 ∨ b.localCompare a ≤ 0) ∧
    (∀ a b : NistControl, (a.localCompare b).sign = -(b.localCompare a).sign) ∧
    (∀ a b : NistControl, a.contains b = true → a.localCompare b ≤ 0) ∧
    ∀ a b : NistControl, (a.localCompare b).sign =
      (compare_arrays a.subSpecifiers b.subSpecifiers UnicodeTables.localeCompare).sign := by
  have preorder := NistControl.localCompare_preorder collates
  refine ⟨preorder.self, preorder.trans, preorder.total, preorder.swap, fun a b above => ?_,
    fun a b => ?_⟩
  · rw [NistControl.localCompare_eq]
    exact lexCompare_of_prefix collates (NistControl.contains_iff.mp above)
  · rw [NistControl.localCompare_eq, sign_compare_arrays]

omit [UnicodeTables] in
theorem localCompare_order_sample : @NistControl.localCompare asciiTables
    ⟨[js "AC", js "1"], none⟩ ⟨[js "AC", js "1", js "a"], none⟩ ≤ 0 :=
  (@localCompare_order asciiTables asciiTables_collates).2.2.2.2.1 _ _ (by decide +kernel)

end Arrays

section Functions
variable {α β : Type}

/-- One turn of the loop of `group_by`. -/
def groupStep (keyGetter : α → JsString) (result : Hash (List α)) (i : α) :
    Except JsError (Hash (List α)) :=
  let key := keyGetter i
  match result.get key with
  | .own corrList => .ok (result.set key (corrList ++ [i]))
  | .inherited => .error (.typeError "corrList.push is not a function")
  | .absent => .ok (result.set key [i])

def group_by (items : List α) (keyGetter : α → JsString) : Except JsError (Hash (List α)) :=
  items.foldlM (groupStep keyGetter) []

def map_hash (old : Hash α) (mapFunction : α → Except JsError β) : Except JsError (Hash β) :=
  old.entries.foldlM (fun result entry => do
    let value ← mapFunction entry.2
    return result.set entry.1 value) []

/-- `hash[key] || []`; what is inherited is neither falsy nor a list. -/
def listOr (hash : Hash (List α)) (key : JsString) : Except JsError (List α) :=
  match hash.get key with
  | .own list => .ok list
  | .inherited => .error (.typeError "Spread syntax requires an iterable")
  | .absent => .ok []

end Functions

section GroupBy
variable {α : Type} {keyGetter : α → JsString}

theorem groups_nodup (items : List α) : ((groups keyGetter items).map Prod.fst).Nodup := by
  rw [groups_keys]
  exact nodup_distinct _

theorem get_groups (items : List α) (key : JsString) :
    Hash.get (groups keyGetter items) key =
      if key ∈ items.map keyGetter then .own (group keyGetter items key)
      else if key ∈ objectPrototype then .inherited else .absent := by
  by_cases known : key ∈ items.map keyGetter
  · rw [if_pos known]
    exact Hash.get_of_mem (groups_nodup items)
      (List.mem_map.mpr ⟨key, mem_distinct.mpr known, rfl⟩)
  · rw [if_neg known]
    apply Hash.get_of_not_mem
    rwa [groups_keys, mem_distinct]

theorem set_groups (items : List α) (i : α) :
    Hash.set (groups keyGetter items) (keyGetter i)
      (group keyGetter items (keyGetter i) ++ [i]) = groups keyGetter (items ++ [i]) := by
  have keys : (items ++ [i]).map keyGetter = items.map keyGetter ++ [keyGetter i] := by simp
  have mem : keyGetter i ∈ (groups keyGetter items).map Prod.fst ↔
      keyGetter i ∈ items.map keyGetter := by rw [groups_keys, mem_distinct]
  unfold Hash.set
  by_cases known : keyGetter i ∈ items.map keyGetter
  · rw [if_pos (mem.mpr known)]
    simp only [groups, keys, distinct_concat, if_pos known, save, List.map_map]
    apply List.map_congr_left
    intro k _
    by_cases same : k = keyGetter i
    · simp [same, group_concat]
    · simp [same, group_concat, Ne.symm same]
  · rw [if_neg (mt mem.mp known)]
    simp only [groups, keys, distinct_concat, if_neg known, List.map_append]
    congr 1
    · apply List.map_congr_left
      intro k inside
      have other : keyGetter i ≠ k := by
        rintro rfl
        exact known (mem_distinct.mp inside)
      simp [group_concat, other]
    · simp [group_concat]

theorem groupStep_groups (items : List α) (i : α) :
    groupStep keyGetter (groups keyGetter items) i =
      if keyGetter i ∈ objectPrototype ∧ keyGetter i ∉ items.map keyGetter
      then .error (.typeError "corrList.push is not a function")
      else .ok (groups keyGetter (items ++ [i])) := by
  rw [groupStep, get_groups, ← set_groups]
  by_cases known : keyGetter i ∈ items.map keyGetter
  · simp [known]
  · by_cases inherited : keyGetter i ∈ objectPrototype
    · simp [known, inherited]
    · simp [known, inherited, group_of_absent known]

theorem foldlM_groupStep {done : List α} (ordinary : ∀ i ∈ done, keyGetter i ∉ objectPrototype)
    {items : List α} {hash : Hash (List α)} :
    items.foldlM (groupStep keyGetter) (groups keyGetter done) = .ok hash ↔
      (∀ i ∈ items, keyGetter i ∉ objectPrototype) ∧
        hash = groups keyGetter (done ++ items) := by
  induction items generalizing done with
  | nil =>
      rw [List.foldlM_nil, pure_eq_ok, List.append_nil]
      simp
  | cons i items ih =>
      rw [List.foldlM_cons, groupStep_groups, List.forall_mem_cons]
      by_cases inherited : keyGetter i ∈ objectPrototype
      · have fresh : keyGetter i ∉ done.map keyGetter := by
          intro known
          obtain ⟨j, inside, same⟩ := List.mem_map.mp known
          exact ordinary j inside (same ▸ inherited)
        rw [if_pos ⟨inherited, fresh⟩]
        refine iff_of_false (fun h => by cases h) fun h => h.1.1 inherited
      · rw [if_neg fun h => inherited h.1]
        have next : ∀ j ∈ done ++ [i], keyGetter j ∉ objectPrototype := by
          intro j inside
          rcases List.mem_append.mp inside with old | new
          · exact ordinary j old
          · exact List.mem_singleton.mp new ▸ inherited
        apply (ih next).trans
        rw [List.append_assoc, List.singleton_append]
        simp [inherited]

/-- `group_by` returns the groups exactly when no key is inherited from `Object.prototype`. -/
theorem group_by_eq_ok {items : List α} {hash : Hash (List α)} :
    group_by items keyGetter = .ok hash ↔
      (∀ i ∈ items, keyGetter i ∉ objectPrototype) ∧ hash = groups keyGetter items :=
  @foldlM_groupStep _ _ [] (fun _ inside => by cases inside) _ _

/-- `group_by` returns a partition exactly when no key is inherited from `Object.prototype`. -/
theorem group_by_partitions_iff (items : List α) (keyGetter : α → JsString) :
    (∃ hash, group_by items keyGetter = .ok hash ∧ Partition keyGetter items hash.entries) ↔
      ∀ i ∈ items, keyGetter i ∉ objectPrototype := by
  constructor
  · rintro ⟨hash, returned, -⟩
    exact (group_by_eq_ok.mp returned).1
  · intro ordinary
    exact ⟨_, group_by_eq_ok.mpr ⟨ordinary, rfl⟩,
      (partition_groups keyGetter items).of_perm (Hash.entries_perm _)⟩

/-- An item with the key `constructor` goes into no group. -/
theorem group_by_constructor : ¬ ∃ hash, group_by [js "constructor"] id = .ok hash ∧
    Partition id [js "constructor"] hash.entries := by
  rintro ⟨hash, returned, -⟩
  exact (group_by_eq_ok.mp returned).1 _ List.mem_cons_self (by decide +kernel)

/-- A group that is looked up; the name of an inherited member is not iterable. -/
theorem listOr_groups (items : List α) (key : JsString) :
    listOr (groups keyGetter items) key =
      if key ∈ objectPrototype ∧ key ∉ items.map keyGetter
      then .error (.typeError "Spread syntax requires an iterable")
      else .ok (group keyGetter items key) := by
  rw [listOr, get_groups]
  by_cases known : key ∈ items.map keyGetter
  · simp [known]
  · by_cases inherited : key ∈ objectPrototype
    · simp [known, inherited]
    · simp [known, inherited, group_of_absent known]

end GroupBy

section MapHash
variable {α β : Type}

def mapEntry (mapFunction : α → Except JsError β) (entry : JsString × α) :
    Except JsError (JsString × β) := do
  let value ← mapFunction entry.2
  return (entry.1, value)

theorem foldlM_set {mapFunction : α → Except JsError β} {es : List (JsString × α)}
    {acc hash : Hash β} (distinct : (acc.map Prod.fst ++ es.map Prod.fst).Nodup) :
    es.foldlM (fun (result : Hash β) entry => do
        let value ← mapFunction entry.2
        return result.set entry.1 value) acc = .ok hash ↔
      ∃ mapped, es.mapM (mapEntry mapFunction) = .ok mapped ∧ hash = acc ++ mapped := by
  induction es generalizing acc with
  | nil =>
      rw [List.foldlM_nil, List.mapM_nil, pure_eq_ok]
      simp only [pure_eq_ok, exists_eq_left, List.append_nil]
  | cons e es ih =>
      have fresh : e.1 ∉ acc.map Prod.fst := by
        intro known
        exact (List.nodup_append.mp distinct).2.2 _ known _ (List.mem_cons_self) rfl
      have next : ∀ value : β, ((acc ++ [(e.1, value)]).map Prod.fst ++ es.map Prod.fst).Nodup := by
        intro value
        simpa [List.append_assoc] using distinct
      rw [List.foldlM_cons, List.mapM_cons]
      simp only [do_eq_ok, mapEntry, pure_eq_ok]
      constructor
      · rintro ⟨_, ⟨value, first, rfl⟩, rest⟩
        rw [Hash.set_of_fresh fresh] at rest
        obtain ⟨mapped, others, rfl⟩ := (ih (next value)).mp rest
        exact ⟨_, ⟨_, ⟨value, first, rfl⟩, mapped, others, rfl⟩, by simp⟩
      · rintro ⟨_, ⟨_, ⟨value, first, rfl⟩, mapped, others, rfl⟩, rfl⟩
        refine ⟨_, ⟨value, first, rfl⟩, ?_⟩
        rw [Hash.set_of_fresh fresh]
        exact (ih (next value)).mpr ⟨mapped, others, by simp⟩

/-- On distinct keys `map_hash` maps the entries in the order of their enumeration. -/
theorem map_hash_eq_ok {old : Hash α} (distinct : (old.map Prod.fst).Nodup)
    {mapFunction : α → Except JsError β} {hash : Hash β} :
    map_hash old mapFunction = .ok hash ↔
      old.entries.mapM (mapEntry mapFunction) = .ok hash := by
  have keys : (old.entries.map Prod.fst).Nodup :=
    (old.entries_perm.map Prod.fst).nodup_iff.mpr distinct
  apply (@foldlM_set _ _ _ _ [] _ keys).trans
  simp

end MapHash
end Frontend
