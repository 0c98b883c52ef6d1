import Mathlib.Data.List.Perm.Lattice
import Mathlib.Algebra.Ring.Nat
import Mathlib.Algebra.BigOperators.Group.List.Basic
import Mathlib.Data.List.Flatten
import Heimdall.Lib.Selection

/-!
# Grouping by a key

The groups of a list in the order in which their keys first occur, and joins of two lists
along a relation.
-/
namespace Lib

section Groups
variable {α κ : Type*} [DecidableEq κ]

theorem distinct_concat (ks : List κ) (k : κ) :
    distinct (ks ++ [k]) = if k ∈ ks then distinct ks else distinct ks ++ [k] := by
  unfold distinct
  rw [List.eraseDups_append]
  by_cases known : k ∈ ks
  · simp [List.removeAll, known]
  · simp [List.removeAll, known, List.eraseDups_cons]

theorem distinct_perm {xs ys : List κ} (perm : xs.Perm ys) : (distinct xs).Perm (distinct ys) := by
  apply (List.perm_ext_iff_of_nodup (nodup_distinct xs) (nodup_distinct ys)).mpr
  intro k
  rw [mem_distinct, mem_distinct, perm.mem_iff]

variable (key : α → κ)

/-- The items of one key, in their order. -/
def group (items : List α) (k : κ) : List α := items.filter fun i => key i = k

def groups (items : List α) : List (κ × List α) :=
  (distinct (items.map key)).map fun k => (k, group key items k)

variable {key}

theorem mem_group {items : List α} {k : κ} {i : α} :
    i ∈ group key items k ↔ i ∈ items ∧ key i = k := by
  simp [group]

theorem group_concat (items : List α) (i : α) (k : κ) :
    group key (items ++ [i]) k = group key items k ++ if key i = k then [i] else [] := by
  unfold group
  rw [List.filter_append]
  by_cases same : key i = k
  · simp [same]
  · simp [same]

theorem group_of_absent {items : List α} {k : κ} (absent : k ∉ items.map key) :
    group key items k = [] := by
  apply List.filter_eq_nil_iff.mpr
  intro i inside
  simp only [decide_eq_true_eq]
  rintro rfl
  exact absent (List.mem_map_of_mem inside)

/-- The keys of the groups are those of the items, each once. -/
theorem groups_keys (items : List α) :
    (groups key items).map Prod.fst = distinct (items.map key) := by
  rw [groups, List.map_map]
  exact List.map_id _

end Groups

section Join
variable {α β : Type*} (r : α → β → Bool)

theorem filter_eq_flatMap (p : β → Bool) (bs : List β) :
    bs.filter p = bs.flatMap fun b => if p b then [b] else [] := by
  induction bs with
  | nil => rfl
  | cons b bs ih =>
      rw [List.flatMap_cons, ← ih, List.filter_cons]
      split <;> rfl

/-- The matches of two lists, counted from either side. -/
theorem join_perm (as : List α) (bs : List β) :
    (as.flatMap fun a => bs.filter (r a)).Perm
      (bs.flatMap fun b => (as.filter fun a => r a b).map fun _ => b) := by
  induction as with
  | nil => simp
  | cons a as ih =>
      have split : ∀ b, ((a :: as).filter fun a => r a b).map (fun _ => b) =
          (if r a b then [b] else []) ++ (as.filter fun a => r a b).map fun _ => b := by
        intro b
        by_cases here : r a b
        · simp [here]
        · simp [here]
      simp only [split]
      rw [List.flatMap_cons, filter_eq_flatMap]
      exact (List.Perm.append_left _ ih).trans (List.flatMap_append_perm bs _ _)

/-- Where every item is in one class, the classes together have as many items as there are. -/
theorem sum_countP_classes {classes : List α} {bs : List β}
    (one : ∀ b ∈ bs, (classes.filter fun a => r a b).length = 1) :
    (classes.map fun a => bs.countP (r a)).sum = bs.length := by
  have counted := (join_perm r classes bs).length_eq
  rw [List.length_flatMap, List.length_flatMap] at counted
  simp only [List.length_map, ← List.countP_eq_length_filter] at counted one
  rw [counted, List.map_congr_left one, List.map_const', List.sum_replicate, nsmul_one]
  rfl

/-- The number of items with a match is at most that of the matches, with equality only if
no item has two of them. -/
theorem matched_length (n : β → ℕ) (bs : List β) :
    (bs.filter fun b => 0 < n b).length ≤ (bs.map n).sum ∧
      ((bs.map n).sum ≤ (bs.filter fun b => 0 < n b).length → ∀ b ∈ bs, n b ≤ 1) := by
  induction bs with
  | nil => exact ⟨Nat.zero_le _, fun _ => List.forall_mem_nil _⟩
  | cons b bs ih =>
      obtain ⟨le, each⟩ := ih
      rw [List.map_cons, List.sum_cons]
      rw [List.filter_cons]
      by_cases some_match : 0 < n b
      · rw [if_pos (decide_eq_true some_match), List.length_cons]
        refine ⟨by omega, fun same => List.forall_mem_cons.mpr ⟨by omega, each (by omega)⟩⟩
      · rw [if_neg fun matched => some_match (of_decide_eq_true matched)]
        refine ⟨by omega, fun same => List.forall_mem_cons.mpr ⟨by omega, each (by omega)⟩⟩

/-- A join keeps the matched items, each once, exactly if no item has two matches. -/
theorem join_perm_iff (as : List α) (bs : List β) :
    (as.flatMap fun a => bs.filter (r a)).Perm (bs.filter fun b => as.any fun a => r a b) ↔
      ∀ b ∈ bs, (as.filter fun a => r a b).length ≤ 1 := by
  have matched : ∀ b, (as.any fun a => r a b) = decide (0 < (as.filter fun a => r a b).length) := by
    intro b
    rw [Bool.eq_iff_iff, List.any_eq_true, decide_eq_true_iff, List.length_pos_iff_exists_mem]
    simp only [List.mem_filter]
  simp only [matched]
  constructor
  · intro perm
    apply (matched_length _ bs).2
    have length := ((join_perm r as bs).symm.trans perm).length_eq
    rw [List.length_flatMap] at length
    simp only [List.length_map] at length
    exact Nat.le_of_eq length
  · intro unique
    refine (join_perm r as bs).trans (List.Perm.of_eq ?_)
    rw [filter_eq_flatMap]
    apply List.flatMap_congr
    intro b inside
    have few := unique b inside
    match here : as.filter fun a => r a b, few with
    | [], _ => rfl
    | [a], _ => rfl

theorem flatMap_classes_perm {γ κ : Type*} (key : β → κ) {within : κ → β → Bool} {p : β → Bool}
    {ks : List κ} (distinct : ks.Nodup) (classes : ∀ k b, within k b = true ↔ key b = k)
    (listed : ∀ b, p b = true ↔ key b ∈ ks) (bs : List β) (g : β → List γ) :
    (ks.flatMap fun k => (bs.filter (within k)).flatMap g).Perm ((bs.filter p).flatMap g) := by
  have matched : ∀ b ∈ bs, p b = ks.any fun k => within k b := by
    intro b _
    rw [Bool.eq_iff_iff, listed, List.any_eq_true]
    simp [classes]
  have once : ∀ b ∈ bs, (ks.filter fun k => within k b).length ≤ 1 := by
    intro b _
    have single : ∀ k ∈ ks.filter fun k => within k b, k = key b := fun k inside =>
      ((classes k b).mp (List.mem_filter.mp inside).2).symm
    match found : ks.filter fun k => within k b with
    | [] => exact Nat.zero_le _
    | [_] => exact Nat.le_refl _
    | k :: k' :: rest =>
        have both := (distinct.filter fun k => within k b)
        rw [found] at single both
        have same := (single k (by simp)).trans (single k' (by simp)).symm
        exact absurd (by simp [same]) (List.nodup_cons.mp both).1
  rw [List.filter_congr matched, ← List.flatMap_assoc]
  exact ((join_perm_iff within ks bs).mpr once).flatMap_right g

end Join

/-- The groups of all keys make up the list. -/
theorem groups_perm {α κ : Type*} [DecidableEq κ] (key : α → κ) (items : List α) :
    ((distinct (items.map key)).flatMap (group key items)).Perm items := by
  have once : ∀ i ∈ items,
      ((distinct (items.map key)).filter fun k => decide (key i = k)).length ≤ 1 := by
    intro i _
    rw [← List.countP_eq_length_filter]
    have count := List.nodup_iff_count_le_one.mp (nodup_distinct (items.map key)) (key i)
    rw [List.count_eq_countP] at count
    refine Nat.le_trans (Nat.le_of_eq (List.countP_congr fun k _ => ?_)) count
    simp only [decide_eq_true_eq, beq_iff_eq]
    exact eq_comm
  have perm := (join_perm_iff (fun k i => decide (key i = k)) _ items).mpr once
  have all : (items.filter fun i => (distinct (items.map key)).any fun k => decide (key i = k)) =
      items := by
    refine List.filter_eq_self.mpr fun i inside => List.any_eq_true.mpr ⟨key i, ?_, by simp⟩
    exact mem_distinct.mpr (List.mem_map_of_mem inside)
  rw [all] at perm
  exact perm

section Partition
variable {α κ : Type*} {key : α → κ} {items : List α}

/-- Groups that make up a list: each has its own key, holds items of that key alone, in the order
of the list, and no item is lost. -/
structure Partition (key : α → κ) (items : List α) (gs : List (κ × List α)) : Prop where
  distinct : (gs.map Prod.fst).Nodup
  perm : (gs.flatMap Prod.snd).Perm items
  ordered : ∀ g ∈ gs, g.2.Sublist items
  only : ∀ g ∈ gs, ∀ i ∈ g.2, key i = g.1
  placed : ∀ i ∈ items, ∃ g ∈ gs, g.1 = key i ∧ i ∈ g.2

theorem Partition.of_perm {gs hs : List (κ × List α)} (partition : Partition key items gs)
    (perm : hs.Perm gs) : Partition key items hs where
  distinct := (perm.map Prod.fst).nodup_iff.mpr partition.distinct
  perm := (perm.flatMap_right Prod.snd).trans partition.perm
  ordered g inside := partition.ordered g (perm.mem_iff.mp inside)
  only g inside := partition.only g (perm.mem_iff.mp inside)
  placed i inside := by
    obtain ⟨g, listed, own⟩ := partition.placed i inside
    exact ⟨g, perm.mem_iff.mpr listed, own⟩

variable [DecidableEq κ]

theorem partition_groups (key : α → κ) (items : List α) :
    Partition key items (groups key items) where
  distinct := by
    rw [groups_keys]
    exact nodup_distinct _
  perm := by
    rw [groups, List.flatMap_map]
    exact groups_perm key items
  ordered g inside := by
    obtain ⟨k, -, rfl⟩ := List.mem_map.mp inside
    exact List.filter_sublist
  only g inside i listed := by
    obtain ⟨k, -, rfl⟩ := List.mem_map.mp inside
    exact (mem_group.mp listed).2
  placed i inside := by
    have known : key i ∈ distinct (items.map key) := mem_distinct.mpr (List.mem_map_of_mem inside)
    exact ⟨_, List.mem_map_of_mem known, rfl, mem_group.mpr ⟨inside, rfl⟩⟩

end Partition

end Lib
