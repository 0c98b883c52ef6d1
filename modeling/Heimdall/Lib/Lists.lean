import Mathlib.Data.List.Forall2
import Mathlib.Data.List.Perm.Basic
import Mathlib.Data.List.Range

/-!
# Lists

Positions in a list that grows at its end, and what is left of lists that agree up to their
order or item by item.
-/
namespace Lib

variable {α β : Type*} {xs ys : List α} {k i : ℕ} {v : α}

theorem getElem?_append_of_some (found : xs[k]? = some v) : (xs ++ ys)[k]? = some v := by
  rw [List.getElem?_append_left (List.getElem?_eq_some_iff.mp found).1, found]

theorem getElem?_of_prefix (grows : xs <+: ys) (found : xs[k]? = some v) : ys[k]? = some v := by
  obtain ⟨more, rfl⟩ := grows
  exact getElem?_append_of_some found

theorem getElem?_append_add : (xs ++ ys)[xs.length + i]? = ys[i]? := by
  rw [List.getElem?_append_right (by omega), Nat.add_sub_cancel_left]

theorem getElem?_append_cases (found : (xs ++ ys)[k]? = some v) :
    xs[k]? = some v ∨ ∃ i, k = xs.length + i ∧ ys[i]? = some v := by
  rcases Nat.lt_or_ge k xs.length with old | new
  · rw [List.getElem?_append_left old] at found
    exact .inl found
  · obtain ⟨i, rfl⟩ := Nat.exists_eq_add_of_le new
    rw [getElem?_append_add] at found
    exact .inr ⟨i, rfl, found⟩

theorem getElem?_concat_cases {x : α} (found : (xs ++ [x])[k]? = some v) :
    xs[k]? = some v ∨ k = xs.length ∧ v = x := by
  rcases getElem?_append_cases found with old | ⟨i, rfl, new⟩
  · exact .inl old
  · obtain ⟨bound, rfl⟩ := List.getElem?_eq_some_iff.mp new
    rw [List.length_singleton] at bound
    obtain rfl : i = 0 := by omega
    exact .inr ⟨rfl, rfl⟩

/-- The item at a place after one item was changed. -/
theorem getElem?_modify_cases {f : α → α} (found : (xs.modify i f)[k]? = some v) :
    (k ≠ i ∧ xs[k]? = some v) ∨ ∃ old, k = i ∧ xs[i]? = some old ∧ v = f old := by
  rw [List.getElem?_modify] at found
  obtain ⟨old, here, rfl⟩ := Option.map_eq_some_iff.mp found
  by_cases changed : i = k
  · subst changed
    exact .inr ⟨old, rfl, here, by simp⟩
  · exact .inl ⟨fun same => changed same.symm, by simpa [changed] using here⟩

/-- What becomes of an item when one item is changed. -/
theorem getElem?_modify_of_some (f : α → α) (i : ℕ) (found : xs[k]? = some v) :
    (k ≠ i ∧ (xs.modify i f)[k]? = some v) ∨ (k = i ∧ (xs.modify i f)[k]? = some (f v)) := by
  rw [List.getElem?_modify, found]
  by_cases changed : k = i
  · subst changed
    exact .inr ⟨rfl, by simp⟩
  · exact .inl ⟨changed, by simp [Ne.symm changed]⟩

theorem modify_concat (xs : List α) (x : α) (f : α → α) :
    (xs ++ [x]).modify xs.length f = xs ++ [f x] := by
  induction xs with
  | nil => rfl
  | cons y ys ih => exact congrArg (y :: ·) ih

/-- Lists with the same image agree place by place. -/
theorem getElem?_of_map_eq {f : α → β} (same : xs.map f = ys.map f) (found : xs[k]? = some v) :
    ∃ w, ys[k]? = some w ∧ f w = f v := by
  have place : (ys.map f)[k]? = some (f v) := by rw [← same, List.getElem?_map, found]; rfl
  rw [List.getElem?_map, Option.map_eq_some_iff] at place
  exact place

/-- Lists with the same image under a map that tells their items apart are the same. -/
theorem eq_of_map_eq {f : α → β} (injective : ∀ x ∈ xs, ∀ y ∈ ys, f x = f y → x = y)
    (same : xs.map f = ys.map f) : xs = ys := by
  induction xs generalizing ys with
  | nil => exact (List.map_eq_nil_iff.mp same.symm).symm
  | cons x xs ih =>
      cases ys with
      | nil => cases same
      | cons y ys =>
          obtain ⟨head, tail⟩ := List.cons.inj same
          obtain rfl := injective x List.mem_cons_self y List.mem_cons_self head
          refine congrArg (x :: ·) (ih (fun a ha b hb => ?_) tail)
          exact injective a (List.mem_cons_of_mem _ ha) b (List.mem_cons_of_mem _ hb)

/-- The items of a part of a list, in the order of the list. -/
theorem filter_mem_of_sublist [DecidablePred (· ∈ xs)] (part : xs.Sublist ys)
    (distinct : ys.Nodup) :
    (ys.filter fun y => decide (y ∈ xs)) = xs := by
  have own : (xs.filter fun y => decide (y ∈ xs)) = xs :=
    List.filter_eq_self.mpr fun x inside => decide_eq_true inside
  have kept : xs.Sublist (ys.filter fun y => decide (y ∈ xs)) := by
    simpa only [own] using part.filter fun y => decide (y ∈ xs)
  have named : (ys.filter fun y => decide (y ∈ xs)) ⊆ xs := fun y inside =>
    of_decide_eq_true (List.mem_filter.mp inside).2
  exact (kept.eq_of_length_le (List.subperm_of_subset (distinct.filter _) named).length_le).symm

/-- Looking up the positions of the items that were appended gives these items. -/
theorem map_getElem?_range' (f : Option α → Option β) :
    (List.range' xs.length ys.length).map (fun k => f (xs ++ ys)[k]?) =
      ys.map fun y => f (some y) := by
  apply List.ext_getElem? fun i => ?_
  rcases Nat.lt_or_ge i ys.length with inside | outside
  · rw [List.getElem?_map, List.getElem?_map, List.getElem?_range' inside]
    simp only [Option.map_some, Nat.one_mul, getElem?_append_add]
    rw [List.getElem?_eq_getElem inside, Option.map_some]
  · rw [List.getElem?_eq_none (by simpa using outside),
      List.getElem?_eq_none (by simpa using outside)]

theorem flatMap_range_getElem? (xs : List α) (f : α → List β) :
    (List.range xs.length).flatMap (fun i => (xs[i]?.map f).getD []) = xs.flatMap f := by
  induction xs with
  | nil => rfl
  | cons x xs ih =>
      rw [List.length_cons, List.range_succ_eq_map, List.flatMap_cons, List.flatMap_cons,
        List.flatMap_map, ← ih]
      rfl

theorem perm_cons_eraseIdx {x : α} (here : xs[i]? = some x) :
    xs.Perm (x :: xs.eraseIdx i) := by
  obtain ⟨bound, rfl⟩ := List.getElem?_eq_some_iff.mp here
  exact (List.getElem_cons_eraseIdx_perm bound).symm

theorem filterMap_perm_cons {f : α → Option β} {x : α}
    (perm : xs.Perm (x :: ys)) : (xs.filterMap f).Perm ((f x).toList ++ ys.filterMap f) := by
  refine (perm.filterMap f).trans (List.Perm.of_eq ?_)
  rw [List.filterMap_cons]
  cases f x <;> rfl

theorem forall₂_filterMap {r : β → β → Prop} {f g : α → Option β}
    (each : ∀ x ∈ xs, ∃ a b, f x = some a ∧ g x = some b ∧ r a b) :
    List.Forall₂ r (xs.filterMap f) (xs.filterMap g) := by
  induction xs with
  | nil => exact .nil
  | cons x xs ih =>
      obtain ⟨a, b, first, second, related⟩ := each x List.mem_cons_self
      rw [List.filterMap_cons_some first, List.filterMap_cons_some second]
      exact .cons related (ih fun y inside => each y (List.mem_cons_of_mem _ inside))

/-- Every item of the second list belongs to one of the first. -/
theorem exists_of_forall₂ {R : α → β → Prop} {bs : List β} (pairs : List.Forall₂ R xs bs) {b : β}
    (inside : b ∈ bs) : ∃ a ∈ xs, R a b := by
  induction pairs with
  | nil => cases inside
  | cons first _ ih =>
      rcases List.mem_cons.mp inside with rfl | later
      · exact ⟨_, List.mem_cons_self, first⟩
      · obtain ⟨a, listed, pair⟩ := ih later
        exact ⟨a, List.mem_cons_of_mem _ listed, pair⟩

/-- What two lists that belong together item by item have to have in common besides. -/
theorem forall₂_iff_of_forall₂ {R S : α → β → Prop} {p : α → Prop} {bs : List β}
    (pairs : List.Forall₂ R xs bs) (each : ∀ a b, R a b → (S a b ↔ p a)) :
    List.Forall₂ S xs bs ↔ ∀ a ∈ xs, p a := by
  induction pairs with
  | nil => simp
  | cons pair _ ih => rw [List.forall₂_cons, each _ _ pair, ih, List.forall_mem_cons]

theorem map_eq_map_of_forall₂ {γ : Type*} {f : α → γ} {g : β → γ} {bs : List β}
    (pairs : List.Forall₂ (fun a b => g b = f a) xs bs) : bs.map g = xs.map f := by
  induction pairs with
  | nil => rfl
  | cons pair _ ih => rw [List.map_cons, List.map_cons, pair, ih]

/-- A listing does not change when entries that it does not show are dropped first. -/
theorem listing_filter {γ : Type*} {rows : List α} {keep p q : α → Bool} {f g : α → γ}
    (dropped : ∀ row ∈ rows, keep row = false → p row = false)
    (kept : ∀ row ∈ rows, keep row = true → q row = p row ∧ g row = f row) :
    ((rows.filter keep).filter q).map g = (rows.filter p).map f := by
  induction rows with
  | nil => rfl
  | cons row rows ih =>
      have rest := ih (fun r hr => dropped r (List.mem_cons_of_mem _ hr))
        fun r hr => kept r (List.mem_cons_of_mem _ hr)
      cases stays : keep row with
      | false =>
          have hidden := dropped row List.mem_cons_self stays
          simp only [List.filter_cons, stays, hidden]
          exact rest
      | true =>
          obtain ⟨shown, same⟩ := kept row List.mem_cons_self stays
          simp only [List.filter_cons, stays, if_true, shown]
          cases p row with
          | false => exact rest
          | true => exact congrArg₂ List.cons same rest

end Lib
