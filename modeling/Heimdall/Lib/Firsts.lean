import Mathlib.Data.List.Nodup

/-!
# First occurrences

A list without the items whose key was seen before: the first item of every key, in the order
of the list. They are the items that another key asks for where the two keys determine each
other.
-/
namespace Lib

variable {α κ : Type*} [DecidableEq κ] (key : α → κ)

/-- The first item of every key that is not among `seen`. -/
def firsts : List α → List κ → List α
  | [], _ => []
  | x :: xs, seen => if key x ∈ seen then firsts xs seen else x :: firsts xs (key x :: seen)

variable {key}

theorem firsts_cons_of_seen {x : α} {seen : List κ} (known : key x ∈ seen) (xs : List α) :
    firsts key (x :: xs) seen = firsts key xs seen := if_pos known

theorem firsts_cons_of_new {x : α} {seen : List κ} (new : key x ∉ seen) (xs : List α) :
    firsts key (x :: xs) seen = x :: firsts key xs (key x :: seen) := if_neg new

theorem firsts_sublist (xs : List α) (seen : List κ) : (firsts key xs seen).Sublist xs := by
  induction xs generalizing seen with
  | nil => exact .slnil
  | cons x xs ih =>
      by_cases known : key x ∈ seen
      · rw [firsts_cons_of_seen known]
        exact (ih seen).cons x
      · rw [firsts_cons_of_new known]
        exact (ih (key x :: seen)).cons_cons x

/-- Every key that was not seen has an item. -/
theorem mem_keys_firsts {xs : List α} {seen : List κ} {k : κ} :
    k ∈ (firsts key xs seen).map key ↔ k ∈ xs.map key ∧ k ∉ seen := by
  induction xs generalizing seen with
  | nil => simp [firsts]
  | cons x xs ih =>
      rw [List.map_cons, List.mem_cons]
      by_cases known : key x ∈ seen
      · rw [firsts_cons_of_seen known, ih]
        constructor
        · exact fun ⟨inside, new⟩ => ⟨.inr inside, new⟩
        · rintro ⟨rfl | inside, new⟩
          · exact absurd known new
          · exact ⟨inside, new⟩
      · rw [firsts_cons_of_new known, List.map_cons, List.mem_cons, ih, List.mem_cons, not_or]
        by_cases same : k = key x
        · subst same
          simp [known]
        · simp [same]

theorem nodup_keys_firsts (xs : List α) (seen : List κ) :
    ((firsts key xs seen).map key).Nodup := by
  induction xs generalizing seen with
  | nil => exact List.nodup_nil
  | cons x xs ih =>
      by_cases known : key x ∈ seen
      · rw [firsts_cons_of_seen known]
        exact ih seen
      · rw [firsts_cons_of_new known, List.map_cons, List.nodup_cons]
        refine ⟨fun again => ?_, ih _⟩
        exact (mem_keys_firsts.mp again).2 List.mem_cons_self

/-- A first item is what a search for its key finds. -/
theorem find?_of_mem_firsts {xs : List α} {seen : List κ} {x : α}
    (inside : x ∈ firsts key xs seen) : xs.find? (fun y => decide (key y = key x)) = some x := by
  have new : key x ∉ seen := (mem_keys_firsts.mp (List.mem_map_of_mem inside)).2
  induction xs generalizing seen with
  | nil => cases inside
  | cons y xs ih =>
      by_cases known : key y ∈ seen
      · rw [firsts_cons_of_seen known] at inside
        have other : key y ≠ key x := fun same => new (same ▸ known)
        rw [List.find?_cons_of_neg (by simpa using other), ih inside new]
      · rw [firsts_cons_of_new known, List.mem_cons] at inside
        rcases inside with rfl | later
        · exact List.find?_cons_of_pos (by simp)
        · have apart := (mem_keys_firsts.mp (List.mem_map_of_mem later)).2
          have other : key y ≠ key x := fun same => apart (List.mem_cons.mpr (.inl same.symm))
          rw [List.find?_cons_of_neg (by simpa using other), ih later apart]

/-- Collecting the keys that are not there yet collects those of the first items. -/
theorem foldl_keys (xs : List α) {result seen : List κ} (same : ∀ k, k ∈ seen ↔ k ∈ result) :
    xs.foldl (fun result x => if key x ∈ result then result else result ++ [key x]) result =
      result ++ (firsts key xs seen).map key := by
  induction xs generalizing result seen with
  | nil => rw [firsts, List.map_nil, List.append_nil, List.foldl_nil]
  | cons x xs ih =>
      rw [List.foldl_cons]
      by_cases known : key x ∈ result
      · rw [if_pos known, ih same, firsts_cons_of_seen ((same _).mpr known)]
      · have new : key x ∉ seen := fun there => known ((same _).mp there)
        have grown : ∀ k, k ∈ key x :: seen ↔ k ∈ result ++ [key x] := fun k => by
          rw [List.mem_cons, List.mem_append, List.mem_singleton, same k, or_comm]
        rw [if_neg known, ih grown, firsts_cons_of_new new, List.append_assoc]
        rfl

/-- Collecting the items whose key is not there yet collects the first items. -/
theorem foldl_firsts (xs : List α) {result : List α} {seen : List κ}
    (same : ∀ k, k ∈ seen ↔ k ∈ result.map key) :
    xs.foldl (fun result x => if key x ∈ result.map key then result else result ++ [x]) result =
      result ++ firsts key xs seen := by
  induction xs generalizing result seen with
  | nil => rw [firsts, List.append_nil, List.foldl_nil]
  | cons x xs ih =>
      rw [List.foldl_cons]
      by_cases known : key x ∈ result.map key
      · rw [if_pos known, ih same, firsts_cons_of_seen ((same _).mpr known)]
      · have new : key x ∉ seen := fun there => known ((same _).mp there)
        have grown : ∀ k, k ∈ key x :: seen ↔ k ∈ (result ++ [x]).map key := fun k => by
          rw [List.map_append, List.mem_append, List.mem_cons, same k, or_comm]
          exact Iff.or Iff.rfl List.mem_singleton.symm
        rw [if_neg known, ih grown, firsts_cons_of_new new, List.append_assoc]
        rfl

section Determined
variable {γ : Type*} {g : α → γ} {xs : List α}

/-- Items of the list that `f` does not tell apart are not told apart by `g`. -/
def Determines {β : Type*} (f : α → β) (g : α → γ) (xs : List α) : Prop :=
  ∀ x ∈ xs, ∀ y ∈ xs, f x = f y → g x = g y

instance {β : Type*} [DecidableEq β] [DecidableEq γ] (f : α → β) (g : α → γ) (xs : List α) :
    Decidable (Determines f g xs) := inferInstanceAs (Decidable (∀ x ∈ xs, ∀ y ∈ xs, _))

/-- The first items take every value of `g`, each once. -/
structure FirstsTell (key : α → κ) (g : α → γ) (xs : List α) : Prop where
  once : ((firsts key xs []).map g).Nodup
  complete : ∀ x ∈ xs, g x ∈ (firsts key xs []).map g

theorem exists_first {x : α} (inside : x ∈ xs) :
    ∃ y ∈ firsts key xs [], y ∈ xs ∧ key y = key x := by
  have known : key x ∈ (firsts key xs []).map key :=
    mem_keys_firsts.mpr ⟨List.mem_map_of_mem inside, List.not_mem_nil⟩
  obtain ⟨y, first, same⟩ := List.mem_map.mp known
  exact ⟨y, first, (firsts_sublist xs []).subset first, same⟩

theorem firstsTell_of_determines (forth : Determines key g xs) (back : Determines g key xs) :
    FirstsTell key g xs := by
  constructor
  · have keys := List.pairwise_map.mp (@nodup_keys_firsts α κ _ key xs [])
    refine List.pairwise_map.mpr (keys.imp_of_mem fun hx hy differ same => differ ?_)
    have part := @firsts_sublist α κ _ key xs []
    exact back _ (part.subset hx) _ (part.subset hy) same
  · intro x inside
    obtain ⟨y, first, member, same⟩ := @exists_first α κ _ key xs _ inside
    exact List.mem_map.mpr ⟨y, first, forth y member x inside same⟩

theorem FirstsTell.back (tell : FirstsTell key g xs) (forth : Determines key g xs) :
    Determines g key xs := by
  intro x hx y hy same
  obtain ⟨x', first, member, own⟩ := @exists_first α κ _ key xs _ hx
  obtain ⟨y', first', member', own'⟩ := @exists_first α κ _ key xs _ hy
  have values : g x' = g y' :=
    (forth _ member _ hx own).trans (same.trans (forth _ member' _ hy own').symm)
  obtain rfl := List.inj_on_of_nodup_map tell.once first first' values
  exact own.symm.trans own'

theorem FirstsTell.forth (tell : FirstsTell key g xs) (back : Determines g key xs) :
    Determines key g xs := by
  intro x hx y hy same
  have part := @firsts_sublist α κ _ key xs []
  obtain ⟨x', first, own⟩ := List.mem_map.mp (tell.complete x hx)
  obtain ⟨y', first', own'⟩ := List.mem_map.mp (tell.complete y hy)
  have keys : key x' = key y' := (back _ (part.subset first) _ hx own).trans
    (same.trans (back _ (part.subset first') _ hy own').symm)
  obtain rfl := List.inj_on_of_nodup_map (nodup_keys_firsts xs []) first first' keys
  exact own.symm.trans own'

end Determined

end Lib
