import Mathlib.Data.List.Basic

/-!
# Rows with a key

A table is a list of rows; a statement finds, replaces or deletes the rows of one key.
Each operation is described by what `pick` returns afterwards, for every key.
-/
namespace Lib

variable {α κ : Type*} [DecidableEq κ] (key : α → κ)

def pick (k : κ) (rows : List α) : Option α := rows.find? fun row => key row = k

def save (row : α) (rows : List α) : List α :=
  rows.map fun old => if key old = key row then row else old

def discard (k : κ) (rows : List α) : List α := rows.filter fun row => key row ≠ k

variable {key}

theorem pick_some {k : κ} {rows : List α} {row : α} (h : pick key k rows = some row) :
    row ∈ rows ∧ key row = k := ⟨List.mem_of_find?_eq_some h, by simpa using List.find?_some h⟩

theorem pick_none_of_fresh {k : κ} {rows : List α} (fresh : ∀ row ∈ rows, key row ≠ k) :
    pick key k rows = none := by
  simpa [pick] using fresh

theorem pick_append_fresh {k : κ} {rows : List α} {row : α}
    (fresh : ∀ old ∈ rows, key old ≠ key row) :
    pick key k (rows ++ [row]) = if k = key row then some row else pick key k rows := by
  by_cases same : k = key row
  · subst same
    have absent := pick_none_of_fresh fresh
    simp only [pick] at absent ⊢
    simp [List.find?_append, absent]
  · have other : ¬ key row = k := fun h => same h.symm
    simp [pick, List.find?_append, other, same]

theorem pick_save {k : κ} {rows : List α} {row : α} :
    pick key k (save key row rows) =
      if k = key row then (pick key k rows).map fun _ => row else pick key k rows := by
  induction rows with
  | nil => simp [pick, save]
  | cons old rows ih =>
      simp only [pick, save, List.map_cons, List.find?_cons] at ih ⊢
      by_cases same : k = key row
      · subst same
        by_cases here : key old = key row
        · simp [here]
        · simpa [here] using ih
      · by_cases here : key old = key row
        · have other : ¬ key row = k := fun h => same h.symm
          simpa [here, other, same] using ih
        · by_cases found : key old = k
          · simp [found, same]
          · simpa [here, found, same] using ih

theorem pick_discard {k d : κ} {rows : List α} :
    pick key k (discard key d rows) = if k = d then none else pick key k rows := by
  induction rows with
  | nil => simp [pick, discard]
  | cons old rows ih =>
      simp only [pick, discard, List.filter_cons, List.find?_cons] at ih ⊢
      by_cases gone : key old = d
      · by_cases same : k = d
        · simp [gone, same]
        · have other : ¬ d = k := fun h => same h.symm
          simpa [gone, same, other] using ih
      · by_cases found : key old = k
        · have kept : ¬ k = d := fun h => gone (found.trans h)
          simp [found, kept]
        · simpa [gone, found] using ih

theorem map_key_save {row : α} {rows : List α} : (save key row rows).map key = rows.map key := by
  induction rows with
  | nil => rfl
  | cons old rows ih =>
      by_cases same : key old = key row
      · simpa [save, same] using ih
      · simpa [save, same] using ih

theorem map_key_discard {d : κ} {rows : List α} :
    (discard key d rows).map key = (rows.map key).filter fun k => k ≠ d := by
  simp [discard, List.filter_map, Function.comp_def]

theorem mem_key_iff {k : κ} {rows : List α} :
    k ∈ rows.map key ↔ ∃ row, pick key k rows = some row := by
  rw [← Option.isSome_iff_exists, pick, List.find?_isSome]
  simp

omit [DecidableEq κ] in
/-- Among two rows with distinct keys one has another key than the given one. -/
theorem exists_key_ne {rows : List α} (distinct : (rows.map key).Nodup) (two : 2 ≤ rows.length)
    (d : κ) : ∃ row ∈ rows, key row ≠ d := by
  match rows, two with
  | a :: b :: rest, _ =>
      by_cases first : key a = d
      · refine ⟨b, by simp, ?_⟩
        rintro rfl
        simp [first] at distinct
      · exact ⟨a, by simp, first⟩

theorem pick_of_mem {rows : List α} (distinct : (rows.map key).Nodup) {row : α}
    (here : row ∈ rows) : pick key (key row) rows = some row := by
  induction rows with
  | nil => cases here
  | cons old rows ih =>
      simp only [pick, List.find?_cons] at ih ⊢
      rcases List.mem_cons.mp here with rfl | later
      · simp
      · have apart : key old ≠ key row := by
          intro same
          rw [List.map_cons, List.nodup_cons, same] at distinct
          exact distinct.1 (List.mem_map_of_mem later)
        simpa [apart] using ih (List.nodup_cons.mp distinct).2 later

/-- A deleted key leaves the column empty. -/
def clear (d : κ) (column : Option κ) : Option κ := if column = some d then none else column

@[simp] theorem clear_eq_some {d k : κ} {column : Option κ} :
    clear d column = some k ↔ k ≠ d ∧ column = some k := by
  unfold clear
  by_cases gone : column = some d
  · rw [if_pos gone, gone]
    constructor
    · intro h
      cases h
    · rintro ⟨other, same⟩
      exact absurd (Option.some.inj same).symm other
  · rw [if_neg gone]
    constructor
    · intro h
      exact ⟨fun same => gone (same ▸ h), h⟩
    · exact And.right

/-- A column is empty or holds one of the keys. -/
def Refers (column : Option κ) (keys : List κ) : Prop := ∀ k, column = some k → k ∈ keys

omit [DecidableEq κ] in
theorem Refers.mono {column : Option κ} {keys more : List κ} (h : Refers column keys)
    (sub : ∀ k ∈ keys, k ∈ more) : Refers column more := fun k hk => sub k (h k hk)

theorem Refers.clear {column : Option κ} {keys : List κ} (h : Refers column keys) (d : κ) :
    Refers (clear d column) (keys.filter fun k => k ≠ d) := by
  intro k hk
  obtain ⟨other, here⟩ := clear_eq_some.mp hk
  exact List.mem_filter.mpr ⟨h k here, by simpa using other⟩

section Sequence
variable {key : α → ℕ}

/-- Keys are distinct and were taken from the sequence. -/
structure Keyed (key : α → ℕ) (next : ℕ) (rows : List α) : Prop where
  nodup : (rows.map key).Nodup
  below : ∀ k ∈ rows.map key, k < next

theorem Keyed.fresh {next : ℕ} {rows : List α} (h : Keyed key next rows) :
    ∀ row ∈ rows, key row ≠ next := fun row here =>
  Nat.ne_of_lt (h.below (key row) (List.mem_map_of_mem here))

theorem Keyed.append {next : ℕ} {rows : List α} (h : Keyed key next rows) {row : α}
    (new : key row = next) : Keyed key (next + 1) (rows ++ [row]) := by
  refine ⟨?_, ?_⟩
  · rw [List.map_append, List.nodup_append]
    refine ⟨h.nodup, by simp, ?_⟩
    intro a ha b hb
    have last : b = next := by simpa [new] using hb
    have older := h.below a ha
    omega
  · intro k hk
    rw [List.map_append, List.mem_append] at hk
    rcases hk with old | last
    · exact Nat.lt_succ_of_lt (h.below k old)
    · have same : k = next := by simpa [new] using last
      omega

theorem Keyed.save {next : ℕ} {rows : List α} (h : Keyed key next rows) (row : α) :
    Keyed key next (save key row rows) := by
  refine ⟨?_, ?_⟩ <;> rw [map_key_save]
  · exact h.nodup
  · exact h.below

theorem Keyed.discard {next : ℕ} {rows : List α} (h : Keyed key next rows) (d : ℕ) :
    Keyed key next (discard key d rows) := by
  refine ⟨?_, ?_⟩ <;> rw [map_key_discard]
  · exact h.nodup.filter _
  · exact fun k hk => h.below k (List.mem_of_mem_filter hk)

end Sequence

end Lib
