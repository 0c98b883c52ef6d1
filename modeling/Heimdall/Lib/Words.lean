import Mathlib.Data.List.Basic

/-!
# Words between separators

The parts of a list that stand between separators, without the empty ones.
-/
namespace Lib

variable {α : Type*} {p : α → Bool}

def words (p : α → Bool) (s : List α) : List (List α) := (s.splitOnP p).filter fun w => !w.isEmpty

theorem words_nil : words p [] = [] := rfl

/-- A separator cuts. -/
theorem words_append_cons (s t : List α) {c : α} (separates : p c = true) :
    words p (s ++ c :: t) = words p s ++ words p t := by
  unfold words
  rw [List.splitOnP_append_cons s t separates, List.filter_append]

theorem words_cons (t : List α) {c : α} (separates : p c = true) :
    words p (c :: t) = words p t := words_append_cons [] t separates

theorem words_seps_append {s : List α} (separates : ∀ c ∈ s, p c = true) (t : List α) :
    words p (s ++ t) = words p t := by
  induction s with
  | nil => rfl
  | cons c s ih =>
      obtain ⟨here, later⟩ := List.forall_mem_cons.mp separates
      rw [List.cons_append, words_cons _ here, ih later]

theorem words_append_seps (s : List α) {t : List α} (separates : ∀ c ∈ t, p c = true) :
    words p (s ++ t) = words p s := by
  cases t with
  | nil => rw [List.append_nil]
  | cons c t =>
      obtain ⟨here, later⟩ := List.forall_mem_cons.mp separates
      have none := words_seps_append later []
      rw [List.append_nil] at none
      rw [words_append_cons s t here, none, words_nil, List.append_nil]

/-- Something and no separator in it. -/
def IsWord (p : α → Bool) (w : List α) : Prop := w ≠ [] ∧ ∀ c ∈ w, p c = false

theorem IsWord.words {w : List α} (word : IsWord p w) : words p w = [w] := by
  obtain ⟨c, s, rfl⟩ := List.exists_cons_of_ne_nil word.1
  unfold Lib.words
  rw [List.splitOnP_eq_singleton word.2]
  rfl

/-- A word up to the next separator. -/
theorem IsWord.words_append {w : List α} (word : IsWord p w) {t : List α}
    (ends : t.head?.all p = true) : Lib.words p (w ++ t) = w :: Lib.words p t := by
  cases t with
  | nil => rw [List.append_nil, word.words, words_nil]
  | cons c t =>
      have separates : p c = true := by simpa using ends
      rw [words_append_cons w t separates, words_cons t separates, word.words]
      rfl

theorem splitOnP_clean (s : List α) : ∀ w ∈ s.splitOnP p, ∀ c ∈ w, p c = false := by
  induction s with
  | nil =>
      intro w inside c member
      rw [List.splitOnP_nil, List.mem_singleton] at inside
      subst inside
      cases member
  | cons d s ih =>
      rw [List.splitOnP_cons_eq_if_modifyHead]
      split
      · exact List.forall_mem_cons.mpr ⟨List.forall_mem_nil _, ih⟩
      · rename_i other
        cases parts : s.splitOnP p with
        | nil => exact absurd parts (List.splitOnP_ne_nil p s)
        | cons first rest =>
            rw [parts] at ih
            obtain ⟨here, later⟩ := List.forall_mem_cons.mp ih
            refine List.forall_mem_cons.mpr ⟨?_, later⟩
            exact List.forall_mem_cons.mpr ⟨Bool.eq_false_iff.mpr other, here⟩

theorem isWord_of_mem {s w : List α} (inside : w ∈ words p s) : IsWord p w := by
  obtain ⟨part, filled⟩ := List.mem_filter.mp inside
  refine ⟨?_, splitOnP_clean s w part⟩
  rintro rfl
  cases filled

section Separator
variable {sep : α} {a b c d : List α}

/-- Two ways to read a text with a separator: they are one, or the separator is also inside the
longer one of the first parts. -/
theorem append_separator_cases (same : a ++ sep :: b = c ++ sep :: d) :
    (a = c ∧ b = d) ∨ (∃ x, c = a ++ sep :: x ∧ b = x ++ sep :: d) ∨
      ∃ x, a = c ++ sep :: x ∧ d = x ++ sep :: b := by
  rcases List.append_eq_append_iff.mp same with ⟨between, shape, rest⟩ | ⟨between, shape, rest⟩
  · cases between with
    | nil =>
        rw [List.append_nil] at shape
        exact .inl ⟨shape.symm, (List.cons.inj rest).2⟩
    | cons x between =>
        obtain ⟨rfl, after⟩ := List.cons.inj rest
        exact .inr (.inl ⟨between, shape, after⟩)
  · cases between with
    | nil =>
        rw [List.append_nil] at shape
        exact .inl ⟨shape, (List.cons.inj rest).2.symm⟩
    | cons x between =>
        obtain ⟨rfl, after⟩ := List.cons.inj rest
        exact .inr (.inr ⟨between, shape, after⟩)

end Separator

end Lib
