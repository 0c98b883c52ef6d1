import Mathlib.Data.List.Perm.Basic
import Heimdall.Lib.Throws

/-!
# Filters in a row

Tests that may throw, applied to a list one after the other. The later tests see only what
the earlier ones kept; still the order of the tests does not matter for what is kept in the
end, only for what is thrown.
-/
namespace Lib

section Answers
variable {ε α : Type}

/-- The answer of a test, and no where it throws. -/
def accepts (keep : α → Except ε Bool) (x : α) : Bool :=
  match keep x with
  | .ok answer => answer
  | .error _ => false

def Answers (keep : α → Except ε Bool) (x : α) : Prop := ∃ answer, keep x = .ok answer

variable {keep : α → Except ε Bool} {x : α} {xs ys : List α}

theorem accepts_eq_true : accepts keep x = true ↔ keep x = .ok true := by
  unfold accepts
  cases keep x with
  | error e => simp
  | ok answer => simp

theorem accepts_of_ok {answer : Bool} (here : keep x = .ok answer) : accepts keep x = answer := by
  unfold accepts
  rw [here]

theorem Answers.eq_ok (answers : Answers keep x) : keep x = .ok (accepts keep x) := by
  obtain ⟨answer, here⟩ := answers
  rw [accepts_of_ok here, here]

theorem filterOk_eq_ok :
    filterOk keep xs = .ok ys ↔ (∀ x ∈ xs, Answers keep x) ∧ ys = xs.filter (accepts keep) := by
  induction xs generalizing ys with
  | nil =>
      constructor
      · rintro ⟨⟩
        exact ⟨List.forall_mem_nil _, rfl⟩
      · rintro ⟨-, rfl⟩
        rfl
  | cons x xs ih =>
      rw [filterOk, do_eq_ok, List.forall_mem_cons]
      constructor
      · rintro ⟨here, answered, later⟩
        obtain ⟨rest, kept, done⟩ := do_eq_ok.mp later
        obtain ⟨others, rfl⟩ := ih.mp kept
        refine ⟨⟨⟨here, answered⟩, others⟩, ?_⟩
        rw [pure_eq_ok.mp done, List.filter_cons, accepts_of_ok answered]
      · rintro ⟨⟨here, others⟩, rfl⟩
        refine ⟨_, here.eq_ok, do_eq_ok.mpr ⟨_, ih.mpr ⟨others, rfl⟩, ?_⟩⟩
        rw [List.filter_cons]
        rfl

end Answers

section Passes
variable {ε α : Type}

/-- One test after the other, up to the first no. -/
def passes : List (α → Except ε Bool) → α → Except ε Bool
  | [], _ => .ok true
  | keep :: rest, x => do
      if ← keep x then passes rest x else return false

variable {keep : α → Except ε Bool} {before after keeps : List (α → Except ε Bool)} {x : α}

theorem passes_cons_of_ok {answer : Bool} (here : keep x = .ok answer) :
    passes (keep :: keeps) x = if answer then passes keeps x else .ok false := by
  rw [passes, here]
  rfl

theorem passes_cons_eq_ok {answer : Bool} : passes (keep :: keeps) x = .ok answer ↔
    (keep x = .ok true ∧ passes keeps x = .ok answer) ∨ (keep x = .ok false ∧ answer = false) := by
  rw [passes, do_eq_ok]
  constructor
  · rintro ⟨_ | _, here, rest⟩
    · exact .inr ⟨here, pure_eq_ok.mp rest⟩
    · exact .inl ⟨here, rest⟩
  · rintro (⟨here, rest⟩ | ⟨here, rfl⟩)
    · exact ⟨true, here, rest⟩
    · exact ⟨false, here, rfl⟩

/-- What passes is what every test accepts, whatever their order. -/
theorem accepts_passes :
    accepts (passes keeps) x = true ↔ ∀ keep ∈ keeps, accepts keep x = true := by
  rw [accepts_eq_true]
  induction keeps with
  | nil => exact iff_of_true rfl (List.forall_mem_nil _)
  | cons keep keeps ih =>
      rw [passes_cons_eq_ok, List.forall_mem_cons, ih, accepts_eq_true]
      simp

/-- A further test, wherever it is made. -/
theorem accepts_passes_insert : accepts (passes (before ++ keep :: after)) x =
    (accepts (passes (before ++ after)) x && accepts keep x) := by
  rw [Bool.eq_iff_iff, Bool.and_eq_true, accepts_passes, accepts_passes]
  simp only [List.forall_mem_append, List.forall_mem_cons]
  exact ⟨fun ⟨b, k, a⟩ => ⟨⟨b, a⟩, k⟩, fun ⟨⟨b, a⟩, k⟩ => ⟨b, k, a⟩⟩

theorem Answers.insert (answers : Answers (passes (before ++ after)) x)
    (further : Answers keep x) : Answers (passes (before ++ keep :: after)) x := by
  induction before with
  | nil =>
      obtain ⟨_ | _, here⟩ := further
      · exact ⟨false, passes_cons_of_ok here⟩
      · obtain ⟨answer, rest⟩ := answers
        exact ⟨answer, (passes_cons_of_ok here).trans rest⟩
  | cons first before ih =>
      obtain ⟨answer, passed⟩ := answers
      rcases passes_cons_eq_ok.mp passed with ⟨here, rest⟩ | ⟨here, -⟩
      · obtain ⟨answer', rest'⟩ := ih ⟨answer, rest⟩
        exact ⟨answer', passes_cons_eq_ok.mpr (.inl ⟨here, rest'⟩)⟩
      · exact ⟨false, passes_cons_eq_ok.mpr (.inr ⟨here, rfl⟩)⟩

/-- A test that says yes wherever it is asked changes nothing. -/
theorem passes_insert_of_true (yes : accepts (passes before) x = true → keep x = .ok true) :
    passes (before ++ keep :: after) x = passes (before ++ after) x := by
  induction before with
  | nil => exact passes_cons_of_ok (yes rfl)
  | cons first before ih =>
      rw [List.cons_append, List.cons_append, passes, passes]
      cases here : first x with
      | error e => rfl
      | ok answer =>
          cases answer with
          | false => rfl
          | true =>
              refine ih fun passed => yes ?_
              rw [accepts_eq_true, passes_cons_of_ok here]
              exact accepts_eq_true.mp passed

/-- A test is asked about what the tests before it accept. -/
theorem answers_reached (answers : Answers (passes (before ++ keep :: after)) x)
    (reached : accepts (passes before) x = true) : Answers keep x := by
  induction before with
  | nil =>
      obtain ⟨answer, passed⟩ := answers
      rcases passes_cons_eq_ok.mp passed with ⟨here, -⟩ | ⟨here, -⟩
      · exact ⟨true, here⟩
      · exact ⟨false, here⟩
  | cons first before ih =>
      rcases passes_cons_eq_ok.mp (accepts_eq_true.mp reached) with ⟨here, rest⟩ | ⟨-, no⟩
      · obtain ⟨answer, passed⟩ := answers
        rw [List.cons_append, passes_cons_of_ok here] at passed
        exact ih ⟨answer, passed⟩ (accepts_eq_true.mpr rest)
      · cases no

end Passes

section Sieve
variable {ε α : Type}

/-- The list that is left when the tests are applied one after the other. -/
def sieve (keeps : List (α → Except ε Bool)) (xs : List α) : Except ε (List α) :=
  keeps.foldlM (fun xs keep => filterOk keep xs) xs

theorem sieve_append (before after : List (α → Except ε Bool)) :
    sieve (before ++ after) = fun xs => sieve before xs >>= sieve after := by
  funext xs
  exact List.foldlM_append

theorem sieve_singleton (keep : α → Except ε Bool) (xs : List α) :
    sieve [keep] xs = filterOk keep xs := by
  show (filterOk keep xs >>= fun ys => .ok ys) = filterOk keep xs
  cases filterOk keep xs <;> rfl

/-- Filtering in stages is filtering by all the tests at once. -/
theorem sieve_eq_ok {keeps : List (α → Except ε Bool)} {xs ys : List α} :
    sieve keeps xs = .ok ys ↔
      (∀ x ∈ xs, Answers (passes keeps) x) ∧ ys = xs.filter (accepts (passes keeps)) := by
  induction keeps generalizing xs with
  | nil =>
      have all : xs.filter (accepts (passes ([] : List (α → Except ε Bool)))) = xs :=
        List.filter_eq_self.mpr fun _ _ => rfl
      rw [all]
      constructor
      · rintro ⟨⟩
        exact ⟨fun _ _ => ⟨true, rfl⟩, rfl⟩
      · rintro ⟨-, rfl⟩
        rfl
  | cons keep keeps ih =>
      have kept : ∀ x, accepts (passes (keep :: keeps)) x =
          (accepts (passes keeps) x && accepts keep x) := fun x =>
        @accepts_passes_insert _ _ keep [] keeps x
      show (filterOk keep xs >>= fun xs => sieve keeps xs) = .ok ys ↔ _
      rw [do_eq_ok, List.filter_congr fun x _ => kept x, ← List.filter_filter]
      constructor
      · rintro ⟨zs, first, rest⟩
        obtain ⟨answers, rfl⟩ := filterOk_eq_ok.mp first
        obtain ⟨later, rfl⟩ := ih.mp rest
        refine ⟨fun x inside => ?_, rfl⟩
        obtain ⟨_ | _, here⟩ := answers x inside
        · exact ⟨false, passes_cons_eq_ok.mpr (.inr ⟨here, rfl⟩)⟩
        · obtain ⟨answer, passed⟩ :=
            later x (List.mem_filter.mpr ⟨inside, accepts_eq_true.mpr here⟩)
          exact ⟨answer, passes_cons_eq_ok.mpr (.inl ⟨here, passed⟩)⟩
      · rintro ⟨answers, rfl⟩
        refine ⟨_, filterOk_eq_ok.mpr ⟨fun x inside => ?_, rfl⟩, ih.mpr ⟨fun x inside => ?_, rfl⟩⟩
        · obtain ⟨answer, passed⟩ := answers x inside
          rcases passes_cons_eq_ok.mp passed with ⟨here, -⟩ | ⟨here, -⟩
          · exact ⟨_, here⟩
          · exact ⟨_, here⟩
        · obtain ⟨inside, here⟩ := List.mem_filter.mp inside
          obtain ⟨answer, passed⟩ := answers x inside
          rw [passes_cons_of_ok (accepts_eq_true.mp here)] at passed
          exact ⟨answer, passed⟩

theorem sieve_perm {keeps : List (α → Except ε Bool)} {xs xs' ys : List α} (perm : xs.Perm xs')
    (kept : sieve keeps xs = .ok ys) : ∃ ys', sieve keeps xs' = .ok ys' ∧ ys.Perm ys' := by
  obtain ⟨answers, rfl⟩ := sieve_eq_ok.mp kept
  refine ⟨_, sieve_eq_ok.mpr ⟨fun x inside => answers x (perm.mem_iff.mpr inside), rfl⟩, ?_⟩
  exact perm.filter _

end Sieve
end Lib
