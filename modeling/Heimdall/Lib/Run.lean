import Mathlib.Data.List.Basic

/-!
# Runs of a deterministic transition system

A system takes one input at a time. `Along P` says that every step of a run
satisfies `P` (a property of the state before the step and of its input), and
`Throughout Q` that every state the run visits satisfies `Q`.
-/
namespace Lib

variable {σ ι : Type*} (step : σ → ι → σ)

def run (s : σ) (is : List ι) : σ := is.foldl step s

def Along (P : σ → ι → Prop) : σ → List ι → Prop
  | _, [] => True
  | s, i :: is => P s i ∧ Along P (step s i) is

def Throughout (Q : σ → Prop) : σ → List ι → Prop
  | s, [] => Q s
  | s, i :: is => Q s ∧ Throughout Q (step s i) is

instance decidableAlong {P : σ → ι → Prop} [∀ s i, Decidable (P s i)] (s : σ) :
    (is : List ι) → Decidable (Along step P s is)
  | [] => .isTrue trivial
  | i :: is =>
      have := decidableAlong (P := P) (step s i) is
      inferInstanceAs (Decidable (P s i ∧ Along step P (step s i) is))

variable {step}

theorem Throughout.start {Q : σ → Prop} {s : σ} {is : List ι} (h : Throughout step Q s is) :
    Q s := by
  cases is with
  | nil => exact h
  | cons i is => exact h.1

theorem Throughout.last {Q : σ → Prop} {s : σ} {is : List ι} (h : Throughout step Q s is) :
    Q (run step s is) := by
  induction is generalizing s with
  | nil => exact h
  | cons i is ih => exact ih h.2

/-- Where exactly the steps with `P` keep `Q`, exactly the runs of such steps keep it in
every state. -/
theorem throughout_iff_along {P : σ → ι → Prop} {Q : σ → Prop}
    (each : ∀ s i, Q s → (Q (step s i) ↔ P s i)) {s : σ} (start : Q s) (is : List ι) :
    Throughout step Q s is ↔ Along step P s is := by
  induction is generalizing s with
  | nil => exact iff_of_true start trivial
  | cons i is ih =>
      constructor
      · rintro ⟨-, rest⟩
        exact ⟨(each s i start).mp rest.start, (ih rest.start).mp rest⟩
      · rintro ⟨here, rest⟩
        have next : Q (step s i) := (each s i start).mpr here
        exact ⟨start, (ih next).mpr rest⟩

/-- The same, inside an invariant that the steps with `D` keep. -/
theorem throughout_iff_along_of_invariant {A Q : σ → Prop} {D P : σ → ι → Prop}
    (keeps : ∀ s i, A s → D s i → A (step s i))
    (each : ∀ s i, A s → D s i → Q s → (Q (step s i) ↔ P s i)) {s : σ} (inv : A s)
    (start : Q s) {is : List ι} (within : Along step D s is) :
    Throughout step Q s is ↔ Along step P s is := by
  induction is generalizing s with
  | nil => exact iff_of_true start trivial
  | cons i is ih =>
      have step_iff := each s i inv within.1 start
      constructor
      · rintro ⟨-, rest⟩
        exact ⟨step_iff.mp rest.start, (ih (keeps s i inv within.1) rest.start within.2).mp rest⟩
      · rintro ⟨here, rest⟩
        have next := step_iff.mpr here
        exact ⟨start, (ih (keeps s i inv within.1) next within.2).mpr rest⟩

/-- What holds of every step inside an invariant holds along the run, and the invariant holds
of the state reached. -/
theorem along_of_invariant {A : σ → Prop} {D P : σ → ι → Prop}
    (keeps : ∀ s i, A s → D s i → A (step s i)) (each : ∀ s i, A s → D s i → P s i) {s : σ}
    (inv : A s) {is : List ι} (within : Along step D s is) :
    Along step P s is ∧ A (run step s is) := by
  induction is generalizing s with
  | nil => exact ⟨trivial, inv⟩
  | cons i is ih =>
      obtain ⟨rest, last⟩ := ih (keeps s i inv within.1) within.2
      exact ⟨⟨each s i inv within.1, rest⟩, last⟩

/-- What follows from an invariant holds in every state of a run of steps that keep it. -/
theorem Throughout.of_invariant {A Q : σ → Prop} {D : σ → ι → Prop}
    (keeps : ∀ s i, A s → D s i → A (step s i)) (holds : ∀ s, A s → Q s) {s : σ}
    (inv : A s) {is : List ι} (within : Along step D s is) : Throughout step Q s is := by
  induction is generalizing s with
  | nil => exact holds s inv
  | cons i is ih => exact ⟨holds s inv, ih (keeps s i inv within.1) within.2⟩

theorem Along.imp {P Q : σ → ι → Prop} {s : σ} {is : List ι}
    (each : Along step (fun s i => P s i → Q s i) s is) (along : Along step P s is) :
    Along step Q s is := by
  induction is generalizing s with
  | nil => trivial
  | cons i is ih => exact ⟨each.1 along.1, ih each.2 along.2⟩

theorem along_congr {P Q : σ → ι → Prop} (same : ∀ s i, P s i ↔ Q s i) (s : σ) (is : List ι) :
    Along step P s is ↔ Along step Q s is := by
  induction is generalizing s with
  | nil => exact Iff.rfl
  | cons i is ih => exact and_congr (same s i) (ih (step s i))

theorem along_of_step {P : σ → ι → Prop} (each : ∀ s i, P s i) (s : σ) (is : List ι) :
    Along step P s is := by
  induction is generalizing s with
  | nil => trivial
  | cons i is ih => exact ⟨each s i, ih (step s i)⟩

/-- What was made during a run was made by one of its steps. -/
theorem run_origin {τ : Type*} {A : σ → Prop} {items : σ → List τ} {makes : σ → ι → τ → Prop}
    (keeps : ∀ s i, A s → A (step s i))
    (adds : ∀ s i x, A s → x ∈ items (step s i) → x ∈ items s ∨ makes s i x) {s : σ}
    (inv : A s) {is : List ι} {x : τ} (here : x ∈ items (run step s is)) :
    x ∈ items s ∨ ∃ first i rest, is = first ++ i :: rest ∧ makes (run step s first) i x := by
  induction is generalizing s with
  | nil => exact .inl here
  | cons i is ih =>
      rcases ih (s := step s i) (keeps s i inv) here with early | ⟨first, j, rest, rfl, made⟩
      · rcases adds s i x inv early with before | made
        · exact .inl before
        · exact .inr ⟨[], i, is, rfl, made⟩
      · exact .inr ⟨i :: first, j, rest, rfl, made⟩

/-- What no step can bring back and holds at the end held all the time. -/
theorem throughout_of_last {A Q : σ → Prop} (keeps : ∀ s i, A s → A (step s i))
    (gone : ∀ s i, A s → Q (step s i) → Q s) {s : σ} (inv : A s) {is : List ι}
    (last : Q (run step s is)) : Throughout step Q s is := by
  induction is generalizing s with
  | nil => exact last
  | cons i is ih =>
      have rest := ih (keeps s i inv) last
      exact ⟨gone s i inv rest.start, rest⟩

theorem run_append (s : σ) (is js : List ι) :
    run step s (is ++ js) = run step (run step s is) js := List.foldl_append

/-- Inputs that are dropped on the way change nothing. -/
theorem run_filterMap {κ : Type*} {step' : σ → κ → σ} {f : ι → Option κ}
    (each : ∀ s i, step s i = (f i).elim s (step' s)) (s : σ) (is : List ι) :
    run step s is = run step' s (is.filterMap f) := by
  induction is generalizing s with
  | nil => rfl
  | cons i is ih =>
      calc run step s (i :: is)
          = run step' ((f i).elim s (step' s)) (is.filterMap f) := by
            rw [← each]
            exact ih (step s i)
        _ = run step' s ((i :: is).filterMap f) := by
            cases passed : f i with
            | none =>
                rw [List.filterMap_cons_none passed]
                rfl
            | some k =>
                rw [List.filterMap_cons_some passed]
                rfl

theorem run_invariant {A : σ → Prop} (keeps : ∀ s i, A s → A (step s i)) {s : σ} (inv : A s)
    (is : List ι) : A (run step s is) := by
  induction is generalizing s with
  | nil => exact inv
  | cons i is ih => exact ih (keeps s i inv)

theorem Throughout.mono {Q Q' : σ → Prop} (weaker : ∀ s, Q s → Q' s) {s : σ} {is : List ι}
    (h : Throughout step Q s is) : Throughout step Q' s is := by
  induction is generalizing s with
  | nil => exact weaker s h
  | cons i is ih => exact ⟨weaker s h.1, ih h.2⟩

/-- The states of a run are the ones that its first parts reach. -/
theorem throughout_visited (s : σ) (is : List ι) :
    Throughout step (fun s' => ∃ first rest, is = first ++ rest ∧ s' = run step s first) s is := by
  suffices h : ∀ before, Throughout step
      (fun s' => ∃ first rest, before ++ is = first ++ rest ∧ s' = run step s first)
      (run step s before) is from h []
  intro before
  induction is generalizing before with
  | nil => exact ⟨before, [], rfl, rfl⟩
  | cons i is ih =>
      have next := ih (before ++ [i])
      rw [run_append, List.append_assoc] at next
      exact ⟨⟨before, i :: is, rfl, rfl⟩, next⟩

/-- An invariant whose step may use what holds of the visited states. -/
theorem run_invariant_of_visited {A V : σ → Prop} {D : σ → ι → Prop}
    (keeps : ∀ s i, A s → V s → V (step s i) → D s i → A (step s i)) {s : σ} (inv : A s)
    {is : List ι} (visited : Throughout step V s is) (within : Along step D s is) :
    A (run step s is) := by
  induction is generalizing s with
  | nil => exact inv
  | cons i is ih =>
      exact ih (keeps s i inv visited.1 visited.2.start within.1) visited.2 within.2

/-- A condition on the inputs alone. -/
theorem along_const {P : ι → Prop} (s : σ) (is : List ι) :
    Along step (fun _ i => P i) s is ↔ ∀ i ∈ is, P i := by
  induction is generalizing s with
  | nil => simp [Along]
  | cons i is ih => simp [Along, ih (step s i)]

end Lib
