import Heimdall.Lib.Lists

/-!
# Computations that may throw

Inversion lemmas for `Except`: what is known once a computation has returned, and when
a traversal returns.
-/
namespace Lib

variable {ε α β : Type*}

def ensure (condition : Bool) (error : ε) : Except ε Unit :=
  if condition then .ok () else .error error

def orThrow (value : Option α) (error : ε) : Except ε α :=
  match value with
  | some a => .ok a
  | none => .error error

/-- `filter` with a predicate that may throw. -/
def filterOk {ε α : Type} (keep : α → Except ε Bool) : List α → Except ε (List α)
  | [] => .ok []
  | x :: xs => do
      let here ← keep x
      let rest ← filterOk keep xs
      return if here then x :: rest else rest

@[simp] theorem bind_eq_ok {x : Except ε α} {f : α → Except ε β} {b : β} :
    x.bind f = .ok b ↔ ∃ a, x = .ok a ∧ f a = .ok b := by
  cases x with
  | error e => simp [Except.bind]
  | ok a => simp [Except.bind]

theorem map_eq_ok {ε α β : Type _} {x : Except ε α} {f : α → β} {b : β} :
    x.map f = .ok b ↔ ∃ a, x = .ok a ∧ f a = b := by
  cases x with
  | error e => simp [Except.map]
  | ok a => simp [Except.map]

theorem do_eq_ok {ε α β : Type _} {x : Except ε α} {f : α → Except ε β} {b : β} :
    (x >>= f) = .ok b ↔ ∃ a, x = .ok a ∧ f a = .ok b := bind_eq_ok

theorem pure_eq_ok {ε α : Type _} {a b : α} : (pure a : Except ε α) = .ok b ↔ b = a := by
  constructor
  · rintro ⟨⟩
    rfl
  · rintro rfl
    rfl

theorem returns_bind_pure {ε α β : Type _} {x : Except ε α} {f : α → β} :
    (∃ b, (x >>= fun a => pure (f a)) = .ok b) ↔ ∃ a, x = .ok a := by
  simp only [do_eq_ok, pure_eq_ok]
  constructor
  · rintro ⟨b, a, returned, -⟩
    exact ⟨a, returned⟩
  · rintro ⟨a, returned⟩
    exact ⟨f a, a, returned, rfl⟩

/-- A check that is made in one case only. -/
theorem when_eq_ok {ε β : Type _} {c : Prop} [Decidable c] {check : Except ε PUnit}
    {next : Except ε β} {b : β} :
    (if c then check >>= fun _ => next else next) = .ok b ↔
      (c → check = .ok ⟨⟩) ∧ next = .ok b := by
  by_cases here : c
  · simp only [here, if_true, do_eq_ok, true_implies]
    exact ⟨fun ⟨_, passed, done⟩ => ⟨passed, done⟩, fun ⟨passed, done⟩ => ⟨_, passed, done⟩⟩
  · simp [here]

@[simp] theorem ensure_eq_ok {condition : Bool} {error : ε} {u : Unit} :
    ensure condition error = .ok u ↔ condition = true := by
  cases condition <;> simp [ensure]

@[simp] theorem orThrow_eq_ok {value : Option α} {error : ε} {a : α} :
    orThrow value error = .ok a ↔ value = some a := by
  cases value <;> simp [orThrow]

/-- What is done with a value does not care where it was mapped. -/
theorem toOption_eq_some {ε α : Type _} {x : Except ε α} {a : α} :
    x.toOption = some a ↔ x = .ok a := by
  cases x <;> simp [Except.toOption]

theorem orThrow_map_bind {ε α β γ : Type _} (value : Option α) (f : α → β) (error : ε)
    (next : β → Except ε γ) :
    (orThrow (value.map f) error >>= next) = orThrow value error >>= fun a => next (f a) := by
  cases value <;> rfl

theorem orThrow_bind_congr {ε α β : Type _} {value : Option α} {error : ε}
    {next other : α → Except ε β} (same : ∀ a, value = some a → next a = other a) :
    (orThrow value error >>= next) = orThrow value error >>= other := by
  cases value with
  | none => rfl
  | some a => exact same a rfl

theorem mapM_eq_ok {ε α β : Type _} {f : α → Except ε β} {xs : List α} {ys : List β} :
    xs.mapM f = .ok ys ↔ List.Forall₂ (fun x y => f x = .ok y) xs ys := by
  induction xs generalizing ys with
  | nil =>
      rw [List.mapM_nil]
      constructor
      · intro h
        cases h
        exact .nil
      · intro h
        cases h
        rfl
  | cons x xs ih =>
      rw [List.mapM_cons, do_eq_ok]
      constructor
      · rintro ⟨y, first, h⟩
        obtain ⟨rest, others, h⟩ := do_eq_ok.mp h
        cases h
        exact .cons first (ih.mp others)
      · intro h
        cases h with
        | cons first others => exact ⟨_, first, do_eq_ok.mpr ⟨_, ih.mpr others, rfl⟩⟩

/-- A traversal with a function that accepts the good items and then is total. -/
theorem mapM_eq_ok_iff {ε α β : Type _} {f : α → Except ε β} {good : α → Prop} {g : α → β}
    (each : ∀ x y, f x = .ok y ↔ good x ∧ y = g x) {xs : List α} {ys : List β} :
    xs.mapM f = .ok ys ↔ (∀ x ∈ xs, good x) ∧ ys = xs.map g := by
  rw [mapM_eq_ok]
  induction xs generalizing ys with
  | nil =>
      constructor
      · intro pairs
        cases pairs
        simp
      · rintro ⟨-, rfl⟩
        exact .nil
  | cons x xs ih =>
      rw [List.forall_mem_cons, List.map_cons]
      constructor
      · intro pairs
        cases pairs with
        | cons first rest =>
            obtain ⟨here, rfl⟩ := (each _ _).mp first
            obtain ⟨others, rfl⟩ := ih.mp rest
            exact ⟨⟨here, others⟩, rfl⟩
      · rintro ⟨⟨here, others⟩, rfl⟩
        exact .cons ((each _ _).mpr ⟨here, rfl⟩) (ih.mpr ⟨others, rfl⟩)

/-- Every result of a traversal comes from one of its inputs. -/
theorem mem_of_mapM_eq_ok {ε α β : Type _} {f : α → Except ε β} {xs : List α} {ys : List β}
    (returned : xs.mapM f = .ok ys) {y : β} (here : y ∈ ys) : ∃ x ∈ xs, f x = .ok y :=
  exists_of_forall₂ (mapM_eq_ok.mp returned) here

/-- Every input of a traversal that returned was accepted. -/
theorem mapM_eq_ok_of_mem {ε α β : Type _} {f : α → Except ε β} {xs : List α} {ys : List β}
    (returned : xs.mapM f = .ok ys) {x : α} (here : x ∈ xs) : ∃ y ∈ ys, f x = .ok y :=
  exists_of_forall₂ (mapM_eq_ok.mp returned).flip here

theorem mapM_returns {ε α β : Type _} {f : α → Except ε β} {xs : List α}
    (each : ∀ x ∈ xs, ∃ y, f x = .ok y) : ∃ ys, xs.mapM f = .ok ys := by
  induction xs with
  | nil => exact ⟨[], rfl⟩
  | cons x xs ih =>
      obtain ⟨y, first⟩ := each x List.mem_cons_self
      obtain ⟨ys, rest⟩ := ih fun x' inside => each x' (List.mem_cons_of_mem _ inside)
      exact ⟨y :: ys, mapM_eq_ok.mpr (.cons first (mapM_eq_ok.mp rest))⟩

theorem mapM_returns_iff {ε α β : Type _} {f : α → Except ε β} {xs : List α} :
    (∃ ys, xs.mapM f = .ok ys) ↔ ∀ x ∈ xs, ∃ y, f x = .ok y := by
  constructor
  · rintro ⟨ys, returned⟩ x inside
    obtain ⟨y, -, here⟩ := mapM_eq_ok_of_mem returned inside
    exact ⟨y, here⟩
  · exact mapM_returns

/-- A traversal of items that belong to others, in the same order. -/
theorem mapM_forall₂ {ε α β γ : Type _} {f : α → Except ε γ} {P : β → α → Prop} {Q : β → γ → Prop}
    (each : ∀ b a, P b a → ∃ c, f a = .ok c ∧ Q b c) {bs : List β} {as : List α}
    (pairs : List.Forall₂ P bs as) : ∃ cs, as.mapM f = .ok cs ∧ List.Forall₂ Q bs cs := by
  induction pairs with
  | nil => exact ⟨[], rfl, .nil⟩
  | cons pair _ ih =>
      obtain ⟨c, first, here⟩ := each _ _ pair
      obtain ⟨cs, rest, there⟩ := ih
      exact ⟨c :: cs, mapM_eq_ok.mpr (.cons first (mapM_eq_ok.mp rest)), .cons here there⟩

/-- What a filter leaves of the objects that items hold, beside what it leaves of other objects
that decide the same. -/
theorem filterOk_filterMap {ε α β ρ : Type} {holds : ρ → Option α} {from' : ρ → Option β}
    {keep : α → Except ε Bool} {p : β → Bool} {P : β → α → Prop} {rs : List ρ}
    (each : ∀ r ∈ rs, ∃ a b, holds r = some a ∧ from' r = some b ∧ keep a = .ok (p b) ∧ P b a) :
    ∃ kept, filterOk keep (rs.filterMap holds) = .ok kept ∧
      List.Forall₂ P ((rs.filterMap from').filter p) kept := by
  induction rs with
  | nil => exact ⟨[], rfl, .nil⟩
  | cons r rs ih =>
      obtain ⟨⟨a, b, held, source, decided, pair⟩, others⟩ := List.forall_mem_cons.mp each
      obtain ⟨kept, rest, pairs⟩ := ih others
      refine ⟨if p b then a :: kept else kept, ?_, ?_⟩
      · rw [List.filterMap_cons_some held, filterOk]
        exact do_eq_ok.mpr ⟨p b, decided, do_eq_ok.mpr ⟨kept, rest, rfl⟩⟩
      · rw [List.filterMap_cons_some source]
        cases chosen : p b with
        | true =>
            rw [List.filter_cons_of_pos chosen]
            exact .cons pair pairs
        | false =>
            rw [List.filter_cons_of_neg (Bool.eq_false_iff.mp chosen)]
            exact pairs

theorem foldlM_cons_of_ok {ε σ α : Type _} {f : σ → α → Except ε σ} {s s₁ s₂ : σ} {x : α}
    {xs : List α} (first : f s x = .ok s₁) (rest : xs.foldlM f s₁ = .ok s₂) :
    (x :: xs).foldlM f s = .ok s₂ := by
  rw [List.foldlM_cons]
  exact do_eq_ok.mpr ⟨s₁, first, rest⟩

theorem foldlM_returns_iff {ε σ α : Type _} {f : σ → α → Except ε σ} {accepts : α → Prop}
    (step : ∀ s x, (∃ s', f s x = .ok s') ↔ accepts x) {xs : List α} {s : σ} :
    (∃ s', xs.foldlM f s = .ok s') ↔ ∀ x ∈ xs, accepts x := by
  induction xs generalizing s with
  | nil => exact ⟨fun _ => by simp, fun _ => ⟨s, rfl⟩⟩
  | cons x xs ih =>
      simp only [List.foldlM_cons, do_eq_ok, List.forall_mem_cons]
      constructor
      · rintro ⟨s', s₁, first, rest⟩
        exact ⟨(step s x).mp ⟨s₁, first⟩, ih.mp ⟨s', rest⟩⟩
      · rintro ⟨here, later⟩
        obtain ⟨s₁, first⟩ := (step s x).mpr here
        obtain ⟨s', rest⟩ := ih.mpr later
        exact ⟨s', s₁, first, rest⟩

/-- A loop whose body accepts the good items and then is total. -/
theorem foldlM_eq_ok_iff {ε σ α : Type _} {f : σ → α → Except ε σ} {good : α → Prop}
    {g : σ → α → σ} (each : ∀ s x s', f s x = .ok s' ↔ good x ∧ s' = g s x) {xs : List α}
    {s s' : σ} : xs.foldlM f s = .ok s' ↔ (∀ x ∈ xs, good x) ∧ s' = xs.foldl g s := by
  induction xs generalizing s with
  | nil =>
      constructor
      · rintro ⟨⟩
        exact ⟨List.forall_mem_nil _, rfl⟩
      · rintro ⟨-, rfl⟩
        rfl
  | cons x xs ih =>
      rw [List.foldlM_cons, do_eq_ok, List.forall_mem_cons, List.foldl_cons]
      constructor
      · rintro ⟨s₁, first, rest⟩
        obtain ⟨here, rfl⟩ := (each _ _ _).mp first
        obtain ⟨others, rfl⟩ := ih.mp rest
        exact ⟨⟨here, others⟩, rfl⟩
      · rintro ⟨⟨here, others⟩, rfl⟩
        exact ⟨_, (each _ _ _).mpr ⟨here, rfl⟩, ih.mpr ⟨others, rfl⟩⟩

/-- An invariant of a loop that may throw, indexed by the items it has consumed. -/
theorem foldlM_invariant {ε σ α : Type _} {f : σ → α → Except ε σ} {I : List α → σ → Prop}
    (step : ∀ done s x s', I done s → f s x = .ok s' → I (done ++ [x]) s')
    {done xs : List α} {s s' : σ} (start : I done s) (returned : xs.foldlM f s = .ok s') :
    I (done ++ xs) s' := by
  induction xs generalizing done s with
  | nil =>
      cases returned
      simpa using start
  | cons x xs ih =>
      rw [List.foldlM_cons] at returned
      obtain ⟨s₁, first, rest⟩ := do_eq_ok.mp returned
      simpa using ih (step done s x s₁ start first) rest

theorem mapM_isSome_iff {α β : Type _} {f : α → Option β} {xs : List α} :
    (∃ ys, xs.mapM f = some ys) ↔ ∀ x ∈ xs, ∃ y, f x = some y := by
  induction xs with
  | nil => simp
  | cons x xs ih =>
      cases first : f x with
      | none => simp [List.mapM_cons, first]
      | some y =>
          rw [List.forall_mem_cons, ← ih]
          cases rest : xs.mapM f <;> simp [List.mapM_cons, first, rest]

theorem mapM_eq_some_map {α β : Type _} {f : α → Option β} {v : α → β} {xs : List α}
    (each : ∀ x ∈ xs, f x = some (v x)) : xs.mapM f = some (xs.map v) := by
  induction xs with
  | nil => rfl
  | cons x xs ih =>
      obtain ⟨here, later⟩ := List.forall_mem_cons.mp each
      rw [List.mapM_cons, here, ih later]
      rfl

end Lib
