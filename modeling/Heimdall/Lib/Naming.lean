import Mathlib.Data.List.Nodup
import Mathlib.Data.List.Range
import Mathlib.Data.Finset.Card
import Mathlib.Data.Finset.Image

/-!
# Names that are not taken

A loop that tries one candidate after the other until one is not taken, and the names that a
list of items gets when each name given is taken for the items after it.
-/
namespace Lib

variable {α β : Type*}

/-- What an item is called first, and what it is called on the attempts after that. -/
structure Scheme (β α : Type*) where
  first : β → α
  next : β → ℕ → α
  start : ℕ

namespace Scheme
variable [DecidableEq α] (scheme : Scheme β α)

/-- `while (taken.includes(name)) name = next(count++)`, with fuel for the loop. -/
def search (taken : List α) (b : β) : ℕ → ℕ → α → Option α
  | 0, _, _ => none
  | fuel + 1, count, name =>
      if name ∈ taken then search taken b fuel (count + 1) (scheme.next b count) else some name

def name (fuel : ℕ) (taken : List α) (b : β) : Option α :=
  scheme.search taken b fuel scheme.start (scheme.first b)

def names (fuel : ℕ) : List α → List β → Option (List α)
  | _, [] => some []
  | taken, b :: bs => do
      let name ← scheme.name fuel taken b
      let later ← names fuel (taken ++ [name]) bs
      return name :: later

attribute [local simp] search names

section Search
variable {scheme} {taken : List α} {b : β} {fuel count : ℕ} {name found : α}

theorem search_mono (returned : scheme.search taken b fuel count name = some found) {more : ℕ}
    (enough : fuel ≤ more) : scheme.search taken b more count name = some found := by
  induction fuel generalizing count name more with
  | zero => cases returned
  | succ fuel ih =>
      cases more with
      | zero => omega
      | succ more =>
          rw [search] at returned ⊢
          split at returned
          · next inside =>
            rw [if_pos inside]
            exact ih returned (Nat.le_of_succ_le_succ enough)
          · next outside =>
            rw [if_neg outside]
            exact returned

/-- The loop stops at the first candidate that is not taken. -/
theorem search_some (returned : scheme.search taken b fuel count name = some found) :
    found ∉ taken ∧ (name ∉ taken ∧ found = name ∨
      name ∈ taken ∧ ∃ k ≥ count, found = scheme.next b k ∧
        ∀ j, count ≤ j → j < k → scheme.next b j ∈ taken) := by
  induction fuel generalizing count name with
  | zero => cases returned
  | succ fuel ih =>
      rw [search] at returned
      split at returned
      · next inside =>
        obtain ⟨free, here | ⟨here, k, later, same, before⟩⟩ := ih returned
        · refine ⟨free, .inr ⟨inside, count, Nat.le_refl count, here.2, fun j from' upto => ?_⟩⟩
          omega
        · refine ⟨free, .inr ⟨inside, k, by omega, same, fun j from' upto => ?_⟩⟩
          rcases Nat.eq_or_lt_of_le from' with rfl | above
          · exact here
          · exact before j above upto
      · next outside =>
        cases returned
        exact ⟨outside, .inl ⟨outside, rfl⟩⟩

theorem search_returns (k : ℕ) (above : count ≤ k) (free : scheme.next b k ∉ taken) (name : α) :
    ∃ found, scheme.search taken b (k - count + 2) count name = some found := by
  obtain ⟨steps, rfl⟩ := Nat.exists_eq_add_of_le above
  rw [Nat.add_sub_cancel_left]
  induction steps generalizing count name with
  | zero =>
      by_cases inside : name ∈ taken
      · refine ⟨scheme.next b count, ?_⟩
        rw [search, if_pos inside]
        exact if_neg free
      · exact ⟨name, by rw [search, if_neg inside]⟩
  | succ steps ih =>
      by_cases inside : name ∈ taken
      · rw [search, if_pos inside]
        have later : scheme.next b (count + 1 + steps) ∉ taken := by
          rwa [Nat.add_assoc, Nat.add_comm 1 steps]
        exact ih (scheme.next b count) (Nat.le_add_right _ _) later
      · exact ⟨name, by rw [search, if_neg inside]⟩

end Search

section Names
variable {scheme} {taken : List α} {b : β} {bs : List β} {fuel : ℕ} {found : α}

/-- The loop ends exactly when some candidate is not taken. -/
theorem name_returns : (∃ fuel found, scheme.name fuel taken b = some found) ↔
    scheme.first b ∉ taken ∨ ∃ k ≥ scheme.start, scheme.next b k ∉ taken := by
  constructor
  · rintro ⟨fuel, found, returned⟩
    obtain ⟨free, ⟨outside, -⟩ | ⟨-, k, above, rfl, -⟩⟩ := search_some returned
    · exact .inl outside
    · exact .inr ⟨k, above, free⟩
  · rintro (outside | ⟨k, above, free⟩)
    · exact ⟨1, scheme.first b, if_neg outside⟩
    · obtain ⟨found, returned⟩ := search_returns k above free (scheme.first b)
      exact ⟨_, found, returned⟩

/-- Among more candidates than taken names one is not taken. -/
theorem name_ends (distinct : Function.Injective (scheme.next b)) :
    ∃ fuel found, scheme.name fuel taken b = some found := by
  apply name_returns.mpr
  right
  by_contra all
  push Not at all
  have inside : (Finset.range (taken.length + 1)).image (fun i => scheme.next b (scheme.start + i)) ⊆
      taken.toFinset := by
    intro x member
    obtain ⟨i, -, rfl⟩ := Finset.mem_image.mp member
    exact List.mem_toFinset.mpr (all _ (Nat.le_add_right _ _))
  have counted := Finset.card_le_card inside
  have shifted : Function.Injective fun i => scheme.next b (scheme.start + i) :=
    fun i j same => Nat.add_left_cancel (distinct same)
  rw [Finset.card_image_of_injective _ shifted, Finset.card_range] at counted
  have bound := taken.toFinset_card_le
  omega

theorem name_unique {fuel' : ℕ} {found' : α} (here : scheme.name fuel taken b = some found)
    (there : scheme.name fuel' taken b = some found') : found = found' := by
  have one := search_mono here (Nat.le_max_left fuel fuel')
  have two := search_mono there (Nat.le_max_right fuel fuel')
  exact Option.some.inj (one.symm.trans two)

theorem name_mono (returned : scheme.name fuel taken b = some found) {more : ℕ}
    (enough : fuel ≤ more) : scheme.name more taken b = some found := search_mono returned enough

end Names

section Lists
variable {scheme} {taken ns : List α} {b : β} {bs cs : List β} {fuel : ℕ}

theorem names_cons_eq_some : scheme.names fuel taken (b :: bs) = some ns ↔
    ∃ n later, scheme.name fuel taken b = some n ∧
      scheme.names fuel (taken ++ [n]) bs = some later ∧ ns = n :: later := by
  rw [names, Option.bind_eq_bind, Option.bind_eq_some_iff]
  constructor
  · rintro ⟨n, here, rest⟩
    obtain ⟨later, there, same⟩ := Option.bind_eq_some_iff.mp rest
    exact ⟨n, later, here, there, (Option.some.inj same).symm⟩
  · rintro ⟨n, later, here, there, rfl⟩
    exact ⟨n, here, Option.bind_eq_some_iff.mpr ⟨later, there, rfl⟩⟩

theorem names_mono (returned : scheme.names fuel taken bs = some ns) {more : ℕ}
    (enough : fuel ≤ more) : scheme.names more taken bs = some ns := by
  induction bs generalizing taken ns with
  | nil => exact returned
  | cons b bs ih =>
      obtain ⟨n, later, here, there, rfl⟩ := names_cons_eq_some.mp returned
      exact names_cons_eq_some.mpr ⟨n, later, name_mono here enough, ih there, rfl⟩

theorem names_append_eq_some : scheme.names fuel taken (bs ++ cs) = some ns ↔
    ∃ earlier later, scheme.names fuel taken bs = some earlier ∧
      scheme.names fuel (taken ++ earlier) cs = some later ∧ ns = earlier ++ later := by
  induction bs generalizing taken ns with
  | nil => simp [names]
  | cons b bs ih =>
      rw [List.cons_append, names_cons_eq_some]
      constructor
      · rintro ⟨n, _, here, rest, rfl⟩
        obtain ⟨earlier, later, before, after, rfl⟩ := ih.mp rest
        rw [List.append_assoc] at after
        exact ⟨n :: earlier, later, names_cons_eq_some.mpr ⟨n, earlier, here, before, rfl⟩, after,
          rfl⟩
      · rintro ⟨_, later, before, after, rfl⟩
        obtain ⟨n, earlier, here, there, rfl⟩ := names_cons_eq_some.mp before
        rw [List.append_cons] at after
        exact ⟨n, earlier ++ later, here, ih.mpr ⟨earlier, later, there, after, rfl⟩, rfl⟩

/-- No name is given twice, and none that was taken before. -/
theorem names_nodup (returned : scheme.names fuel taken bs = some ns) :
    ns.Nodup ∧ ∀ n ∈ ns, n ∉ taken := by
  induction bs generalizing taken ns with
  | nil =>
      cases returned
      exact ⟨List.nodup_nil, List.forall_mem_nil _⟩
  | cons b bs ih =>
      obtain ⟨n, later, here, there, rfl⟩ := names_cons_eq_some.mp returned
      obtain ⟨distinct, free⟩ := ih there
      have new := (search_some here).1
      refine ⟨List.nodup_cons.mpr ⟨fun again => ?_, distinct⟩, List.forall_mem_cons.mpr ⟨new, ?_⟩⟩
      · exact free n again (List.mem_append_right _ List.mem_cons_self)
      · exact fun m inside old => free m inside (List.mem_append_left _ old)

theorem names_length (returned : scheme.names fuel taken bs = some ns) :
    ns.length = bs.length := by
  induction bs generalizing taken ns with
  | nil =>
      cases returned
      rfl
  | cons b bs ih =>
      obtain ⟨n, later, -, there, rfl⟩ := names_cons_eq_some.mp returned
      rw [List.length_cons, List.length_cons, ih there]

theorem names_mem (returned : scheme.names fuel taken bs = some ns) :
    ∀ n ∈ ns, ∃ b ∈ bs, n = scheme.first b ∨ ∃ k ≥ scheme.start, n = scheme.next b k := by
  induction bs generalizing taken ns with
  | nil =>
      cases returned
      exact List.forall_mem_nil _
  | cons b bs ih =>
      obtain ⟨n, later, here, there, rfl⟩ := names_cons_eq_some.mp returned
      refine List.forall_mem_cons.mpr ⟨⟨b, List.mem_cons_self, ?_⟩, fun m inside => ?_⟩
      · rcases (search_some here).2 with ⟨-, first⟩ | ⟨-, k, above, next, -⟩
        · exact .inl first
        · exact .inr ⟨k, above, next⟩
      · obtain ⟨c, member, candidate⟩ := ih there m inside
        exact ⟨c, List.mem_cons_of_mem _ member, candidate⟩

/-- Every item of the list is named in a state with `P`. -/
def Steps (scheme : Scheme β α) (P : List α → β → Prop) : List α → List β → Prop
  | _, [] => True
  | taken, b :: bs => P taken b ∧
      ∀ fuel n, scheme.name fuel taken b = some n → Steps scheme P (taken ++ [n]) bs

/-- The names of a list end exactly when in every step some candidate is not taken. -/
theorem names_returns : (∃ fuel ns, scheme.names fuel taken bs = some ns) ↔
    scheme.Steps (fun taken b => scheme.first b ∉ taken ∨
      ∃ k ≥ scheme.start, scheme.next b k ∉ taken) taken bs := by
  induction bs generalizing taken with
  | nil => exact iff_of_true ⟨0, [], rfl⟩ trivial
  | cons b bs ih =>
      rw [Steps]
      constructor
      · rintro ⟨fuel, ns, returned⟩
        obtain ⟨n, later, here, there, rfl⟩ := names_cons_eq_some.mp returned
        refine ⟨name_returns.mp ⟨fuel, n, here⟩, fun fuel' n' again => ?_⟩
        rw [name_unique again here]
        exact ih.mp ⟨fuel, later, there⟩
      · rintro ⟨free, rest⟩
        obtain ⟨fuel, n, here⟩ := name_returns.mpr free
        obtain ⟨fuel', later, there⟩ := ih.mpr (rest fuel n here)
        have first := name_mono here (Nat.le_max_left fuel fuel')
        have second := names_mono there (Nat.le_max_right fuel fuel')
        exact ⟨_, n :: later, names_cons_eq_some.mpr ⟨n, later, first, second, rfl⟩⟩

theorem Steps.imp {P Q : List α → β → Prop} (each : ∀ taken b, P taken b → Q taken b)
    (steps : scheme.Steps P taken bs) : scheme.Steps Q taken bs := by
  induction bs generalizing taken with
  | nil => trivial
  | cons b bs ih => exact ⟨each taken b steps.1, fun fuel n here => ih (steps.2 fuel n here)⟩

theorem steps_of_forall {P : List α → β → Prop} (each : ∀ taken b, P taken b) :
    scheme.Steps P taken bs := by
  induction bs generalizing taken with
  | nil => trivial
  | cons b bs ih => exact ⟨each taken b, fun _ _ _ => ih⟩

/-- Where `P` of a step says what `Q` does of its name, every step has `P` exactly when every
name has `Q`. -/
theorem steps_iff_forall_names {P : List α → β → Prop} {Q : α → Prop}
    (each : ∀ {taken b fuel n}, scheme.name fuel taken b = some n → (P taken b ↔ Q n))
    (returned : scheme.names fuel taken bs = some ns) :
    scheme.Steps P taken bs ↔ ∀ n ∈ ns, Q n := by
  induction bs generalizing taken ns with
  | nil =>
      cases returned
      exact iff_of_true trivial (List.forall_mem_nil _)
  | cons b bs ih =>
      obtain ⟨n, later, here, there, rfl⟩ := names_cons_eq_some.mp returned
      rw [Steps, List.forall_mem_cons, each here, ← ih there]
      refine and_congr_right fun _ => ⟨fun rest => rest fuel n here, fun rest fuel' n' again => ?_⟩
      rwa [name_unique again here]

end Lists
end Scheme

section Twice

/-- A name that is used once `before` was named, where an item has one other name only: it is
the first name of an item, or the other name of one whose first name was used before it. -/
inductive Used (again : α → α) : List α → α → Prop
  | first {before : List α} {x : α} : x ∈ before → Used again before x
  | second {before after : List α} {x : α} :
      Used again before x → Used again (before ++ x :: after) (again x)

/-- The scheme in which every attempt after the first is the same. -/
def twice (again : α → α) (start : ℕ) : Scheme α α := ⟨id, fun x _ => again x, start⟩

variable {again : α → α} {start fuel : ℕ} {before names : List α} {x y : α}

theorem used_nil : ¬ Used again [] x := by
  intro used
  generalize none_before : ([] : List α) = before at used
  cases used with
  | first inside => subst none_before; cases inside
  | second earlier => cases (List.append_eq_nil_iff.mp none_before.symm).2

theorem used_concat : Used again (before ++ [x]) y ↔
    Used again before y ∨ y = x ∨ (Used again before x ∧ y = again x) := by
  constructor
  · intro used
    generalize grown : before ++ [x] = items at used
    cases used with
    | first inside =>
        rw [← grown, List.mem_append, List.mem_singleton] at inside
        rcases inside with old | rfl
        · exact .inl (.first old)
        · exact .inr (.inl rfl)
    | @second earlier after z known =>
        rcases List.eq_nil_or_concat after with rfl | ⟨after', w, rfl⟩
        · obtain ⟨rfl, last⟩ := List.append_inj' grown rfl
          obtain rfl := (List.cons.inj last).1
          exact .inr (.inr ⟨known, rfl⟩)
        · rw [List.concat_eq_append, ← List.cons_append, ← List.append_assoc] at grown
          obtain ⟨rfl, -⟩ := List.append_inj' grown rfl
          exact .inl (.second known)
  · rintro (used | rfl | ⟨used, rfl⟩)
    · cases used with
      | first inside => exact .first (List.mem_append_left _ inside)
      | second known =>
          rw [List.append_assoc, List.cons_append]
          exact .second known
    · exact .first (List.mem_append_right _ List.mem_cons_self)
    · exact .second used

variable [DecidableEq α]

/-- The names that have been given are those used. -/
theorem mem_names_twice (returned : (twice again start).names fuel [] before = some names) :
    y ∈ names ↔ Used again before y := by
  induction before using List.reverseRecOn generalizing names y with
  | nil =>
      cases returned
      exact iff_of_false List.not_mem_nil used_nil
  | append_singleton before x ih =>
      obtain ⟨earlier, later, there, last, rfl⟩ := Scheme.names_append_eq_some.mp returned
      obtain ⟨n, _, here, done, rfl⟩ := Scheme.names_cons_eq_some.mp last
      cases done
      rw [List.mem_append, List.mem_singleton, used_concat, ih there, ← ih there]
      obtain ⟨-, ⟨free, rfl⟩ | ⟨known, k, -, rfl, -⟩⟩ := Scheme.search_some here
      · rw [List.nil_append] at free
        simp only [twice, id_eq, ← ih there] at free ⊢
        tauto
      · rw [List.nil_append] at known
        simp only [twice, id_eq, ← ih there] at known ⊢
        have same : y = x → y ∈ earlier := fun h => h ▸ known
        tauto

/-- Every item gets a name exactly when no item comes after both its names were used. -/
theorem twice_returns {xs : List α} :
    (∃ fuel names, (twice again start).names fuel [] xs = some names) ↔
      ∀ before x after, xs = before ++ x :: after →
        ¬ (Used again before x ∧ Used again before (again x)) := by
  constructor
  · rintro ⟨fuel, names, returned⟩ before x after rfl ⟨once, more⟩
    obtain ⟨earlier, later, there, rest, rfl⟩ := Scheme.names_append_eq_some.mp returned
    obtain ⟨n, _, here, -, rfl⟩ := Scheme.names_cons_eq_some.mp rest
    rcases Scheme.name_returns.mp ⟨fuel, n, here⟩ with free | ⟨k, -, free⟩
    · exact free ((mem_names_twice there).mpr once)
    · exact free ((mem_names_twice there).mpr more)
  · intro roomy
    induction xs using List.reverseRecOn with
    | nil => exact ⟨0, [], rfl⟩
    | append_singleton xs x ih =>
        obtain ⟨fuel, earlier, there⟩ := ih fun before y after split => by
          apply roomy before y (after ++ [x])
          rw [split, List.append_assoc, List.cons_append]
        have here : ∃ fuel n, (twice again start).name fuel earlier x = some n := by
          apply Scheme.name_returns.mpr
          by_contra stuck
          push Not at stuck
          apply roomy xs x [] rfl
          exact ⟨(mem_names_twice there).mp stuck.1,
            (mem_names_twice there).mp (stuck.2 start (Nat.le_refl start))⟩
        obtain ⟨fuel', n, named⟩ := here
        refine ⟨max fuel fuel', earlier ++ [n], Scheme.names_append_eq_some.mpr
          ⟨earlier, [n], Scheme.names_mono there (Nat.le_max_left _ _), ?_, rfl⟩⟩
        exact Scheme.names_cons_eq_some.mpr
          ⟨n, [], Scheme.name_mono named (Nat.le_max_right _ _), rfl, rfl⟩

end Twice
end Lib
