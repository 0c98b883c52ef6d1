import Mathlib.Data.Fintype.Card
import Mathlib.Data.List.Perm.Basic
import Mathlib.Data.List.Nodup
import Mathlib.Order.WellFounded
import Mathlib.Logic.Relation

/-!
# Chains of a partial function

A partial function `f : α → Option α` sends a node to the next one of its chain.
`follow` walks a chain with fuel, so that a walk that never ends has no value; a
finite chain has exactly one end. On numbered nodes, a relation without cycles is
well founded, and an injective `f` puts the ends of the chains in bijection with
their starts.
-/
namespace Lib
open Relation

section Follow
variable {α : Type*} (f : α → Option α)

/-- Walk to the end of the chain; `none` is a walk that is out of fuel. -/
def follow : ℕ → α → Option α
  | 0, _ => none
  | n + 1, a => match f a with
    | none => some a
    | some b => follow n b

def Next (a b : α) : Prop := f a = some b

/-- A walk of `a` ends, with whatever fuel it needs. -/
def Ends (a : α) : Prop := ∃ n b, follow f n a = some b

variable {f}

theorem follow_of_end {a : α} (h : f a = none) (n : ℕ) : follow f (n + 1) a = some a := by
  simp [follow, h]

theorem follow_of_next {a b : α} (h : f a = some b) (n : ℕ) :
    follow f (n + 1) a = follow f n b := by
  simp [follow, h]

/-- More fuel never changes the end that a walk has found. -/
theorem follow_mono {n m : ℕ} {a b : α} (le : n ≤ m) (h : follow f n a = some b) :
    follow f m a = some b := by
  induction n generalizing m a with
  | zero => cases h
  | succ n ih =>
      obtain ⟨m, rfl⟩ : ∃ k, m = k + 1 := ⟨m - 1, by omega⟩
      cases hf : f a with
      | none => rw [follow_of_end hf] at h ⊢; exact h
      | some c =>
          rw [follow_of_next hf] at h ⊢
          exact ih (Nat.le_of_succ_le_succ le) h

theorem follow_unique {n m : ℕ} {a b c : α} (h : follow f n a = some b)
    (k : follow f m a = some c) : b = c := by
  have hb := follow_mono (Nat.le_max_left n m) h
  have hc := follow_mono (Nat.le_max_right n m) k
  exact Option.some.inj (hb.symm.trans hc)

/-- The end of a walk is reached by links, and nothing follows it. -/
theorem follow_reaches {n : ℕ} {a b : α} (h : follow f n a = some b) :
    ReflTransGen (Next f) a b ∧ f b = none := by
  induction n generalizing a with
  | zero => cases h
  | succ n ih =>
      cases hf : f a with
      | none =>
          rw [follow_of_end hf] at h
          cases h
          exact ⟨.refl, hf⟩
      | some c =>
          rw [follow_of_next hf] at h
          exact ⟨ReflTransGen.head hf (ih h).1, (ih h).2⟩

theorem reaches_follow {a b : α} (h : ReflTransGen (Next f) a b) (hb : f b = none) :
    ∃ n, follow f n a = some b := by
  induction h using ReflTransGen.head_induction_on with
  | refl => exact ⟨1, follow_of_end hb 0⟩
  | head hac _ ih =>
      obtain ⟨n, hn⟩ := ih
      exact ⟨n + 1, (follow_of_next hac n).trans hn⟩

/-- A walk ends exactly where the chain below it is well founded. -/
theorem ends_iff_acc {a : α} : Ends f a ↔ Acc (fun b a => f a = some b) a := by
  constructor
  · rintro ⟨n, b, h⟩
    induction n generalizing a with
    | zero => cases h
    | succ n ih =>
        refine Acc.intro a fun c hc => ih ?_
        rwa [follow_of_next hc] at h
  · intro h
    induction h with
    | intro a _ ih =>
        cases hf : f a with
        | none => exact ⟨1, a, follow_of_end hf 0⟩
        | some b =>
            obtain ⟨n, c, hc⟩ := ih b hf
            exact ⟨n + 1, c, (follow_of_next hf n).trans hc⟩

theorem Ends.next {a b : α} (ends : Ends f a) (h : f a = some b) : Ends f b := by
  obtain ⟨n, c, walk⟩ := ends
  cases n with
  | zero => cases walk
  | succ n => exact ⟨n, c, (follow_of_next h n).symm.trans walk⟩

/-- A chain that comes back to its start never ends. -/
theorem not_ends_of_cycle {a : α} (h : TransGen (Next f) a a) : ¬ Ends f a := by
  intro ends
  have acc := ends_iff_acc.mp ends
  have irrefl : ∀ {x}, Acc (fun b a => f a = some b) x → ¬ TransGen (Next f) x x := by
    intro x hx
    induction hx with
    | intro x _ ih =>
        intro hc
        obtain ⟨y, hxy, hyx⟩ := TransGen.head'_iff.mp hc
        exact ih y hxy (TransGen.tail' hyx hxy)
  exact irrefl acc h

variable (f) in
/-- The nodes of a walk. -/
def trail : ℕ → α → List α
  | 0, _ => []
  | n + 1, a => match f a with
    | none => [a]
    | some b => a :: trail n b

theorem trail_of_end {a : α} (h : f a = none) (n : ℕ) : trail f (n + 1) a = [a] := by
  simp [trail, h]

theorem trail_of_next {a b : α} (h : f a = some b) (n : ℕ) :
    trail f (n + 1) a = a :: trail f n b := by
  simp [trail, h]

theorem reaches_of_mem_trail {n : ℕ} {a b : α} (inside : b ∈ trail f n a) :
    ReflTransGen (Next f) a b := by
  induction n generalizing a with
  | zero => cases inside
  | succ n ih =>
      cases next : f a with
      | none =>
          rw [trail_of_end next, List.mem_singleton] at inside
          exact inside ▸ .refl
      | some c =>
          rw [trail_of_next next, List.mem_cons] at inside
          rcases inside with rfl | later
          · exact .refl
          · exact .head next (ih later)

theorem nodup_trail {n : ℕ} {a b : α} (walk : follow f n a = some b) : (trail f n a).Nodup := by
  induction n generalizing a with
  | zero => cases walk
  | succ n ih =>
      cases next : f a with
      | none =>
          rw [trail_of_end next]
          exact List.nodup_singleton a
      | some c =>
          have ends : Ends f a := ⟨n + 1, b, walk⟩
          rw [follow_of_next next] at walk
          rw [trail_of_next next]
          refine List.nodup_cons.mpr ⟨fun again => ?_, ih walk⟩
          exact not_ends_of_cycle (.head' next (reaches_of_mem_trail again)) ends

end Follow

section Bounded
variable {r : ℕ → ℕ → Prop} {n : ℕ}

/-- No node comes back to itself. -/
def Acyclic {α : Type*} (r : α → α → Prop) : Prop := ∀ a, ¬ TransGen r a a

theorem Acyclic.swap {α : Type*} {r : α → α → Prop} (h : Acyclic r) :
    Acyclic (fun a b => r b a) := fun a ha => h a (transGen_swap.mp ha)

open Classical in
/-- The nodes below `n` that are reached from `a` by one link or more. -/
noncomputable def reach (r : ℕ → ℕ → Prop) (n a : ℕ) : Finset ℕ :=
  (Finset.range n).filter fun b => TransGen r a b

theorem mem_reach {a b : ℕ} : b ∈ reach r n a ↔ b < n ∧ TransGen r a b := by
  simp [reach]

theorem reach_card_le (a : ℕ) : (reach r n a).card ≤ n := by
  have sub : reach r n a ⊆ Finset.range n := by
    intro b hb
    exact Finset.mem_range.mpr (mem_reach.mp hb).1
  calc (reach r n a).card ≤ (Finset.range n).card := Finset.card_le_card sub
    _ = n := Finset.card_range n

/-- A link to a node that does not come back leaves fewer nodes within reach. -/
theorem reach_card_lt {a b : ℕ} (hab : r a b) (bound : b < n) (leaves : ¬ TransGen r b b) :
    (reach r n b).card < (reach r n a).card := by
  apply Finset.card_lt_card
  refine Finset.ssubset_iff_subset_ne.mpr ⟨?_, fun same => ?_⟩
  · intro c hc
    rw [mem_reach] at hc ⊢
    exact ⟨hc.1, TransGen.head hab hc.2⟩
  · have inside : b ∈ reach r n a := mem_reach.mpr ⟨bound, TransGen.single hab⟩
    rw [← same] at inside
    exact leaves (mem_reach.mp inside).2

theorem Acyclic.wellFounded (acyclic : Acyclic r) (bounded : ∀ a b, r a b → b < n) :
    WellFounded (fun b a => r a b) := by
  refine Subrelation.wf (r := InvImage (· < ·) fun a => (reach r n a).card) ?_
    (InvImage.wf _ Nat.lt_wfRel.wf)
  intro b a hab
  exact reach_card_lt hab (bounded a b hab) (acyclic b)

/-- A walk on `n` nodes ends within `n` links, if it ends at all. -/
theorem Ends.within {f : ℕ → Option ℕ} (bounded : ∀ a b, f a = some b → b < n) {a : ℕ}
    (ends : Ends f a) : ∃ b, follow f (n + 1) a = some b := by
  have walk : ∀ k a, Ends f a → (reach (Next f) n a).card ≤ k →
      ∃ b, follow f (k + 1) a = some b := by
    intro k
    induction k with
    | zero =>
        intro a ends small
        cases next : f a with
        | none => exact ⟨a, follow_of_end next 0⟩
        | some b =>
            have fewer := reach_card_lt (r := Next f) (n := n) next (bounded a b next)
              fun cycle => not_ends_of_cycle cycle (ends.next next)
            omega
    | succ k ih =>
        intro a ends small
        cases next : f a with
        | none => exact ⟨a, follow_of_end next _⟩
        | some b =>
            rw [follow_of_next next]
            have fewer := reach_card_lt (r := Next f) (n := n) next (bounded a b next)
              fun cycle => not_ends_of_cycle cycle (ends.next next)
            exact ih b (ends.next next) (by omega)
  exact walk n a ends (reach_card_le a)

theorem acyclic_of_wellFounded {α : Type*} {r : α → α → Prop}
    (wf : WellFounded (fun b a => r a b)) : Acyclic r := by
  intro a
  induction a using wf.induction with
  | _ a ih =>
      intro hc
      obtain ⟨b, hab, hba⟩ := TransGen.head'_iff.mp hc
      exact ih b hab (TransGen.tail' hba hab)

end Bounded

section Bijection
variable {f : ℕ → Option ℕ} {n : ℕ}

/-- A chain starts at a node that follows no other. -/
def IsStart (f : ℕ → Option ℕ) (a : ℕ) : Prop := ∀ b, f b ≠ some a

/-- The shape of a graph of disjoint finite chains on the nodes below `n`. -/
structure Disjoint (f : ℕ → Option ℕ) (n : ℕ) : Prop where
  bounded : ∀ a b, f a = some b → a < n ∧ b < n
  injective : ∀ a b c, f a = some c → f b = some c → a = b
  acyclic : Acyclic (Next f)

theorem Disjoint.ends (h : Disjoint f n) (a : ℕ) : Ends f a :=
  ends_iff_acc.mpr ((h.acyclic.wellFounded fun a b hab => (h.bounded a b hab).2).apply a)

/-- Going up from a node of a finite chain one finds its start. -/
theorem Disjoint.exists_start (h : Disjoint f n) (a : ℕ) :
    ∃ s, IsStart f s ∧ ReflTransGen (Next f) s a := by
  have wf : WellFounded (fun b a => f b = some a) :=
    (h.acyclic.swap).wellFounded (n := n) fun a b hab => (h.bounded b a hab).1
  induction a using wf.induction with
  | _ a ih =>
      by_cases start : IsStart f a
      · exact ⟨a, start, .refl⟩
      · simp only [IsStart, not_forall, not_not] at start
        obtain ⟨b, hb⟩ := start
        obtain ⟨s, hs, path⟩ := ih b hb
        exact ⟨s, hs, path.tail hb⟩

theorem Disjoint.start_unique (h : Disjoint f n) {a s t : ℕ} (hs : IsStart f s)
    (ht : IsStart f t) (ps : ReflTransGen (Next f) s a) (pt : ReflTransGen (Next f) t a) :
    s = t := by
  induction ps generalizing t with
  | refl =>
      rcases ReflTransGen.cases_tail pt with same | ⟨b, _, hb⟩
      · exact same
      · exact absurd hb (hs b)
  | tail _ hbc ih =>
      rcases ReflTransGen.cases_tail pt with same | ⟨d, pd, hd⟩
      · exact absurd hbc (same ▸ ht _)
      · exact ih ht (h.injective _ _ _ hbc hd ▸ pd)

/-- Every end belongs to the chain of exactly one start. -/
theorem Disjoint.existsUnique_start (h : Disjoint f n) {e : ℕ} (he : f e = none) :
    ∃! s, IsStart f s ∧ ∃ m, follow f m s = some e := by
  obtain ⟨s, hs, path⟩ := h.exists_start e
  refine ⟨s, ⟨hs, reaches_follow path he⟩, ?_⟩
  rintro t ⟨ht, m, hm⟩
  exact h.start_unique ht hs (follow_reaches hm).1 path

end Bijection
end Lib
