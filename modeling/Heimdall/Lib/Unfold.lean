import Mathlib.Order.WellFounded
import Heimdall.Lib.Throws

/-!
# Recursion over finitely many children

A function that builds a result for a node from the results of all its children, with
fuel. It returns, with whatever fuel it needs, exactly on the accessible nodes.
-/
namespace Lib

section Unfold
variable {α τ : Type*} (children : α → List α) (node : α → List τ → τ)

def unfold : ℕ → α → Option τ
  | 0, _ => none
  | fuel + 1, a => ((children a).mapM (unfold fuel)).map (node a)

variable {children node}

theorem unfold_returns_succ {fuel : ℕ} {a : α} :
    (∃ t, unfold children node (fuel + 1) a = some t) ↔
      ∀ b ∈ children a, ∃ t, unfold children node fuel b = some t := by
  rw [← mapM_isSome_iff]
  simp only [unfold, Option.map_eq_some_iff]
  exact ⟨fun ⟨_, ts, h, _⟩ => ⟨ts, h⟩, fun ⟨ts, h⟩ => ⟨_, ts, h, rfl⟩⟩

/-- More fuel does not hurt. -/
theorem unfold_returns_mono {n m : ℕ} {a : α} (le : n ≤ m)
    (h : ∃ t, unfold children node n a = some t) :
    ∃ t, unfold children node m a = some t := by
  induction n generalizing m a with
  | zero =>
      obtain ⟨t, h⟩ := h
      cases h
  | succ n ih =>
      obtain ⟨m, rfl⟩ : ∃ k, m = k + 1 := ⟨m - 1, by omega⟩
      rw [unfold_returns_succ] at h ⊢
      exact fun b inside => ih (Nat.le_of_succ_le_succ le) (h b inside)

theorem exists_fuel {a : List α} (each : ∀ b ∈ a, ∃ n t, unfold children node n b = some t) :
    ∃ n, ∀ b ∈ a, ∃ t, unfold children node n b = some t := by
  induction a with
  | nil => exact ⟨0, by simp⟩
  | cons b rest ih =>
      obtain ⟨n, first⟩ := each b List.mem_cons_self
      obtain ⟨m, others⟩ := ih fun c inside => each c (List.mem_cons_of_mem _ inside)
      refine ⟨max n m, fun c inside => ?_⟩
      rcases List.mem_cons.mp inside with rfl | later
      · exact unfold_returns_mono (Nat.le_max_left n m) first
      · exact unfold_returns_mono (Nat.le_max_right n m) (others c later)

theorem unfold_returns_iff_acc {a : α} :
    (∃ n t, unfold children node n a = some t) ↔ Acc (fun b a => b ∈ children a) a := by
  constructor
  · rintro ⟨n, h⟩
    induction n generalizing a with
    | zero =>
        obtain ⟨t, h⟩ := h
        cases h
    | succ n ih => exact Acc.intro a fun b inside => ih (unfold_returns_succ.mp h b inside)
  · intro acc
    induction acc with
    | intro a _ ih =>
        obtain ⟨n, each⟩ := exists_fuel ih
        exact ⟨n + 1, unfold_returns_succ.mpr each⟩

end Unfold
end Lib
