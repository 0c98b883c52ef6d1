import Mathlib.Data.List.Basic

/-!
# Interleavings of processes over a shared state

Processes with private phases act on one shared state, one atomic action at a time.
A schedule names the process that acts next, so the lists of numbers are exactly the
interleavings; a process that is done, or is not there, leaves everything as it is.
The invariant rule asks what an action does to its own process and to the others.
-/
namespace Lib

variable {σ ℓ : Type*} (act : σ → ℓ → σ × ℓ)

def fire (c : σ × List ℓ) (i : ℕ) : σ × List ℓ :=
  match c.2[i]? with
  | none => c
  | some l => ((act c.1 l).1, c.2.set i (act c.1 l).2)

def interleave (c : σ × List ℓ) (schedule : List ℕ) : σ × List ℓ := schedule.foldl (fire act) c

theorem interleave_append (c : σ × List ℓ) (p q : List ℕ) :
    interleave act c (p ++ q) = interleave act (interleave act c p) q := List.foldl_append

theorem fire_of_some {c : σ × List ℓ} {i : ℕ} {l : ℓ} (h : c.2[i]? = some l) :
    fire act c i = ((act c.1 l).1, c.2.set i (act c.1 l).2) := by
  simp [fire, h]

variable {act}

/-- A shared invariant and a property of every process, kept by each action for its own
process and for all the others, hold in every interleaving. -/
theorem interleave_invariant {I : σ → Prop} {L : σ → ℓ → Prop}
    (own : ∀ s l, I s → L s l → I (act s l).1 ∧ L (act s l).1 (act s l).2)
    (other : ∀ s l k, I s → L s l → L s k → L (act s l).1 k)
    {c : σ × List ℓ} (shared : I c.1) (each : ∀ l ∈ c.2, L c.1 l) (schedule : List ℕ) :
    I (interleave act c schedule).1 ∧
      ∀ l ∈ (interleave act c schedule).2, L (interleave act c schedule).1 l := by
  induction schedule generalizing c with
  | nil => exact ⟨shared, each⟩
  | cons i schedule ih =>
      have step : interleave act c (i :: schedule) = interleave act (fire act c i) schedule := rfl
      rw [step]
      cases h : c.2[i]? with
      | none =>
          have idle : fire act c i = c := by simp [fire, h]
          rw [idle]
          exact ih shared each
      | some l =>
          have here : l ∈ c.2 := List.mem_of_getElem? h
          obtain ⟨shared', mine⟩ := own c.1 l shared (each l here)
          refine ih (c := fire act c i) ?_ ?_
          · rw [fire_of_some act h]
            exact shared'
          · rw [fire_of_some act h]
            intro k hk
            rcases List.mem_or_eq_of_mem_set hk with old | rfl
            · exact other c.1 l k shared (each l here) (each k old)
            · exact mine

/-- One action changes a count of processes by what it changes of its own process. -/
theorem countP_fire {c : σ × List ℓ} {i : ℕ} {l : ℓ} (h : c.2[i]? = some l) (q : ℓ → Bool) :
    (fire act c i).2.countP q + (if q l then 1 else 0) =
      c.2.countP q + if q (act c.1 l).2 then 1 else 0 := by
  obtain ⟨bound, here⟩ := List.getElem?_eq_some_iff.mp h
  have counted : (if q l then 1 else 0) ≤ c.2.countP q := by
    split
    · rename_i yes
      exact List.countP_pos_iff.mpr ⟨l, List.mem_of_getElem? h, yes⟩
    · exact Nat.zero_le _
  rw [fire_of_some act h, List.countP_set bound, here]
  omega

/-- Every process acts once, in order. -/
def sweep (act : σ → ℓ → σ × ℓ) : σ → List ℓ → σ × List ℓ
  | s, [] => (s, [])
  | s, l :: ls => ((sweep act (act s l).1 ls).1, (act s l).2 :: (sweep act (act s l).1 ls).2)

theorem interleave_range_from (done todo : List ℓ) (s : σ) :
    interleave act (s, done ++ todo) ((List.range todo.length).map (done.length + ·)) =
      ((sweep act s todo).1, done ++ (sweep act s todo).2) := by
  induction todo generalizing done s with
  | nil => simp [interleave, sweep]
  | cons l ls ih =>
      rw [List.length_cons, List.range_succ_eq_map, List.map_cons, List.map_map]
      change interleave act (fire act (s, done ++ l :: ls) (done.length + 0)) _ = _
      rw [fire_of_some act (l := l) (by simp)]
      have next := ih (done ++ [(act s l).2]) (act s l).1
      simp only [List.append_assoc, List.singleton_append, List.length_append,
        List.length_cons, List.length_nil] at next
      have mine : (done ++ l :: ls).set done.length (act s l).2 = done ++ (act s l).2 :: ls := by
        rw [List.set_append_right _ _ (Nat.le_refl _), Nat.sub_self, List.set_cons_zero]
      have later : ((done.length + ·) ∘ Nat.succ) = (done.length + (0 + 1) + ·) := by
        funext i
        simp only [Function.comp_apply]
        omega
      simp only [Nat.add_zero, mine, later, next, sweep]

/-- The schedule that lists every process once is a sweep. -/
theorem interleave_range (s : σ) (ls : List ℓ) :
    interleave act (s, ls) (List.range ls.length) = sweep act s ls := by
  simpa using @interleave_range_from _ _ act [] ls s

theorem sweep_of_reads {s : σ} {g : ℓ → ℓ} {ls : List ℓ}
    (reads : ∀ l ∈ ls, act s l = (s, g l)) : sweep act s ls = (s, ls.map g) := by
  induction ls with
  | nil => rfl
  | cons l ls ih =>
      have first := reads l List.mem_cons_self
      have rest := ih fun k hk => reads k (List.mem_cons_of_mem l hk)
      simp [sweep, first, rest]

end Lib
