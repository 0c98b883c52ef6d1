import Heimdall.Lib.Rows

/-!
# Caches

A cache may forget what was stored in it, but it never makes up a value: it returns what was
stored last under the key. The cache that forgets what was not used for the longest time is
one of them.
-/
namespace Lib

variable {κ K V : Type}

/-- Reading may change the cache too. -/
structure Cache (κ K V : Type) where
  new : κ
  get : κ → K → Option V × κ
  set : κ → K → V → κ

namespace Cache

structure Lawful (cache : Cache κ K V) : Prop where
  new : ∀ k, (cache.get cache.new k).1 = none
  get : ∀ c j k v, (cache.get (cache.get c j).2 k).1 = some v → (cache.get c k).1 = some v
  set : ∀ c j w k v, (cache.get (cache.set c j w) k).1 = some v →
    (k = j ∧ v = w) ∨ (k ≠ j ∧ (cache.get c k).1 = some v)

/-- Everything that the cache would return is good. -/
def Holds (cache : Cache κ K V) (good : K → V → Prop) (c : κ) : Prop :=
  ∀ k v, (cache.get c k).1 = some v → good k v

variable {cache : Cache κ K V} {good better : K → V → Prop} {c : κ}

theorem Lawful.holds_new (lawful : cache.Lawful) : cache.Holds good cache.new := by
  intro k v found
  rw [lawful.new k] at found
  cases found

theorem Holds.get (holds : cache.Holds good c) (lawful : cache.Lawful) (j : K) :
    cache.Holds good (cache.get c j).2 :=
  fun k v found => holds k v (lawful.get c j k v found)

theorem Holds.set (holds : cache.Holds good c) (lawful : cache.Lawful) {j : K} {w : V}
    (here : good j w) : cache.Holds good (cache.set c j w) := by
  intro k v found
  rcases lawful.set c j w k v found with ⟨rfl, rfl⟩ | ⟨-, old⟩
  · exact here
  · exact holds k v old

theorem Holds.mono (holds : cache.Holds good c) (more : ∀ k v, good k v → better k v) :
    cache.Holds better c := fun k v found => more k v (holds k v found)

end Cache

section Lru
variable [DecidableEq K]

/-- The entries, the one used last first. -/
def lruCache (max : ℕ) : Cache (List (K × V)) K V where
  new := []
  get entries k :=
    match pick Prod.fst k entries with
    | some entry => (some entry.2, entry :: discard Prod.fst k entries)
    | none => (none, entries)
  set entries k v := ((k, v) :: discard Prod.fst k entries).take max

theorem lruCache_get (max : ℕ) (entries : List (K × V)) (k : K) :
    ((lruCache max).get entries k).1 = (pick Prod.fst k entries).map Prod.snd := by
  unfold lruCache
  dsimp only
  cases pick Prod.fst k entries <;> rfl

theorem lruCache_get_singleton (max : ℕ) (k : K) (v : V) :
    (lruCache max).get [(k, v)] k = (some v, [(k, v)]) := by
  simp [lruCache, pick, discard]

theorem pick_cons (entry : K × V) (entries : List (K × V)) (k : K) :
    pick Prod.fst k (entry :: entries) =
      if entry.1 = k then some entry else pick Prod.fst k entries := by
  unfold pick
  rw [List.find?_cons]
  by_cases same : entry.1 = k
  · simp [same]
  · simp [same]

theorem lruCache_lawful (max : ℕ) : (lruCache max : Cache (List (K × V)) K V).Lawful where
  new k := rfl
  get entries j k v found := by
    rw [lruCache_get] at found ⊢
    unfold lruCache at found
    dsimp only at found
    cases here : pick Prod.fst j entries with
    | none =>
        rw [here] at found
        exact found
    | some entry =>
        rw [here] at found
        have key := (pick_some here).2
        rw [pick_cons, key, pick_discard] at found
        by_cases same : j = k
        · subst same
          rw [if_pos rfl] at found
          rw [here]
          exact found
        · rw [if_neg same, if_neg fun other => same other.symm] at found
          exact found
  set entries j w k v found := by
    rw [lruCache_get] at found ⊢
    obtain ⟨entry, here, rfl⟩ := Option.map_eq_some_iff.mp found
    have kept : pick Prod.fst k ((j, w) :: discard Prod.fst j entries) = some entry :=
      (List.take_prefix max _).find?_eq_some here
    rw [pick_cons, pick_discard] at kept
    by_cases same : j = k
    · subst same
      rw [if_pos rfl] at kept
      cases kept
      exact .inl ⟨rfl, rfl⟩
    · have other : k ≠ j := fun h => same h.symm
      rw [if_neg same, if_neg other] at kept
      exact .inr ⟨other, by rw [kept]; rfl⟩

end Lru
end Lib
