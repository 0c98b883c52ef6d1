import Mathlib.Data.List.Basic
import Mathlib.Data.List.Nodup
import Mathlib.Data.List.Range

/-!
# Loops that link nodes in both directions

Each node keeps the list of nodes it points to and the list of nodes that point to
it. A linking loop visits nodes one by one and records one link at both of its ends.
Its result has a closed form as soon as the choice of a target does not read the link
lists that the loop is writing.
-/
namespace Lib

/-- The two link lists of a node. -/
structure Links where
  out : List ℕ
  inn : List ℕ

/-- A node type with a pair of link lists beside its other data. -/
class Linked (ν : Type*) where
  links : ν → Links
  withLinks : ν → Links → ν
  links_withLinks : ∀ v l, links (withLinks v l) = l
  withLinks_withLinks : ∀ v l l', withLinks (withLinks v l) l' = withLinks v l'
  withLinks_links : ∀ v, withLinks v (links v) = v

open Linked
attribute [simp] links_withLinks withLinks_withLinks withLinks_links

variable {ν : Type*} [Linked ν]

@[simp] theorem withLinks_eta (v : ν) : withLinks v ⟨(links v).out, (links v).inn⟩ = v :=
  withLinks_links v

def pushOut (j : ℕ) (v : ν) : ν := withLinks v ⟨(links v).out ++ [j], (links v).inn⟩

def pushInn (i : ℕ) (v : ν) : ν := withLinks v ⟨(links v).out, (links v).inn ++ [i]⟩

/-- Record the link from node `i` to node `j` at both ends. -/
def link (xs : List ν) (i j : ℕ) : List ν := (xs.modify j (pushInn i)).modify i (pushOut j)

def linkStep (target : List ν → ℕ → Option ℕ) (xs : List ν) (i : ℕ) : List ν :=
  match target xs i with
  | none => xs
  | some j => link xs i j

/-- The loop: nodes `is` are visited in order, each linked to its target of that moment. -/
def linkAll (target : List ν → ℕ → Option ℕ) (xs : List ν) (is : List ℕ) : List ν :=
  is.foldl (linkStep target) xs

/-- A node without its links. -/
def core (v : ν) : ν := withLinks v ⟨[], []⟩

@[simp] theorem core_withLinks (v : ν) (l : Links) : core (withLinks v l) = core v := by
  simp [core]

@[simp] theorem core_pushOut (j : ℕ) (v : ν) : core (pushOut j v) = core v := core_withLinks _ _

@[simp] theorem core_pushInn (i : ℕ) (v : ν) : core (pushInn i v) = core v := core_withLinks _ _

theorem map_core_modify (xs : List ν) (i : ℕ) (f : ν → ν) (hf : ∀ v, core (f v) = core v) :
    (xs.modify i f).map core = xs.map core := by
  apply List.ext_getElem? fun k => ?_
  rw [List.getElem?_map, List.getElem?_map, List.getElem?_modify]
  by_cases same : i = k
  · subst same
    cases xs[i]? <;> simp [hf]
  · simp [same]

theorem map_core_link (xs : List ν) (i j : ℕ) : (link xs i j).map core = xs.map core := by
  rw [link, map_core_modify _ _ _ (core_pushOut j), map_core_modify _ _ _ (core_pushInn i)]

theorem map_core_linkStep (target : List ν → ℕ → Option ℕ) (xs : List ν) (i : ℕ) :
    (linkStep target xs i).map core = xs.map core := by
  unfold linkStep
  split
  · rfl
  · exact map_core_link _ _ _

/-- Linking changes nothing but the link lists. -/
theorem map_core_linkAll (target : List ν → ℕ → Option ℕ) (xs : List ν) (is : List ℕ) :
    (linkAll target xs is).map core = xs.map core := by
  induction is generalizing xs with
  | nil => rfl
  | cons i is ih => exact (ih _).trans (map_core_linkStep target xs i)

/-- A target that reads no link lists can be fixed before the loop starts. -/
theorem linkAll_static {target : List ν → ℕ → Option ℕ}
    (reads : ∀ xs ys i, xs.map core = ys.map core → target xs i = target ys i)
    (xs : List ν) (is : List ℕ) :
    linkAll target xs is = linkAll (fun _ => target xs) xs is := by
  have fixed : ∀ ys : List ν, ys.map core = xs.map core →
      linkAll target ys is = linkAll (fun _ => target xs) ys is := by
    induction is with
    | nil => intro ys _; rfl
    | cons i is ih =>
        intro ys same
        have first : linkStep target ys i = linkStep (fun _ => target xs) ys i := by
          simp only [linkStep, reads ys xs i same]
        change linkAll target (linkStep target ys i) is = _
        rw [first]
        exact ih _ ((map_core_linkStep _ _ _).trans same)
  exact fixed xs rfl

section Static
variable (t : ℕ → Option ℕ)

/-- What a loop over `is` appends to the outgoing links of node `k`. -/
def outs (is : List ℕ) (k : ℕ) : List ℕ := is.flatMap fun i => if i = k then (t i).toList else []

/-- What it appends to the incoming links of node `k`. -/
def inns (is : List ℕ) (k : ℕ) : List ℕ := is.filter fun i => t i = some k

theorem getElem?_linkStep (xs : List ν) (i k : ℕ) :
    (linkStep (fun _ => t) xs i)[k]? = xs[k]?.map fun v =>
      withLinks v ⟨(links v).out ++ outs t [i] k, (links v).inn ++ inns t [i] k⟩ := by
  cases hi : t i with
  | none =>
      have out : outs t [i] k = [] := by simp [outs, hi]
      have inn : inns t [i] k = [] := by simp [inns, hi]
      simp [linkStep, hi, out, inn]
  | some j =>
      simp only [linkStep, hi, link, List.getElem?_modify]
      cases xs[k]? with
      | none => rfl
      | some v =>
          have inn : inns t [i] k = if j = k then [i] else [] := by
            simp only [inns, List.filter_cons, hi, Option.some.injEq, List.filter_nil,
              decide_eq_true_eq]
          have out : outs t [i] k = if i = k then [j] else [] := by simp [outs, hi]
          rw [inn, out]
          by_cases hik : i = k <;> by_cases hjk : j = k <;>
            simp [hik, hjk, pushOut, pushInn]

/-- The links of every node after the loop. -/
theorem getElem?_linkAll (xs : List ν) (is : List ℕ) (k : ℕ) :
    (linkAll (fun _ => t) xs is)[k]? = xs[k]?.map fun v =>
      withLinks v ⟨(links v).out ++ outs t is k, (links v).inn ++ inns t is k⟩ := by
  induction is generalizing xs with
  | nil => simp [linkAll, outs, inns]
  | cons i is ih =>
      change (linkAll (fun _ => t) (linkStep (fun _ => t) xs i) is)[k]? = _
      rw [ih, getElem?_linkStep, Option.map_map]
      congr 1
      funext v
      have out : outs t (i :: is) k = outs t [i] k ++ outs t is k := by simp [outs]
      have inn : inns t (i :: is) k = inns t [i] k ++ inns t is k := by
        simp only [inns, ← List.filter_append, List.singleton_append]
      simp [out, inn]

theorem outs_range {n k : ℕ} (hk : k < n) : outs t (List.range n) k = (t k).toList := by
  induction n with
  | zero => omega
  | succ n ih =>
      rw [List.range_succ, outs, List.flatMap_append, ← outs]
      rcases Nat.lt_succ_iff_lt_or_eq.mp hk with lt | rfl
      · rw [ih lt]
        simp [Nat.ne_of_gt lt]
      · have before : outs t (List.range k) k = [] := by
          simp only [outs, List.flatMap_eq_nil_iff, List.mem_range]
          intro i hi
          rw [if_neg (Nat.ne_of_lt hi)]
        simp [before]

theorem mem_inns_range {n i k : ℕ} : i ∈ inns t (List.range n) k ↔ i < n ∧ t i = some k := by
  simp [inns]

theorem nodup_inns_range (n k : ℕ) : (inns t (List.range n) k).Nodup :=
  List.nodup_range.filter _

/-- A link is recorded as often at its one end as at the other. -/
theorem count_outs_eq_count_inns {n i : ℕ} (hi : i < n) (j : ℕ) :
    (outs t (List.range n) i).count j = (inns t (List.range n) j).count i := by
  rw [outs_range t hi]
  by_cases target : t i = some j
  · have inn : i ∈ inns t (List.range n) j := (mem_inns_range t).mpr ⟨hi, target⟩
    rw [List.count_eq_one_of_mem (nodup_inns_range t n j) inn, target]
    simp
  · have inn : i ∉ inns t (List.range n) j := fun h => target ((mem_inns_range t).mp h).2
    rw [List.count_eq_zero_of_not_mem inn, List.count_eq_zero]
    intro h
    exact target (Option.mem_toList.mp h)

end Static

/-- The links of every node after a loop over all nodes that started without links. -/
theorem links_linkAll_range {target : List ν → ℕ → Option ℕ}
    (reads : ∀ xs ys i, xs.map core = ys.map core → target xs i = target ys i)
    {xs : List ν} (fresh : ∀ v ∈ xs, links v = ⟨[], []⟩) {k : ℕ} {v : ν}
    (found : (linkAll target xs (List.range xs.length))[k]? = some v) :
    links v = ⟨(target xs k).toList, inns (target xs) (List.range xs.length) k⟩ := by
  rw [linkAll_static reads, getElem?_linkAll, Option.map_eq_some_iff] at found
  obtain ⟨w, here, rfl⟩ := found
  have inside := (List.getElem?_eq_some_iff.mp here).1
  rw [links_withLinks, fresh w (List.mem_of_getElem? here), outs_range _ inside]
  rfl

end Lib
