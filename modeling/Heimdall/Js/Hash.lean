import Mathlib.Data.List.Sort
import Heimdall.Lib.Rows
import Heimdall.Js.Value

/-!
# Plain objects used as maps

The own properties of an object literal in the order in which they were added, the members
it inherits, and the order in which its properties are enumerated.
-/
namespace Js
open Lib

/-- The own properties, the oldest first. -/
abbrev Hash (α : Type) := List (JsString × α)

/-- The properties of `Object.prototype`. Each of them is truthy, and none is an array. -/
def objectPrototype : List JsString :=
  [js "constructor", js "__defineGetter__", js "__defineSetter__", js "hasOwnProperty",
   js "__lookupGetter__", js "__lookupSetter__", js "isPrototypeOf", js "propertyIsEnumerable",
   js "toString", js "valueOf", js "__proto__", js "toLocaleString"]

/-- The keys that are enumerated first, as numbers: `0`, `1`, … -/
def isIndex (key : JsString) : Bool :=
  !key.isEmpty && key.all isDigit && (key.head? != some 48 || key.length == 1) &&
    decide (parseDigits key < 4294967295)

/-- What reading a property of an object finds. -/
inductive Member (α : Type) where
  | own (value : α)
  | inherited
  | absent

namespace Hash
variable {α β : Type}

/-- `hash[key]` -/
def get (hash : Hash α) (key : JsString) : Member α :=
  match pick Prod.fst key hash with
  | some entry => .own entry.2
  | none => if key ∈ objectPrototype then .inherited else .absent

/-- `hash[key] = value`, for a key other than `__proto__`. -/
def set (hash : Hash α) (key : JsString) (value : α) : Hash α :=
  if key ∈ hash.map Prod.fst then save Prod.fst (key, value) hash else hash ++ [(key, value)]

/-- The entries in the order of `for … in` and of `Object.values`. -/
def entries (hash : Hash α) : List (JsString × α) :=
  (hash.filter fun e => isIndex e.1).insertionSort
      (fun a b => parseDigits a.1 ≤ parseDigits b.1) ++
    hash.filter fun e => !isIndex e.1

def values (hash : Hash α) : List α := hash.entries.map Prod.snd

theorem entries_perm (hash : Hash α) : hash.entries.Perm hash :=
  ((List.perm_insertionSort _ _).append_right _).trans (List.filter_append_perm _ hash)

theorem set_of_fresh {hash : Hash α} {key : JsString} (fresh : key ∉ hash.map Prod.fst)
    (value : α) : hash.set key value = hash ++ [(key, value)] := if_neg fresh

theorem get_of_mem {hash : Hash α} (distinct : (hash.map Prod.fst).Nodup) {key : JsString}
    {value : α} (inside : (key, value) ∈ hash) : hash.get key = .own value := by
  unfold get
  rw [show pick Prod.fst key hash = some (key, value) from pick_of_mem distinct inside]

theorem get_of_not_mem {hash : Hash α} {key : JsString} (fresh : key ∉ hash.map Prod.fst) :
    hash.get key = if key ∈ objectPrototype then .inherited else .absent := by
  have none : pick Prod.fst key hash = none := by
    apply pick_none_of_fresh
    intro e inside
    rintro rfl
    exact fresh (List.mem_map_of_mem inside)
  simp only [get, none]

theorem get_set (hash : Hash α) (key other : JsString) (value : α) :
    (hash.set key value).get other = if other = key then .own value else hash.get other := by
  unfold get set
  by_cases known : key ∈ hash.map Prod.fst
  · rw [if_pos known, pick_save]
    by_cases same : other = key
    · obtain ⟨row, found⟩ := mem_key_iff.mp known
      rw [if_pos same, if_pos same, same, found]
      rfl
    · rw [if_neg same, if_neg same]
  · have fresh : ∀ old ∈ hash, old.1 ≠ key := by
      rintro old inside rfl
      exact known (List.mem_map_of_mem inside)
    rw [if_neg known, pick_append_fresh fresh]
    by_cases same : other = key
    · rw [if_pos same, if_pos same]
    · rw [if_neg same, if_neg same]

theorem filter_of_fresh {hash : Hash α} {key : JsString} (fresh : key ∉ hash.map Prod.fst) :
    hash.filter (fun e => e.1 ≠ key) = hash := by
  refine List.filter_eq_self.mpr fun e inside => decide_eq_true ?_
  rintro rfl
  exact fresh (List.mem_map_of_mem inside)

theorem perm_cons_filter {hash : Hash α} (distinct : (hash.map Prod.fst).Nodup)
    {key : JsString} {value : α} (inside : (key, value) ∈ hash) :
    hash.Perm ((key, value) :: hash.filter fun e => e.1 ≠ key) := by
  induction hash with
  | nil => cases inside
  | cons e hash ih =>
      rw [List.map_cons, List.nodup_cons] at distinct
      rcases List.mem_cons.mp inside with rfl | later
      · rw [List.filter_cons_of_neg (by simp), filter_of_fresh distinct.1]
      · have other : e.1 ≠ key := by
          rintro rfl
          exact distinct.1 (List.mem_map.mpr ⟨_, later, rfl⟩)
        rw [List.filter_cons_of_pos (by simp [other])]
        exact ((ih distinct.2 later).cons e).trans (List.Perm.swap _ _ _)

/-- An assignment puts one entry in the place of those of its key. -/
theorem set_perm {hash : Hash α} (distinct : (hash.map Prod.fst).Nodup) (key : JsString)
    (value : α) :
    (hash.set key value).Perm ((key, value) :: hash.filter fun e => e.1 ≠ key) := by
  by_cases known : key ∈ hash.map Prod.fst
  · obtain ⟨⟨own, old⟩, inside, same⟩ := List.mem_map.mp known
    obtain rfl : own = key := same
    have others : ∀ e ∈ hash.filter fun e => e.1 ≠ own,
        (if e.1 = own then (own, value) else e) = e := by
      intro e kept
      exact if_neg (of_decide_eq_true (List.mem_filter.mp kept).2)
    have saved := (perm_cons_filter distinct inside).map
      fun e => if e.1 = own then (own, value) else e
    rw [List.map_cons, if_pos rfl, List.map_congr_left others, List.map_id'] at saved
    unfold set
    rw [if_pos known]
    exact saved
  · rw [set_of_fresh known, filter_of_fresh known]
    exact List.perm_append_singleton _ _

theorem set_keys_nodup {hash : Hash α} (distinct : (hash.map Prod.fst).Nodup) (key : JsString)
    (value : α) : ((hash.set key value).map Prod.fst).Nodup := by
  rw [((set_perm distinct key value).map Prod.fst).nodup_iff, List.map_cons, List.nodup_cons]
  refine ⟨?_, distinct.sublist ((List.filter_sublist).map _)⟩
  simp

theorem mem_set {hash : Hash α} (distinct : (hash.map Prod.fst).Nodup) {key : JsString}
    {value : α} {e : JsString × α} (inside : e ∈ hash.set key value) :
    e = (key, value) ∨ e ∈ hash := by
  rcases List.mem_cons.mp ((set_perm distinct key value).mem_iff.mp inside) with new | old
  · exact .inl new
  · exact .inr (List.mem_filter.mp old).1

end Hash
end Js
