import Mathlib.Data.List.Nodup
import Mathlib.Tactic.Common
import Heimdall.Js.Value

/-!
# Writing a value and reading it back

`JSON.parse(JSON.stringify(v))`: properties that are undefined are dropped, what has no text
of its own becomes `null`, and the prototype is forgotten. A value that a parser can build
from an ordinary text comes back as it was. Two values are the same document if they differ
in the order of properties only.
-/
namespace Js

def JsVal.isUndefined : JsVal → Bool
  | .undefined => true
  | _ => false

mutual

/-- `JSON.parse(JSON.stringify(v))`; `undefined` has no text and stays what it is. -/
def JsVal.persist : JsVal → JsVal
  | .num (.infinity _) => .null
  | .arr items => .arr (persistItems items)
  | .obj props _ => .obj (persistProps props) []
  | v => v

def persistItems : List JsVal → List JsVal
  | [] => []
  | v :: vs => (match v with
      | .undefined => .null
      | w => w.persist) :: persistItems vs

def persistProps : List (JsString × JsVal) → List (JsString × JsVal)
  | [] => []
  | (key, v) :: props => match v with
      | .undefined => persistProps props
      | w => (key, w.persist) :: persistProps props

end

/-- A document as a text without overflowing numbers and without `__proto__` gives it. -/
inductive Clean : JsVal → Prop
  | null : Clean .null
  | bool (b : Bool) : Clean (.bool b)
  | num (q : ℚ) : Clean (.num (.finite q))
  | str (s : JsString) : Clean (.str s)
  | arr {items : List JsVal} : (∀ item ∈ items, Clean item) → Clean (.arr items)
  | obj {own : List (JsString × JsVal)} : (own.map Prod.fst).Nodup →
      js "__proto__" ∉ own.map Prod.fst → (∀ entry ∈ own, Clean entry.2) → Clean (.obj own [])

/-- The same document, up to the order of properties. -/
inductive Same : JsVal → JsVal → Prop
  | refl (v : JsVal) : Same v v
  | arr {items items' : List JsVal} (lengths : items.length = items'.length)
      (each : ∀ (i : ℕ) a b, items[i]? = some a → items'[i]? = some b → Same a b) :
      Same (.arr items) (.arr items')
  | obj {own own' : List (JsString × JsVal)} (distinct : (own.map Prod.fst).Nodup)
      (distinct' : (own'.map Prod.fst).Nodup)
      (keys : ∀ key, key ∈ own.map Prod.fst ↔ key ∈ own'.map Prod.fst)
      (each : ∀ key a b, (key, a) ∈ own → (key, b) ∈ own' → Same a b) :
      Same (.obj own []) (.obj own' [])

section Lookup
variable {own : List (JsString × JsVal)} {key : JsString} {v : JsVal}

theorem lookup_none : own.lookup key = none ↔ key ∉ own.map Prod.fst := by
  rw [List.lookup_eq_none_iff]
  simp only [bne_iff_ne, List.mem_map, not_exists, not_and]
  exact ⟨fun apart p here same => apart p here same.symm, fun apart p here same =>
    apart p here same.symm⟩

theorem lookup_some (distinct : (own.map Prod.fst).Nodup) :
    own.lookup key = some v ↔ (key, v) ∈ own := by
  rw [List.lookup_eq_some_iff]
  constructor
  · rintro ⟨before, after, rfl, -⟩
    exact List.mem_append_right _ List.mem_cons_self
  · intro here
    obtain ⟨before, after, rfl⟩ := List.append_of_mem here
    refine ⟨before, after, rfl, fun p first => ?_⟩
    rw [List.map_append, List.nodup_append] at distinct
    rw [bne_iff_ne]
    exact (distinct.2.2 p.1 (List.mem_map_of_mem first) key (by simp)).symm

theorem getOwn_of_mem (distinct : (own.map Prod.fst).Nodup) (proto : List (JsString × JsVal))
    (here : (key, v) ∈ own) : (JsVal.obj own proto).getOwn key = v := by
  rw [JsVal.getOwn, (lookup_some distinct).mpr here]
  rfl

theorem getOwn_of_not_mem (proto : List (JsString × JsVal)) (absent : key ∉ own.map Prod.fst) :
    (JsVal.obj own proto).getOwn key = .undefined := by
  rw [JsVal.getOwn, lookup_none.mpr absent]
  rfl

/-- An own property is one of the entries, or it is undefined. -/
theorem getOwn_cases (distinct : (own.map Prod.fst).Nodup) (proto : List (JsString × JsVal))
    (key : JsString) :
    (key ∉ own.map Prod.fst ∧ (JsVal.obj own proto).getOwn key = .undefined) ∨
      (key, (JsVal.obj own proto).getOwn key) ∈ own := by
  cases found : own.lookup key with
  | none =>
      have absent := lookup_none.mp found
      exact .inl ⟨absent, getOwn_of_not_mem proto absent⟩
  | some v =>
      have here := (lookup_some distinct).mp found
      exact .inr (by rwa [getOwn_of_mem distinct proto here])

end Lookup

/-- The same property of the same document. -/
theorem same_getOwn {own own' : List (JsString × JsVal)} (distinct : (own.map Prod.fst).Nodup)
    (distinct' : (own'.map Prod.fst).Nodup)
    (keys : ∀ key, key ∈ own.map Prod.fst ↔ key ∈ own'.map Prod.fst)
    (each : ∀ key a b, (key, a) ∈ own → (key, b) ∈ own' → Same a b) (key : JsString) :
    Same ((JsVal.obj own []).getOwn key) ((JsVal.obj own' []).getOwn key) := by
  rcases getOwn_cases distinct [] key with ⟨absent, none⟩ | here
  · rw [none, getOwn_of_not_mem [] fun there => absent ((keys key).mpr there)]
    exact .refl _
  · rcases getOwn_cases distinct' [] key with ⟨absent, -⟩ | there
    · exact absurd ((keys key).mp (List.mem_map_of_mem here)) absent
    · exact each key _ _ here there

theorem Same.symm {v w : JsVal} (same : Same v w) : Same w v := by
  induction same with
  | refl v => exact .refl v
  | arr lengths each ih => exact .arr lengths.symm fun i a b ha hb => ih i b a hb ha
  | obj distinct distinct' keys each ih =>
      exact .obj distinct' distinct (fun key => (keys key).symm) fun key a b ha hb =>
        ih key b a hb ha

@[simp] theorem JsVal.isUndefined_iff {v : JsVal} : v.isUndefined = true ↔ v = .undefined := by
  cases v <;> simp [JsVal.isUndefined]

theorem Clean.defined {v : JsVal} (clean : Clean v) : v.isUndefined = false := by
  cases clean <;> rfl

theorem persistItems_defined : ∀ {items : List JsVal},
    (∀ item ∈ items, item.isUndefined = false) → persistItems items = items.map JsVal.persist
  | [], _ => rfl
  | v :: vs, defined => by
      have rest := persistItems_defined fun item here => defined item (List.mem_cons_of_mem v here)
      have first := defined v List.mem_cons_self
      cases v with
      | undefined => cases first
      | _ => exact congrArg (List.cons _) rest

theorem persistProps_eq : ∀ props : List (JsString × JsVal),
    persistProps props = (props.filter fun p => !p.2.isUndefined).map fun p => (p.1, p.2.persist)
  | [] => rfl
  | (key, v) :: props => by
      have rest := persistProps_eq props
      cases v with
      | undefined => exact rest
      | _ => exact congrArg (List.cons _) rest

theorem keys_persistProps_sublist (props : List (JsString × JsVal)) :
    ((persistProps props).map Prod.fst).Sublist (props.map Prod.fst) := by
  rw [persistProps_eq, List.map_map]
  exact List.filter_sublist.map _

theorem persistProps_defined {props : List (JsString × JsVal)}
    (defined : ∀ p ∈ props, p.2.isUndefined = false) :
    persistProps props = props.map fun p => (p.1, p.2.persist) := by
  have all : props.filter (fun p => !p.2.isUndefined) = props :=
    List.filter_eq_self.mpr fun p here => by rw [defined p here]; rfl
  rw [persistProps_eq, all]

/-- Nothing of a clean document is lost. -/
theorem Clean.persist {v : JsVal} (clean : Clean v) : v.persist = v := by
  induction clean with
  | null => rfl
  | bool b => rfl
  | num q => rfl
  | str s => rfl
  | @arr items each ih =>
      have same : items.map JsVal.persist = items := by
        conv_rhs => rw [← List.map_id items]
        exact List.map_congr_left ih
      rw [JsVal.persist, persistItems_defined fun item here => (each item here).defined, same]
  | @obj own distinct ordinary each ih =>
      have same : (own.map fun p => (p.1, p.2.persist)) = own := by
        conv_rhs => rw [← List.map_id own]
        exact List.map_congr_left fun p here => by rw [ih p here]; rfl
      rw [JsVal.persist, persistProps_defined fun p here => (each p here).defined, same]

theorem mem_persistProps {props : List (JsString × JsVal)} {key : JsString} {v : JsVal} :
    (key, v) ∈ persistProps props ↔
      ∃ w, (key, w) ∈ props ∧ w.isUndefined = false ∧ v = w.persist := by
  rw [persistProps_eq, List.mem_map]
  constructor
  · rintro ⟨p, kept, same⟩
    obtain ⟨here, defined⟩ := List.mem_filter.mp kept
    obtain ⟨rfl, rfl⟩ := Prod.mk.inj same
    exact ⟨p.2, here, by simpa using defined, rfl⟩
  · rintro ⟨w, here, defined, rfl⟩
    exact ⟨(key, w), List.mem_filter.mpr ⟨here, by simpa using defined⟩, rfl⟩

theorem persist_undefined {v : JsVal} (none : v.isUndefined = true) : v.persist = .undefined := by
  rw [JsVal.isUndefined_iff.mp none]
  rfl

/-- A property that is read back is the property that was written. -/
theorem getOwn_persistProps {props : List (JsString × JsVal)}
    (distinct : (props.map Prod.fst).Nodup) {key : JsString} {v : JsVal} (here : (key, v) ∈ props) :
    (JsVal.obj (persistProps props) []).getOwn key = v.persist := by
  have distinct' := distinct.sublist (keys_persistProps_sublist props)
  cases none : v.isUndefined with
  | false => exact getOwn_of_mem distinct' [] (mem_persistProps.mpr ⟨v, here, none, rfl⟩)
  | true =>
      rw [persist_undefined none]
      refine getOwn_of_not_mem [] fun there => ?_
      obtain ⟨⟨name, w⟩, entry, named⟩ := List.mem_map.mp there
      obtain rfl : name = key := named
      obtain ⟨x, inside, defined, -⟩ := mem_persistProps.mp entry
      have same : x = v := by
        rw [← getOwn_of_mem distinct [] inside, getOwn_of_mem distinct [] here]
      rw [same, none] at defined
      cases defined

end Js
