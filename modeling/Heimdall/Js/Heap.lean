import Mathlib.Data.List.Forall2
import Heimdall.Js.Decimal
import Heimdall.Js.Hash

/-!
# Objects in memory

A value of the JSON kind lies in a heap of cells: an array or an object is a reference, and
two references may lead to one cell. `Holds` reads a slot as the tree that `JSON.stringify`
would walk; a write to a cell changes what is read through it and nothing else.
-/
namespace Js
open Lib

inductive Atom where
  | null
  | bool (b : Bool)
  | num (n : JsNumber)
  | str (s : JsString)

def Atom.value : Atom → JsVal
  | .null => .null
  | .bool b => .bool b
  | .num n => .num n
  | .str s => .str s

inductive Slot where
  | atom (a : Atom)
  | ref (r : ℕ)

/-- An array or an object with its own properties; those of an array are its indices. -/
structure Cell where
  isArray : Bool
  props : Hash Slot
  indexed : isArray = true → props.map Prod.fst = (List.range props.length).map decimal

abbrev Heap := List Cell

def Cell.build (cell : Cell) (values : List (JsString × JsVal)) : JsVal :=
  if cell.isArray then .arr (values.map Prod.snd) else .object values

/-- `Object.keys(cell)` -/
def Cell.keys (cell : Cell) : List JsString := cell.props.entries.map Prod.fst

/-- `cell[key] = slot` for an own key. -/
def Cell.assign (cell : Cell) (key : JsString) (slot : Slot) : Cell where
  isArray := cell.isArray
  props := save Prod.fst (key, slot) cell.props
  indexed array := by
    rw [map_key_save, cell.indexed array, save, List.length_map]

/-- The slot holds a finite tree with this value. -/
inductive Holds (h : Heap) : Slot → JsVal → Prop where
  | atom (a : Atom) : Holds h (.atom a) a.value
  | ref (r : ℕ) (cell : Cell) (values : List (JsString × JsVal)) (here : h[r]? = some cell)
      (keys : cell.props.map Prod.fst = values.map Prod.fst)
      (slots : List.Forall₂ (Holds h) (cell.props.map Prod.snd) (values.map Prod.snd)) :
      Holds h (.ref r) (cell.build values)

/-- A property of a cell and the entry that it is read as. -/
def Entry (R : Slot → JsVal → Prop) (p : JsString × Slot) (q : JsString × JsVal) : Prop :=
  p.1 = q.1 ∧ R p.2 q.2

theorem forall₂_entry {R : Slot → JsVal → Prop} {props : List (JsString × Slot)}
    {values : List (JsString × JsVal)} : List.Forall₂ (Entry R) props values ↔
      props.map Prod.fst = values.map Prod.fst ∧
        List.Forall₂ R (props.map Prod.snd) (values.map Prod.snd) := by
  constructor
  · intro entries
    induction entries with
    | nil => exact ⟨rfl, .nil⟩
    | cons here _ ih =>
        obtain ⟨same, holds⟩ := here
        exact ⟨by simp [same, ih.1], .cons holds ih.2⟩
  · rintro ⟨keys, slots⟩
    induction props generalizing values with
    | nil =>
        cases values with
        | nil => exact .nil
        | cons q values => cases keys
    | cons p props ih =>
        cases values with
        | nil => cases keys
        | cons q values =>
            obtain ⟨same, keys⟩ := List.cons.inj keys
            cases slots with
            | cons holds slots => exact .cons ⟨same, holds⟩ (ih keys slots)

theorem forall₂_mem {α β : Type} {R : α → β → Prop} {as : List α} {bs : List β}
    (related : List.Forall₂ R as bs) : List.Forall₂ (fun a b => b ∈ bs ∧ R a b) as bs := by
  induction related with
  | nil => exact .nil
  | cons here _ ih =>
      exact .cons ⟨List.mem_cons_self, here⟩
        (ih.imp fun a b both => ⟨List.mem_cons_of_mem _ both.1, both.2⟩)

namespace Holds
variable {h : Heap}

/-- The induction over the tree, a cell at a time. -/
theorem induct {P : Slot → JsVal → Prop} (atom : ∀ a, P (.atom a) a.value)
    (ref : ∀ r cell values, h[r]? = some cell →
      List.Forall₂ (Entry fun s v => Holds h s v ∧ P s v) cell.props values →
        P (.ref r) (cell.build values))
    {s : Slot} {v : JsVal} (holds : Holds h s v) : P s v := by
  refine @Holds.rec h (fun s v _ => P s v)
    (fun slots values _ => List.Forall₂ (fun s v => Holds h s v ∧ P s v) slots values)
    atom ?_ .nil ?_ s v holds
  · intro r cell values here keys _ slots
    exact ref r cell values here (forall₂_entry.mpr ⟨keys, slots⟩)
  · intro s v slots values here _ now rest
    exact .cons ⟨here, now⟩ rest

theorem ref_iff {r : ℕ} {v : JsVal} : Holds h (.ref r) v ↔ ∃ cell values,
    h[r]? = some cell ∧ List.Forall₂ (Entry (Holds h)) cell.props values ∧
      v = cell.build values := by
  constructor
  · intro holds
    cases holds with
    | ref _ cell values here keys slots =>
        exact ⟨cell, values, here, forall₂_entry.mpr ⟨keys, slots⟩, rfl⟩
  · rintro ⟨cell, values, here, entries, rfl⟩
    obtain ⟨keys, slots⟩ := forall₂_entry.mp entries
    exact .ref r cell values here keys slots

theorem entries_unique {props : List (JsString × Slot)} {values values' : List (JsString × JsVal)}
    (entries : List.Forall₂ (Entry fun s v => ∀ w, Holds h s w → v = w) props values)
    (entries' : List.Forall₂ (Entry (Holds h)) props values') : values = values' := by
  induction entries generalizing values' with
  | nil =>
      cases entries'
      rfl
  | cons first _ ih =>
      cases entries' with
      | cons first' rest =>
          obtain ⟨key, value⟩ := first
          obtain ⟨key', value'⟩ := first'
          exact congrArg₂ _ (Prod.ext (key.symm.trans key') (value _ value')) (ih rest)

theorem unique {s : Slot} {v w : JsVal} (holds : Holds h s v) (other : Holds h s w) : v = w := by
  revert w
  refine induct (P := fun s v => ∀ {w}, Holds h s w → v = w) ?_ ?_ holds
  · intro a w other
    cases other
    rfl
  · intro r cell values here entries w other
    obtain ⟨cell', values', here', entries', rfl⟩ := ref_iff.mp other
    cases here.symm.trans here'
    rw [entries_unique (entries.imp fun p q e => ⟨e.1, fun w => e.2.2⟩) entries']

theorem sizeOf_build_lt {cell : Cell} {values : List (JsString × JsVal)} {q : JsString × JsVal}
    (hq : q ∈ values) : sizeOf q.2 < sizeOf (cell.build values) := by
  unfold Cell.build JsVal.object
  split
  · have inside : sizeOf q.2 < sizeOf (values.map Prod.snd) :=
      List.sizeOf_lt_of_mem (List.mem_map_of_mem hq)
    simp only [JsVal.arr.sizeOf_spec]
    omega
  · have inside := List.sizeOf_lt_of_mem hq
    have part : sizeOf q = 1 + sizeOf q.1 + sizeOf q.2 := rfl
    simp only [JsVal.obj.sizeOf_spec]
    omega

/-- What is read depends only on the cells that are read: those that hold a part of it. -/
theorem frame {h' : Heap} {s : Slot} {v : JsVal} (holds : Holds h s v)
    (kept : ∀ r w, Holds h (.ref r) w → sizeOf w ≤ sizeOf v → h'[r]? = h[r]?) : Holds h' s v := by
  revert kept
  refine induct (P := fun s v => (∀ r w, Holds h (.ref r) w → sizeOf w ≤ sizeOf v →
    h'[r]? = h[r]?) → Holds h' s v) (fun a _ => .atom a) ?_ holds
  intro r cell values here entries kept
  have now : Holds h (.ref r) (cell.build values) :=
    ref_iff.mpr ⟨cell, values, here, entries.imp fun p q e => ⟨e.1, e.2.1⟩, rfl⟩
  refine ref_iff.mpr ⟨cell, values, (kept r _ now le_rfl).trans here, ?_, rfl⟩
  refine (forall₂_mem entries).imp fun p q e => ⟨e.2.1, e.2.2.2 fun r w inner small => ?_⟩
  exact kept r w inner (small.trans (sizeOf_build_lt e.1).le)

/-- New cells, and writes to them, do not change what was held. -/
theorem extend {h' : Heap} {s : Slot} {v : JsVal} (holds : Holds h s v)
    (kept : ∀ r < h.length, h'[r]? = h[r]?) : Holds h' s v := by
  refine holds.frame fun r w inner _ => kept r ?_
  obtain ⟨cell, _, here, _⟩ := ref_iff.mp inner
  exact (List.getElem?_eq_some_iff.mp here).1

/-- A finite tree does not contain itself: a write to a cell leaves its parts as they are. -/
theorem set_part {r : ℕ} {cell : Cell} {v w : JsVal} {s : Slot} (whole : Holds h (.ref r) w)
    (part : Holds h s v) (smaller : sizeOf v < sizeOf w) : Holds (h.set r cell) s v := by
  refine part.frame fun q u inner small => List.getElem?_set_ne ?_
  rintro rfl
  have same := whole.unique inner
  subst same
  omega

end Holds

end Js
