import Mathlib.Data.List.Basic

/-!
# Promises

A promise is settled once. `Promise.all` waits for the elements of its iterable that are
promises themselves; any other element, an array of promises too, counts as fulfilled.
-/
namespace Js

inductive Promise where
  | pending
  | fulfilled
  | rejected
  deriving DecidableEq

/-- What becomes of a promise when its work ends. -/
def Promise.settle (ok : Bool) : Promise → Promise
  | .pending => if ok then .fulfilled else .rejected
  | settled => settled

/-- An element of an iterable; promises are known by their numbers. -/
inductive Element where
  | promise (i : ℕ)
  | array (elements : List Element)

def Element.awaited : Element → Option ℕ
  | .promise i => some i
  | .array _ => none

/-- The promises that `Promise.all` waits for. -/
def awaited (promises : List Promise) (elements : List Element) : List Promise :=
  elements.filterMap fun e => e.awaited.bind fun i => promises[i]?

/-- `Promise.all(elements)` -/
def promiseAll (promises : List Promise) (elements : List Element) : Promise :=
  if .rejected ∈ awaited promises elements then .rejected
  else if ∀ p ∈ awaited promises elements, p = .fulfilled then .fulfilled
  else .pending

@[simp] theorem Promise.settle_fulfilled (ok : Bool) : fulfilled.settle ok = fulfilled := rfl

theorem mem_awaited {promises : List Promise} {elements : List Element} {p : Promise} :
    p ∈ awaited promises elements ↔ ∃ i, .promise i ∈ elements ∧ promises[i]? = some p := by
  simp only [awaited, List.mem_filterMap, Option.bind_eq_some_iff]
  constructor
  · rintro ⟨e, he, i, this, found⟩
    cases e with
    | promise j =>
        cases this
        exact ⟨i, he, found⟩
    | array elements => cases this
  · rintro ⟨i, hi, found⟩
    exact ⟨.promise i, hi, i, rfl, found⟩

theorem promiseAll_fulfilled {promises : List Promise} {elements : List Element} :
    promiseAll promises elements = .fulfilled ↔
      ∀ p ∈ awaited promises elements, p = .fulfilled := by
  unfold promiseAll
  split
  · rename_i failed
    exact iff_of_false (by decide) fun every => by cases every _ failed
  · split
    · rename_i every
      exact iff_of_true rfl every
    · rename_i some
      exact iff_of_false (by decide) some

theorem promiseAll_rejected {promises : List Promise} {elements : List Element}
    (failed : .rejected ∈ awaited promises elements) :
    promiseAll promises elements = .rejected := if_pos failed

/-- An array of promises is no promise: nothing inside it is waited for. -/
theorem promiseAll_array (promises : List Promise) (elements : List Element) :
    promiseAll promises [.array elements] = .fulfilled := by
  refine promiseAll_fulfilled.mpr fun p hp => ?_
  obtain ⟨i, hi, -⟩ := mem_awaited.mp hp
  rcases List.mem_singleton.mp hi with ⟨⟩

end Js
