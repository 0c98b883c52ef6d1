import Heimdall.Js.Hash

/-!
# lodash

The functions of lodash that the stores and the views call, with what their documentation says
of the calls.
-/
namespace Js

class Lodash where
  difference (array values : List JsString) : List JsString
  /-- The order is that of `array`, whose repetitions stay. -/
  difference_eq (array values : List JsString) :
    difference array values = array.filter fun value => value ∉ values
  pickBy {α : Type} (object : Hash α) (predicate : α → JsString → Bool) : Hash α
  /-- The names that lodash does not set on an object that it makes. -/
  refused : List JsString
  entries_pickBy {α : Type} (object : Hash α) (predicate : α → JsString → Bool) :
    (pickBy object predicate).entries =
      object.entries.filter fun e => predicate e.2 e.1 && decide (e.1 ∉ refused)

namespace Hash
variable {α : Type}

theorem entries_filter (hash : Hash α) (keep : JsString × α → Bool) :
    entries (hash.entries.filter keep) = hash.entries.filter keep := by
  set indices := (hash.filter fun e => isIndex e.1).insertionSort
    (fun a b => parseDigits a.1 ≤ parseDigits b.1) with sorted
  have index : ∀ e ∈ indices, isIndex e.1 = true := fun e inside =>
    (List.mem_filter.mp ((List.perm_insertionSort _ _).mem_iff.mp inside)).2
  have first : ((indices.filter keep).filter fun e => isIndex e.1) = indices.filter keep :=
    List.filter_eq_self.mpr fun e inside => index e (List.mem_filter.mp inside).1
  have none : ((indices.filter keep).filter fun e => !isIndex e.1) = [] := by
    refine List.filter_eq_nil_iff.mpr fun e inside => ?_
    rw [index e (List.mem_filter.mp inside).1]
    exact Bool.false_ne_true
  have others : (((hash.filter fun e => !isIndex e.1).filter keep).filter fun e => isIndex e.1) =
      [] := by
    refine List.filter_eq_nil_iff.mpr fun e inside yes => ?_
    have no := (List.mem_filter.mp (List.mem_filter.mp inside).1).2
    rw [yes] at no
    exact Bool.false_ne_true no
  have rest : (((hash.filter fun e => !isIndex e.1).filter keep).filter fun e => !isIndex e.1) =
      (hash.filter fun e => !isIndex e.1).filter keep :=
    List.filter_eq_self.mpr fun e inside => (List.mem_filter.mp (List.mem_filter.mp inside).1).2
  have order : (indices.filter keep).Pairwise fun a b => parseDigits a.1 ≤ parseDigits b.1 := by
    have ordered : indices.Pairwise fun a b => parseDigits a.1 ≤ parseDigits b.1 :=
      List.pairwise_insertionSort _ _
    exact ordered.sublist List.filter_sublist
  unfold entries
  rw [← sorted, List.filter_append, List.filter_append, List.filter_append, first, none, others,
    rest, List.append_nil, List.nil_append, order.insertionSort_eq]

end Hash

/-- The functions as lodash 4.17.21 has them. -/
@[reducible] def lodash : Lodash where
  difference array values := array.filter fun value => value ∉ values
  difference_eq _ _ := rfl
  refused := [js "__proto__", js "constructor", js "prototype"]
  pickBy object predicate := object.entries.filter fun e => predicate e.2 e.1 &&
    decide (e.1 ∉ [js "__proto__", js "constructor", js "prototype"])
  entries_pickBy object _ := object.entries_filter _

end Js
