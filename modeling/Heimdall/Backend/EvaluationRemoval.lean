import Heimdall.Js.Promises
import Heimdall.Lib.Run
import Heimdall.Backend.Groups

/-!
# Removal of an evaluation

`EvaluationsService.remove` destroys the tags and the evaluation inside one transaction.
What was issued is settled in any order; the callback of the transaction goes on once the
promise that it waits for is settled, and its own promise decides between a commit and a
rollback.
-/
namespace Backend
open Js

structure EvaluationTag where
  id : ℕ
  value : JsString

/-- An evaluation loaded with `include: [EvaluationTag]`. -/
structure TaggedEvaluation where
  evaluation : Evaluation
  evaluationTags : Option (List EvaluationTag)

def TaggedEvaluation.tags (loaded : TaggedEvaluation) : List EvaluationTag :=
  loaded.evaluationTags.getD []

/-- Where the callback stands: at the `await`, ended by an error of the `await`, or at the
promise of `evaluation.destroy` that it returned. -/
inductive Callback where
  | awaiting
  | thrown
  | destroying (evaluation : Promise)

/-- A removal under way, with the promises of the tags' destroys in the order of the tags. -/
structure Removal where
  loaded : TaggedEvaluation
  destroys : List Promise
  callback : Callback

inductive RemovalEvent where
  | tagSettled (i : ℕ) (ok : Bool)
  | resumed
  | evaluationSettled (ok : Bool)

namespace Removal

/-- The promise of the callback: the transaction commits when it is fulfilled and rolls
back when it is rejected. -/
def transaction (s : Removal) : Promise :=
  match s.callback with
  | .awaiting => .pending
  | .thrown => .rejected
  | .destroying evaluation => evaluation

def issued (s : Removal) : Bool :=
  match s.callback with
  | .destroying _ => true
  | _ => false

/-- The rows in the database, outside the transaction. -/
def stored (s : Removal) : Option Evaluation × List EvaluationTag :=
  if s.transaction = .fulfilled then
    (none, (s.loaded.tags.zip s.destroys).filterMap fun (tag, destroy) =>
      if destroy = .fulfilled then none else some tag)
  else (some s.loaded.evaluation, s.loaded.tags)

/-- The callback up to its first wait; without tags to look at it does not wait. -/
def start (loaded : TaggedEvaluation) : Removal :=
  match loaded.evaluationTags with
  | some tags => ⟨loaded, List.replicate tags.length .pending, .awaiting⟩
  | none => ⟨loaded, [], .destroying .pending⟩

variable (elements : List Element)

/-- One event of a removal that waits for `Promise.all(elements)`. -/
def step (s : Removal) : RemovalEvent → Removal
  | .tagSettled i ok => { s with destroys := s.destroys.modify i (Promise.settle ok) }
  | .resumed =>
      match s.callback, promiseAll s.destroys elements with
      | .awaiting, .fulfilled => { s with callback := .destroying .pending }
      | .awaiting, .rejected => { s with callback := .thrown }
      | _, _ => s
  | .evaluationSettled ok =>
      match s.callback with
      | .destroying evaluation => { s with callback := .destroying (evaluation.settle ok) }
      | _ => s

/-- The evaluation goes after its tags, and a tag that fails undoes everything. -/
structure Atomic (s : Removal) : Prop where
  ordered : s.issued = true → ∀ destroy ∈ s.destroys, destroy = .fulfilled
  undone : .rejected ∈ s.destroys → s.transaction ≠ .fulfilled ∧
    (s.step elements .resumed).transaction = .rejected ∧
      s.stored = (some s.loaded.evaluation, s.loaded.tags)

end Removal

namespace EvaluationsService

/-- The argument of `Promise.all`: an array around the array that `map` returns. -/
def destroyTags (loaded : TaggedEvaluation) : List Element :=
  [.array ((List.range loaded.tags.length).map .promise)]

def remove (evaluations : List TaggedEvaluation) (id : ℕ) : Except HttpError Removal := do
  let loaded ← Lib.orThrow (evaluations.find? fun e => e.evaluation.id = id)
    (.notFound "Evaluation with given id not found")
  return Removal.start loaded

end EvaluationsService

namespace Removal
variable {elements : List Element}

def Ordered (s : Removal) : Prop := s.issued = true → ∀ destroy ∈ s.destroys, destroy = .fulfilled

/-- Every destroy of a tag is itself an element that `Promise.all` is given. -/
def Direct (elements : List Element) (s : Removal) : Prop :=
  ∀ i < s.destroys.length, .promise i ∈ elements

theorem start_destroys (loaded : TaggedEvaluation) :
    (start loaded).destroys = List.replicate loaded.tags.length .pending := by
  unfold start TaggedEvaluation.tags
  cases loaded.evaluationTags <;> rfl

theorem start_ordered (loaded : TaggedEvaluation) : (start loaded).Ordered := by
  intro issued destroy here
  unfold start at issued here
  cases tags : loaded.evaluationTags with
  | none => simp [tags] at here
  | some tags' => simp [tags, Removal.issued] at issued

theorem step_length (s : Removal) (e : RemovalEvent) :
    (s.step elements e).destroys.length = s.destroys.length := by
  cases e with
  | tagSettled i ok => exact List.length_modify _ _ _
  | resumed =>
      simp only [step]
      split <;> rfl
  | evaluationSettled ok =>
      simp only [step]
      split <;> rfl

theorem Direct.fulfilled {s : Removal} (direct : s.Direct elements)
    (done : promiseAll s.destroys elements = .fulfilled) :
    ∀ destroy ∈ s.destroys, destroy = .fulfilled := by
  intro destroy here
  obtain ⟨i, bound, rfl⟩ := List.mem_iff_getElem.mp here
  exact promiseAll_fulfilled.mp done _
    (mem_awaited.mpr ⟨i, direct i bound, List.getElem?_eq_getElem bound⟩)

theorem Direct.rejected {s : Removal} (direct : s.Direct elements)
    (failed : .rejected ∈ s.destroys) : promiseAll s.destroys elements = .rejected := by
  obtain ⟨i, bound, found⟩ := List.mem_iff_getElem.mp failed
  refine promiseAll_rejected (mem_awaited.mpr ⟨i, direct i bound, ?_⟩)
  rw [List.getElem?_eq_getElem bound, found]

/-- A settled promise stays as it is, so later outcomes of the tags cannot undo the order;
the callback goes on only when all of them are fulfilled. -/
theorem step_ordered {s : Removal} (direct : s.Direct elements) (ordered : s.Ordered)
    (e : RemovalEvent) : (s.step elements e).Ordered := by
  cases e with
  | tagSettled i ok =>
      intro issued destroy here
      obtain ⟨j, bound, rfl⟩ := List.mem_iff_getElem.mp here
      have before := ordered issued
      simp only [step, List.length_modify] at bound
      simp only [step, List.getElem_modify]
      have now := before _ (List.getElem_mem bound)
      split
      · rw [now, Promise.settle_fulfilled]
      · exact now
  | resumed =>
      simp only [step]
      split
      · rename_i done
        exact fun _ => direct.fulfilled done
      · exact fun issued => by cases issued
      · exact ordered
  | evaluationSettled ok =>
      simp only [step]
      split
      · rename_i destroy here
        exact fun _ => ordered (by simp [issued, here])
      · exact ordered

theorem Ordered.atomic {s : Removal} (direct : s.Direct elements) (ordered : s.Ordered) :
    s.Atomic elements := by
  refine ⟨ordered, fun failed => ?_⟩
  have all := direct.rejected failed
  cases here : s.callback with
  | awaiting => simp [transaction, stored, step, here, all]
  | thrown => simp [transaction, stored, step, here]
  | destroying evaluation =>
      have issued : s.issued = true := by simp [issued, here]
      cases ordered issued _ failed

def settleAll (is : List ℕ) : List RemovalEvent := is.map fun i => .tagSettled i true

theorem settle_twice (destroy : Promise) :
    (destroy.settle true).settle true = destroy.settle true := by
  cases destroy <;> rfl

theorem run_settleAll (s : Removal) (is : List ℕ) :
    (Lib.run (step elements) s (settleAll is)).callback = s.callback ∧
      ∀ j, (Lib.run (step elements) s (settleAll is)).destroys[j]? =
        s.destroys[j]?.map fun destroy => if j ∈ is then destroy.settle true else destroy := by
  induction is generalizing s with
  | nil => simp [Lib.run, settleAll]
  | cons i is ih =>
      obtain ⟨callback, destroys⟩ := ih (s.step elements (.tagSettled i true))
      refine ⟨callback, fun j => ?_⟩
      rw [settleAll, List.map_cons, Lib.run, List.foldl_cons, ← Lib.run, ← settleAll, destroys j]
      simp only [step, List.getElem?_modify, Option.map_eq_map, Option.map_map, List.mem_cons]
      congr 1
      funext destroy
      by_cases same : i = j
      · subst same
        by_cases again : i ∈ is <;> simp [again, settle_twice]
      · have other : ¬j = i := fun h => same h.symm
        simp [same, other]

def others (i n : ℕ) : List ℕ := (List.range n).filter fun j => decide (j ≠ i)

@[simp] theorem mem_others {i n j : ℕ} : j ∈ others i n ↔ j < n ∧ j ≠ i := by simp [others]

/-- Once the others are fulfilled, a callback that does not wait for this tag goes on. -/
theorem others_go_on {s : Removal} (awaiting : s.callback = .awaiting)
    (pending : ∀ destroy ∈ s.destroys, destroy = .pending) {i : ℕ}
    (bound : i < s.destroys.length) (missing : .promise i ∉ elements) :
    ¬ ((Lib.run (step elements) s (settleAll (others i s.destroys.length))).step elements
      .resumed).Ordered := by
  obtain ⟨callback, destroys⟩ := @run_settleAll elements s (others i s.destroys.length)
  generalize Lib.run (step elements) s (settleAll (others i s.destroys.length)) = t
    at callback destroys ⊢
  have done : promiseAll t.destroys elements = .fulfilled := by
    refine promiseAll_fulfilled.mpr fun destroy waited => ?_
    obtain ⟨j, given, found⟩ := mem_awaited.mp waited
    rw [destroys j, Option.map_eq_some_iff] at found
    obtain ⟨before, was, rfl⟩ := found
    obtain ⟨inside, -⟩ := List.getElem?_eq_some_iff.mp was
    have other : j ≠ i := fun same => missing (same ▸ given)
    rw [pending before (List.mem_of_getElem? was), if_pos (mem_others.mpr ⟨inside, other⟩)]
    rfl
  have left : t.destroys[i]? = some .pending := by
    rw [destroys i, List.getElem?_eq_getElem bound, pending _ (List.getElem_mem bound)]
    simp
  have next : t.step elements .resumed = { t with callback := .destroying .pending } := by
    simp [step, callback.trans awaiting, done]
  intro ordered
  rw [next] at ordered
  cases ordered rfl _ (List.mem_of_getElem? left)

theorem throughout_atomic {s : Removal} (direct : s.Direct elements) (ordered : s.Ordered)
    (events : List RemovalEvent) : Lib.Throughout (step elements) (Atomic elements) s events := by
  refine Lib.Throughout.of_invariant (A := fun s => s.Direct elements ∧ s.Ordered)
    (D := fun _ _ => True) ?_ (fun _ inv => inv.2.atomic inv.1) ⟨direct, ordered⟩
    (Lib.along_of_step (fun _ _ => trivial) _ _)
  rintro now e ⟨direct, ordered⟩ -
  refine ⟨fun i bound => direct i ?_, step_ordered direct ordered e⟩
  rwa [step_length] at bound

/-- A callback that waits is atomic in all runs exactly if it waits for every tag itself. -/
theorem throughout_atomic_iff {s : Removal} (awaiting : s.callback = .awaiting)
    (pending : ∀ destroy ∈ s.destroys, destroy = .pending) :
    (∀ events, Lib.Throughout (step elements) (Atomic elements) s events) ↔
      s.Direct elements := by
  constructor
  · intro every i bound
    by_contra missing
    have last := (every (settleAll (others i s.destroys.length) ++ [.resumed])).last
    rw [Lib.run, List.foldl_append] at last
    exact others_go_on awaiting pending bound missing last.ordered
  · intro direct events
    have start : s.Ordered := fun issued => by simp [Removal.issued, awaiting] at issued
    exact throughout_atomic direct start events

end Removal

namespace EvaluationsService

theorem remove_ok {evaluations : List TaggedEvaluation} {id : ℕ} {s : Removal} :
    remove evaluations id = .ok s ↔
      ∃ loaded, evaluations.find? (fun e => e.evaluation.id = id) = some loaded ∧
        s = Removal.start loaded := by
  simp only [remove, Lib.do_eq_ok, Lib.orThrow_eq_ok, Lib.pure_eq_ok]

/-- The callback goes on whatever became of the tags. -/
theorem resumed_at_once (loaded : TaggedEvaluation) {s : Removal}
    (awaiting : s.callback = .awaiting) :
    (s.step (destroyTags loaded) .resumed).callback = .destroying .pending := by
  have done : promiseAll s.destroys (destroyTags loaded) = .fulfilled := promiseAll_array _ _
  simp [Removal.step, awaiting, done]

/-- The promises of the tags lie in an inner array, so nothing is waited for. -/
theorem remove_atomic_iff (loaded : TaggedEvaluation) :
    (∀ events, Lib.Throughout (Removal.step (destroyTags loaded))
      (Removal.Atomic (destroyTags loaded)) (Removal.start loaded) events) ↔
      loaded.tags = [] := by
  have destroys := Removal.start_destroys loaded
  constructor
  · intro every
    by_contra some
    have awaiting : (Removal.start loaded).callback = .awaiting := by
      cases tags : loaded.evaluationTags with
      | none => simp [TaggedEvaluation.tags, tags] at some
      | some tags' => simp [Removal.start, tags]
    have pending : ∀ destroy ∈ (Removal.start loaded).destroys, destroy = .pending := by
      rw [destroys]
      exact fun _ => List.eq_of_mem_replicate
    have direct := (Removal.throughout_atomic_iff awaiting pending).mp every
    have first := direct 0 (by simpa [destroys] using List.length_pos_iff.mpr some)
    rcases List.mem_singleton.mp first with ⟨⟩
  · intro none
    refine Removal.throughout_atomic (fun i bound => ?_) (Removal.start_ordered loaded)
    simp [destroys, none] at bound

def taggedEvaluation : TaggedEvaluation :=
  ⟨⟨1, js "rhel8.json", .null, false, none⟩, some [⟨1, js "nightly"⟩]⟩

/-- The destroy of the evaluation is issued while that of its only tag is pending. -/
theorem remove_overtakes_tag :
    (remove [taggedEvaluation] 1).toOption = some (Removal.start taggedEvaluation) ∧
      ¬ Lib.Throughout (Removal.step (destroyTags taggedEvaluation))
        (Removal.Atomic (destroyTags taggedEvaluation)) (Removal.start taggedEvaluation)
        [.resumed] := by
  refine ⟨rfl, fun throughout => ?_⟩
  have early := throughout.last.ordered rfl .pending (by decide)
  cases early

end EvaluationsService

end Backend
