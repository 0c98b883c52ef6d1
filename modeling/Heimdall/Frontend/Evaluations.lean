import Mathlib.Data.List.Perm.Subperm
import Heimdall.Js.Lodash
import Heimdall.Lib.Run
import Heimdall.Frontend.ReportIntake

/-!
# Loading evaluations from the database

Calls of `load_results` whose fetches and loads interleave. A call filters its ids against
what is loaded when it starts; nothing is checked when an answer arrives.
-/
namespace Frontend
open Js Lib Inspec

/-- The answer of the server. -/
structure IEvaluation where
  id : JsString
  filename : JsString
  data : JsVal

/-- The call of `loadText`; the text is `JSON.stringify(evaluation.data)`. -/
def IEvaluation.options (evaluation : IEvaluation) : TextLoadOptions where
  filename := evaluation.filename
  database_id := some evaluation.id
  text := some evaluation.data

inductive Request where
  /-- The answer of the server has not come. -/
  | fetching (id : JsString)
  /-- The answer has come and waits to be loaded. -/
  | fetched (evaluation : IEvaluation)

/-- The calls that were not made yet, and the requests of those that were. -/
structure Session where
  store : Store
  waiting : List (List JsString)
  flight : List Request

inductive Event where
  | start (call : ℕ)
  | respond (request : ℕ) (ok : Bool)
  | load (request : ℕ) (fileID : FileID)

namespace Session
variable [UnicodeTables] [Lodash] (fetch : JsString → Option IEvaluation)

/-- A call of `load_results`, up to the requests that it sends. -/
def load_results (s : Session) (evaluationIds : List JsString) : Session :=
  { s with flight := s.flight ++
      (Lodash.difference evaluationIds s.store.loadedDatabaseIds).map .fetching }

def step (s : Session) : Event → Session
  | .start call =>
      match s.waiting[call]? with
      | some evaluationIds =>
          { s.load_results evaluationIds with waiting := s.waiting.eraseIdx call }
      | none => s
  | .respond request ok =>
      match s.flight[request]? with
      | some (.fetching id) =>
          match if ok then fetch id else none with
          | some evaluation => { s with flight := s.flight.set request (.fetched evaluation) }
          -- A failure is shown to the user, and the request is over.
          | none => { s with flight := s.flight.eraseIdx request }
      | _ => s
  | .load request fileID =>
      match s.flight[request]? with
      | some (.fetched evaluation) =>
          { s with
            store := s.store.step (.loadText fileID evaluation.options)
            flight := s.flight.eraseIdx request }
      | _ => s

end Session

section Ids

def Store.databaseIds (s : Store) : List JsString :=
  (s.executionFiles ++ s.profileFiles).filterMap fun file => s.files[file]?.bind (·.database_id)

theorem Store.mem_loadedDatabaseIds {s : Store} {id : JsString} :
    id ∈ s.loadedDatabaseIds ↔ id ∈ s.databaseIds ∧ id ≠ [] := by
  simp only [loadedDatabaseIds, databaseIds, List.mem_filterMap, Option.filter_eq_some_iff]
  constructor
  · rintro ⟨file, inside, held, nonempty⟩
    exact ⟨⟨file, inside, held⟩, by simpa using nonempty⟩
  · rintro ⟨⟨file, inside, held⟩, nonempty⟩
    exact ⟨file, inside, held, by simpa using nonempty⟩

variable [UnicodeTables]

/-- The database id that comes into the store when an answer is loaded. -/
def IEvaluation.accepted (evaluation : IEvaluation) : Option JsString :=
  match convertFile (some evaluation.data) with
  | .execJson exec =>
      match contextualizeEvaluation 0 exec with
      | .ok _ => some evaluation.id
      | .error _ => none
  | _ => none

/-- The database id that a request may bring into the store. -/
def Request.pending (fetch : JsString → Option IEvaluation) : Request → Option JsString
  | .fetching id => (fetch id).bind (·.accepted)
  | .fetched evaluation => evaluation.accepted

end Ids

section Loading
variable {s : Store}

theorem databaseIds_concat (valid : s.Valid) {file : FileObject} {s' : Store}
    (files : s'.files = s.files ++ [file])
    (loaded : (s'.executionFiles ++ s'.profileFiles).Perm
      (s.files.length :: (s.executionFiles ++ s.profileFiles))) :
    s'.databaseIds.Perm (file.database_id.toList ++ s.databaseIds) := by
  have old : (s.executionFiles ++ s.profileFiles).filterMap
      (fun f => s'.files[f]?.bind (·.database_id)) = s.databaseIds := by
    apply List.filterMap_congr
    intro f inside
    have bound : f < s.files.length := by
      rcases List.mem_append.mp inside with evaluation | profile
      · exact valid.executionFiles f evaluation
      · exact valid.profileFiles f profile
    rw [files, List.getElem?_append_left bound]
  have new : s'.files[s.files.length]? = some file := by
    rw [files, List.getElem?_concat_length]
  refine (loaded.filterMap _).trans (List.Perm.of_eq ?_)
  rw [List.filterMap_cons, old, new, Option.bind_some]
  cases file.database_id <;> rfl

theorem databaseIds_toggle (fileID : FileID) :
    (s.toggle_evaluation fileID).databaseIds = s.databaseIds ∧
      (s.toggle_profile fileID).databaseIds = s.databaseIds := by
  unfold Store.toggle_evaluation Store.toggle_profile
  constructor <;> split <;> rfl

variable [UnicodeTables]

theorem accepted_of_convertFile {evaluation : IEvaluation} {exec : ExecJSON} {r : Ref}
    {context : ContextualizedEvaluation}
    (converted : convertFile (some evaluation.data) = .execJson exec)
    (returned : contextualizeEvaluation r exec = .ok context) :
    evaluation.accepted = some evaluation.id := by
  obtain ⟨other, first⟩ := (contextualizeEvaluation_returns_any r 0 exec).mp ⟨context, returned⟩
  simp only [IEvaluation.accepted, converted, first]

theorem accepted_of_error {evaluation : IEvaluation} {fileID : FileID} {e : JsError}
    (failed : s.loadText fileID evaluation.options = .error e) : evaluation.accepted = none := by
  unfold IEvaluation.accepted
  split
  next exec converted =>
      split
      next context returned =>
          obtain ⟨other, here⟩ :=
            (contextualizeEvaluation_returns_any 0 s.evaluations.length exec).mp
              ⟨context, returned⟩
          have done := (@Store.loadText_eq_ok _ s _ fileID evaluation.options).mpr
            (.inl ⟨exec, other, converted, here, rfl⟩)
          rw [failed] at done
          cases done
      next => rfl
  next => rfl

/-- Loading an answer brings in the id of an accepted evaluation, and nothing else. -/
theorem loadText_accepted (valid : s.Valid) (fileID : FileID) (evaluation : IEvaluation) :
    (s.step (.loadText fileID evaluation.options)).databaseIds.Perm
      (evaluation.accepted.toList ++ s.databaseIds) := by
  unfold Store.step
  cases done : s.perform (.loadText fileID evaluation.options) with
  | error e =>
      rw [accepted_of_error done]
      exact .refl _
  | ok s' =>
      rcases Store.loadText_eq_ok.mp done with ⟨exec, context, converted, returned, rfl⟩ |
        ⟨profileJson, graph, converted, -, rfl⟩
      · rw [accepted_of_convertFile converted returned, (databaseIds_toggle fileID).1]
        refine @databaseIds_concat s valid ⟨fileID, _, some evaluation.id, _, none⟩ _ rfl ?_
        change ((s.executionFiles ++ [s.files.length]) ++ s.profileFiles).Perm _
        rw [List.append_assoc]
        exact List.perm_middle
      · have profile : evaluation.accepted = none := by
          simp only [IEvaluation.accepted,
            show convertFile (some evaluation.data) = _ from converted]
        rw [profile, (databaseIds_toggle fileID).2]
        refine @databaseIds_concat s valid ⟨fileID, _, none, none, _⟩ _ rfl ?_
        change (s.executionFiles ++ (s.profileFiles ++ [s.files.length])).Perm _
        rw [← List.append_assoc]
        exact List.perm_append_singleton _ _

end Loading

def Store.unloaded (s : Store) (evaluationIds : List JsString) : List JsString :=
  evaluationIds.filter fun id => id ∉ s.loadedDatabaseIds

theorem Store.unloaded_append (s : Store) (xs ys : List JsString) :
    s.unloaded (xs ++ ys) = s.unloaded xs ++ s.unloaded ys := List.filter_append ..

theorem difference_loaded [Lodash] (s : Store) (evaluationIds : List JsString) :
    Lodash.difference evaluationIds s.loadedDatabaseIds = s.unloaded evaluationIds :=
  Lodash.difference_eq ..

namespace Session
variable [UnicodeTables] {fetch : JsString → Option IEvaluation}

section Total
variable (fetch)

/-- The ids that the requests of a call could bring in. -/
def resolve (ids : List JsString) : List JsString :=
  ids.filterMap fun id => (Request.fetching id).pending fetch

/-- The ids that are loaded, on their way, or asked for by a call that was not made yet. -/
def total (s : Session) : List JsString :=
  s.store.databaseIds ++ (s.flight.filterMap (·.pending fetch) ++
    resolve fetch (s.store.unloaded s.waiting.flatten))

end Total

theorem resolve_append (xs ys : List JsString) :
    resolve fetch (xs ++ ys) = resolve fetch xs ++ resolve fetch ys := List.filterMap_append

theorem pending_fetching (ids : List JsString) :
    (ids.map Request.fetching).filterMap (·.pending fetch) = resolve fetch ids := by
  rw [List.filterMap_map]
  rfl

theorem valid_run (ops : List Store.Op) : (run Store.step .initial ops).Valid := by
  have each : ∀ store : Store, store.Valid → (run Store.step store ops).Valid := by
    induction ops with
    | nil => exact fun _ valid => valid
    | cons op ops ih => exact fun store valid => ih (store.step op) (valid.step op)
  exact each _ Store.valid_initial

variable [Lodash]

theorem total_load_results {s : Session} {call : ℕ} {evaluationIds : List JsString}
    (here : s.waiting[call]? = some evaluationIds) :
    (total fetch { s.load_results evaluationIds with
      waiting := s.waiting.eraseIdx call }).Perm (total fetch s) := by
  have waiting : (resolve fetch (s.store.unloaded s.waiting.flatten)).Perm
      (resolve fetch (s.store.unloaded evaluationIds) ++
        resolve fetch (s.store.unloaded (s.waiting.eraseIdx call).flatten)) := by
    rw [← resolve_append, ← Store.unloaded_append]
    exact ((perm_cons_eraseIdx here).flatten.filter _).filterMap _
  unfold total load_results
  apply List.Perm.append_left _
  rw [difference_loaded, List.filterMap_append, pending_fetching, List.append_assoc]
  exact List.Perm.append_left _ waiting.symm

/-- The answer takes the place of its request, and a failed request only loses its id. -/
theorem total_respond {s : Session} {request : ℕ} {id : JsString}
    (here : s.flight[request]? = some (.fetching id)) (ok : Bool) :
    (total fetch (step fetch s (.respond request ok))).Subperm (total fetch s) := by
  have flight := filterMap_perm_cons (f := (·.pending fetch)) (perm_cons_eraseIdx here)
  simp only [step, here]
  cases answer : if ok then fetch id else none with
  | none =>
      refine List.Subperm.append (.refl _) (List.Subperm.append ?_ (.refl _))
      refine List.Subperm.trans ?_ flight.symm.subperm
      exact (List.sublist_append_right _ _).subperm
  | some evaluation =>
      refine List.Subperm.append (.refl _) (List.Subperm.append ?_ (.refl _))
      have fetched : fetch id = some evaluation := by
        cases ok with
        | false => cases answer
        | true => exact answer
      have same : (Request.fetching id).pending fetch = (Request.fetched evaluation).pending fetch := by
        simp only [Request.pending, fetched, Option.bind_some]
      have bound := (List.getElem?_eq_some_iff.mp here).1
      have replaced := filterMap_perm_cons (f := (·.pending fetch))
        (List.set_perm_cons_eraseIdx bound (Request.fetched evaluation))
      rw [← same] at replaced
      exact (replaced.trans flight.symm).subperm

/-- An answer that is loaded moves its id into the store, and later calls ask for less. -/
theorem total_load {s : Session} (valid : s.store.Valid) {request : ℕ}
    {evaluation : IEvaluation} (here : s.flight[request]? = some (.fetched evaluation))
    (fileID : FileID) :
    (total fetch (step fetch s (.load request fileID))).Subperm (total fetch s) := by
  have flight := filterMap_perm_cons (f := (·.pending fetch)) (perm_cons_eraseIdx here)
  have loaded := loadText_accepted valid fileID evaluation
  set store := s.store.step (.loadText fileID evaluation.options)
  have known : ∀ id ∈ s.store.loadedDatabaseIds, id ∈ store.loadedDatabaseIds := by
    intro id inside
    obtain ⟨held, nonempty⟩ := Store.mem_loadedDatabaseIds.mp inside
    exact Store.mem_loadedDatabaseIds.mpr
      ⟨loaded.mem_iff.mpr (List.mem_append_right _ held), nonempty⟩
  have fewer : (store.unloaded s.waiting.flatten).Sublist
      (s.store.unloaded s.waiting.flatten) := by
    apply List.monotone_filter_right _
    intro id absent
    simp only [decide_eq_true_eq] at absent ⊢
    exact fun inside => absent (known id inside)
  simp only [step, here, total]
  refine List.Subperm.trans (List.Subperm.append loaded.subperm
    (List.Subperm.append (.refl _) (fewer.filterMap _).subperm)) ?_
  apply List.Perm.subperm
  rw [← List.append_assoc, ← List.append_assoc]
  apply List.Perm.append_right _
  apply (List.Perm.append_right _ List.perm_append_comm).trans
  rw [List.append_assoc]
  exact List.Perm.append_left _ flight.symm

theorem step_valid {s : Session} (valid : s.store.Valid) (event : Event) :
    (step fetch s event).store.Valid := by
  cases event with
  | start call =>
      simp only [step]
      split <;> exact valid
  | respond request ok =>
      simp only [step]
      split
      · split <;> exact valid
      · exact valid
  | load request fileID =>
      simp only [step]
      split
      · exact valid.step _
      · exact valid

theorem total_step {s : Session} (valid : s.store.Valid) (event : Event) :
    (total fetch (step fetch s event)).Subperm (total fetch s) := by
  cases event with
  | start call =>
      cases here : s.waiting[call]? with
      | none => simp only [step, here, List.Subperm.refl]
      | some evaluationIds =>
          simp only [step, here]
          exact (total_load_results here).subperm
  | respond request ok =>
      cases here : s.flight[request]? with
      | none => simp only [step, here, List.Subperm.refl]
      | some r =>
          cases r with
          | fetching id => exact total_respond here ok
          | fetched evaluation => simp only [step, here, List.Subperm.refl]
  | load request fileID =>
      cases here : s.flight[request]? with
      | none => simp only [step, here, List.Subperm.refl]
      | some r =>
          cases r with
          | fetching id => simp only [step, here, List.Subperm.refl]
          | fetched evaluation => exact total_load valid here fileID

theorem total_run {s : Session} (valid : s.store.Valid) (events : List Event) :
    (total fetch (run (step fetch) s events)).Subperm (total fetch s) := by
  induction events generalizing s with
  | nil => exact .refl _
  | cons event events ih =>
      exact (ih (step_valid valid event)).trans (total_step valid event)

section Schedules

/-- All calls are made before the first answer comes. -/
theorem exists_start_all (store : Store) (waiting : List (List JsString))
    (flight : List Request) :
    ∃ events, run (step fetch) ⟨store, waiting, flight⟩ events =
      ⟨store, [], flight ++ (store.unloaded waiting.flatten).map .fetching⟩ := by
  induction waiting generalizing flight with
  | nil => exact ⟨[], by simp [run, Store.unloaded]⟩
  | cons evaluationIds waiting ih =>
      obtain ⟨events, done⟩ := ih (flight ++ (store.unloaded evaluationIds).map .fetching)
      have started : step fetch ⟨store, evaluationIds :: waiting, flight⟩ (.start 0) =
          ⟨store, waiting, flight ++ (store.unloaded evaluationIds).map .fetching⟩ := by
        rw [← difference_loaded]
        rfl
      refine ⟨.start 0 :: events, ?_⟩
      change run (step fetch) (step fetch _ _) events = _
      rw [started, done, List.flatten_cons, Store.unloaded_append, List.map_append,
        List.append_assoc]

/-- Then every answer comes and is loaded, one after the other. -/
theorem exists_load_all {store : Store} (valid : store.Valid) (flight : List Request) :
    ∃ events, (run (step fetch) ⟨store, [], flight⟩ events).store.databaseIds.Perm
      (flight.filterMap (·.pending fetch) ++ store.databaseIds) := by
  induction flight generalizing store with
  | nil => exact ⟨[], .refl _⟩
  | cons request flight ih =>
      -- An answer that has come is loaded.
      have load : ∀ evaluation : IEvaluation, ∃ events,
          (run (step fetch) ⟨store, [], .fetched evaluation :: flight⟩ events).store.databaseIds.Perm
            ((Request.fetched evaluation :: flight).filterMap (·.pending fetch) ++
              store.databaseIds) := by
        intro evaluation
        obtain ⟨events, done⟩ := ih (valid.step (.loadText [] evaluation.options))
        refine ⟨.load 0 [] :: events, done.trans ?_⟩
        have loaded := loadText_accepted valid [] evaluation
        have first := filterMap_perm_cons (f := (·.pending fetch))
          (.refl (Request.fetched evaluation :: flight))
        apply (List.Perm.append_left _ loaded).trans
        rw [← List.append_assoc]
        exact List.Perm.append_right _ (List.perm_append_comm.trans first.symm)
      cases request with
      | fetched evaluation => exact load evaluation
      | fetching id =>
          cases answer : fetch id with
          | none =>
              obtain ⟨events, done⟩ := ih valid
              have failed : step fetch ⟨store, [], .fetching id :: flight⟩ (.respond 0 true) =
                  ⟨store, [], flight⟩ := by
                simp [step, answer]
              refine ⟨.respond 0 true :: events, ?_⟩
              change (run (step fetch) (step fetch _ _) events).store.databaseIds.Perm _
              rw [failed, List.filterMap_cons_none (by simp [Request.pending, answer])]
              exact done
          | some evaluation =>
              obtain ⟨events, done⟩ := load evaluation
              have fetched : step fetch ⟨store, [], .fetching id :: flight⟩ (.respond 0 true) =
                  ⟨store, [], .fetched evaluation :: flight⟩ := by
                simp [step, answer]
              refine ⟨.respond 0 true :: events, ?_⟩
              change (run (step fetch) (step fetch _ _) events).store.databaseIds.Perm _
              rw [fetched]
              refine done.trans (List.Perm.of_eq ?_)
              simp [List.filterMap_cons, Request.pending, answer]

end Schedules

/-- Whatever was loaded before: no database id is held twice after any schedule of the calls
exactly when the ids that are held and those that the calls can bring in are distinct. -/
theorem load_results_nodup_iff (fetch : JsString → Option IEvaluation) (ops : List Store.Op)
    (calls : List (List JsString)) :
    (∀ events, (run (step fetch) ⟨run Store.step .initial ops, calls, []⟩
        events).store.databaseIds.Nodup) ↔
      ((run Store.step .initial ops).databaseIds ++
        resolve fetch ((run Store.step .initial ops).unloaded calls.flatten)).Nodup := by
  have valid := valid_run ops
  set store := run Store.step .initial ops
  constructor
  · intro always
    obtain ⟨start, started⟩ := @exists_start_all _ fetch _ store calls []
    rw [List.nil_append] at started
    obtain ⟨rest, loaded⟩ := @exists_load_all _ fetch _ _ valid
      ((store.unloaded calls.flatten).map .fetching)
    have distinct := always (start ++ rest)
    unfold run at distinct started loaded
    rw [List.foldl_append, started, loaded.nodup_iff, pending_fetching] at distinct
    exact List.perm_append_comm.nodup_iff.mp distinct
  · intro distinct events
    obtain ⟨part, perm, sub⟩ := @total_run _ fetch _ ⟨store, calls, []⟩ valid events
    exact (List.nodup_append.mp (perm.nodup_iff.mp (distinct.sublist sub))).1

end Session

section Samples

/-- A server with one evaluation. -/
def oneEvaluation (id : JsString) : Option IEvaluation :=
  if id = js "1" then some ⟨js "1", js "scan.json", sampleFile []⟩ else none

/-- The same id twice in one call, and the same id in two calls that overlap. -/
theorem load_results_twice :
    (@run _ _ (@Session.step asciiTables lodash oneEvaluation) ⟨.initial, [[js "1", js "1"]], []⟩
      [.start 0, .respond 0 true, .load 0 (js "u"), .respond 0 true,
        .load 0 (js "v")]).store.databaseIds = [js "1", js "1"] ∧
    (@run _ _ (@Session.step asciiTables lodash oneEvaluation) ⟨.initial, [[js "1"], [js "1"]], []⟩
      [.start 0, .start 0, .respond 0 true, .load 0 (js "u"), .respond 0 true,
        .load 0 (js "v")]).store.databaseIds = [js "1", js "1"] ∧
    ¬ ∀ [UnicodeTables] [Lodash] (fetch : JsString → Option IEvaluation) (calls : List (List JsString))
        (events : List Event),
      (run (Session.step fetch) ⟨.initial, calls, []⟩ events).store.databaseIds.Nodup := by
  have first : (@run _ _ (@Session.step asciiTables lodash oneEvaluation)
      ⟨.initial, [[js "1", js "1"]], []⟩
      [.start 0, .respond 0 true, .load 0 (js "u"), .respond 0 true,
        .load 0 (js "v")]).store.databaseIds = [js "1", js "1"] := by decide +kernel
  refine ⟨first, by decide +kernel, fun always => ?_⟩
  have distinct := @always asciiTables lodash oneEvaluation [[js "1", js "1"]]
    [.start 0, .respond 0 true, .load 0 (js "u"), .respond 0 true, .load 0 (js "v")]
  rw [first] at distinct
  simp at distinct

end Samples

end Frontend
