import Heimdall.Backend.EvaluationRemoval
import Heimdall.Backend.GroupAuthority

/-!
# Tags of evaluations

The tags are a table of their own beside the others. They come with an upload or one by one,
and go one by one or with their evaluation. Every stored tag belongs to an evaluation that is
stored, and only somebody who may write the evaluation changes its tags.
-/
namespace Backend
open Js Casl

/-- A row of the table of tags. -/
structure TagRow where
  tag : EvaluationTag
  evaluationId : Option ℕ

def TagRow.id (row : TagRow) : ℕ := row.tag.id

/-- All tables. -/
structure Store where
  tables : Tables
  tags : List TagRow
  nextTag : ℕ

structure CreateEvaluationTagDto where
  value : JsString
  value_notEmpty : value ≠ []

namespace Store
variable (s : Store)

def findTag (id : ℕ) : Option TagRow := Lib.pick TagRow.id id s.tags

/-- The tags that are loaded with an evaluation. -/
def tagsOf (e : ℕ) : List TagRow :=
  s.tags.filter fun row => decide (row.evaluationId = some e)

def insertTag (e : ℕ) (value : JsString) : Store :=
  { s with tags := s.tags ++ [⟨⟨s.nextTag, value⟩, some e⟩], nextTag := s.nextTag + 1 }

/-- One insert for each value. -/
def insertTags (e : ℕ) (values : List JsString) : Store :=
  values.foldl (fun s value => s.insertTag e value) s

def destroyTag (id : ℕ) : Store := { s with tags := Lib.discard TagRow.id id s.tags }

/-- The destroys of the tags that were loaded with an evaluation. -/
def destroyTagsOf (e : ℕ) : Store :=
  { s with tags := s.tags.filter fun row => !decide (row.evaluationId = some e) }

end Store

namespace EvaluationTagsService
variable (s : Store)

def findByPkBang (id : ℕ) : Except HttpError TagRow :=
  Lib.orThrow (s.findTag id) (.notFound "EvaluationTag with given id not found")

def create (evaluationId : ℕ) (dto : CreateEvaluationTagDto) : Store :=
  s.insertTag evaluationId dto.value

end EvaluationTagsService

/-- `evaluationTag.evaluation`, joined with its groups and their users; a subject that is
missing counts as the type of all subjects. -/
def TagRow.subject (db : Tables) (row : TagRow) : Target SubjectType :=
  match row.evaluationId.bind db.loadEvaluation with
  | some evaluation => evaluation.target
  | none => .type .all

namespace EvaluationTagsController
variable (s : Store) (request : User)

def create (evaluationId : ℕ) (dto : CreateEvaluationTagDto) : Except HttpError Store := do
  let abac := createForUser request
  let evaluation ← EvaluationsService.findById s.tables evaluationId
  throwUnlessCan abac .update evaluation.target
  return EvaluationTagsService.create s evaluationId dto

def remove (id : ℕ) : Except HttpError Store := do
  let abac := createForUser request
  let evaluationTag ← EvaluationTagsService.findByPkBang s id
  throwUnlessCan abac .delete (evaluationTag.subject s.tables)
  return s.destroyTag evaluationTag.id

end EvaluationTagsController

/-- A call of the API, with the values of the tags when it is an upload, or a call about
tags. -/
inductive StoreCall where
  | other (call : Call) (evaluationTags : List JsString)
  | createTag (token : Option ℕ) (evaluationId : ℕ) (dto : CreateEvaluationTagDto)
  | removeTag (token : Option ℕ) (id : ℕ)

def StoreCall.token : StoreCall → Option ℕ
  | .other call _ => call.token
  | .createTag token _ _ => token
  | .removeTag token _ => token

def StoreCall.user (call : StoreCall) (db : Tables) : Option User := call.token.bind db.findUser

/-- The tags that an accepted call leaves. -/
def Store.afterCall (s : Store) (call : Call) (evaluationTags : List JsString) (db : Tables) :
    Store :=
  match call.request with
  | .createEvaluation _ _ =>
      { s.insertTags s.tables.nextEvaluation evaluationTags with tables := db }
  | .removeEvaluation id => { s.destroyTagsOf id with tables := db }
  | _ => { s with tables := db }

def Store.handle (cfg : Config) (s : Store) (call : StoreCall) : Except HttpError Store :=
  match call with
  | .other call evaluationTags => do
      let db ← Backend.handle cfg s.tables call
      return s.afterCall call evaluationTags db
  | .createTag token evaluationId dto => do
      let user ← Lib.orThrow (token.bind s.tables.findUser) .unauthorized
      EvaluationTagsController.create s user evaluationId dto
  | .removeTag token id => do
      let user ← Lib.orThrow (token.bind s.tables.findUser) .unauthorized
      EvaluationTagsController.remove s user id

/-- A call that throws leaves everything as it is. -/
def Store.step (cfg : Config) (s : Store) (call : StoreCall) : Store :=
  match s.handle cfg call with
  | .ok s' => s'
  | .error _ => s

/-- The rows are consistent, and every tag belongs to an evaluation. -/
structure Store.Consistent (s : Store) : Prop where
  tables : s.tables.Consistent
  tagKeys : Lib.Keyed TagRow.id s.nextTag s.tags
  owners : ∀ row ∈ s.tags, ∃ e evaluation, row.evaluationId = some e ∧
    s.tables.findEvaluation e = some evaluation

namespace Store
variable {s : Store}

@[simp] theorem insertTags_tables (e : ℕ) (values : List JsString) :
    (s.insertTags e values).tables = s.tables := by
  induction values generalizing s with
  | nil => rfl
  | cons value values ih => exact ih (s := s.insertTag e value)

theorem insertTag_keyed (keyed : Lib.Keyed TagRow.id s.nextTag s.tags) (e : ℕ)
    (value : JsString) :
    Lib.Keyed TagRow.id (s.insertTag e value).nextTag (s.insertTag e value).tags :=
  keyed.append rfl

theorem insertTags_keyed (keyed : Lib.Keyed TagRow.id s.nextTag s.tags) (e : ℕ)
    (values : List JsString) :
    Lib.Keyed TagRow.id (s.insertTags e values).nextTag (s.insertTags e values).tags := by
  induction values generalizing s with
  | nil => exact keyed
  | cons value values ih => exact ih (insertTag_keyed keyed e value)

theorem mem_insertTags {e : ℕ} {values : List JsString} {row : TagRow}
    (here : row ∈ (s.insertTags e values).tags) : row ∈ s.tags ∨ row.evaluationId = some e := by
  induction values generalizing s with
  | nil => exact .inl here
  | cons value values ih =>
      rcases ih (s := s.insertTag e value) here with old | new
      · rcases List.mem_append.mp old with old | last
        · exact .inl old
        · exact .inr (List.mem_singleton.mp last ▸ rfl)
      · exact .inr new

theorem tagsOf_insertTag {e e' : ℕ} {value : JsString} (other : e' ≠ e) :
    (s.insertTag e value).tagsOf e' = s.tagsOf e' := by
  have apart : decide (some e = some e') = false :=
    decide_eq_false fun same => other (Option.some.inj same).symm
  change List.filter _ (s.tags ++ [_]) = _
  rw [List.filter_append, List.filter_cons, apart]
  exact List.append_nil _

theorem tagsOf_insertTags {e e' : ℕ} {values : List JsString} (other : e' ≠ e) :
    (s.insertTags e values).tagsOf e' = s.tagsOf e' := by
  induction values generalizing s with
  | nil => rfl
  | cons value values ih => exact (ih (s := s.insertTag e value)).trans (tagsOf_insertTag other)

theorem tagsOf_destroyTagsOf {e e' : ℕ} (other : e' ≠ e) :
    (s.destroyTagsOf e).tagsOf e' = s.tagsOf e' := by
  change List.filter _ (List.filter _ _) = _
  rw [List.filter_filter]
  refine List.filter_congr fun row _ => ?_
  by_cases mine : row.evaluationId = some e'
  · have away : row.evaluationId ≠ some e := by
      rw [mine]
      exact fun same => other (Option.some.inj same)
    simp [mine, other]
  · simp [mine]

theorem tagsOf_destroyTag (keyed : Lib.Keyed TagRow.id s.nextTag s.tags) {row : TagRow} {e : ℕ}
    (here : row ∈ s.tags) (other : row.evaluationId ≠ some e) :
    (s.destroyTag row.id).tagsOf e = s.tagsOf e := by
  change List.filter _ (List.filter _ _) = _
  rw [List.filter_filter]
  refine List.filter_congr fun entry inside => ?_
  by_cases same : entry.id = row.id
  · have equal : entry = row := by
      have first := Lib.pick_of_mem keyed.nodup inside
      rw [same, Lib.pick_of_mem keyed.nodup here] at first
      exact (Option.some.inj first).symm
    subst equal
    simp [other]
  · simp [same]

end Store

/-- An accepted call keeps every evaluation that it does not remove. -/
theorem Effect.evaluation_kept {cfg : Config} {db db' : Tables} {caller : Option User}
    {request : Request} (effect : Effect cfg db caller request db') (h : db.Consistent) {e : ℕ}
    {evaluation : Evaluation} (found : db.findEvaluation e = some evaluation)
    (stays : request ≠ .removeEvaluation e) : ∃ kept, db'.findEvaluation e = some kept := by
  cases effect with
  | removeUser user known may =>
      exact ⟨_, by rw [Tables.findEvaluation_destroyUser, found]; rfl⟩
  | createEvaluation groups loaded =>
      have old : e ≠ db.nextEvaluation := by
        rintro rfl
        exact absurd (h.findEvaluation_next.symm.trans found) (by simp)
      refine ⟨evaluation, ?_⟩
      rw [Tables.findEvaluation, (addToGroups_frame _ groups _).2.2.2]
      exact (Tables.findEvaluation_insertEvaluation h _ _ _ _ e).trans (by rw [if_neg old, found])
  | updateEvaluation old saved known same uploader =>
      rw [Tables.findEvaluation_saveEvaluation, found]
      split <;> exact ⟨_, rfl⟩
  | @removeEvaluation user id =>
      have other : e ≠ id := fun same => stays (same ▸ rfl)
      exact ⟨evaluation, by rw [Tables.findEvaluation_destroyEvaluation, if_neg other, found]⟩
  | _ => exact ⟨evaluation, found⟩

/-- What an accepted call has checked, and what it leaves. -/
inductive StoreEffect (cfg : Config) (s : Store) : StoreCall → Store → Prop
  | other {call evaluationTags} (db : Tables)
      (effect : Effect cfg s.tables (call.user s.tables) call.request db)
      (permitted : ∀ user, call.user s.tables = some user →
        Permitted s.tables user call.request) (same : db = answer cfg s.tables call) :
      StoreEffect cfg s (.other call evaluationTags) (s.afterCall call evaluationTags db)
  | createTag {token e dto} (user : User) (signedIn : token.bind s.tables.findUser = some user)
      (may : MayOnEvaluation s.tables user .update e) :
      StoreEffect cfg s (.createTag token e dto) (s.insertTag e dto.value)
  | removeTag {token id} (user : User) (row : TagRow)
      (signedIn : token.bind s.tables.findUser = some user) (here : row ∈ s.tags)
      (may : (createForUser user).allows .delete (row.subject s.tables) = true) :
      StoreEffect cfg s (.removeTag token id) (s.destroyTag row.id)

theorem step_effect (cfg : Config) (s : Store) (call : StoreCall) :
    s.step cfg call = s ∨ StoreEffect cfg s call (s.step cfg call) := by
  unfold Store.step
  cases result : s.handle cfg call with
  | error e => exact .inl rfl
  | ok s' =>
      right
      cases call with
      | other call evaluationTags =>
          simp only [Store.handle, Lib.do_eq_ok, pure, Except.pure, Except.ok.injEq] at result
          obtain ⟨db, accepted, rfl⟩ := result
          have same : db = answer cfg s.tables call := by rw [answer, accepted]
          exact .other db (handle_effect accepted) (handle_permitted accepted) same
      | createTag token e dto =>
          simp only [Store.handle, EvaluationTagsController.create, Lib.do_eq_ok,
            Lib.orThrow_eq_ok, EvaluationsService.findById_ok, throwUnlessCan_ok, pure,
            Except.pure, Except.ok.injEq] at result
          obtain ⟨user, signedIn, evaluation, loaded, -, can, rfl⟩ := result
          exact .createTag user signedIn ⟨evaluation, loaded, can⟩
      | removeTag token id =>
          simp only [Store.handle, EvaluationTagsController.remove,
            EvaluationTagsService.findByPkBang, Lib.do_eq_ok, Lib.orThrow_eq_ok,
            throwUnlessCan_ok, pure, Except.pure, Except.ok.injEq] at result
          obtain ⟨user, signedIn, row, found, -, can, rfl⟩ := result
          exact .removeTag user row signedIn (Lib.pick_some found).1 can

theorem subject_of_owner {s : Store} {row : TagRow} {e : ℕ} {evaluation : Evaluation}
    (mine : row.evaluationId = some e) (found : s.tables.findEvaluation e = some evaluation) :
    row.subject s.tables =
      (⟨evaluation, s.tables.groupsOf evaluation.id⟩ : LoadedEvaluation).target := by
  have loaded : s.tables.loadEvaluation e = some ⟨evaluation, s.tables.groupsOf evaluation.id⟩ := by
    rw [Tables.loadEvaluation, found]
    rfl
  rw [TagRow.subject, mine, Option.bind_some, loaded]

@[simp] theorem Store.afterCall_tables (s : Store) (call : Call) (values : List JsString)
    (db : Tables) : (s.afterCall call values db).tables = db := by
  unfold Store.afterCall
  split <;> rfl

theorem afterCall_keyed {s : Store} (keyed : Lib.Keyed TagRow.id s.nextTag s.tags) (call : Call)
    (values : List JsString) (db : Tables) :
    Lib.Keyed TagRow.id (s.afterCall call values db).nextTag (s.afterCall call values db).tags := by
  unfold Store.afterCall
  split
  · exact Store.insertTags_keyed keyed _ values
  · exact ⟨keyed.nodup.sublist (List.filter_sublist.map _), fun k hk =>
      keyed.below k (List.map_subset _ (List.filter_subset_self _) hk)⟩
  · exact keyed

/-- Every tag belongs to an evaluation, after every call. -/
theorem Store.Consistent.step {s : Store} (h : s.Consistent) (cfg : Config) (call : StoreCall) :
    (s.step cfg call).Consistent := by
  rcases step_effect cfg s call with same | effect
  · rw [same]
    exact h
  generalize s.step cfg call = s' at effect
  cases effect with
  | @other call values db effect permitted same =>
      refine ⟨?_, afterCall_keyed h.tagKeys call values db, fun row here => ?_⟩
      · rw [Store.afterCall_tables]
        exact effect.consistent h.tables fun _ => Call.user_known
      rw [Store.afterCall_tables]
      have kept : row ∈ s.tags → (∀ e, row.evaluationId = some e →
          call.request ≠ .removeEvaluation e) → ∃ e evaluation, row.evaluationId = some e ∧
            db.findEvaluation e = some evaluation := by
        intro old stays
        obtain ⟨e, evaluation, mine, found⟩ := h.owners row old
        obtain ⟨still, found'⟩ := effect.evaluation_kept h.tables found (stays e mine)
        exact ⟨e, still, mine, found'⟩
      unfold Store.afterCall at here
      split at here
      · rename_i dto data request
        rcases Store.mem_insertTags here with old | new
        · exact kept old fun e _ same => by rw [request] at same; cases same
        · rw [request] at effect
          generalize call.user s.tables = caller at effect
          cases effect with
          | @createEvaluation caller _ _ groups loaded =>
              refine ⟨_, ⟨s.tables.nextEvaluation, dto.filename, data, dto.isPublic,
                some caller.id⟩, new, ?_⟩
              rw [Tables.findEvaluation, (addToGroups_frame _ groups _).2.2.2]
              exact (Tables.findEvaluation_insertEvaluation h.tables _ _ _ _ _).trans
                (if_pos rfl)
      · rename_i id request
        obtain ⟨old, away⟩ := List.mem_filter.mp here
        refine kept old fun e mine same => ?_
        rw [request] at same
        cases same
        simp [mine] at away
      · rename_i noUpload noRemoval
        exact kept here fun e _ same => noRemoval e same
  | @createTag token e dto user signedIn may =>
      obtain ⟨evaluation, loaded, -⟩ := may
      refine ⟨h.tables, Store.insertTag_keyed h.tagKeys e dto.value, fun row here => ?_⟩
      rcases List.mem_append.mp here with old | last
      · exact h.owners row old
      · rw [List.mem_singleton.mp last]
        exact ⟨e, evaluation.evaluation, rfl, (loadEvaluation_id loaded).2.1⟩
  | @removeTag token id user row signedIn here may =>
      exact ⟨h.tables, h.tagKeys.discard row.id, fun entry inside =>
        h.owners entry (List.mem_of_mem_filter inside)⟩

/-- The tags of an evaluation change by a request of somebody who may update it. -/
def TagAuthority (cfg : Config) (s : Store) (call : StoreCall) : Prop :=
  ∀ e evaluation, s.tables.findEvaluation e = some evaluation →
    (s.step cfg call).tagsOf e ≠ s.tagsOf e →
    ∃ caller, call.user s.tables = some caller ∧ s.tables.May .update caller.id e

theorem writer_of_mayOnEvaluation {db : Tables} (h : db.Consistent) {caller : User}
    (known : db.findUser caller.id = some caller) {action : Action}
    (write : action ∈ [Action.update, .delete]) {e : ℕ}
    (may : MayOnEvaluation db caller action e) : db.May .update caller.id e := by
  obtain ⟨evaluation, loaded, can⟩ := may
  have writes := (h.may_iff write).mp
    (Tables.may_iff_exists.mpr ⟨caller, evaluation, known, loaded, can⟩)
  exact (h.may_iff List.mem_cons_self).mpr writes

theorem known_of_token {db : Tables} {token : Option ℕ} {user : User}
    (signedIn : token.bind db.findUser = some user) : db.findUser user.id = some user := by
  obtain ⟨id, -, found⟩ := Option.bind_eq_some_iff.mp signedIn
  rw [(Tables.findUser_some found).2, found]

theorem tagAuthority_step {s : Store} (h : s.Consistent) (cfg : Config) (call : StoreCall) :
    TagAuthority cfg s call := by
  intro e evaluation found changed
  rcases step_effect cfg s call with same | effect
  · exact absurd (by rw [same]) changed
  generalize s.step cfg call = s' at effect changed
  cases effect with
  | @other call values db effect permitted same =>
      unfold Store.afterCall at changed
      split at changed
      · have old : e ≠ s.tables.nextEvaluation := by
          rintro rfl
          exact absurd (h.tables.findEvaluation_next.symm.trans found) (by simp)
        exact absurd (Store.tagsOf_insertTags old) changed
      · rename_i id request
        have here : e = id := by
          by_contra other
          exact changed (Store.tagsOf_destroyTagsOf other)
        subst here
        cases signedIn : call.user s.tables with
        | none =>
            rw [signedIn, request] at effect
            cases effect
        | some caller =>
            have may := permitted caller signedIn
            rw [request] at may
            exact ⟨caller, signedIn, writer_of_mayOnEvaluation h.tables
              (Call.user_known signedIn) (by decide) may⟩
      · exact absurd rfl changed
  | @createTag token id dto user signedIn may =>
      have here : e = id := by
        by_contra other
        exact changed (Store.tagsOf_insertTag other)
      subst here
      exact ⟨user, signedIn, writer_of_mayOnEvaluation h.tables (known_of_token signedIn)
        List.mem_cons_self may⟩
  | @removeTag token id user row signedIn here may =>
      have mine : row.evaluationId = some e := by
        by_contra other
        exact changed (Store.tagsOf_destroyTag h.tagKeys here other)
      rw [subject_of_owner mine found] at may
      have loaded : s.tables.loadEvaluation e =
          some ⟨evaluation, s.tables.groupsOf evaluation.id⟩ := by
        rw [Tables.loadEvaluation, found]
        rfl
      exact ⟨user, signedIn, writer_of_mayOnEvaluation h.tables (known_of_token signedIn)
        (List.mem_cons_of_mem _ List.mem_cons_self) ⟨_, loaded, may⟩⟩

/-- Along every run every tag belongs to a stored evaluation, and the tags of an evaluation
change only by a request of somebody who may update it. -/
theorem tagAuthority_run (cfg : Config) {s : Store} (h : s.Consistent) (calls : List StoreCall) :
    Lib.Throughout (Store.step cfg) Store.Consistent s calls ∧
      Lib.Along (Store.step cfg) (TagAuthority cfg) s calls := by
  have within : Lib.Along (Store.step cfg) (fun _ _ => True) s calls :=
    Lib.along_of_step (fun _ _ => trivial) s calls
  refine ⟨Lib.Throughout.of_invariant (A := Store.Consistent)
    (fun s call h _ => Store.Consistent.step h cfg call) (fun _ h => h) h within, ?_⟩
  exact (Lib.along_of_invariant (A := Store.Consistent) (fun s call h _ => Store.Consistent.step h cfg call)
    (fun s call h _ => tagAuthority_step h cfg call) h within).1

theorem Store.Consistent.run {s : Store} (h : s.Consistent) (cfg : Config)
    (calls : List StoreCall) : (Lib.run (Store.step cfg) s calls).Consistent := by
  induction calls generalizing s with
  | nil => exact h
  | cons call calls ih => exact ih (h.step cfg call)

def Store.empty : Store := ⟨Tables.empty, [], 1⟩

theorem Store.empty_consistent : Store.empty.Consistent where
  tables := Tables.empty_consistent
  tagKeys := ⟨List.nodup_nil, by simp [Store.empty]⟩
  owners := by simp [Store.empty]

/-- User 1 uploads a scan with two tags, adds one and removes one. -/
def sampleTagging : List StoreCall :=
  [.other (sampleRegistration "a@example.com") [],
   .other (sampleCall 1 (.createEvaluation sampleScan (.object []))) [js "x", js "y"],
   .createTag (some 1) 1 ⟨js "z", by decide⟩, .removeTag (some 1) 2]

theorem tagAuthority_run_sample :
    Lib.Throughout (Store.step sampleConfig) Store.Consistent Store.empty sampleTagging ∧
      Lib.Along (Store.step sampleConfig) (TagAuthority sampleConfig) Store.empty sampleTagging :=
  tagAuthority_run sampleConfig Store.empty_consistent sampleTagging

/-- Two users; the first one uploads a private scan with tags, the second one has a group. -/
def sampleStore : Store :=
  Lib.run (Store.step sampleConfig) Store.empty
    [.other (sampleRegistration "a@example.com") [],
     .other (sampleRegistration "b@example.com") [],
     .other (sampleCall 1 (.createEvaluation sampleScan (.object []))) [js "x"],
     .other (sampleCall 2 (.createGroup sampleGroup)) []]

theorem sampleStore_consistent : sampleStore.Consistent :=
  Store.empty_consistent.run sampleConfig _

example : ((Lib.run (Store.step sampleConfig) Store.empty sampleTagging).tagsOf 1).map
    (fun row => row.tag.value) = [js "x", js "z"] := by decide +kernel

end Backend
