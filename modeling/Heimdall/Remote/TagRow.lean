import Mathlib.Data.List.Nodup
import Heimdall.Backend.Responses

/-!
# Editing tags

The row of tags in the list of saved evaluations sends one request for each tag that was added
and one for each that was taken out, all at once, and it stays open while others edit the same
evaluation. Tags are removed by the keys that the row shows, so a tag that somebody else adds
in the meantime survives. In every order of arrival the table ends up the same.
-/
namespace Remote
open Js Backend Casl

/-- The check of the body: the value is not empty. -/
def createEvaluationTagDto (value : JsString) : Option CreateEvaluationTagDto :=
  if notEmpty : value ≠ [] then some ⟨value, notEmpty⟩ else none

/-- A request about a tag, with its body as it is sent. -/
inductive TagRequest where
  | create (token : Option ℕ) (evaluationId : ℕ) (value : JsString)
  | remove (token : Option ℕ) (id : ℕ)

namespace TagRequest
variable (cfg : Config) (s : Store) (request : TagRequest)

/-- The call that the check of the body lets through. -/
def call? : Option StoreCall :=
  match request with
  | .create token evaluationId value =>
      (createEvaluationTagDto value).map (.createTag token evaluationId)
  | .remove token id => some (.removeTag token id)

def token : Option ℕ :=
  match request with
  | .create token _ _ => token
  | .remove token _ => token

/-- The token is looked at before the body. -/
def handle : Except HttpError Store := do
  let _ ← Lib.orThrow (request.token.bind s.tables.findUser) .unauthorized
  let call ← Lib.orThrow request.call? (.badRequest "value should not be empty")
  s.handle cfg call

def step : Store :=
  match request.handle cfg s with
  | .ok s' => s'
  | .error _ => s

def Accepted : Prop := ∃ s', request.handle cfg s = .ok s'

/-- A creation whose value is empty. -/
def Blank : Prop :=
  match request with
  | .create _ _ value => value = []
  | .remove _ _ => False

/-- The tag to remove is gone if no row has its key any more. -/
def Gone : Prop :=
  match request with
  | .create _ _ _ => False
  | .remove _ id => s.findTag id = none

end TagRequest

namespace TagRow
variable (evaluation : EvaluationDto) (tags : List JsString)

def evaluationTagsToStrings : List JsString := evaluation.evaluationTags.map EvaluationTagDto.value

def toAdd : List JsString := tags.filter fun tag => tag ∉ evaluationTagsToStrings evaluation

def toRemove : List EvaluationTagDto :=
  evaluation.evaluationTags.filter fun tag => tag.value ∉ tags

end TagRow

/-- The edited tags are saved, or the closing of one chip is confirmed. -/
inductive TagEdit where
  | save (tags : List JsString)
  | deleteTagConfirm (activeTag : EvaluationTagDto)

/-- An edit of a user, at the entry of the listing that the row shows. -/
structure TagUse where
  user : User
  evaluation : EvaluationDto
  edit : TagEdit

namespace TagUse
variable (use : TagUse)

def added : List JsString :=
  match use.edit with
  | .save tags => TagRow.toAdd use.evaluation tags
  | .deleteTagConfirm _ => []

def removed : List EvaluationTagDto :=
  match use.edit with
  | .save tags => TagRow.toRemove use.evaluation tags
  | .deleteTagConfirm activeTag => [activeTag]

def requests : List TagRequest :=
  use.added.map (TagRequest.create (some use.user.id) use.evaluation.id) ++
  use.removed.map fun tag => .remove (some use.user.id) tag.id

/-- The requests that get past the check of their body. -/
def calls : List StoreCall := use.requests.filterMap TagRequest.call?

theorem calls_eq : use.calls =
    (use.added.filterMap createEvaluationTagDto).map
      (StoreCall.createTag (some use.user.id) use.evaluation.id) ++
    use.removed.map fun tag => StoreCall.removeTag (some use.user.id) tag.id := by
  rw [calls, requests, List.filterMap_append, List.filterMap_map, List.filterMap_map,
    List.map_filterMap]
  exact congrArg _ (congrFun List.filterMap_eq_map use.removed)

/-- What an accepted use adds to the tags of an evaluation. -/
def puts (e : ℕ) : List JsString :=
  if use.evaluation.editable ∧ use.evaluation.id = e then use.added.filter fun value => value ≠ []
  else []

/-- An accepted use takes the tag with this key out. -/
def takes (id : ℕ) : Prop :=
  use.evaluation.editable = true ∧ id ∈ use.removed.map EvaluationTagDto.id

instance (id : ℕ) : Decidable (use.takes id) := inferInstanceAs (Decidable (_ ∧ _))

/-- The row shows what the listing answers, and a chip that is closed is one of its chips. -/
structure Opened (s : Store) : Prop where
  signedIn : s.tables.findUser use.user.id = some use.user
  listed : use.evaluation ∈ EvaluationsController.findAll s use.user
  chip : ∀ activeTag, use.edit = .deleteTagConfirm activeTag →
    activeTag ∈ use.evaluation.evaluationTags

end TagUse

/-- Who sends the request may change the tags of the evaluation. -/
def mayTag (db : Tables) (token : Option ℕ) (e : ℕ) : Bool :=
  match token.bind db.findUser, db.loadEvaluation e with
  | some user, some evaluation => (createForUser user).allows .update evaluation.target
  | _, _ => false

/-- The tag that a call adds, with its evaluation. -/
def inserted (db : Tables) : StoreCall → Option (Option ℕ × JsString)
  | .createTag token e dto => if mayTag db token e then some (some e, dto.value) else none
  | _ => none

/-- A call takes the row out. -/
def removes (db : Tables) (row : TagRow) : StoreCall → Bool
  | .removeTag token id => decide (id = row.id) && row.evaluationId.any (mayTag db token)
  | _ => false

section Server
variable {cfg : Config} {s s' : Store} {token : Option ℕ} {e : ℕ}

theorem mayTag_iff : mayTag s.tables token e = true ↔
    ∃ user, token.bind s.tables.findUser = some user ∧ MayOnEvaluation s.tables user .update e := by
  unfold mayTag MayOnEvaluation
  cases token.bind s.tables.findUser <;> cases s.tables.loadEvaluation e <;> simp

theorem handle_createTag {dto : CreateEvaluationTagDto} :
    s.handle cfg (.createTag token e dto) = .ok s' ↔
      mayTag s.tables token e = true ∧ s' = s.insertTag e dto.value := by
  simp only [Store.handle, EvaluationTagsController.create, Lib.do_eq_ok, Lib.orThrow_eq_ok,
    EvaluationsService.findById_ok, throwUnlessCan_ok, pure, Except.pure, Except.ok.injEq,
    mayTag_iff, MayOnEvaluation, EvaluationTagsService.create]
  constructor
  · rintro ⟨user, signedIn, evaluation, loaded, -, can, rfl⟩
    exact ⟨⟨user, signedIn, evaluation, loaded, can⟩, rfl⟩
  · rintro ⟨⟨user, signedIn, evaluation, loaded, can⟩, rfl⟩
    exact ⟨user, signedIn, evaluation, loaded, (), can, rfl⟩

/-- A removal asks for the permission to delete, which is the one to update. -/
theorem allows_delete (h : s.Consistent) {row : TagRow} (here : row ∈ s.tags) {user : User} :
    (createForUser user).allows .delete (row.subject s.tables) = true ↔
      ∃ e, row.evaluationId = some e ∧ MayOnEvaluation s.tables user .update e := by
  obtain ⟨e, evaluation, mine, found⟩ := h.owners row here
  have loaded : s.tables.loadEvaluation e = some ⟨evaluation, s.tables.groupsOf evaluation.id⟩ := by
    rw [Tables.loadEvaluation, found]
    rfl
  rw [subject_of_owner mine found, h.tables.allows_write (by decide) loaded,
    ← @Tables.Consistent.allows_write _ h.tables .update (by decide) _ _ _ loaded]
  simp only [mine, Option.some.injEq, MayOnEvaluation, exists_eq_left', loaded]

theorem handle_removeTag (h : s.Consistent) {id : ℕ} :
    s.handle cfg (.removeTag token id) = .ok s' ↔ ∃ row, s.findTag id = some row ∧
      row.evaluationId.any (mayTag s.tables token) = true ∧ s' = s.destroyTag id := by
  simp only [Store.handle, EvaluationTagsController.remove, EvaluationTagsService.findByPkBang,
    Lib.do_eq_ok, Lib.orThrow_eq_ok, throwUnlessCan_ok, pure, Except.pure, Except.ok.injEq,
    Option.any_eq_true, mayTag_iff]
  constructor
  · rintro ⟨user, signedIn, row, found, -, can, rfl⟩
    obtain ⟨e, mine, may⟩ := (allows_delete h (Lib.pick_some found).1).mp can
    exact ⟨row, found, ⟨e, mine, user, signedIn, may⟩, by rw [(Lib.pick_some found).2]⟩
  · rintro ⟨row, found, ⟨e, mine, user, signedIn, may⟩, rfl⟩
    exact ⟨user, signedIn, row, found, (),
      (allows_delete h (Lib.pick_some found).1).mpr ⟨e, mine, may⟩,
      by rw [(Lib.pick_some found).2]⟩

theorem step_accepted_tag {call : StoreCall} (accepted : s.handle cfg call = .ok s') :
    s.step cfg call = s' := by
  rw [Store.step, accepted]

theorem step_refused_tag {call : StoreCall} (refused : ¬ ∃ s', s.handle cfg call = .ok s') :
    s.step cfg call = s := by
  unfold Store.step
  cases result : s.handle cfg call with
  | ok s' => exact absurd ⟨s', result⟩ refused
  | error e => rfl

end Server
namespace TagRequest
variable {cfg : Config} {s s' : Store} {request : TagRequest}

theorem handle_ok : request.handle cfg s = .ok s' ↔
    ∃ call, request.call? = some call ∧ s.handle cfg call = .ok s' := by
  unfold handle
  simp only [Lib.do_eq_ok, Lib.orThrow_eq_ok]
  constructor
  · rintro ⟨_, -, call, passed, ok⟩
    exact ⟨call, passed, ok⟩
  · rintro ⟨call, passed, ok⟩
    obtain ⟨user, signedIn⟩ : ∃ user, request.token.bind s.tables.findUser = some user := by
      cases request with
      | create token e value =>
          obtain ⟨dto, -, rfl⟩ := Option.map_eq_some_iff.mp passed
          obtain ⟨user, signedIn, -⟩ := mayTag_iff.mp (handle_createTag.mp ok).1
          exact ⟨user, signedIn⟩
      | remove token id =>
          obtain rfl := Option.some.inj passed
          simp only [Store.handle, Lib.do_eq_ok, Lib.orThrow_eq_ok] at ok
          exact ok.imp fun _ both => both.1
    exact ⟨user, signedIn, call, passed, ok⟩

theorem accepted_iff : request.Accepted cfg s ↔
    ∃ call, request.call? = some call ∧ ∃ s', s.handle cfg call = .ok s' := by
  simp only [Accepted, handle_ok]
  constructor
  · rintro ⟨s', call, passed, ok⟩
    exact ⟨call, passed, s', ok⟩
  · rintro ⟨call, passed, s', ok⟩
    exact ⟨s', call, passed, ok⟩

/-- A request does what its call does, and one that the check refuses does nothing. -/
theorem step_eq : request.step cfg s = request.call?.elim s (Store.step cfg s) := by
  unfold step
  cases result : request.handle cfg s with
  | ok s' =>
      obtain ⟨call, passed, ok⟩ := handle_ok.mp result
      rw [passed, Option.elim_some, step_accepted_tag ok]
  | error thrown =>
      cases passed : request.call? with
      | none => rfl
      | some call =>
          refine (step_refused_tag fun ⟨s', ok⟩ => ?_).symm
          rw [handle_ok.mpr ⟨call, passed, ok⟩] at result
          cases result

end TagRequest

/-- A call about tags, whose keys are old. -/
def TagCall (next : ℕ) : StoreCall → Prop
  | .createTag _ _ _ => True
  | .removeTag _ id => id < next
  | .other _ _ => False

/-- What is left of the rows that were there. -/
def left (db : Tables) (calls : List StoreCall) (rows : List TagRow) : List TagRow :=
  rows.filter fun row => !calls.any (removes db row)

/-- The tables stay, the rows that were there stay in their order except for the removed ones,
and the new rows follow in the order of arrival. -/
structure Retagged (s : Store) (calls : List StoreCall) (s' : Store) : Prop where
  tables : s'.tables = s.tables
  grows : s.nextTag ≤ s'.nextTag
  tags : ∃ rows, s'.tags = left s.tables calls s.tags ++ rows ∧
    (∀ row ∈ rows, s.nextTag ≤ row.id) ∧
    rows.map (fun row => (row.evaluationId, row.tag.value)) = calls.filterMap (inserted s.tables)

theorem TagCall.mono {next next' : ℕ} {call : StoreCall} (grows : next ≤ next')
    (old : TagCall next call) : TagCall next' call := by
  cases call with
  | createTag => trivial
  | removeTag => exact Nat.lt_of_lt_of_le old grows
  | other => exact old

/-- Calls with old keys leave new rows alone. -/
theorem left_new {db : Tables} {next : ℕ} {calls : List StoreCall}
    (old : ∀ call ∈ calls, TagCall next call) {rows : List TagRow}
    (new : ∀ row ∈ rows, next ≤ row.id) : left db calls rows = rows := by
  refine List.filter_eq_self.mpr fun row here => ?_
  rw [Bool.not_eq_true', List.any_eq_false]
  intro call asked
  cases call with
  | removeTag token id =>
      have apart : id ≠ row.id := Nat.ne_of_lt (Nat.lt_of_lt_of_le (old _ asked) (new row here))
      simp [removes, apart]
  | _ => exact Bool.false_ne_true

theorem left_left {db : Tables} {calls calls' : List StoreCall} {rows : List TagRow} :
    left db calls' (left db calls rows) = left db (calls ++ calls') rows := by
  unfold left
  rw [List.filter_filter]
  refine List.filter_congr fun row _ => ?_
  rw [List.any_append, Bool.not_or, Bool.and_comm]

namespace Retagged
variable {s s' s'' : Store} {calls calls' : List StoreCall}

theorem refl (s : Store) : Retagged s [] s :=
  ⟨rfl, Nat.le_refl _, [], by simp [left], by simp, rfl⟩

theorem trans (one : Retagged s calls s') (two : Retagged s' calls' s'')
    (old : ∀ call ∈ calls', TagCall s.nextTag call) : Retagged s (calls ++ calls') s'' := by
  obtain ⟨rows, tags, new, values⟩ := one.tags
  obtain ⟨rows', tags', new', values'⟩ := two.tags
  rw [one.tables] at tags' values'
  refine ⟨two.tables.trans one.tables, one.grows.trans two.grows, rows ++ rows', ?_, ?_, ?_⟩
  · rw [tags', tags]
    calc left s.tables calls' (left s.tables calls s.tags ++ rows) ++ rows'
        = left s.tables calls' (left s.tables calls s.tags) ++ left s.tables calls' rows ++ rows' :=
          congrArg (· ++ rows') (List.filter_append _ _)
      _ = left s.tables (calls ++ calls') s.tags ++ (rows ++ rows') := by
          rw [left_left, left_new old new, List.append_assoc]
  · intro row here
    rcases List.mem_append.mp here with first | second
    · exact new row first
    · exact one.grows.trans (new' row second)
  · rw [List.map_append, values, values', List.filterMap_append]

/-- A call that is refused neither adds nor removes. -/
theorem refused {call : StoreCall} (adds : inserted s.tables call = none)
    (keeps : ∀ row ∈ s.tags, removes s.tables row call = false) : Retagged s [call] s := by
  refine ⟨rfl, Nat.le_refl _, [], ?_, by simp, by simp [adds]⟩
  rw [List.append_nil]
  refine (List.filter_eq_self.mpr fun row here => ?_).symm
  simp [keeps row here]

theorem step (cfg : Config) (h : s.Consistent) {call : StoreCall}
    (old : TagCall s.nextTag call) : Retagged s [call] (s.step cfg call) := by
  cases call with
  | other => exact absurd old id
  | createTag token e dto =>
      by_cases may : mayTag s.tables token e = true
      · rw [step_accepted_tag (handle_createTag.mpr ⟨may, rfl⟩)]
        refine ⟨rfl, Nat.le_succ _, [⟨⟨s.nextTag, dto.value⟩, some e⟩], ?_, ?_, ?_⟩
        · simp [left, removes, Store.insertTag]
        · simp [TagRow.id]
        · simp [inserted, may]
      · rw [step_refused_tag fun ⟨s', ok⟩ => may (handle_createTag.mp ok).1]
        exact refused (by simp [inserted, may]) fun _ _ => rfl
  | removeTag token id =>
      by_cases accepted : ∃ s', s.handle cfg (.removeTag token id) = .ok s'
      · obtain ⟨s', accepted⟩ := accepted
        obtain ⟨row, found, may, rfl⟩ := (handle_removeTag h).mp accepted
        obtain ⟨here, rfl⟩ := Lib.pick_some found
        rw [step_accepted_tag accepted]
        refine ⟨rfl, Nat.le_refl _, [], ?_, by simp, by simp [inserted]⟩
        rw [List.append_nil]
        refine List.filter_congr fun entry inside => ?_
        by_cases same : entry.id = row.id
        · rw [List.inj_on_of_nodup_map h.tagKeys.nodup inside here same]
          simp [removes, may]
        · simp [removes, same, Ne.symm same]
      · rw [step_refused_tag accepted]
        refine refused rfl fun row here => ?_
        by_cases same : id = row.id
        · subst same
          have kept : ¬ row.evaluationId.any (mayTag s.tables token) = true := fun may =>
            accepted ⟨_, (handle_removeTag h).mpr
              ⟨row, Lib.pick_of_mem h.tagKeys.nodup here, may, rfl⟩⟩
          simp [removes, kept]
        · simp [removes, same]

theorem run (cfg : Config) (h : s.Consistent) (old : ∀ call ∈ calls, TagCall s.nextTag call) :
    Retagged s calls (Lib.run (Store.step cfg) s calls) := by
  induction calls generalizing s with
  | nil => exact refl s
  | cons call calls ih =>
      have rest : ∀ call ∈ calls, TagCall s.nextTag call := fun call here =>
        old call (List.mem_cons_of_mem _ here)
      have first := step cfg h (old call List.mem_cons_self)
      have later := ih (h.step cfg call) fun call here => (rest call here).mono first.grows
      exact first.trans later rest

/-- A tag with an old key is one that was there. -/
theorem old_row (h : Retagged s calls s') {row : TagRow} (here : row ∈ s'.tags)
    (old : row.id < s.nextTag) : row ∈ s.tags := by
  obtain ⟨rows, tags, new, -⟩ := h.tags
  rw [tags] at here
  rcases List.mem_append.mp here with kept | added
  · exact List.mem_of_mem_filter kept
  · exact absurd (new row added) (Nat.not_le_of_lt old)

end Retagged
namespace TagUse.Opened
variable {s : Store} {use : TagUse}

theorem entry (h : s.Consistent) (opened : use.Opened s) : ∃ evaluation,
    s.tables.loadEvaluation use.evaluation.id = some evaluation ∧
      use.evaluation = EvaluationDto.of evaluation none (s.tagsOf use.evaluation.id)
        ((createForUser use.user).allows .update evaluation.target) := by
  obtain ⟨evaluation, loaded, -, same⟩ := (mem_listing h.tables).mp opened.listed
  exact ⟨evaluation, loaded, same⟩

theorem tags_eq (h : s.Consistent) (opened : use.Opened s) :
    use.evaluation.evaluationTags = (s.tagsOf use.evaluation.id).map EvaluationTagDto.of := by
  obtain ⟨evaluation, -, same⟩ := opened.entry h
  exact congrArg EvaluationDto.evaluationTags same

/-- The mark on the entry says who may change its tags. -/
theorem mayTag_eq (h : s.Consistent) (opened : use.Opened s) :
    mayTag s.tables (some use.user.id) use.evaluation.id = use.evaluation.editable := by
  obtain ⟨evaluation, loaded, same⟩ := opened.entry h
  have mark := congrArg EvaluationDto.editable same
  rw [mayTag, Option.bind_some, opened.signedIn, loaded]
  exact mark.symm

theorem removed_subset (opened : use.Opened s) {tag : EvaluationTagDto}
    (here : tag ∈ use.removed) : tag ∈ use.evaluation.evaluationTags := by
  unfold TagUse.removed at here
  cases edit : use.edit with
  | save tags =>
      rw [edit] at here
      exact List.mem_of_mem_filter here
  | deleteTagConfirm activeTag =>
      rw [edit] at here
      rw [List.mem_singleton.mp here]
      exact opened.chip activeTag edit

theorem row_of_removed (h : s.Consistent) (opened : use.Opened s) {tag : EvaluationTagDto}
    (here : tag ∈ use.removed) :
    ∃ row ∈ s.tags, row.evaluationId = some use.evaluation.id ∧ EvaluationTagDto.of row = tag := by
  have shown := opened.removed_subset here
  rw [opened.tags_eq h] at shown
  obtain ⟨row, mine, rfl⟩ := List.mem_map.mp shown
  obtain ⟨stored, owner⟩ := List.mem_filter.mp mine
  exact ⟨row, stored, of_decide_eq_true owner, rfl⟩

theorem tagCall (h : s.Consistent) (opened : use.Opened s) {call : StoreCall}
    (sent : call ∈ use.calls) : TagCall s.nextTag call := by
  rw [TagUse.calls_eq] at sent
  rcases List.mem_append.mp sent with create | remove
  · obtain ⟨dto, -, rfl⟩ := List.mem_map.mp create
    trivial
  · obtain ⟨tag, here, rfl⟩ := List.mem_map.mp remove
    obtain ⟨row, stored, -, rfl⟩ := opened.row_of_removed h here
    exact h.tagKeys.below _ (List.mem_map_of_mem stored)

/-- A use takes the stored rows whose keys it names, if it may. -/
theorem removes_iff (h : s.Consistent) (opened : use.Opened s) {row : TagRow}
    (stored : row ∈ s.tags) :
    use.calls.any (removes s.tables row) = true ↔ use.takes row.id := by
  have may := opened.mayTag_eq h
  rw [List.any_eq_true, TagUse.takes, List.mem_map, TagUse.calls_eq]
  constructor
  · rintro ⟨call, sent, asked⟩
    rcases List.mem_append.mp sent with create | remove
    · obtain ⟨dto, -, rfl⟩ := List.mem_map.mp create
      exact absurd asked Bool.false_ne_true
    · obtain ⟨tag, here, rfl⟩ := List.mem_map.mp remove
      obtain ⟨row', stored', mine, rfl⟩ := opened.row_of_removed h here
      obtain ⟨same, writes⟩ := Bool.and_eq_true_iff.mp asked
      have same : row'.id = row.id := of_decide_eq_true same
      rw [← List.inj_on_of_nodup_map h.tagKeys.nodup stored' stored same, mine] at writes
      exact ⟨may ▸ writes, _, here, same⟩
  · rintro ⟨editable, tag, here, same⟩
    refine ⟨_, List.mem_append_right _ (List.mem_map_of_mem here), ?_⟩
    obtain ⟨row', stored', mine, rfl⟩ := opened.row_of_removed h here
    have same : row'.id = row.id := same
    rw [← List.inj_on_of_nodup_map h.tagKeys.nodup stored' stored same]
    simp [removes, EvaluationTagDto.of, TagRow.id, mine, may, editable]

end TagUse.Opened

/-- The values that the calls add to the tags of an evaluation. -/
def addedTo (db : Tables) (e : ℕ) (calls : List StoreCall) : List JsString :=
  ((calls.filterMap (inserted db)).filter fun pair => pair.1 = some e).map Prod.snd

theorem addedTo_perm {db : Tables} {e : ℕ} {calls calls' : List StoreCall}
    (order : calls.Perm calls') : (addedTo db e calls).Perm (addedTo db e calls') :=
  ((order.filterMap _).filter _).map _

theorem addedTo_append (db : Tables) (e : ℕ) (calls calls' : List StoreCall) :
    addedTo db e (calls ++ calls') = addedTo db e calls ++ addedTo db e calls' := by
  simp only [addedTo, List.filterMap_append, List.filter_append, List.map_append]

theorem addedTo_flatMap (db : Tables) (e : ℕ) (uses : List TagUse) :
    addedTo db e (uses.flatMap TagUse.calls) =
      uses.flatMap fun use => addedTo db e use.calls := by
  induction uses with
  | nil => rfl
  | cons use uses ih => rw [List.flatMap_cons, addedTo_append, ih, List.flatMap_cons]

theorem value_createEvaluationTagDto (values : List JsString) :
    (values.filterMap createEvaluationTagDto).map CreateEvaluationTagDto.value =
      values.filter fun value => value ≠ [] := by
  induction values with
  | nil => rfl
  | cons value values ih =>
      by_cases notEmpty : value = []
      · rw [List.filterMap_cons_none (by simp [createEvaluationTagDto, notEmpty]), ih,
          List.filter_cons_of_neg (by simp [notEmpty])]
      · rw [List.filterMap_cons_some (dif_pos notEmpty), List.map_cons, ih,
          List.filter_cons_of_pos (by simp [notEmpty])]

/-- The creations of a use, when it may and when it may not. -/
theorem addedTo_creates (db : Tables) (e id : ℕ) (token : Option ℕ)
    (dtos : List CreateEvaluationTagDto) :
    addedTo db e (dtos.map (StoreCall.createTag token id)) =
      if mayTag db token id ∧ id = e then dtos.map CreateEvaluationTagDto.value else [] := by
  induction dtos with
  | nil => simp [addedTo]
  | cons dto dtos ih =>
      rw [List.map_cons, ← List.singleton_append, addedTo_append, ih]
      by_cases here : id = e
      · subst here
        by_cases may : mayTag db token id = true <;>
          simp [addedTo, inserted, may]
      · by_cases may : mayTag db token id = true <;>
          simp [addedTo, inserted, may, here]

theorem addedTo_removes (db : Tables) (e : ℕ) (token : Option ℕ) (tags : List EvaluationTagDto) :
    addedTo db e (tags.map fun tag => StoreCall.removeTag token tag.id) = [] := by
  induction tags with
  | nil => rfl
  | cons tag tags ih => exact ih

theorem TagUse.Opened.puts_eq {s : Store} {use : TagUse} (h : s.Consistent)
    (opened : use.Opened s) (e : ℕ) : addedTo s.tables e use.calls = use.puts e := by
  rw [TagUse.calls_eq, addedTo_append, addedTo_creates, addedTo_removes, List.append_nil,
    value_createEvaluationTagDto, opened.mayTag_eq h]
  rfl

section Saves
variable {s s' : Store} {uses : List TagUse} {order : List StoreCall}

/-- The tags of an evaluation after all requests: the ones that nobody took, and then what was
added. -/
theorem tagsOf_after (h : s.Consistent) (opened : ∀ use ∈ uses, use.Opened s)
    (arrival : (uses.flatMap TagUse.calls).Perm order) (after : Retagged s order s') (e : ℕ) :
    ∃ rows, s'.tagsOf e =
      ((s.tagsOf e).filter fun row => ∀ use ∈ uses, ¬ use.takes row.id) ++ rows ∧
      (rows.map fun row => row.tag.value).Perm (uses.flatMap fun use => use.puts e) := by
  obtain ⟨rows, tags, -, values⟩ := after.tags
  refine ⟨rows.filter fun row => row.evaluationId = some e, ?_, ?_⟩
  · rw [Store.tagsOf, tags, List.filter_append]
    congr 1
    rw [left, Store.tagsOf, List.filter_filter, List.filter_filter]
    refine List.filter_congr fun row stored => ?_
    rw [Bool.and_comm]
    congr 1
    have taken : order.any (removes s.tables row) = true ↔ ∃ use ∈ uses, use.takes row.id := by
      rw [← arrival.any_eq, List.any_flatMap, List.any_eq_true]
      exact exists_congr fun use => and_congr_right fun here =>
        (opened use here).removes_iff h stored
    rw [eq_comm, Bool.eq_iff_iff, Bool.not_eq_true', decide_eq_true_eq, ← Bool.not_eq_true, taken]
    simp only [not_exists, not_and]
  · have added : (rows.filter fun row => row.evaluationId = some e).map (fun row => row.tag.value) =
        addedTo s.tables e order := by
      rw [addedTo, ← values, List.filter_map, List.map_map]
      rfl
    have each : (uses.flatMap fun use => addedTo s.tables e use.calls) =
        uses.flatMap fun use => use.puts e :=
      List.flatMap_congr fun use here => (opened use here).puts_eq h e
    rw [added, ← each, ← addedTo_flatMap]
    exact addedTo_perm arrival.symm

theorem arrival_calls {order : List TagRequest} (arrival : (uses.flatMap TagUse.requests).Perm order) :
    (uses.flatMap TagUse.calls).Perm (order.filterMap TagRequest.call?) := by
  have passed := arrival.filterMap TagRequest.call?
  rwa [List.filterMap_flatMap] at passed

/-- The request of a use is carried out if the entry is editable, except for a creation without
a value and for the removal of a tag that is gone. -/
def Answers (cfg : Config) (uses : List TagUse) (s : Store) (request : TagRequest) : Prop :=
  ∃ use ∈ uses, request ∈ use.requests ∧ (request.Accepted cfg s ↔
    use.evaluation.editable = true ∧ ¬ request.Blank ∧ ¬ request.Gone s)

theorem accepted_create {cfg : Config} {token : Option ℕ} {e : ℕ} {value : JsString} :
    (TagRequest.create token e value).Accepted cfg s ↔
      mayTag s.tables token e = true ∧ value ≠ [] := by
  rw [TagRequest.accepted_iff, TagRequest.call?]
  by_cases notEmpty : value = []
  · simp [createEvaluationTagDto, notEmpty]
  · simp [createEvaluationTagDto, notEmpty, handle_createTag]

theorem accepted_remove {cfg : Config} (h : s.Consistent) {token : Option ℕ} {id : ℕ} :
    (TagRequest.remove token id).Accepted cfg s ↔ ∃ row, s.findTag id = some row ∧
      row.evaluationId.any (mayTag s.tables token) = true := by
  simp [TagRequest.accepted_iff, TagRequest.call?, handle_removeTag h]

theorem answers_of_request {cfg : Config} (h : s.Consistent)
    (opened : ∀ use ∈ uses, use.Opened s) (h' : s'.Consistent) {before : List StoreCall}
    (after : Retagged s before s') {request : TagRequest}
    (sent : request ∈ uses.flatMap TagUse.requests) : Answers cfg uses s' request := by
  obtain ⟨use, here, sent⟩ := List.mem_flatMap.mp sent
  refine ⟨use, here, sent, ?_⟩
  have may : mayTag s'.tables (some use.user.id) use.evaluation.id = use.evaluation.editable := by
    rw [after.tables]
    exact (opened use here).mayTag_eq h
  rcases List.mem_append.mp sent with create | remove
  · obtain ⟨value, -, rfl⟩ := List.mem_map.mp create
    rw [accepted_create, may]
    exact and_congr_right fun _ => (and_iff_left id).symm
  · obtain ⟨tag, removed, rfl⟩ := List.mem_map.mp remove
    obtain ⟨row, stored, mine, rfl⟩ := (opened use here).row_of_removed h removed
    have same : ∀ found, s'.findTag row.id = some found → found = row := by
      intro found pick
      obtain ⟨inside, key⟩ := Lib.pick_some pick
      have old : found.id < s.nextTag := key ▸ h.tagKeys.below _ (List.mem_map_of_mem stored)
      exact List.inj_on_of_nodup_map h.tagKeys.nodup (after.old_row inside old) stored key
    rw [accepted_remove h', ← may]
    change (∃ found, s'.findTag row.id = some found ∧ _) ↔ _ ∧ ¬ False ∧ ¬ s'.findTag row.id = none
    constructor
    · rintro ⟨found, pick, writes⟩
      rw [same found pick, mine] at writes
      exact ⟨writes, id, by simp [pick]⟩
    · rintro ⟨writes, -, present⟩
      obtain ⟨found, pick⟩ := Option.ne_none_iff_exists'.mp present
      refine ⟨found, pick, ?_⟩
      rw [same found pick, mine]
      exact writes

/-- The listings change in the tags only. -/
theorem listing_after (after : Retagged s order s') (user : User) :
    EvaluationsController.findAll s' user =
      (EvaluationsController.findAll s user).map fun dto =>
        { dto with evaluationTags := (s'.tagsOf dto.id).map EvaluationTagDto.of } := by
  simp only [EvaluationsController.findAll, List.map_map, after.tables]
  rfl

/-- A tag that a use shows with the same key is the same tag. -/
theorem tag_unique (h : s.Consistent) {e e' : ℕ} {tag tag' : EvaluationTagDto}
    (here : tag ∈ (s.tagsOf e).map EvaluationTagDto.of)
    (here' : tag' ∈ (s.tagsOf e').map EvaluationTagDto.of) (same : tag.id = tag'.id) :
    tag = tag' ∧ e = e' := by
  obtain ⟨row, mine, rfl⟩ := List.mem_map.mp here
  obtain ⟨row', mine', rfl⟩ := List.mem_map.mp here'
  obtain ⟨stored, owner⟩ := List.mem_filter.mp mine
  obtain ⟨stored', owner'⟩ := List.mem_filter.mp mine'
  have equal := List.inj_on_of_nodup_map h.tagKeys.nodup stored stored' same
  subst equal
  have both := (of_decide_eq_true owner).symm.trans (of_decide_eq_true owner')
  exact ⟨rfl, Option.some.inj both⟩

/-- The tags that nobody took and the ones that were added, in whatever order they are read. -/
def Merged (uses : List TagUse) (shown dto : EvaluationDto) : Prop :=
  ∃ tags new, dto = { shown with evaluationTags := tags } ∧
    tags.Perm ((shown.evaluationTags.filter fun tag => ∀ use ∈ uses, ¬ use.takes tag.id) ++ new) ∧
    (new.map EvaluationTagDto.value).Perm (uses.flatMap fun use => use.puts dto.id)

theorem merged_after (h : s.Consistent) (opened : ∀ use ∈ uses, use.Opened s)
    (arrival : (uses.flatMap TagUse.calls).Perm order) (after : Retagged s order s') {user : User}
    {dto : EvaluationDto} (listed : dto ∈ EvaluationsController.findAll s' user) :
    ∃ shown ∈ EvaluationsController.findAll s user, Merged uses shown dto := by
  rw [listing_after after] at listed
  obtain ⟨shown, seen, rfl⟩ := List.mem_map.mp listed
  have tags : shown.evaluationTags = (s.tagsOf shown.id).map EvaluationTagDto.of := by
    obtain ⟨evaluation, -, -, same⟩ := (mem_listing h.tables).mp seen
    exact congrArg EvaluationDto.evaluationTags same
  obtain ⟨rows, kept, added⟩ := tagsOf_after h opened arrival after shown.id
  refine ⟨shown, seen, _, rows.map EvaluationTagDto.of, rfl, ?_, ?_⟩
  · rw [kept, List.map_append, tags, List.filter_map]
    exact .refl _
  · rw [List.map_map]
    exact added

section Alone
variable {use : TagUse} {tags : List JsString} {tag : EvaluationTagDto} {value : JsString}

/-- Where nobody else edits the same evaluation, the tags that nobody took are the saved ones. -/
theorem kept_alone (h : s.Consistent) (opened : ∀ use ∈ uses, use.Opened s) (here : use ∈ uses)
    (edit : use.edit = .save tags) (editable : use.evaluation.editable = true)
    (alone : ∀ other ∈ uses, other.evaluation.id = use.evaluation.id → other = use)
    (inside : tag ∈ use.evaluation.evaluationTags) :
    (∀ other ∈ uses, ¬ other.takes tag.id) ↔ tag.value ∈ tags := by
  have stored := (opened use here).tags_eq h ▸ inside
  constructor
  · intro kept
    by_contra gone
    refine kept use here ⟨editable, List.mem_map_of_mem ?_⟩
    rw [TagUse.removed, edit]
    exact List.mem_filter.mpr ⟨inside, decide_eq_true gone⟩
  · rintro stays other among ⟨-, taken⟩
    obtain ⟨tag', removed, key⟩ := List.mem_map.mp taken
    have stored' := (opened other among).removed_subset removed
    rw [(opened other among).tags_eq h] at stored'
    obtain ⟨rfl, mine⟩ := tag_unique h stored' stored key
    rw [alone other among mine, TagUse.removed, edit] at removed
    exact of_decide_eq_true (List.mem_filter.mp removed).2 stays

/-- And what is added are the new ones that are not empty. -/
theorem added_alone (here : use ∈ uses) (edit : use.edit = .save tags)
    (editable : use.evaluation.editable = true)
    (alone : ∀ other ∈ uses, other.evaluation.id = use.evaluation.id → other = use) :
    value ∈ (uses.flatMap fun use' => use'.puts use.evaluation.id) ↔
      (value ∈ tags ∧ value ∉ TagRow.evaluationTagsToStrings use.evaluation) ∧ value ≠ [] := by
  have puts : use.puts use.evaluation.id =
      (TagRow.toAdd use.evaluation tags).filter fun value => value ≠ [] := by
    simp [TagUse.puts, TagUse.added, edit, editable]
  have own : value ∈ use.puts use.evaluation.id ↔
      (value ∈ tags ∧ value ∉ TagRow.evaluationTagsToStrings use.evaluation) ∧ value ≠ [] := by
    rw [puts, TagRow.toAdd, List.mem_filter, List.mem_filter, decide_eq_true_eq,
      decide_eq_true_eq]
  rw [← own, List.mem_flatMap]
  constructor
  · rintro ⟨other, among, put⟩
    have mine : other.evaluation.id = use.evaluation.id := by
      by_contra apart
      rw [TagUse.puts, if_neg fun both => apart both.2] at put
      cases put
    rwa [alone other among mine] at put
  · exact fun put => ⟨use, here, put⟩

/-- Then the tags are the ones that were saved; an empty one is not stored anew. -/
theorem saved_alone (h : s.Consistent) (opened : ∀ use ∈ uses, use.Opened s) (here : use ∈ uses)
    (edit : use.edit = .save tags) (editable : use.evaluation.editable = true)
    (alone : ∀ other ∈ uses, other.evaluation.id = use.evaluation.id → other = use)
    {user : User} {shown dto : EvaluationDto}
    (listed : shown ∈ EvaluationsController.findAll s user) (merged : Merged uses shown dto)
    (same : dto.id = use.evaluation.id) (value : JsString) :
    value ∈ TagRow.evaluationTagsToStrings dto ↔ value ∈ tags ∧
      (value ≠ [] ∨ value ∈ TagRow.evaluationTagsToStrings use.evaluation) := by
  obtain ⟨after, new, rfl, merged, added⟩ := merged
  have same : shown.id = use.evaluation.id := same
  have tagsShown : shown.evaluationTags = use.evaluation.evaluationTags := by
    obtain ⟨evaluation, -, -, entry⟩ := (mem_listing h.tables).mp listed
    rw [(opened use here).tags_eq h, ← same]
    exact congrArg EvaluationDto.evaluationTags entry
  have old : value ∈ (use.evaluation.evaluationTags.filter fun tag =>
      ∀ use ∈ uses, ¬ use.takes tag.id).map EvaluationTagDto.value ↔
      value ∈ tags ∧ value ∈ TagRow.evaluationTagsToStrings use.evaluation := by
    rw [List.mem_map, TagRow.evaluationTagsToStrings, List.mem_map]
    constructor
    · rintro ⟨tag, kept, rfl⟩
      obtain ⟨inside, kept⟩ := List.mem_filter.mp kept
      have stays := kept_alone h opened here edit editable alone inside
      exact ⟨stays.mp (of_decide_eq_true kept), tag, inside, rfl⟩
    · rintro ⟨stays, tag, inside, rfl⟩
      have kept := (kept_alone h opened here edit editable alone inside).mpr stays
      exact ⟨tag, List.mem_filter.mpr ⟨inside, decide_eq_true kept⟩, rfl⟩
  have fresh : value ∈ new.map EvaluationTagDto.value ↔
      (value ∈ tags ∧ value ∉ TagRow.evaluationTagsToStrings use.evaluation) ∧ value ≠ [] := by
    rw [added.mem_iff, same]
    exact added_alone here edit editable alone
  rw [TagRow.evaluationTagsToStrings, (merged.map _).mem_iff, List.map_append, List.mem_append,
    tagsShown, old, fresh]
  tauto

end Alone

/-- Any number of users edit tags of the evaluations that they see, and all their requests
arrive in some order. A request is carried out if its entry is editable, unless its value is
empty or the tag to remove is gone. Afterwards an entry of a listing has the tags that nobody
took and all that were added, and where one user saved alone it has the tags that this user
saved. -/
theorem edited_tags_run (cfg : Config) {s : Store} (h : s.Consistent) {uses : List TagUse}
    (opened : ∀ use ∈ uses, use.Opened s) {order : List TagRequest}
    (arrival : (uses.flatMap TagUse.requests).Perm order) :
    let after := Lib.run (TagRequest.step cfg) s order
    Lib.Along (TagRequest.step cfg) (Answers cfg uses) s order ∧
    ∀ user, ((EvaluationsController.findAll after user).map EvaluationDto.id =
        (EvaluationsController.findAll s user).map EvaluationDto.id) ∧
      ∀ dto ∈ EvaluationsController.findAll after user,
        (∃ shown ∈ EvaluationsController.findAll s user, Merged uses shown dto) ∧
        ∀ use ∈ uses, ∀ tags, use.edit = .save tags → use.evaluation.editable = true →
          (∀ other ∈ uses, other.evaluation.id = use.evaluation.id → other = use) →
          dto.id = use.evaluation.id → ∀ value, value ∈ TagRow.evaluationTagsToStrings dto ↔
            value ∈ tags ∧
              (value ≠ [] ∨ value ∈ TagRow.evaluationTagsToStrings use.evaluation) := by
  have passed := arrival_calls arrival
  have old : ∀ call ∈ order.filterMap TagRequest.call?, TagCall s.nextTag call := by
    intro call asked
    obtain ⟨use, here, asked⟩ := List.mem_flatMap.mp (passed.mem_iff.mpr asked)
    exact (opened use here).tagCall h asked
  have after : Retagged s (order.filterMap TagRequest.call?)
      (Lib.run (TagRequest.step cfg) s order) := by
    have each : ∀ s request, TagRequest.step cfg s request =
        request.call?.elim s (Store.step cfg s) := fun _ _ => TagRequest.step_eq
    rw [Lib.run_filterMap each]
    exact Retagged.run cfg h old
  refine ⟨?_, fun user => ⟨?_, fun dto listed => ?_⟩⟩
  · refine (Lib.along_of_invariant (A := fun s' => s'.Consistent ∧ ∃ before, Retagged s before s')
      (D := fun _ request => request ∈ order) (fun s' request inv asked => ?_)
      (fun s' request inv asked => ?_)
      ⟨h, [], Retagged.refl s⟩ ((Lib.along_const s order).mpr fun _ asked => asked)).1
    · obtain ⟨h', before, reached⟩ := inv
      rw [TagRequest.step_eq]
      cases lets : request.call? with
      | none => exact ⟨h', before, reached⟩
      | some call =>
          have mine := old call (List.mem_filterMap.mpr ⟨request, asked, lets⟩)
          have next := Retagged.step cfg h' (mine.mono reached.grows)
          exact ⟨h'.step cfg call, _, reached.trans next fun c one =>
            List.mem_singleton.mp one ▸ mine⟩
    · obtain ⟨h', before, reached⟩ := inv
      exact answers_of_request h opened h' reached (arrival.mem_iff.mpr asked)
  · rw [listing_after after, List.map_map]
    rfl
  · obtain ⟨shown, seen, merged⟩ := merged_after h opened passed after listed
    exact ⟨⟨shown, seen, merged⟩, fun use here tags edit editable alone same value =>
      saved_alone h opened here edit editable alone seen merged same value⟩

end Saves

theorem sampleStore_user : (sampleStore.tables.findUser 1).isSome = true := by decide +kernel

def sampleOwner : User := (sampleStore.tables.findUser 1).get sampleStore_user

theorem sampleStore_listing :
    (EvaluationsController.findAll sampleStore sampleOwner).head?.isSome = true := by
  decide +kernel

def sampleEntry : EvaluationDto :=
  (EvaluationsController.findAll sampleStore sampleOwner).head?.get sampleStore_listing

/-- Two windows show the tag x; in one it becomes y, and in the other z is added. -/
def sampleUses : List TagUse :=
  [⟨sampleOwner, sampleEntry, .save [js "y"]⟩, ⟨sampleOwner, sampleEntry, .save [js "x", js "z"]⟩]

/-- A user who saves alone; one of the values is empty. -/
def sampleAlone : List TagUse := [⟨sampleOwner, sampleEntry, .save [js "y", []]⟩]

theorem sample_opened (tags : List JsString) :
    TagUse.Opened ⟨sampleOwner, sampleEntry, .save tags⟩ sampleStore := by
  have found : sampleStore.tables.findUser 1 = some sampleOwner := (Option.some_get _).symm
  have signedIn : sampleStore.tables.findUser sampleOwner.id = some sampleOwner := by
    rw [(Tables.findUser_some found).2, found]
  have listed : sampleEntry ∈ EvaluationsController.findAll sampleStore sampleOwner :=
    List.mem_of_mem_head? (Option.get_mem _)
  exact ⟨signedIn, listed, fun _ edit => by cases edit⟩

theorem sampleUses_opened : ∀ use ∈ sampleUses, use.Opened sampleStore := by
  intro use here
  simp only [sampleUses, List.mem_cons, List.not_mem_nil, or_false] at here
  rcases here with rfl | rfl
  · exact sample_opened _
  · exact sample_opened _

theorem sampleAlone_opened : ∀ use ∈ sampleAlone, use.Opened sampleStore := fun use here => by
  rw [List.mem_singleton.mp here]
  exact sample_opened _

theorem sampleEntry_editable : sampleEntry.editable = true := by decide +kernel

theorem sampleEntry_tags : [] ∉ TagRow.evaluationTagsToStrings sampleEntry := by decide +kernel

theorem edited_tags_run_sample :
    let order := (sampleUses.flatMap TagUse.requests).reverse
    let orderAlone := sampleAlone.flatMap TagUse.requests
    Lib.Along (TagRequest.step sampleConfig) (Answers sampleConfig sampleUses) sampleStore order ∧
    (∀ user, ∀ dto ∈ EvaluationsController.findAll
        (Lib.run (TagRequest.step sampleConfig) sampleStore order) user,
      ∃ shown ∈ EvaluationsController.findAll sampleStore user, Merged sampleUses shown dto) ∧
    ∀ user, ∀ dto ∈ EvaluationsController.findAll
        (Lib.run (TagRequest.step sampleConfig) sampleStore orderAlone) user,
      dto.id = sampleEntry.id →
        ∀ value, value ∈ TagRow.evaluationTagsToStrings dto ↔ value = js "y" := by
  have both := edited_tags_run sampleConfig sampleStore_consistent sampleUses_opened
    (List.reverse_perm _).symm
  have alone := edited_tags_run sampleConfig sampleStore_consistent sampleAlone_opened (.refl _)
  refine ⟨both.1, fun user dto listed => ((both.2 user).2 dto listed).1, ?_⟩
  intro user dto listed same value
  rw [((alone.2 user).2 dto listed).2 _ List.mem_cons_self _ rfl sampleEntry_editable
    (fun other here _ => List.mem_singleton.mp here) same value]
  constructor
  · rintro ⟨saved, stored⟩
    rcases List.mem_cons.mp saved with named | empty
    · exact named
    · obtain rfl := List.mem_singleton.mp empty
      exact absurd (stored.resolve_left fun no => no rfl) sampleEntry_tags
  · rintro rfl
    exact ⟨List.mem_cons_self, .inl (by decide)⟩

example : ((Lib.run (TagRequest.step sampleConfig) sampleStore
    (sampleUses.flatMap TagUse.requests).reverse).tagsOf 1).map (fun row => row.tag.value) =
      [js "z", js "y"] := by decide +kernel

end Remote
