import Mathlib.Data.List.Find
import Heimdall.Backend.Responses

/-!
# What the answers disclose

No answer depends on the columns about passwords. The answers to a user who may not read an
evaluation are those of a server without it, except that a request for its key is refused.
With the isolation of evaluations this holds in every state of a run, for every member of a
coalition without access.
-/
namespace Backend
open Js Casl

/-! The columns that no record of an answer holds. -/

def User.redact (user : User) : User :=
  { user with encryptedPassword := [], passwordChangedAt := none, forcePasswordChange := none }

def Member.redact (m : Member) : Member := { m with user := m.user.redact }

def LoadedGroup.redact (g : LoadedGroup) : LoadedGroup := { g with users := g.users.map .redact }

def LoadedEvaluation.redact (e : LoadedEvaluation) : LoadedEvaluation :=
  { e with groups := e.groups.map .redact }

def Tables.redact (db : Tables) : Tables := { db with users := db.users.map .redact }

def Store.redact (s : Store) : Store := { s with tables := s.tables.redact }

@[simp] theorem redact_createForUser (user : User) :
    createForUser user.redact = createForUser user := rfl

@[simp] theorem redact_group_target (g : LoadedGroup) : g.redact.target = g.target := by
  simp only [LoadedGroup.target, LoadedGroup.doc, LoadedGroup.redact, List.map_map]
  rfl

@[simp] theorem redact_evaluation_target (e : LoadedEvaluation) : e.redact.target = e.target := by
  have docs : ∀ g : LoadedGroup, g.redact.doc = g.doc := fun g => by
    simp only [LoadedGroup.doc, LoadedGroup.redact, List.map_map]
    rfl
  simp only [LoadedEvaluation.target, LoadedEvaluation.doc, LoadedEvaluation.redact, List.map_map,
    Function.comp_def, docs]

@[simp] theorem redact_groupDto (g : LoadedGroup) (role : Option JsString) :
    GroupDto.of g.redact role = GroupDto.of g role := by
  simp only [GroupDto.of, LoadedGroup.redact, List.map_map]
  rfl

@[simp] theorem redact_evaluationDto (e : LoadedEvaluation) (data : Option JsVal)
    (tags : List TagRow) (editable : Bool) :
    EvaluationDto.of e.redact data tags editable = EvaluationDto.of e data tags editable := by
  simp only [EvaluationDto.of, LoadedEvaluation.redact, List.map_map, Function.comp_def,
    redact_groupDto]

namespace Tables
variable (db : Tables)

theorem redact_findUser (u : ℕ) : db.redact.findUser u = (db.findUser u).map .redact := by
  simp only [findUser, Lib.pick, redact, List.find?_map]
  rfl

theorem redact_usersOf (g : ℕ) : db.redact.usersOf g = (db.usersOf g).map .redact := by
  unfold usersOf
  rw [List.map_filterMap]
  refine List.filterMap_congr fun row _ => ?_
  unfold joinUser
  split
  · cases id : row.userId with
    | none => rfl
    | some u =>
        rw [Option.bind_some, Option.bind_some, redact_findUser]
        cases db.findUser u <;> rfl
  · rfl

theorem redact_loadGroup (g : ℕ) : db.redact.loadGroup g = (db.loadGroup g).map .redact := by
  simp only [loadGroup, redact_usersOf]
  rw [Option.map_map]
  rfl

theorem redact_groupsOf (e : ℕ) : db.redact.groupsOf e = (db.groupsOf e).map .redact := by
  rw [groupsOf_eq, groupsOf_eq, List.map_filterMap]
  refine List.filterMap_congr fun g _ => ?_
  rw [redact_loadGroup]

theorem redact_loadEvaluation (e : ℕ) :
    db.redact.loadEvaluation e = (db.loadEvaluation e).map .redact := by
  simp only [loadEvaluation, redact_groupsOf]
  rw [Option.map_map]
  rfl

end Tables

theorem redact_subject (db : Tables) (row : TagRow) :
    row.subject db.redact = row.subject db := by
  unfold TagRow.subject
  cases row.evaluationId with
  | none => rfl
  | some e =>
      rw [Option.bind_some, Option.bind_some, db.redact_loadEvaluation]
      cases db.loadEvaluation e with
      | none => rfl
      | some evaluation => exact redact_evaluation_target evaluation

section Redacted
variable (s : Store) (user : User)

theorem redact_evaluations : EvaluationsController.findAll s.redact user.redact =
    EvaluationsController.findAll s user := by
  have rows : EvaluationsService.findAll s.redact.tables =
      (EvaluationsService.findAll s.tables).map .redact := by
    simp only [EvaluationsService.findAll, Store.redact, Tables.redact_groupsOf, List.map_map]
    rfl
  simp only [EvaluationsController.findAll, rows, List.filter_map, List.map_map,
    Function.comp_def, redact_createForUser, redact_evaluation_target, redact_evaluationDto]
  rfl

theorem redact_groups : GroupsController.findAll s.redact user.redact =
    GroupsController.findAll s user := by
  have rows : GroupsService.findAll s.redact.tables =
      (GroupsService.findAll s.tables).map .redact := by
    simp only [GroupsService.findAll, Store.redact, Tables.redact_usersOf, List.map_map]
    rfl
  simp only [GroupsController.findAll, rows, List.filter_map, List.map_map, Function.comp_def,
    redact_createForUser, redact_group_target, redact_groupDto]

theorem redact_myGroups : GroupsController.findForUser s.redact user.redact =
    GroupsController.findForUser s user := by
  refine List.filterMap_congr fun row _ => ?_
  change (if row.userId = some user.id then _ else _) = _
  split
  · cases row.groupId with
    | none => rfl
    | some g =>
        rw [Option.bind_some, Option.bind_some, Store.redact, Tables.redact_loadGroup,
          Option.map_map]
        simp only [Function.comp_def, redact_groupDto]
  · rfl

theorem redact_tags : EvaluationTagsController.index s.redact user.redact =
    EvaluationTagsController.index s user := by
  simp only [EvaluationTagsController.index, Store.redact, redact_subject, redact_createForUser]

theorem redact_evaluation (id : ℕ) : EvaluationsController.findById s.redact user.redact id =
    EvaluationsController.findById s user id := by
  simp only [EvaluationsController.findById, EvaluationsService.findById, Store.redact,
    Tables.redact_loadEvaluation, Lib.orThrow_map_bind, redact_createForUser,
    redact_evaluation_target, redact_evaluationDto]
  rfl

theorem redact_groupsForEvaluation (id : ℕ) :
    EvaluationsController.groupsForEvaluation s.redact user.redact id =
      EvaluationsController.groupsForEvaluation s user id := by
  simp only [EvaluationsController.groupsForEvaluation, EvaluationsService.findById, Store.redact,
    Tables.redact_loadEvaluation, Lib.orThrow_map_bind, redact_createForUser,
    LoadedEvaluation.redact, List.filter_map, List.map_map, Function.comp_def,
    redact_group_target, redact_groupDto]

theorem redact_group (id : ℕ) : GroupsController.findById s.redact user.redact id =
    GroupsController.findById s user id := by
  simp only [GroupsController.findById, GroupsService.findByPkBang, Store.redact,
    Tables.redact_loadGroup, Lib.orThrow_map_bind, redact_createForUser, redact_group_target,
    redact_groupDto]

theorem redact_tag (id : ℕ) : EvaluationTagsController.findById s.redact user.redact id =
    EvaluationTagsController.findById s user id := by
  simp only [EvaluationTagsController.findById, Store.redact, redact_subject,
    redact_createForUser]
  rfl

theorem redact_user (id : ℕ) : UsersController.findUserById s.redact user.redact id =
    UsersController.findUserById s user id := by
  simp only [UsersController.findUserById, findByPkBang, Store.redact, Tables.redact_findUser,
    Lib.orThrow_map_bind, redact_createForUser]
  rfl

theorem redact_slimUsers : UsersController.findAllUsers s.redact user.redact =
    UsersController.findAllUsers s user := by
  simp only [UsersController.findAllUsers, Store.redact, Tables.redact, List.map_map,
    redact_createForUser]
  rfl

theorem redact_users : UsersController.adminFindAllUsers s.redact user.redact =
    UsersController.adminFindAllUsers s user := by
  simp only [UsersController.adminFindAllUsers, Store.redact, Tables.redact, List.map_map,
    redact_createForUser]
  rfl

theorem redact_statistics : StatisticsController.getHeimdallStatistics s.redact user.redact =
    StatisticsController.getHeimdallStatistics s user := by
  simp only [StatisticsController.getHeimdallStatistics, Store.redact, Tables.redact,
    List.length_map, redact_createForUser]

theorem respond_redact (q : ReadRequest) : s.redact.respond user.redact q = s.respond user q := by
  cases q <;> simp only [Store.respond, redact_evaluations, redact_evaluation,
    redact_groupsForEvaluation, redact_tags, redact_tag, redact_groups, redact_myGroups,
    redact_group, redact_slimUsers, redact_user, redact_users, redact_statistics]

end Redacted

/-- Stores that differ in the columns about passwords alone give the same answers. -/
theorem respond_secret {s s' : Store} {user user' : User} (stores : s.redact = s'.redact)
    (callers : user.redact = user'.redact) (q : ReadRequest) :
    s.respond user q = s'.respond user' q := by
  rw [← respond_redact s user, stores, callers, respond_redact]

/-- The answers of a server whose passwords were all emptied. -/
theorem respond_secret_sample : ∃ user, sampleStore.tables.findUser 1 = some user ∧
    sampleStore.respond user .users = sampleStore.redact.respond user .users := by
  have present : (sampleStore.tables.findUser 1).isSome = true := by decide +kernel
  obtain ⟨user, known⟩ := Option.isSome_iff_exists.mp present
  refine ⟨user, known, respond_secret ?_ rfl .users⟩
  simp only [Store.redact, Tables.redact, List.map_map]
  rfl

/-! The answers without an evaluation. -/

def Store.without (s : Store) (e : ℕ) : Store :=
  { s.destroyTagsOf e with tables := s.tables.destroyEvaluation e }

/-- The request gives the key of the evaluation or of one of its tags. -/
def ReadRequest.Names (s : Store) (e : ℕ) (q : ReadRequest) : Prop :=
  q = .evaluation e ∨ q = .groupsForEvaluation e ∨
    ∃ row ∈ s.tagsOf e, q = .evaluationTag row.id

/-- The text of a refusal. -/
def refusal (action : Action) (t : SubjectType) : String :=
  "Cannot execute \"" ++ action.text ++ "\" on \"" ++ t.text ++ "\""

theorem throwUnlessCan_denied {abac : AppAbility} {action : Action} {target : Target SubjectType}
    (no : abac.allows action target = false) : throwUnlessCan abac action target =
      .error (.forbidden (refusal action target.subjectType)) := by
  rw [throwUnlessCan, no]
  rfl

/-- What a user learns about an evaluation: nothing, but for a refusal that shows its key. -/
structure Hidden (s : Store) (user : User) (e : ℕ) : Prop where
  refused : ∀ q : ReadRequest, q.Names s e →
    s.respond user q = .error (.forbidden (refusal .read .evaluation)) ∨
      s.respond user q = .ok (.groups [])
  unseen : ∀ q : ReadRequest, ¬ q.Names s e → s.respond user q = (s.without e).respond user q

section Outsider
variable {s : Store} {user : User} {e : ℕ} {loaded : LoadedEvaluation}

theorem without_loadEvaluation {other : ℕ} (apart : other ≠ e) :
    (s.without e).tables.loadEvaluation other = s.tables.loadEvaluation other := by
  refine Tables.loadEvaluation_congr ?_ (Tables.groupIdsOf_destroyEvaluation apart) fun _ _ => rfl
  exact (Tables.findEvaluation_destroyEvaluation e other).trans (if_neg apart)

theorem without_groupsOf {other : ℕ} (apart : other ≠ e) :
    (s.without e).tables.groupsOf other = s.tables.groupsOf other := by
  rw [Tables.groupsOf_eq, Tables.groupsOf_eq]
  exact congrArg _ (Tables.groupIdsOf_destroyEvaluation apart)

theorem without_tagsOf {other : ℕ} (apart : other ≠ e) :
    (s.without e).tagsOf other = s.tagsOf other := Store.tagsOf_destroyTagsOf apart

theorem without_subject {row : TagRow} (apart : row.evaluationId ≠ some e) :
    row.subject (s.without e).tables = row.subject s.tables := by
  unfold TagRow.subject
  cases id : row.evaluationId with
  | none => rfl
  | some other =>
      have differ : other ≠ e := fun same => apart (id.trans (congrArg some same))
      rw [Option.bind_some, Option.bind_some, without_loadEvaluation differ]

variable (found : s.tables.loadEvaluation e = some loaded)
  (denied : (createForUser user).allows .read loaded.target = false)
include found denied

theorem unseen_evaluations (h : s.Consistent) :
    EvaluationsController.findAll s user = EvaluationsController.findAll (s.without e) user := by
  simp only [EvaluationsController.findAll, EvaluationsService.findAll, List.filter_map,
    List.map_map]
  refine (Lib.listing_filter (fun row here gone => ?_) fun row here stays => ?_).symm
  · have mine : row.id = e := by simpa using gone
    have same := loadEvaluation_of_mem h.tables here
    rw [mine, found] at same
    simp only [Function.comp_apply, mine, ← Option.some.inj same, denied]
  · have apart : row.id ≠ e := by simpa using stays
    simp only [Function.comp_apply, without_groupsOf apart, without_tagsOf apart, and_self]

theorem denied_tag {row : TagRow} (mine : row.evaluationId = some e) :
    (createForUser user).allows .read (row.subject s.tables) = false := by
  rw [TagRow.subject, mine, Option.bind_some, found]
  exact denied

theorem unseen_tags :
    EvaluationTagsController.index s user = EvaluationTagsController.index (s.without e) user := by
  refine (Lib.listing_filter (fun row here gone => ?_) fun row here stays => ?_).symm
  · exact denied_tag found denied (by simpa using gone)
  · have apart : row.evaluationId ≠ some e := by simpa using stays
    rw [without_subject apart]
    exact ⟨rfl, rfl⟩

omit found denied in
theorem unseen_evaluation {id : ℕ} (apart : id ≠ e) :
    EvaluationsController.findById s user id =
      EvaluationsController.findById (s.without e) user id := by
  unfold EvaluationsController.findById EvaluationsService.findById
  rw [without_loadEvaluation apart]
  refine Lib.orThrow_bind_congr fun evaluation there => ?_
  obtain ⟨rfl, -, -⟩ := loadEvaluation_id there
  rw [without_tagsOf apart]

omit found denied in
theorem unseen_groupsForEvaluation {id : ℕ} (apart : id ≠ e) :
    EvaluationsController.groupsForEvaluation s user id =
      EvaluationsController.groupsForEvaluation (s.without e) user id := by
  unfold EvaluationsController.groupsForEvaluation EvaluationsService.findById
  rw [without_loadEvaluation apart]

omit found denied in
theorem unseen_tag {id : ℕ} (apart : ∀ row ∈ s.tagsOf e, id ≠ row.id) :
    EvaluationTagsController.findById s user id =
      EvaluationTagsController.findById (s.without e) user id := by
  have same : (s.without e).findTag id = s.findTag id := by
    change List.find? _ (List.filter _ _) = _
    rw [List.find?_filter]
    refine List.find?_congr fun row here => ?_
    by_cases mine : row.evaluationId = some e
    · have other := apart row (List.mem_filter.mpr ⟨here, by simpa using mine⟩)
      simp [mine, other.symm]
    · simp [mine]
  unfold EvaluationTagsController.findById EvaluationTagsService.findByPkBang
  rw [same]
  refine Lib.orThrow_bind_congr fun row there => ?_
  have away : row.evaluationId ≠ some e := fun mine =>
    apart row (List.mem_filter.mpr ⟨(Lib.pick_some there).1, by simpa using mine⟩)
      (Lib.pick_some there).2.symm
  rw [without_subject away]

theorem refused_tag (h : s.Consistent) {row : TagRow} (tag : row ∈ s.tagsOf e) :
    EvaluationTagsController.findById s user row.id =
      .error (.forbidden (refusal .read .evaluation)) := by
  obtain ⟨here, mine⟩ := List.mem_filter.mp tag
  have mine : row.evaluationId = some e := by simpa using mine
  have there : s.findTag row.id = some row := Lib.pick_of_mem h.tagKeys.nodup here
  have no := throwUnlessCan_denied (denied_tag found denied mine)
  have subject : (row.subject s.tables).subjectType = .evaluation := by
    rw [TagRow.subject, mine, Option.bind_some, found]
    rfl
  rw [subject] at no
  unfold EvaluationTagsController.findById EvaluationTagsService.findByPkBang
  rw [there]
  change (throwUnlessCan _ _ _ >>= fun _ => _) = _
  rw [no]
  rfl

theorem refused_evaluation : EvaluationsController.findById s user e =
    .error (.forbidden (refusal .read .evaluation)) := by
  unfold EvaluationsController.findById EvaluationsService.findById
  rw [found]
  change (throwUnlessCan _ _ _ >>= fun _ => _) = _
  rw [throwUnlessCan_denied denied]
  rfl

/-- The groups of the evaluation are not those of the user. -/
theorem refused_groups (h : s.Consistent) :
    EvaluationsController.groupsForEvaluation s user e = .ok [] := by
  have none : loaded.groups.filter (fun group =>
      (createForUser user).allows .addEvaluation group.target &&
        (createForUser user).allows .removeEvaluation group.target) = [] := by
    rw [List.filter_eq_nil_iff]
    intro group here may
    rw [Bool.and_eq_true] at may
    rw [(loadEvaluation_id found).2.2] at here
    obtain ⟨g, contains, there⟩ := Tables.mem_groupsOf.mp here
    rw [← Bool.not_eq_true, h.tables.allows_read found] at denied
    rcases (member_of_allows h.tables there List.mem_cons_self).mp may.1 with admin | ⟨role, has⟩
    · exact denied (.inl admin)
    · exact denied (.inr (.inr (.inr ⟨g, role, contains, has⟩)))
  unfold EvaluationsController.groupsForEvaluation EvaluationsService.findById
  rw [found]
  change Except.ok (List.map _ (loaded.groups.filter _)) = _
  rw [none]
  rfl

theorem unseen_statistics (h : s.Consistent) :
    StatisticsController.getHeimdallStatistics s user =
      StatisticsController.getHeimdallStatistics (s.without e) user := by
  have plain : user.isAdmin = false := by
    rw [← Bool.not_eq_true]
    intro admin
    rw [← Bool.not_eq_true, h.tables.allows_read found] at denied
    exact denied (.inl admin)
  have no : (createForUser user).allows .viewStatistics (.type .user) = false := by
    rw [← Bool.not_eq_true, allows_user_type, plain]
    decide
  unfold StatisticsController.getHeimdallStatistics throwUnlessCan
  rw [no]
  rfl

/-- A user who may not read the evaluation learns nothing about it. -/
theorem hidden_of_denied (h : s.Consistent) : Hidden s user e := by
  refine ⟨fun q names => ?_, fun q other => ?_⟩
  · rcases names with rfl | rfl | ⟨row, here, rfl⟩
    · exact .inl (by rw [Store.respond, refused_evaluation found denied]; rfl)
    · exact .inr (by rw [Store.respond, refused_groups found denied h]; rfl)
    · exact .inl (by rw [Store.respond, refused_tag found denied h here]; rfl)
  · simp only [ReadRequest.Names, not_or, not_exists, not_and] at other
    cases q with
    | evaluations => rw [Store.respond, unseen_evaluations found denied h, Store.respond]
    | evaluation id =>
        have apart : id ≠ e := fun same => other.1 (congrArg _ same)
        rw [Store.respond, unseen_evaluation apart, Store.respond]
    | groupsForEvaluation id =>
        have apart : id ≠ e := fun same => other.2.1 (congrArg _ same)
        rw [Store.respond, unseen_groupsForEvaluation apart, Store.respond]
    | evaluationTags => rw [Store.respond, unseen_tags found denied, Store.respond]
    | evaluationTag id =>
        have apart : ∀ row ∈ s.tagsOf e, id ≠ row.id :=
          fun row here same => other.2.2 row here (congrArg _ same)
        rw [Store.respond, unseen_tag apart, Store.respond]
    | statistics => rw [Store.respond, unseen_statistics found denied h, Store.respond]
    | _ => rfl

end Outsider

/-- What the steps of the tables are for the whole store. -/
theorem Store.Consistent.step_tables {s : Store} (h : s.Consistent) (cfg : Config)
    (call : StoreCall) : (s.step cfg call).tables = s.tables ∨
      ∃ c values, call = .other c values ∧
        (s.step cfg call).tables = (Database.step cfg ⟨s.tables, h.tables⟩ c).tables := by
  rcases step_effect cfg s call with same | effect
  · exact .inl (congrArg Store.tables same)
  generalize s.step cfg call = s' at effect
  cases effect with
  | other db effect permitted same =>
      exact .inr ⟨_, _, rfl, by rw [Store.afterCall_tables, same]; rfl⟩
  | createTag => exact .inl rfl
  | removeTag => exact .inl rfl

/-- Along every run of calls of a coalition without access to a private evaluation, whatever
its members ask, they learn nothing about it, and it stays as it is with its tags. -/
theorem confidentiality_run (cfg : Config) {s : Store} (h : s.Consistent) {e : ℕ}
    {loaded : LoadedEvaluation} (found : s.tables.loadEvaluation e = some loaded)
    (hidden : loaded.evaluation.isPublic = false) (coalition : Set ℕ)
    (outside : ∀ u ∈ coalition, ¬ s.tables.May .read u e) (calls : List StoreCall)
    (callers : ∀ call ∈ calls, ∀ u, call.token = some u → u ∈ coalition) :
    Lib.Throughout (Store.step cfg)
      (fun now => now.tables.loadEvaluation e = some loaded ∧ now.tagsOf e = s.tagsOf e ∧
        ∀ u ∈ coalition, ∀ user, now.tables.findUser u = some user → Hidden now user e)
      s calls := by
  refine Lib.Throughout.of_invariant (A := fun now : Store => now.Consistent ∧
    now.tables.loadEvaluation e = some loaded ∧ now.tagsOf e = s.tagsOf e ∧
      ∀ u ∈ coalition, ¬ now.tables.May .read u e)
    (D := fun _ call => ∀ u, call.token = some u → u ∈ coalition) ?_ ?_
    ⟨h, found, rfl, outside⟩ ((Lib.along_const s calls).mpr callers)
  · rintro now call ⟨h, found, tags, outside⟩ caller
    have away : ∀ user, call.user now.tables = some user →
        ¬ now.tables.May .read user.id e := by
      intro user signedIn
      obtain ⟨u, token, known⟩ := Option.bind_eq_some_iff.mp signedIn
      rw [(Tables.findUser_some known).2]
      exact outside u (caller u token)
    refine ⟨h.step cfg call, ?_⟩
    have kept : (now.step cfg call).tagsOf e = now.tagsOf e := by
      by_contra changed
      obtain ⟨user, signedIn, may⟩ :=
        tagAuthority_step h cfg call e _ (loadEvaluation_id found).2.1 changed
      have writer := (h.tables.may_iff List.mem_cons_self).mp may
      exact away user signedIn (h.tables.may_read_iff.mpr writer.reader)
    rcases h.step_tables cfg call with same | ⟨c, values, rfl, same⟩
    · rw [same]
      exact ⟨found, kept.trans tags, outside⟩
    · obtain ⟨stays, readers⟩ := outside_step cfg (d := ⟨now.tables, h.tables⟩) found away
      rw [same]
      refine ⟨stays, kept.trans tags, fun u member gained => ?_⟩
      rcases readers u gained with before | ⟨-, isPublic⟩
      · exact outside u member before
      · rw [hidden] at isPublic
        cases isPublic
  · rintro now ⟨h, found, tags, outside⟩
    refine ⟨found, tags, fun u member user known => hidden_of_denied found ?_ h⟩
    rw [← Bool.not_eq_true]
    exact fun can => outside u member (Tables.may_iff_exists.mpr ⟨user, loaded, known, found, can⟩)

theorem confidentiality_run_sample :
    ∃ loaded, sampleStore.tables.loadEvaluation 1 = some loaded ∧
      Lib.Throughout (Store.step sampleConfig)
        (fun now => now.tables.loadEvaluation 1 = some loaded ∧
          now.tagsOf 1 = sampleStore.tagsOf 1 ∧ ∀ u ∈ ({2} : Set ℕ), ∀ user,
            now.tables.findUser u = some user → Hidden now user 1)
        sampleStore [.removeTag (some 2) 1, .other (sampleCall 2 (.addEvaluationToGroup 1 ⟨1⟩)) []] := by
  have loads : (sampleStore.tables.loadEvaluation 1).map (fun e => e.evaluation.isPublic) =
      some false := by decide +kernel
  obtain ⟨loaded, found, hidden⟩ := Option.map_eq_some_iff.mp loads
  have denied : sampleStore.tables.can .read 2 1 = false := by decide +kernel
  refine ⟨loaded, found, confidentiality_run sampleConfig sampleStore_consistent found hidden {2}
    ?_ _ ?_⟩
  · rintro u rfl may
    exact absurd (denied.symm.trans may) (by decide)
  · intro call here u token
    simp only [List.mem_cons, List.not_mem_nil, or_false] at here
    rcases here with rfl | rfl <;> exact (Option.some.inj token).symm

end Backend
