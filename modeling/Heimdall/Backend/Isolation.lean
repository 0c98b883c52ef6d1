import Heimdall.Backend.Escalation
import Heimdall.Backend.Roles

/-!
# Isolation of evaluations

An evaluation is served with its groups and their members. A caller who may not read it
changes nothing of this and gives nobody access to it, whatever the request. So a coalition
of callers without access never gains access, along any run of its calls.
-/
namespace Backend
open Js Casl

namespace Tables
variable {db db' : Tables}

/-! What is loaded with a group depends on its own rows. -/

theorem usersOf_insertUser (h : db.Consistent) (user : User) (g : ℕ) :
    (db.insertUser user).usersOf g = db.usersOf g := by
  apply List.filterMap_congr
  intro row here
  unfold joinUser
  congr 2
  cases id : row.userId with
  | none => rfl
  | some u =>
      obtain ⟨known, found⟩ := Lib.mem_key_iff.mp (h.memberUsers row here u id)
      rw [Option.bind_some, Option.bind_some, findUser_insertUser h, if_neg]
      rintro rfl
      exact absurd (h.findUser_next.symm.trans found) (by simp)

theorem usersOf_saveUser {user : User} {g : ℕ} (outside : ∀ role, ¬ db.HasRole g user.id role) :
    (db.saveUser user).usersOf g = db.usersOf g := by
  apply List.filterMap_congr
  intro row here
  unfold joinUser
  split
  · rename_i mine
    cases id : row.userId with
    | none => rfl
    | some u =>
        rw [Option.bind_some, Option.bind_some, findUser_saveUser, if_neg]
        rintro rfl
        exact outside row.role ⟨row, here, mine, id, rfl⟩
  · rfl

theorem usersOf_destroyUser {d g : ℕ} (outside : ∀ role, ¬ db.HasRole g d role) :
    (db.destroyUser d).usersOf g = db.usersOf g := by
  change List.filterMap _ (List.map _ _) = _
  rw [List.filterMap_map]
  apply List.filterMap_congr
  intro row here
  by_cases mine : row.groupId = some g
  · have other : row.userId ≠ some d := fun id => outside row.role ⟨row, here, mine, id, rfl⟩
    have kept : Lib.clear d row.userId = row.userId := if_neg other
    simp only [Function.comp_apply, kept, joinUser]
    congr 2
    cases id : row.userId with
    | none => rfl
    | some u =>
        rw [Option.bind_some, Option.bind_some, findUser_destroyUser, if_neg]
        rintro rfl
        exact other id
  · simp [joinUser, mine]

theorem joinUser_other {g : ℕ} {row : GroupUser} (other : row.groupId ≠ some g) :
    db.joinUser g row = none := if_neg other

theorem usersOf_destroyGroup {d g : ℕ} (other : g ≠ d) :
    (db.destroyGroup d).usersOf g = db.usersOf g := by
  change List.filterMap _ (List.map _ _) = _
  rw [List.filterMap_map]
  apply List.filterMap_congr
  intro row _
  by_cases gone : row.groupId = some d
  · have cleared : Lib.clear d row.groupId = none := if_pos gone
    have apart : row.groupId ≠ some g := by
      rw [gone]
      exact fun same => other (Option.some.inj same).symm
    rw [Function.comp_apply, joinUser_other apart, joinUser_other]
    simp [cleared]
  · have kept : Lib.clear d row.groupId = row.groupId := if_neg gone
    simp only [Function.comp_apply, kept]
    rfl

theorem usersOf_addUser {g g' u : ℕ} {role : JsString} (other : g' ≠ g) :
    (db.addUser g u role).usersOf g' = db.usersOf g' := by
  have apart : some g ≠ some g' := fun same => other (Option.some.inj same).symm
  unfold usersOf addUser
  split
  · rw [List.filterMap_map]
    apply List.filterMap_congr
    intro row _
    by_cases mine : row.joins g u = true
    · have away : row.groupId ≠ some g' := (GroupUser.joins_iff.mp mine).1 ▸ apart
      rw [Function.comp_apply, if_pos mine, joinUser_other away]
      exact joinUser_other away
    · rw [Function.comp_apply, if_neg mine]
      rfl
  · rw [List.filterMap_append, List.filterMap_cons, joinUser_other apart]
    exact List.append_nil _

theorem usersOf_removeUser {g g' u : ℕ} (other : g' ≠ g) :
    (db.removeUser g u).usersOf g' = db.usersOf g' := by
  change List.filterMap _ (List.filter _ _) = _
  rw [List.filterMap_filter]
  apply List.filterMap_congr
  intro row _
  by_cases mine : row.joins g u = true
  · have away : row.groupId ≠ some g' := by
      rw [(GroupUser.joins_iff.mp mine).1]
      exact fun same => other (Option.some.inj same).symm
    rw [mine]
    exact (joinUser_other away).symm
  · rw [Bool.not_eq_true] at mine
    rw [mine]
    rfl

/-! What is loaded with an evaluation depends on the groups that contain it. -/

/-- The groups of an evaluation, in the order of the rows. -/
def groupIdsOf (db : Tables) (e : ℕ) : List ℕ :=
  db.groupEvaluations.filterMap fun row => if row.evaluationId = some e then row.groupId else none

theorem mem_groupIdsOf {g e : ℕ} : g ∈ db.groupIdsOf e ↔ db.Contains g e := by
  simp only [groupIdsOf, List.mem_filterMap, Contains]
  constructor
  · rintro ⟨row, here, named⟩
    split at named
    · exact ⟨row, here, named, ‹_›⟩
    · cases named
  · rintro ⟨row, here, named, mine⟩
    exact ⟨row, here, by rw [if_pos mine, named]⟩

theorem groupIdsOf_destroyGroup {d e : ℕ} (outside : ¬ db.Contains d e) :
    (db.destroyGroup d).groupIdsOf e = db.groupIdsOf e := by
  change List.filterMap _ (List.map _ _) = _
  rw [List.filterMap_map]
  apply List.filterMap_congr
  intro row here
  by_cases mine : row.evaluationId = some e
  · have kept : Lib.clear d row.groupId = row.groupId :=
      if_neg fun named => outside ⟨row, here, named, mine⟩
    simp only [Function.comp_apply, kept]
  · simp [mine]

theorem groupIdsOf_destroyEvaluation {d e : ℕ} (other : e ≠ d) :
    (db.destroyEvaluation d).groupIdsOf e = db.groupIdsOf e := by
  change List.filterMap _ (List.map _ _) = _
  rw [List.filterMap_map]
  apply List.filterMap_congr
  intro row _
  have same : Lib.clear d row.evaluationId = some e ↔ row.evaluationId = some e := by
    rw [Lib.clear_eq_some]
    exact and_iff_right other
  simp only [Function.comp_apply, same]

theorem groupIdsOf_addEvaluation {g e e' : ℕ} (other : e' ≠ e) :
    (db.addEvaluation g e).groupIdsOf e' = db.groupIdsOf e' := by
  unfold groupIdsOf addEvaluation
  split
  · rfl
  · rw [List.filterMap_append, List.filterMap_cons,
      if_neg fun same => other (Option.some.inj same).symm]
    exact List.append_nil _

theorem groupIdsOf_removeEvaluation {g e e' : ℕ} (outside : e' = e → ¬ db.Contains g e) :
    (db.removeEvaluation g e).groupIdsOf e' = db.groupIdsOf e' := by
  change List.filterMap _ (List.filter _ _) = _
  rw [List.filterMap_filter]
  apply List.filterMap_congr
  intro row here
  by_cases joined : row.joins g e = true
  · obtain ⟨named, mine⟩ := GroupEvaluation.joins_iff.mp joined
    have away : row.evaluationId ≠ some e' := by
      intro same
      have same : e' = e := Option.some.inj (same.symm.trans mine)
      exact outside same ⟨row, here, named, mine⟩
    rw [joined, if_neg away]
    rfl
  · rw [Bool.not_eq_true] at joined
    rw [joined]
    rfl

theorem groupsOf_eq (e : ℕ) : db.groupsOf e = (db.groupIdsOf e).filterMap db.loadGroup := by
  unfold groupsOf groupIdsOf
  rw [List.filterMap_filterMap]
  apply List.filterMap_congr
  intro row _
  split <;> rfl

theorem loadEvaluation_congr {e : ℕ} (stored : db'.findEvaluation e = db.findEvaluation e)
    (ids : db'.groupIdsOf e = db.groupIdsOf e)
    (groups : ∀ g, db.Contains g e → db'.loadGroup g = db.loadGroup g) :
    db'.loadEvaluation e = db.loadEvaluation e := by
  unfold loadEvaluation
  rw [stored]
  cases found : db.findEvaluation e with
  | none => rfl
  | some evaluation =>
      obtain ⟨-, rfl⟩ := findEvaluation_some found
      have same : db'.groupsOf evaluation.id = db.groupsOf evaluation.id := by
        rw [groupsOf_eq, groupsOf_eq, ids]
        exact List.filterMap_congr fun g here => groups g (mem_groupIdsOf.mp here)
      rw [Option.map_some, Option.map_some, same]

theorem loadGroup_congr {g : ℕ} (found : db'.findGroup g = db.findGroup g)
    (members : db'.usersOf g = db.usersOf g) : db'.loadGroup g = db.loadGroup g := by
  unfold loadGroup
  rw [found]
  cases here : db.findGroup g with
  | none => rfl
  | some group =>
      obtain ⟨-, rfl⟩ := findGroup_some here
      rw [Option.map_some, Option.map_some, members]

/-- Where read access comes from. -/
def Reader (db : Tables) (u e : ℕ) : Prop :=
  ∃ user evaluation, db.findUser u = some user ∧ db.findEvaluation e = some evaluation ∧
    (user.isAdmin = true ∨ evaluation.userId = some u ∨ evaluation.isPublic = true ∨
      ∃ g role, db.Contains g e ∧ db.HasRole g u role)

/-- The members of the groups that are loaded with an evaluation, as a relation. -/
theorem Consistent.groupsOf_member (h : db.Consistent) {u e : ℕ} :
    (∃ g ∈ db.groupsOf e, g.hasMember u = true) ↔
      ∃ g role, db.Contains g e ∧ db.HasRole g u role := by
  constructor
  · rintro ⟨g, hg, member⟩
    obtain ⟨id, contains, found⟩ := mem_groupsOf.mp hg
    obtain ⟨m, hm, isUser⟩ := LoadedGroup.hasMember_iff.mp member
    rw [(loadGroup_id found).2.2] at hm
    exact ⟨id, m.groupUser.role, contains, h.hasRole_iff.mpr ⟨m, hm, isUser, rfl⟩⟩
  · rintro ⟨id, role, contains, has⟩
    obtain ⟨group, found⟩ := (h.contains_keys contains).1
    obtain ⟨m, hm, isUser, -⟩ := h.hasRole_iff.mp has
    obtain ⟨-, same⟩ := findGroup_some found
    refine ⟨⟨group, db.usersOf group.id⟩, mem_groupsOf.mpr ⟨id, contains, ?_⟩,
      LoadedGroup.hasMember_iff.mpr ⟨m, ?_, isUser⟩⟩
    · rw [loadGroup, found]
      rfl
    · rw [same]
      exact hm

theorem Consistent.allows_read (h : db.Consistent) {user : User} {e : ℕ}
    {evaluation : LoadedEvaluation} (loaded : db.loadEvaluation e = some evaluation) :
    (createForUser user).allows .read evaluation.target = true ↔
      user.isAdmin = true ∨ evaluation.evaluation.userId = some user.id ∨
        evaluation.evaluation.isPublic = true ∨
        ∃ g role, db.Contains g e ∧ db.HasRole g user.id role := by
  have owners : (∃ g ∈ db.groupsOf e, g.hasOwner user.id = true) →
      ∃ g ∈ db.groupsOf e, g.hasMember user.id = true := fun ⟨g, hg, owner⟩ =>
    ⟨g, hg, LoadedGroup.hasMember_of_hasOwner owner⟩
  rw [LoadedEvaluation.target, allows_evaluation, (loadEvaluation_id loaded).2.2,
    ← h.groupsOf_member]
  simp only [reduceCtorEq, false_or, true_and]
  generalize (∃ g ∈ db.groupsOf e, g.hasMember user.id = true) = member at owners ⊢
  generalize (∃ g ∈ db.groupsOf e, g.hasOwner user.id = true) = owner at owners ⊢
  tauto

theorem Consistent.may_read_iff (h : db.Consistent) {u e : ℕ} :
    db.May .read u e ↔ db.Reader u e := by
  rw [may_iff_exists]
  constructor
  · rintro ⟨user, evaluation, found, loaded, can⟩
    have source := (h.allows_read loaded).mp can
    rw [(findUser_some found).2] at source
    exact ⟨user, evaluation.evaluation, found, (loadEvaluation_id loaded).2.1, source⟩
  · rintro ⟨user, evaluation, found, stored, source⟩
    have loaded : db.loadEvaluation e = some ⟨evaluation, db.groupsOf evaluation.id⟩ := by
      rw [loadEvaluation, stored]
      rfl
    refine ⟨user, _, found, loaded, (h.allows_read loaded).mpr ?_⟩
    rw [(findUser_some found).2]
    exact source

/-- Whoever may write may read. -/
theorem Writer.reader {u e : ℕ} (writer : db.Writer u e) : db.Reader u e := by
  obtain ⟨user, evaluation, found, stored, source⟩ := writer
  refine ⟨user, evaluation, found, stored, ?_⟩
  rcases source with admin | uploaded | ⟨g, contains, owns⟩
  · exact .inl admin
  · exact .inr (.inl uploaded)
  · exact .inr (.inr (.inr ⟨g, _, contains, owns⟩))

end Tables

/-! What the endpoints have checked of the caller. -/

def MayOnGroup (db : Tables) (caller : User) (action : Action) (g : ℕ) : Prop :=
  ∃ group, db.loadGroup g = some group ∧ (createForUser caller).allows action group.target = true

def MayOnEvaluation (db : Tables) (caller : User) (action : Action) (e : ℕ) : Prop :=
  ∃ evaluation, db.loadEvaluation e = some evaluation ∧
    (createForUser caller).allows action evaluation.target = true

def MayOnUser (db : Tables) (caller : User) (action : Action) (u : ℕ) : Prop :=
  ∃ user, db.findUser u = some user ∧ (createForUser caller).allows action user.target = true

def Permitted (db : Tables) (caller : User) : Request → Prop
  | .createUser _ | .createGroup _ | .createEvaluation _ _ => True
  | .updateUser id _ => MayOnUser db caller .update id
  | .removeUser id _ => MayOnUser db caller .delete id
  | .updateGroup id _ => MayOnGroup db caller .update id
  | .removeGroup id => MayOnGroup db caller .delete id
  | .addUserToGroup id _ => MayOnGroup db caller .update id
  | .removeUserFromGroup id _ => MayOnGroup db caller .update id
  | .addEvaluationToGroup id dto =>
      MayOnGroup db caller .addEvaluation id ∧ MayOnEvaluation db caller .read dto.id
  | .removeEvaluationFromGroup id _ => MayOnGroup db caller .removeEvaluation id
  | .updateEvaluation id _ => MayOnEvaluation db caller .update id
  | .removeEvaluation id => MayOnEvaluation db caller .delete id

/-- Every endpoint asks before it acts. -/
theorem handleAs_permitted {cfg : Config} {db db' : Tables} {user : User} {call : Call}
    (accepted : handleAs cfg db user call = .ok db') : Permitted db user call.request := by
  obtain ⟨token, request, salt, now⟩ := call
  cases request <;> simp only [handleAs] at accepted <;> simp only [Permitted]
  case updateUser id body =>
    obtain ⟨-, old, -, -, -, -, found, can, -⟩ := UsersController.update_ok accepted
    exact ⟨old, found, can⟩
  case removeUser id body =>
    obtain ⟨old, found, ⟨-, -, can, -⟩, -⟩ := UsersController.remove_ok.mp accepted
    exact ⟨old, found, can⟩
  case addUserToGroup id dto =>
    obtain ⟨group, -, loaded, can, -⟩ := GroupsController.addUserToGroup_ok.mp accepted
    exact ⟨group, loaded, can⟩
  case addEvaluationToGroup id dto =>
    obtain ⟨group, evaluation, loaded, mayAdd, found, mayRead, -⟩ :=
      GroupsController.addEvaluationToGroup_ok.mp accepted
    exact ⟨⟨group, loaded, mayAdd⟩, evaluation, found, mayRead⟩
  all_goals
    simp only [GroupsController.update, GroupsController.remove,
      GroupsController.removeUserFromGroup, GroupsController.removeEvaluationFromGroup,
      EvaluationsController.update, EvaluationsController.remove, Lib.do_eq_ok,
      throwUnlessCan_ok, GroupsService.findByPkBang_ok, EvaluationsService.findById_ok] at accepted
    obtain ⟨subject, loaded, -, can, -⟩ := accepted
    exact ⟨subject, loaded, can⟩

section Outsider
variable {db : Tables} {caller : User} {e : ℕ}

/-- Whoever may act on a group, beyond reading it, reads its evaluations. -/
theorem reader_of_mayOnGroup (h : db.Consistent) (known : db.findUser caller.id = some caller)
    {action : Action} (acts : action ∉ [Action.create, .read]) {g : ℕ}
    (may : MayOnGroup db caller action g) (contains : db.Contains g e) :
    db.Reader caller.id e := by
  obtain ⟨group, loaded, can⟩ := may
  obtain ⟨evaluation, stored⟩ := (h.contains_keys contains).2
  refine ⟨caller, evaluation, known, stored, ?_⟩
  have source := (allows_group caller group action).mp can
  simp only [List.mem_cons, List.not_mem_nil, or_false, not_or] at acts
  simp only [acts.1, acts.2, false_and, false_or] at source
  have member : group.hasMember caller.id = true →
      ∃ g role, db.Contains g e ∧ db.HasRole g caller.id role := by
    intro member
    obtain ⟨m, hm, isUser⟩ := LoadedGroup.hasMember_iff.mp member
    rw [(loadGroup_id loaded).2.2] at hm
    exact ⟨g, m.groupUser.role, contains, h.hasRole_iff.mpr ⟨m, hm, isUser, rfl⟩⟩
  rcases source with admin | owner | ⟨-, isMember⟩
  · exact .inl admin
  · exact .inr (.inr (.inr (member (LoadedGroup.hasMember_of_hasOwner owner))))
  · exact .inr (.inr (.inr (member isMember)))

/-- Whoever may act on an evaluation reads it. -/
theorem reader_of_mayOnEvaluation (h : db.Consistent)
    (known : db.findUser caller.id = some caller) {action : Action}
    (acts : action ∈ [Action.read, .update, .delete]) (may : MayOnEvaluation db caller action e) :
    db.Reader caller.id e := by
  obtain ⟨evaluation, loaded, can⟩ := may
  by_cases reads : action = .read
  · subst reads
    exact h.may_read_iff.mp (Tables.may_iff_exists.mpr ⟨caller, evaluation, known, loaded, can⟩)
  · have write : action ∈ [Action.update, .delete] := by simpa [reads] using acts
    exact Tables.Writer.reader ((h.may_iff write).mp
      (Tables.may_iff_exists.mpr ⟨caller, evaluation, known, loaded, can⟩))

/-- Whoever may change an account is an administrator, or it is the own one. -/
theorem mayOnUser_cases {action : Action} (acts : action ∈ [Action.update, .delete]) {u : ℕ}
    (may : MayOnUser db caller action u) : caller.isAdmin = true ∨ u = caller.id := by
  obtain ⟨user, found, can⟩ := may
  have source := (allows_user caller user action).mp can
  have acts : action ≠ .readSlim := by
    rintro rfl
    simp at acts
  rw [(Tables.findUser_some found).2] at source
  rcases source with slim | ⟨admin, -⟩ | ⟨-, own⟩
  · exact absurd slim acts
  · exact .inl admin
  · exact .inr own

/-- An account that an outsider may change is in no group of the evaluation. -/
theorem outside_of_mayOnUser (known : db.findUser caller.id = some caller)
    {evaluation : Evaluation} (stored : db.findEvaluation e = some evaluation)
    (outsider : ¬ db.Reader caller.id e) {action : Action}
    (acts : action ∈ [Action.update, .delete]) {u : ℕ} (may : MayOnUser db caller action u) :
    evaluation.userId ≠ some u ∧ ∀ g role, db.Contains g e → ¬ db.HasRole g u role := by
  rcases mayOnUser_cases acts may with admin | rfl
  · exact absurd ⟨caller, evaluation, known, stored, .inl admin⟩ outsider
  · refine ⟨fun uploaded => outsider ?_, fun g role contains has => outsider ?_⟩
    · exact ⟨caller, evaluation, known, stored, .inr (.inl uploaded)⟩
    · exact ⟨caller, evaluation, known, stored, .inr (.inr (.inr ⟨g, role, contains, has⟩))⟩

end Outsider

/-- The new evaluation of an upload leaves the contents of the others alone. -/
theorem addToGroups_kept {db : Tables} {groups : List LoadedGroup} {n e : ℕ} (old : e ≠ n) :
    (addToGroups db groups n).groupIdsOf e = db.groupIdsOf e := by
  induction groups generalizing db with
  | nil => rfl
  | cons g groups ih => exact ih.trans (Tables.groupIdsOf_addEvaluation old)

/-- A call of an outsider leaves the evaluation, its groups and their members alone. -/
theorem loadEvaluation_kept {cfg : Config} {db db' : Tables} {caller : Option User}
    {request : Request} (h : db.Consistent) (effect : Effect cfg db caller request db')
    (known : ∀ user, caller = some user → db.findUser user.id = some user)
    (permitted : ∀ user, caller = some user → Permitted db user request) {e : ℕ}
    {evaluation : Evaluation} (stored : db.findEvaluation e = some evaluation)
    (outsider : ∀ user, caller = some user → ¬ db.Reader user.id e) :
    db'.loadEvaluation e = db.loadEvaluation e := by
  have away : ∀ {user : User} {action : Action} {g : ℕ}, caller = some user →
      action ∉ [Action.create, .read] → MayOnGroup db user action g → ¬ db.Contains g e :=
    fun signedIn acts may contains =>
      outsider _ signedIn (reader_of_mayOnGroup h (known _ signedIn) acts may contains)
  have other : ∀ {user : User} {action : Action} {id : ℕ}, caller = some user →
      action ∈ [Action.read, .update, .delete] → MayOnEvaluation db user action id → e ≠ id := by
    rintro user action id signedIn acts may rfl
    exact outsider _ signedIn (reader_of_mayOnEvaluation h (known _ signedIn) acts may)
  cases effect with
  | createUser user role =>
      exact Tables.loadEvaluation_congr rfl rfl fun g _ =>
        Tables.loadGroup_congr rfl (Tables.usersOf_insertUser h user g)
  | @updateUser user id body old saved found same role =>
      obtain ⟨-, outside⟩ := outside_of_mayOnUser (known _ rfl) stored (outsider _ rfl)
        List.mem_cons_self (permitted _ rfl)
      refine Tables.loadEvaluation_congr rfl rfl fun g contains =>
        Tables.loadGroup_congr rfl (Tables.usersOf_saveUser fun role => ?_)
      rw [same, (Tables.findUser_some found).2]
      exact outside g role contains
  | @removeUser user id body old found may =>
      obtain ⟨uploader, outside⟩ := outside_of_mayOnUser (known _ rfl) stored (outsider _ rfl)
        (by decide) (permitted _ rfl)
      refine Tables.loadEvaluation_congr ?_ rfl fun g contains =>
        Tables.loadGroup_congr rfl (Tables.usersOf_destroyUser fun role => outside g role contains)
      have kept : Lib.clear id evaluation.userId = evaluation.userId := if_neg uploader
      rw [Tables.findEvaluation_destroyUser, stored, Option.map_some, kept]
  | @createGroup user dto isPublic =>
      refine Tables.loadEvaluation_congr rfl rfl fun g contains => ?_
      obtain ⟨group, found⟩ := (h.contains_keys contains).1
      have old : g ≠ db.nextGroup := by
        rintro rfl
        exact absurd (h.findGroup_next.symm.trans found) (by simp)
      refine Tables.loadGroup_congr ?_ (Tables.usersOf_addUser old)
      change (db.insertGroup dto.name isPublic).findGroup g = _
      rw [Tables.findGroup_insertGroup h, if_neg old]
  | @updateGroup user id dto saved same =>
      have outside := away rfl (by decide) (permitted _ rfl)
      refine Tables.loadEvaluation_congr rfl rfl fun g contains =>
        Tables.loadGroup_congr ?_ rfl
      rw [Tables.findGroup_saveGroup, if_neg]
      rintro rfl
      exact outside (same ▸ contains)
  | @removeGroup user id =>
      have outside := away rfl (by decide) (permitted _ rfl)
      refine Tables.loadEvaluation_congr rfl (Tables.groupIdsOf_destroyGroup outside)
        fun g contains => ?_
      have kept : g ≠ id := by
        rintro rfl
        exact outside contains
      refine Tables.loadGroup_congr ?_ (Tables.usersOf_destroyGroup kept)
      rw [Tables.findGroup_destroyGroup, if_neg kept]
  | @addUserToGroup user id dto group added loaded may found =>
      have outside := away rfl (by decide) ⟨group, loaded, may⟩
      refine Tables.loadEvaluation_congr rfl rfl fun g contains =>
        Tables.loadGroup_congr rfl (Tables.usersOf_addUser ?_)
      rintro rfl
      exact outside contains
  | @removeUserFromGroup user id dto group removed loaded found guard =>
      have outside := away rfl (by decide) (permitted _ rfl)
      refine Tables.loadEvaluation_congr rfl rfl fun g contains =>
        Tables.loadGroup_congr rfl (Tables.usersOf_removeUser ?_)
      rintro rfl
      exact outside contains
  | @addEvaluationToGroup user id dto group added loaded mayAdd found mayRead =>
      have apart := other rfl List.mem_cons_self ⟨added, found, mayRead⟩
      exact Tables.loadEvaluation_congr rfl (Tables.groupIdsOf_addEvaluation apart) fun _ _ => rfl
  | @removeEvaluationFromGroup user id dto =>
      have outside := away rfl (by decide) (permitted _ rfl)
      refine Tables.loadEvaluation_congr rfl (Tables.groupIdsOf_removeEvaluation ?_)
        fun _ _ => rfl
      rintro rfl
      exact outside
  | @createEvaluation user dto data groups loaded =>
      have old : e ≠ db.nextEvaluation := by
        rintro rfl
        exact absurd (h.findEvaluation_next.symm.trans stored) (by simp)
      obtain ⟨users, sameGroups, members, evaluations⟩ := addToGroups_frame
        (db.insertEvaluation dto.filename data dto.isPublic user.id) groups db.nextEvaluation
      refine Tables.loadEvaluation_congr ?_ (addToGroups_kept old) fun g _ => ?_
      · rw [Tables.findEvaluation, evaluations]
        exact (Tables.findEvaluation_insertEvaluation h _ _ _ _ e).trans (if_neg old)
      · unfold Tables.loadGroup Tables.findGroup Tables.usersOf Tables.joinUser Tables.findUser
        rw [users, sameGroups, members]
        rfl
  | @updateEvaluation user id dto old saved found same uploader =>
      have apart := other rfl (by decide) (permitted _ rfl)
      refine Tables.loadEvaluation_congr ?_ rfl fun _ _ => rfl
      rw [Tables.findEvaluation_saveEvaluation, if_neg]
      rwa [same, (Tables.findEvaluation_some found).2]
  | @removeEvaluation user id =>
      have apart := other rfl (by decide) (permitted _ rfl)
      refine Tables.loadEvaluation_congr ?_ (Tables.groupIdsOf_destroyEvaluation apart)
        fun _ _ => rfl
      rw [Tables.findEvaluation_destroyEvaluation, if_neg apart]

theorem handle_permitted {cfg : Config} {db db' : Tables} {call : Call}
    (accepted : handle cfg db call = .ok db') :
    ∀ user, call.user db = some user → Permitted db user call.request := by
  intro user signedIn
  unfold handle at accepted
  rw [signedIn] at accepted
  exact handleAs_permitted accepted

/-- A call leaves the tables alone, or it was permitted and has an effect. -/
theorem answer_permitted (cfg : Config) (db : Tables) (call : Call) :
    answer cfg db call = db ∨
      (Effect cfg db (call.user db) call.request (answer cfg db call) ∧
        ∀ user, call.user db = some user → Permitted db user call.request) := by
  unfold answer
  cases result : handle cfg db call with
  | error e => exact .inl rfl
  | ok db' => exact .inr ⟨handle_effect result, handle_permitted result⟩

/-- An administrator may do whatever a user under the same key may do to an evaluation. -/
theorem allows_evaluation_mono {old new : User} (id : new.id = old.id)
    (admin : new.isAdmin = true → old.isAdmin = true) {action : Action}
    {evaluation : LoadedEvaluation}
    (can : (createForUser new).allows action evaluation.target = true) :
    (createForUser old).allows action evaluation.target = true := by
  have source := (allows_evaluation new evaluation action).mp can
  rw [id] at source
  exact (allows_evaluation old evaluation action).mpr (source.imp_left admin)

/-- The caller could not read the evaluation. -/
def Call.Outside (db : Tables) (call : Call) (e : ℕ) : Prop :=
  ∀ user, call.user db = some user → ¬ db.May .read user.id e

/-- What an outsider does leaves the evaluation alone and gives no account access to it. A new
account reads it only if it is public. -/
theorem outside_effect {cfg : Config} {db db' : Tables} {caller : Option User} {request : Request}
    (h : db.Consistent) (effect : Effect cfg db caller request db')
    (known : ∀ user, caller = some user → db.findUser user.id = some user)
    (permitted : ∀ user, caller = some user → Permitted db user request) {e : ℕ}
    {loaded : LoadedEvaluation} (found : db.loadEvaluation e = some loaded)
    (outside : ∀ user, caller = some user → ¬ db.May .read user.id e) :
    db'.loadEvaluation e = some loaded ∧ ∀ u, db'.May .read u e → db.May .read u e ∨
      (db.findUser u = none ∧ loaded.evaluation.isPublic = true) := by
  have kept := loadEvaluation_kept h effect known permitted
    (loadEvaluation_id found).2.1 fun user signedIn reader =>
      outside user signedIn (h.may_read_iff.mpr reader)
  refine ⟨kept.trans found, fun u may => ?_⟩
  obtain ⟨new, evaluation, there, loaded', can⟩ := Tables.may_iff_exists.mp may
  rw [kept, found] at loaded'
  cases loaded'
  have before : ∀ old, db.findUser u = some old →
      (new.isAdmin = true → old.isAdmin = true) → db.May .read u e := by
    intro old stored admin
    have id : new.id = old.id :=
      (Tables.findUser_some there).2.trans (Tables.findUser_some stored).2.symm
    exact Tables.may_iff_exists.mpr
      ⟨old, loaded, stored, found, allows_evaluation_mono id admin can⟩
  rcases effect.users_cases with same | ⟨created, role, result⟩ |
    ⟨admin, user, saved, signedIn, stored, id, role, result⟩ | ⟨user, -, -, result⟩
  · rw [Tables.findUser, same] at there
    exact .inl (before new there fun admin => admin)
  · rw [result, Tables.findUser_insertUser h] at there
    split at there
    · rename_i fresh
      cases there
      have absent := fresh ▸ h.findUser_next
      refine .inr ⟨absent, ?_⟩
      rcases (h.allows_read found).mp can with admin | uploaded | isPublic | ⟨g, r, -, has⟩
      · have isAdmin : created.role = js "admin" := of_decide_eq_true admin
        exact absurd (role.symm.trans isAdmin) (by decide)
      · obtain ⟨row, -⟩ := Tables.findEvaluation_some (loadEvaluation_id found).2.1
        obtain ⟨other, stored⟩ := Lib.mem_key_iff.mp (h.uploaders _ row _ uploaded)
        exact absurd (h.findUser_next.symm.trans stored) (by simp)
      · exact isPublic
      · obtain ⟨-, other, stored⟩ := h.hasRole_keys has
        exact absurd (h.findUser_next.symm.trans stored) (by simp)
    · exact .inl (before new there fun admin => admin)
  · rw [result, Tables.findUser_saveUser] at there
    split at there
    · rename_i here
      obtain ⟨old, -, rfl⟩ := Option.map_eq_some_iff.mp there
      rcases role with same | ⟨isAdmin, -⟩
      · refine .inl (before user (by rw [here, id]; exact stored) fun admin => ?_)
        rwa [User.isAdmin, ← same]
      · refine absurd (h.may_read_iff.mpr ?_) (outside admin signedIn)
        exact ⟨admin, loaded.evaluation, known admin signedIn, (loadEvaluation_id found).2.1,
          .inl isAdmin⟩
    · exact .inl (before new there fun admin => admin)
  · rw [result, Tables.findUser_destroyUser] at there
    split at there
    · cases there
    · exact .inl (before new there fun admin => admin)

theorem outside_answer (cfg : Config) {db : Tables} (h : db.Consistent) {call : Call} {e : ℕ}
    {loaded : LoadedEvaluation} (found : db.loadEvaluation e = some loaded)
    (outside : call.Outside db e) :
    (answer cfg db call).loadEvaluation e = some loaded ∧
      ∀ u, (answer cfg db call).May .read u e → db.May .read u e ∨
        (db.findUser u = none ∧ loaded.evaluation.isPublic = true) := by
  rcases answer_permitted cfg db call with same | ⟨effect, permitted⟩
  · rw [same]
    exact ⟨found, fun _ => .inl⟩
  · exact outside_effect h effect (fun _ => Call.user_known) permitted found outside

theorem outside_step (cfg : Config) {d : Database} {call : Call} {e : ℕ}
    {loaded : LoadedEvaluation} (found : d.tables.loadEvaluation e = some loaded)
    (outside : call.Outside d.tables e) :
    (d.step cfg call).tables.loadEvaluation e = some loaded ∧
      ∀ u, (d.step cfg call).tables.May .read u e → d.tables.May .read u e ∨
        (d.tables.findUser u = none ∧ loaded.evaluation.isPublic = true) :=
  outside_answer cfg d.consistent found outside

/-- What a call changes of an evaluation, and the access it gives to an account, comes from a
caller who could read the evaluation. -/
def Confined (cfg : Config) (d : Database) (call : Call) : Prop :=
  ∀ e loaded, d.tables.loadEvaluation e = some loaded →
    ((d.step cfg call).tables.loadEvaluation e ≠ some loaded ∨
      ∃ u user, d.tables.findUser u = some user ∧ ¬ d.tables.May .read u e ∧
        (d.step cfg call).tables.May .read u e) →
    ∃ caller, call.user d.tables = some caller ∧ d.tables.May .read caller.id e

theorem confined_run (cfg : Config) (d : Database) (calls : List Call) :
    Lib.Along (Database.step cfg) (Confined cfg) d calls := by
  refine Lib.along_of_step (fun d call e loaded found changed => ?_) d calls
  by_contra nobody
  obtain ⟨kept, readers⟩ := @outside_step cfg d call e loaded found
    fun user signedIn reads => nobody ⟨user, signedIn, reads⟩
  rcases changed with differs | ⟨u, user, known, denied, gained⟩
  · exact differs kept
  · rcases readers u gained with before | ⟨absent, -⟩
    · exact denied before
    · rw [known] at absent
      cases absent

/-- A coalition without access to a private evaluation never gains access to it and never
changes it, whatever its members and newly registered accounts among them call. -/
theorem isolation_run (cfg : Config) {d : Database} {e : ℕ} {loaded : LoadedEvaluation}
    (found : d.tables.loadEvaluation e = some loaded)
    (hidden : loaded.evaluation.isPublic = false) (coalition : Set ℕ)
    (outside : ∀ u ∈ coalition, ¬ d.tables.May .read u e) (calls : List Call)
    (callers : ∀ call ∈ calls, ∀ u, call.token = some u → u ∈ coalition) :
    Lib.Throughout (Database.step cfg)
      (fun d => d.tables.loadEvaluation e = some loaded ∧
        ∀ u ∈ coalition, ¬ d.tables.May .read u e) d calls := by
  refine Lib.Throughout.of_invariant (A := fun d : Database =>
      d.tables.loadEvaluation e = some loaded ∧ ∀ u ∈ coalition, ¬ d.tables.May .read u e)
    (D := fun _ call => ∀ u, call.token = some u → u ∈ coalition) ?_ (fun _ inv => inv)
    ⟨found, outside⟩ ((Lib.along_const d calls).mpr callers)
  rintro d call ⟨found, outside⟩ caller
  have away : call.Outside d.tables e := by
    intro user signedIn
    obtain ⟨u, token, known⟩ := Option.bind_eq_some_iff.mp signedIn
    rw [(Tables.findUser_some known).2]
    exact outside u (caller u token)
  obtain ⟨kept, readers⟩ := outside_step cfg found away
  refine ⟨kept, fun u member gained => ?_⟩
  rcases readers u gained with before | ⟨-, isPublic⟩
  · exact outside u member before
  · rw [hidden] at isPublic
    cases isPublic

/-! User 1 uploads a private evaluation; user 2 has a group and tries to take it. -/

theorem scan_notEmpty : js "scan.json" ≠ [] := by decide

def sampleScan : CreateEvaluationDto := ⟨js "scan.json", false, .undefined, scan_notEmpty⟩

def samplePrivate : Database :=
  Lib.run (Database.step sampleConfig) Database.empty
    [sampleRegistration "a@example.com", sampleRegistration "b@example.com",
     sampleCall 1 (.createEvaluation sampleScan (.object [])),
     sampleCall 2 (.createGroup sampleGroup)]

theorem isolation_run_sample : ∃ loaded, samplePrivate.tables.loadEvaluation 1 = some loaded ∧
    Lib.Throughout (Database.step sampleConfig)
      (fun d => d.tables.loadEvaluation 1 = some loaded ∧
        ∀ u ∈ ({2} : Set ℕ), ¬ d.tables.May .read u 1) samplePrivate
      [sampleCall 2 (.addEvaluationToGroup 1 ⟨1⟩), sampleRegistration "c@example.com",
       sampleCall 2 (.removeEvaluation 1)] := by
  have loads : (samplePrivate.tables.loadEvaluation 1).map (fun e => e.evaluation.isPublic) =
      some false := by decide +kernel
  obtain ⟨loaded, found, hidden⟩ := Option.map_eq_some_iff.mp loads
  have denied : samplePrivate.tables.can .read 2 1 = false := by decide +kernel
  refine ⟨loaded, found, isolation_run sampleConfig found hidden {2} ?_ _ ?_⟩
  · rintro u rfl may
    exact absurd (denied.symm.trans may) (by decide)
  · intro call here u token
    simp only [List.mem_cons, List.not_mem_nil, or_false] at here
    rcases here with rfl | rfl | rfl
    · exact (Option.some.inj token).symm
    · cases token
    · exact (Option.some.inj token).symm

end Backend
