import Heimdall.Backend.Ownership

/-!
# Gaining write access to an evaluation

Write access comes from the admin role, from having uploaded the evaluation, or from owning
a group that contains it. Adding an evaluation to a group asks for read access only, so it
hands write access to the owners of the group; no other call gives anybody access that the
caller does not have.
-/
namespace Backend
open Js Casl

/-- `can(action, evaluation)` for the stored user and evaluation. -/
def Tables.can (db : Tables) (action : Action) (u e : ℕ) : Bool :=
  match db.findUser u, db.loadEvaluation e with
  | some user, some evaluation => (createForUser user).allows action evaluation.target
  | _, _ => false

def Tables.May (db : Tables) (action : Action) (u e : ℕ) : Prop := db.can action u e = true

theorem Tables.may_iff_exists {db : Tables} {action : Action} {u e : ℕ} :
    db.May action u e ↔ ∃ user evaluation, db.findUser u = some user ∧
      db.loadEvaluation e = some evaluation ∧
      (createForUser user).allows action evaluation.target = true := by
  unfold Tables.May Tables.can
  cases db.findUser u with
  | none => simp
  | some user => cases db.loadEvaluation e <;> simp

def Tables.Writer (db : Tables) (u e : ℕ) : Prop :=
  ∃ user evaluation, db.findUser u = some user ∧ db.findEvaluation e = some evaluation ∧
    (user.isAdmin = true ∨ evaluation.userId = some u ∨
      ∃ g, db.Contains g e ∧ db.HasRole g u (js "owner"))

/-- The owners of the groups that are loaded with an evaluation, as a relation. -/
theorem Tables.Consistent.groupsOf_owner {db : Tables} (h : db.Consistent) {u e : ℕ} :
    (∃ g ∈ db.groupsOf e, g.hasOwner u = true) ↔
      ∃ g, db.Contains g e ∧ db.HasRole g u (js "owner") := by
  constructor
  · rintro ⟨g, hg, owner⟩
    obtain ⟨id, contains, found⟩ := Tables.mem_groupsOf.mp hg
    obtain ⟨m, hm, role⟩ := LoadedGroup.hasOwner_iff.mp owner
    rw [(loadGroup_id found).2.2] at hm
    exact ⟨id, contains, h.hasRole_iff.mpr ⟨m, hm, role⟩⟩
  · rintro ⟨id, contains, has⟩
    obtain ⟨group, found⟩ := (h.contains_keys contains).1
    obtain ⟨m, hm, role⟩ := h.hasRole_iff.mp has
    obtain ⟨-, same⟩ := Tables.findGroup_some found
    refine ⟨⟨group, db.usersOf group.id⟩, Tables.mem_groupsOf.mpr ⟨id, contains, ?_⟩,
      LoadedGroup.hasOwner_iff.mpr ⟨m, ?_, role⟩⟩
    · rw [Tables.loadGroup, found]
      rfl
    · rw [same]
      exact hm

theorem Tables.Consistent.allows_write {db : Tables} (h : db.Consistent) {action : Action}
    (write : action ∈ [Action.update, .delete]) {user : User} {e : ℕ}
    {evaluation : LoadedEvaluation} (loaded : db.loadEvaluation e = some evaluation) :
    (createForUser user).allows action evaluation.target = true ↔
      user.isAdmin = true ∨ evaluation.evaluation.userId = some user.id ∨
        ∃ g, db.Contains g e ∧ db.HasRole g user.id (js "owner") := by
  have notRead : action ≠ .create ∧ action ≠ .read := by
    simp only [List.mem_cons, List.not_mem_nil, or_false] at write
    rcases write with rfl | rfl <;> decide
  rw [LoadedEvaluation.target, allows_evaluation, (loadEvaluation_id loaded).2.2,
    h.groupsOf_owner]
  simp only [notRead.1, notRead.2, false_and, or_false]

theorem Tables.Consistent.may_iff {db : Tables} (h : db.Consistent) {action : Action}
    (write : action ∈ [Action.update, .delete]) {u e : ℕ} :
    db.May action u e ↔ db.Writer u e := by
  rw [Tables.may_iff_exists]
  constructor
  · rintro ⟨user, evaluation, found, loaded, can⟩
    have id := (Tables.findUser_some found).2
    have source := (h.allows_write write loaded).mp can
    rw [id] at source
    exact ⟨user, evaluation.evaluation, found, (loadEvaluation_id loaded).2.1, source⟩
  · rintro ⟨user, evaluation, found, stored, source⟩
    have id := (Tables.findUser_some found).2
    have loaded : db.loadEvaluation e = some ⟨evaluation, db.groupsOf evaluation.id⟩ := by
      rw [Tables.loadEvaluation, stored]
      rfl
    refine ⟨user, _, found, loaded, (h.allows_write write loaded).mpr ?_⟩
    rw [id]
    exact source

/-- Nobody gains write access to an evaluation that was there already, unless the caller
could update it; in particular the caller does not. -/
def NoEscalation (cfg : Config) (d : Database) (call : Call) : Prop :=
  ∀ action ∈ [Action.update, .delete], ∀ u e evaluation,
    d.tables.findEvaluation e = some evaluation →
    (d.step cfg call).tables.May action u e →
    d.tables.May action u e ∨
      ∃ caller, call.user d.tables = some caller ∧ d.tables.May .update caller.id e

def MayAddEvaluation (db : Tables) (caller : User) (g e : ℕ) : Prop :=
  ∃ group evaluation, db.loadGroup g = some group ∧
    (createForUser caller).allows .addEvaluation group.target = true ∧
    db.loadEvaluation e = some evaluation ∧
    (createForUser caller).allows .read evaluation.target = true

/-- A caller who may add the evaluation to the group may update it, or all owners of the
group may. -/
def KeepsWriters (db : Tables) (call : Call) : Prop :=
  ∀ caller, call.user db = some caller → match call.request with
    | .addEvaluationToGroup g dto => MayAddEvaluation db caller g dto.id →
        db.May .update caller.id dto.id ∨
          ∀ u, db.HasRole g u (js "owner") → db.May .update u dto.id
    | _ => True

theorem contains_addToGroups {db : Tables} {groups : List LoadedGroup} {n g e : ℕ} (old : e ≠ n)
    (h : (addToGroups db groups n).Contains g e) : db.Contains g e := by
  induction groups generalizing db with
  | nil => exact h
  | cons first groups ih =>
      rcases Tables.contains_addEvaluation.mp (ih h) with ⟨-, same⟩ | before
      · exact absurd same old
      · exact before

/-- Write access that has no new source is old. -/
theorem writer_of_sources {db db' : Tables} {u e : ℕ} (writer : db'.Writer u e)
    (users : ∀ new, db'.findUser u = some new →
      ∃ old, db.findUser u = some old ∧ (new.isAdmin = true → old.isAdmin = true))
    (evaluations : ∀ new, db'.findEvaluation e = some new →
      ∃ old, db.findEvaluation e = some old ∧ (new.userId = some u → old.userId = some u))
    (groups : ∀ g, db'.Contains g e → db'.HasRole g u (js "owner") →
      db.Contains g e ∧ db.HasRole g u (js "owner")) : db.Writer u e := by
  obtain ⟨user, evaluation, found, stored, source⟩ := writer
  obtain ⟨oldUser, oldFound, admin⟩ := users user found
  obtain ⟨oldEvaluation, oldStored, uploader⟩ := evaluations evaluation stored
  refine ⟨oldUser, oldEvaluation, oldFound, oldStored, ?_⟩
  rcases source with isAdmin | uploaded | ⟨g, contains, owns⟩
  · exact .inl (admin isAdmin)
  · exact .inr (.inl (uploader uploaded))
  · exact .inr (.inr ⟨g, groups g contains owns⟩)

theorem user_kept {db : Tables} {u : ℕ} (new : User) (h : db.findUser u = some new) :
    ∃ old, db.findUser u = some old ∧ (new.isAdmin = true → old.isAdmin = true) := ⟨new, h, id⟩

theorem evaluation_kept {db : Tables} {u e : ℕ} (new : Evaluation)
    (h : db.findEvaluation e = some new) :
    ∃ old, db.findEvaluation e = some old ∧ (new.userId = some u → old.userId = some u) :=
  ⟨new, h, id⟩

/-- Saving a user under the same role makes nobody an administrator. -/
theorem user_saved {db : Tables} {u id : ℕ} {user saved : User} (found : db.findUser id = some user)
    (same : saved.id = user.id) (role : saved.role = user.role) (new : User)
    (stored : (db.saveUser saved).findUser u = some new) :
    ∃ old, db.findUser u = some old ∧ (new.isAdmin = true → old.isAdmin = true) := by
  rw [Tables.findUser_saveUser] at stored
  split at stored
  · rename_i here
    obtain ⟨old, before, rfl⟩ := Option.map_eq_some_iff.mp stored
    have known : db.findUser u = some user := by
      rw [here, same, (Tables.findUser_some found).2, found]
    exact ⟨user, known, by simp [User.isAdmin, role]⟩
  · exact user_kept new stored

theorem evaluation_saved {db : Tables} {u e id : ℕ} {evaluation saved : Evaluation}
    (found : db.findEvaluation id = some evaluation) (same : saved.id = evaluation.id)
    (uploader : saved.userId = evaluation.userId) (new : Evaluation)
    (stored : (db.saveEvaluation saved).findEvaluation e = some new) :
    ∃ old, db.findEvaluation e = some old ∧ (new.userId = some u → old.userId = some u) := by
  rw [Tables.findEvaluation_saveEvaluation] at stored
  split at stored
  · rename_i here
    obtain ⟨old, before, rfl⟩ := Option.map_eq_some_iff.mp stored
    have known : db.findEvaluation e = some evaluation := by
      rw [here, same, (Tables.findEvaluation_some found).2, found]
    exact ⟨evaluation, known, fun uploaded => uploader ▸ uploaded⟩
  · exact evaluation_kept new stored

theorem mayUpdateGroup {user : User} {g : LoadedGroup}
    (can : (createForUser user).allows .update g.target = true) :
    user.isAdmin = true ∨ g.hasOwner user.id = true := by
  simpa using (allows_group user g .update).mp can

theorem writer_of_mayUpdate {db : Tables} (h : db.Consistent) {caller : User} {g e : ℕ}
    {group : LoadedGroup} {evaluation : Evaluation} (known : db.findUser caller.id = some caller)
    (existed : db.findEvaluation e = some evaluation) (loaded : db.loadGroup g = some group)
    (may : (createForUser caller).allows .update group.target = true)
    (contains : db.Contains g e) : db.Writer caller.id e := by
  refine ⟨caller, evaluation, known, existed, ?_⟩
  rcases mayUpdateGroup may with admin | owner
  · exact .inl admin
  · obtain ⟨m, hm, role⟩ := LoadedGroup.hasOwner_iff.mp owner
    rw [(loadGroup_id loaded).2.2] at hm
    exact .inr (.inr ⟨g, contains, h.hasRole_iff.mpr ⟨m, hm, role⟩⟩)

/-- A new account has no access: its key occurs in no row. -/
theorem writer_createUser {db : Tables} (h : db.Consistent) {created : User}
    (role : created.role = js "user") {u e : ℕ} (writer : (db.insertUser created).Writer u e) :
    db.Writer u e := by
  obtain ⟨user, evaluation, found, stored, source⟩ := writer
  rw [Tables.findUser_insertUser h] at found
  split at found
  · rename_i fresh
    cases found
    rcases source with admin | uploader | ⟨g, -, has⟩
    · have same : js "user" = js "admin" := by simpa [User.isAdmin, role] using admin
      exact absurd same (by decide)
    · have known := h.uploaders evaluation (Tables.findEvaluation_some stored).1 u uploader
      exact absurd fresh (Nat.ne_of_lt (h.userKeys.below u known))
    · obtain ⟨-, user, joined⟩ := h.hasRole_keys has
      rw [fresh, h.findUser_next] at joined
      cases joined
  · exact ⟨user, evaluation, found, stored, source⟩

/-- A new evaluation changes no access to the old ones. -/
theorem writer_createEvaluation {db : Tables} (h : db.Consistent) {filename : JsString}
    {data : JsVal} {isPublic : Bool} {uploader : ℕ} {groups : List LoadedGroup} {u e : ℕ}
    {old : Evaluation} (existed : db.findEvaluation e = some old)
    (writer : (addToGroups (db.insertEvaluation filename data isPublic uploader) groups
      db.nextEvaluation).Writer u e) : db.Writer u e := by
  obtain ⟨users, -, members, evaluations⟩ := addToGroups_frame
    (db.insertEvaluation filename data isPublic uploader) groups db.nextEvaluation
  have other : e ≠ db.nextEvaluation := by
    rintro rfl
    rw [h.findEvaluation_next] at existed
    cases existed
  refine writer_of_sources writer ?_ ?_ ?_
  · intro new stored
    rw [Tables.findUser, users] at stored
    exact user_kept new stored
  · intro new stored
    rw [Tables.findEvaluation, evaluations] at stored
    change (db.insertEvaluation _ _ _ _).findEvaluation e = some new at stored
    rw [Tables.findEvaluation_insertEvaluation h, if_neg other] at stored
    exact evaluation_kept new stored
  · intro g contains owns
    rw [Tables.HasRole, members] at owns
    have before : (db.insertEvaluation filename data isPublic uploader).Contains g e :=
      contains_addToGroups other contains
    exact ⟨before, owns⟩

/-- The three sources of write access, traced through one call. -/
theorem writer_effect {cfg : Config} {db db' : Tables} {caller : Option User}
    {request : Request} (h : db.Consistent)
    (known : ∀ user, caller = some user → db.findUser user.id = some user)
    (effect : Effect cfg db caller request db')
    (keeps : ∀ user g dto, caller = some user → request = .addEvaluationToGroup g dto →
      MayAddEvaluation db user g dto.id →
      db.Writer user.id dto.id ∨ ∀ u, db.HasRole g u (js "owner") → db.Writer u dto.id)
    {u e : ℕ} {old : Evaluation} (existed : db.findEvaluation e = some old)
    (writer : db'.Writer u e) :
    db.Writer u e ∨ ∃ user, caller = some user ∧ db.Writer user.id e := by
  cases effect with
  | createUser created role => exact .inl (writer_createUser h role writer)
  | @updateUser caller id body user saved found same role =>
      rcases role with kept | ⟨admin, -⟩
      · exact .inl (writer_of_sources writer (user_saved found same kept) evaluation_kept
          (fun _ => And.intro))
      · exact .inr ⟨caller, rfl, caller, old, known caller rfl, existed, .inl admin⟩
  | removeUser user found may =>
      refine .inl (writer_of_sources writer ?_ ?_ ?_)
      · intro new stored
        rw [Tables.findUser_destroyUser] at stored
        split at stored
        · cases stored
        · exact user_kept new stored
      · intro new stored
        rw [Tables.findEvaluation_destroyUser] at stored
        obtain ⟨old, before, rfl⟩ := Option.map_eq_some_iff.mp stored
        exact ⟨old, before, fun uploaded => (Lib.clear_eq_some.mp uploaded).2⟩
      · exact fun g contains owns => ⟨contains, (Tables.hasRole_destroyUser.mp owns).2⟩
  | createGroup isPublic =>
      refine .inl (writer_of_sources writer user_kept evaluation_kept ?_)
      intro g contains owns
      rcases Tables.hasRole_addUser.mp owns with ⟨new, -, -⟩ | ⟨-, before⟩
      · obtain ⟨⟨group, found⟩, -⟩ := h.contains_keys (e := e) contains
        rw [new, h.findGroup_next] at found
        cases found
      · exact ⟨contains, before⟩
  | removeGroup =>
      exact .inl (writer_of_sources writer user_kept evaluation_kept
        (fun g contains owns => ⟨(Tables.contains_destroyGroup.mp contains).2,
          (Tables.hasRole_destroyGroup.mp owns).2⟩))
  | @addUserToGroup caller id dto group user loaded may found =>
      by_cases mine : db.Contains id e
      · exact .inr ⟨caller, rfl, writer_of_mayUpdate h (known caller rfl) existed loaded may mine⟩
      · refine .inl (writer_of_sources writer user_kept evaluation_kept ?_)
        intro g contains owns
        rcases Tables.hasRole_addUser.mp owns with ⟨rfl, -, -⟩ | ⟨-, before⟩
        · exact absurd contains mine
        · exact ⟨contains, before⟩
  | removeUserFromGroup group user loaded found guard =>
      exact .inl (writer_of_sources writer user_kept evaluation_kept
        (fun g contains owns => ⟨contains, (Tables.hasRole_removeUser.mp owns).2⟩))
  | @addEvaluationToGroup caller id dto group evaluation loaded mayAdd found mayRead =>
      by_cases added : e = dto.id ∧ db.HasRole id u (js "owner")
      · rcases keeps caller id dto rfl rfl ⟨group, evaluation, loaded, mayAdd, found, mayRead⟩
          with byWriter | owners
        · exact .inr ⟨caller, rfl, added.1 ▸ byWriter⟩
        · exact .inl (added.1 ▸ owners u added.2)
      · refine .inl (writer_of_sources writer user_kept evaluation_kept ?_)
        intro g contains owns
        rcases Tables.contains_addEvaluation.mp contains with ⟨rfl, rfl⟩ | before
        · exact absurd ⟨rfl, owns⟩ added
        · exact ⟨before, owns⟩
  | removeEvaluationFromGroup =>
      exact .inl (writer_of_sources writer user_kept evaluation_kept
        (fun g contains owns => ⟨(Tables.contains_removeEvaluation.mp contains).2, owns⟩))
  | createEvaluation groups loaded => exact .inl (writer_createEvaluation h existed writer)
  | updateEvaluation evaluation saved found same uploader =>
      exact .inl (writer_of_sources writer user_kept (evaluation_saved found same uploader)
        (fun _ => And.intro))
  | removeEvaluation =>
      refine .inl (writer_of_sources writer user_kept ?_ ?_)
      · intro new stored
        rw [Tables.findEvaluation_destroyEvaluation] at stored
        split at stored
        · cases stored
        · exact evaluation_kept new stored
      · exact fun g contains owns => ⟨(Tables.contains_destroyEvaluation.mp contains).2, owns⟩
  | _ => exact .inl writer

theorem noEscalation_of_keepsWriters {cfg : Config} {d : Database} {call : Call}
    (keeps : KeepsWriters d.tables call) : NoEscalation cfg d call := by
  intro action write u e old existed may
  have before := d.consistent
  rw [(d.step cfg call).consistent.may_iff write] at may
  rw [before.may_iff write]
  simp only [before.may_iff (List.mem_cons_self)]
  rcases answer_cases cfg d.tables call with same | effect
  · rw [Database.step_tables, same] at may
    exact .inl may
  · refine writer_effect before (fun _ => Call.user_known) effect ?_ existed may
    intro caller g dto signedIn isAdd may
    have keeps := keeps caller signedIn
    simp only [isAdd, before.may_iff (List.mem_cons_self)] at keeps
    exact keeps may

/-- Every other call hands write access to an owner of the group. -/
theorem keepsWriters_of_noEscalation {cfg : Config} {d : Database} {call : Call}
    (none : NoEscalation cfg d call) : KeepsWriters d.tables call := by
  obtain ⟨token, request, salt, now⟩ := call
  intro caller signedIn
  cases request with
  | addEvaluationToGroup g dto =>
      rintro ⟨group, evaluation, loaded, mayAdd, found, mayRead⟩
      apply or_iff_not_imp_left.mpr
      intro byOther u owns
      obtain ⟨-, user, known⟩ := d.consistent.hasRole_keys owns
      have existed := (loadEvaluation_id found).2.1
      have writer : (d.step cfg ⟨token, .addEvaluationToGroup g dto, salt, now⟩).tables.Writer
          u dto.id := by
        rw [Database.step_tables, answer_accepted signedIn
          (GroupsController.addEvaluationToGroup_ok.mpr
            ⟨group, evaluation, loaded, mayAdd, found, mayRead, rfl⟩)]
        exact ⟨user, evaluation.evaluation, known, existed, .inr (.inr ⟨g,
          Tables.contains_addEvaluation.mpr (.inl ⟨rfl, rfl⟩), owns⟩)⟩
      have may := ((d.step cfg _).consistent.may_iff List.mem_cons_self).mpr writer
      rcases none .update List.mem_cons_self u dto.id _ existed may with before | ⟨v, hv, writes⟩
      · exact before
      · rw [signedIn] at hv
        cases hv
        exact absurd writes byOther
  | _ => trivial

/-- Exactly along the runs whose additions to groups all respect write access, nobody
escalates. -/
theorem noEscalation_run (cfg : Config) (d : Database) (calls : List Call) :
    Lib.Along (Database.step cfg) (NoEscalation cfg) d calls ↔
      Lib.Along (Database.step cfg) (fun d call => KeepsWriters d.tables call) d calls :=
  Lib.along_congr
    (fun _ _ => ⟨keepsWriters_of_noEscalation, noEscalation_of_keepsWriters⟩) d calls

/-! User 1 uploads a public evaluation; user 2 puts it into a group of its own. -/

def sampleEvaluation : CreateEvaluationDto := ⟨js "scan.json", true, .undefined, by decide⟩

def sampleUploads : List Call :=
  [sampleRegistration "a@example.com", sampleRegistration "b@example.com",
   sampleCall 1 (.createEvaluation sampleEvaluation (.object [])),
   sampleCall 2 (.createGroup sampleGroup)]

/-- Reading a public evaluation is enough to take it over. -/
theorem escalation_sample :
    (Lib.run (Database.step sampleConfig) Database.empty sampleUploads).tables.users.all
      (fun user => !user.isAdmin) = true ∧
    ¬ Lib.Along (Database.step sampleConfig) (NoEscalation sampleConfig) Database.empty
      (sampleUploads ++ [sampleCall 2 (.addEvaluationToGroup 1 ⟨1⟩)]) := by
  refine ⟨by decide +kernel, ?_⟩
  rintro ⟨-, -, -, -, last, -⟩
  have existed : ((Lib.run (Database.step sampleConfig) Database.empty
      sampleUploads).tables.findEvaluation 1).isSome = true := by decide +kernel
  obtain ⟨evaluation, existed⟩ := Option.isSome_iff_exists.mp existed
  have gained : (Lib.run (Database.step sampleConfig) Database.empty
      (sampleUploads ++ [sampleCall 2 (.addEvaluationToGroup 1 ⟨1⟩)])).tables.can .update 2 1 =
        true := by decide +kernel
  have denied : (Lib.run (Database.step sampleConfig) Database.empty
      sampleUploads).tables.can .update 2 1 = false := by decide +kernel
  rcases last .update List.mem_cons_self 2 1 evaluation existed gained with
    before | ⟨caller, signedIn, writes⟩
  · exact absurd (denied.symm.trans before) (by decide)
  · obtain ⟨token, given, found⟩ := Option.bind_eq_some_iff.mp signedIn
    rw [(Tables.findUser_some found).2, ← Option.some.inj given] at writes
    exact absurd (denied.symm.trans writes) (by decide)

end Backend
