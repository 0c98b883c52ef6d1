import Heimdall.Backend.Isolation

/-!
# Authority over groups

A group has a row, members and contents. The row and the members change by a request of an
owner or an administrator, or because a member deletes the own account; the contents change
by a request of a member, or of somebody who may delete the evaluation.
-/
namespace Backend
open Js Casl

/-- The caller owns the group or is an administrator. -/
def Manages (db : Tables) (call : Call) (g : ℕ) : Prop :=
  ∃ caller, call.user db = some caller ∧
    (caller.isAdmin = true ∨ db.HasRole g caller.id (js "owner"))

/-- The caller may change what the group contains. -/
def Contributes (db : Tables) (call : Call) (g e : ℕ) : Prop :=
  ∃ caller, call.user db = some caller ∧
    (caller.isAdmin = true ∨ (∃ role, db.HasRole g caller.id role) ∨ db.Writer caller.id e)

/-- What a call may do to groups. -/
structure GroupAuthority (cfg : Config) (d : Database) (call : Call) : Prop where
  rows : ∀ g group, d.tables.findGroup g = some group →
    (d.step cfg call).tables.findGroup g ≠ some group → Manages d.tables call g
  members : ∀ g group u role, d.tables.findGroup g = some group →
    ¬ ((d.step cfg call).tables.HasRole g u role ↔ d.tables.HasRole g u role) →
    Manages d.tables call g ∨
      ∃ caller body, call.user d.tables = some caller ∧ caller.id = u ∧
        call.request = .removeUser u body
  contents : ∀ g group e, d.tables.findGroup g = some group →
    ¬ ((d.step cfg call).tables.Contains g e ↔ d.tables.Contains g e) →
    Contributes d.tables call g e

section Sources
variable {db : Tables} {caller : User}

theorem owner_of_mayOnGroup (h : db.Consistent) {action : Action}
    (acts : action ∈ [Action.update, .delete]) {g : ℕ} (may : MayOnGroup db caller action g) :
    caller.isAdmin = true ∨ db.HasRole g caller.id (js "owner") := by
  obtain ⟨group, loaded, can⟩ := may
  have closed : action ≠ .create ∧ action ≠ .read ∧ action ≠ .addEvaluation ∧
      action ≠ .removeEvaluation := by
    simp only [List.mem_cons, List.not_mem_nil, or_false] at acts
    rcases acts with rfl | rfl <;> decide
  have source := (allows_group caller group action).mp can
  simp only [List.mem_cons, List.not_mem_nil, closed, false_and, or_false] at source
  refine source.imp_right fun owner => ?_
  obtain ⟨m, hm, role⟩ := LoadedGroup.hasOwner_iff.mp owner
  rw [(loadGroup_id loaded).2.2] at hm
  exact h.hasRole_iff.mpr ⟨m, hm, role⟩

theorem member_of_allows (h : db.Consistent) {group : LoadedGroup} {g : ℕ}
    (loaded : db.loadGroup g = some group) {action : Action}
    (acts : action ∈ [Action.addEvaluation, .removeEvaluation]) :
    (createForUser caller).allows action group.target = true ↔
      caller.isAdmin = true ∨ ∃ role, db.HasRole g caller.id role := by
  have closed : action ≠ .create ∧ action ≠ .read ∧
      action ∈ [Action.read, .addEvaluation, .removeEvaluation] := by
    simp only [List.mem_cons, List.not_mem_nil, or_false] at acts
    rcases acts with rfl | rfl <;> decide
  have members : group.hasMember caller.id = true ↔ ∃ role, db.HasRole g caller.id role := by
    rw [LoadedGroup.hasMember_iff, (loadGroup_id loaded).2.2]
    constructor
    · rintro ⟨m, hm, isUser⟩
      exact ⟨m.groupUser.role, h.hasRole_iff.mpr ⟨m, hm, isUser, rfl⟩⟩
    · rintro ⟨role, has⟩
      obtain ⟨m, hm, isUser, -⟩ := h.hasRole_iff.mp has
      exact ⟨m, hm, isUser⟩
  rw [LoadedGroup.target, allows_group, ← members]
  simp only [closed.1, closed.2.1, closed.2.2, false_and, false_or, true_and]
  constructor
  · rintro (admin | owner | member)
    · exact .inl admin
    · exact .inr (LoadedGroup.hasMember_of_hasOwner owner)
    · exact .inr member
  · exact Or.imp_right .inr

end Sources

theorem contains_addToGroups_iff {db : Tables} {groups : List LoadedGroup} {n g e : ℕ} :
    (addToGroups db groups n).Contains g e ↔
      (e = n ∧ ∃ group ∈ groups, group.group.id = g) ∨ db.Contains g e := by
  induction groups generalizing db with
  | nil => simp [addToGroups]
  | cons first groups ih =>
      change (addToGroups (db.addEvaluation first.group.id n) groups n).Contains g e ↔ _
      rw [ih, Tables.contains_addEvaluation]
      simp only [List.mem_cons, exists_eq_or_imp]
      constructor
      · rintro (⟨new, later⟩ | ⟨same, new⟩ | old)
        · exact .inl ⟨new, .inr later⟩
        · exact .inl ⟨new, .inl same.symm⟩
        · exact .inr old
      · rintro (⟨new, same | later⟩ | old)
        · exact .inr (.inl ⟨same.symm, new⟩)
        · exact .inl ⟨new, later⟩
        · exact .inr (.inr old)

/-- The named groups that the caller may add to. -/
def uploadGroups (db : Tables) (caller : User) (dto : CreateEvaluationDto) : List LoadedGroup :=
  match dto.groups with
  | .val ids => (GroupsService.findByIds db ids).filter fun group =>
      (createForUser caller).allows .addEvaluation group.target
  | _ => []

theorem mem_uploadGroups {db : Tables} (h : db.Consistent) {caller : User}
    {dto : CreateEvaluationDto} {g : ℕ} :
    (∃ group ∈ uploadGroups db caller dto, group.group.id = g) ↔
      (∃ ids, dto.groups = .val ids ∧ g ∈ ids) ∧ (∃ group, db.findGroup g = some group) ∧
        (caller.isAdmin = true ∨ ∃ role, db.HasRole g caller.id role) := by
  unfold uploadGroups
  cases given : dto.groups with
  | val ids =>
      simp only [Opt.val.injEq, exists_eq_left', List.mem_filter, GroupsService.findByIds,
        List.mem_filterMap]
      constructor
      · rintro ⟨loaded, ⟨⟨group, here, found⟩, can⟩, rfl⟩
        split at found
        · rename_i named
          obtain ⟨same, known, -⟩ := loadGroup_id found
          rw [same]
          exact ⟨named, ⟨_, known⟩, (member_of_allows h found List.mem_cons_self).mp can⟩
        · cases found
      · rintro ⟨named, ⟨group, known⟩, may⟩
        obtain ⟨here, rfl⟩ := Tables.findGroup_some known
        have found : db.loadGroup group.id = some ⟨group, db.usersOf group.id⟩ := by
          rw [Tables.loadGroup, known]
          rfl
        exact ⟨⟨group, db.usersOf group.id⟩, ⟨⟨group, here, by rw [if_pos named, found]⟩,
          (member_of_allows h found List.mem_cons_self).mpr may⟩, rfl⟩
  | undefined => simp
  | null => simp

/-- An upload is always accepted. -/
theorem answer_createEvaluation (cfg : Config) {db : Tables} {call : Call} {caller : User}
    {dto : CreateEvaluationDto} {data : JsVal} (signedIn : call.user db = some caller)
    (upload : call.request = .createEvaluation dto data) :
    answer cfg db call =
      addToGroups (db.insertEvaluation dto.filename data dto.isPublic caller.id)
        (uploadGroups db caller dto) db.nextEvaluation := by
  obtain ⟨token, request, salt, now⟩ := call
  obtain rfl : request = .createEvaluation dto data := upload
  exact answer_accepted signedIn rfl

/-- The contents of a group after a call that is no upload. -/
theorem contents_effect {cfg : Config} {db db' : Tables} {call : Call} (h : db.Consistent)
    (effect : Effect cfg db (call.user db) call.request db')
    (permitted : ∀ user, call.user db = some user → Permitted db user call.request)
    (noUpload : ∀ dto data, call.request ≠ .createEvaluation dto data) {g e : ℕ}
    (changed : ¬ (db'.Contains g e ↔ db.Contains g e)) : Contributes db call g e := by
  have known : ∀ user, call.user db = some user → db.findUser user.id = some user :=
    fun _ => Call.user_known
  unfold Contributes
  generalize call.user db = caller at effect permitted known
  generalize call.request = request at effect permitted noUpload
  have member : ∀ {user : User} {action : Action} {group : LoadedGroup},
      db.loadGroup g = some group → action ∈ [Action.addEvaluation, .removeEvaluation] →
      (createForUser user).allows action group.target = true →
      user.isAdmin = true ∨ (∃ role, db.HasRole g user.id role) ∨ db.Writer user.id e :=
    fun loaded acts can => ((member_of_allows h loaded acts).mp can).imp_right .inl
  cases effect with
  | @removeGroup user id =>
      rw [Tables.contains_destroyGroup] at changed
      have here : g = id := by
        by_contra other
        exact changed (and_iff_right other)
      subst here
      refine ⟨user, rfl, ?_⟩
      rcases owner_of_mayOnGroup h (by decide) (permitted _ rfl) with admin | owner
      · exact .inl admin
      · exact .inr (.inl ⟨_, owner⟩)
  | @addEvaluationToGroup user id dto group added loaded mayAdd found mayRead =>
      rw [Tables.contains_addEvaluation] at changed
      have here : g = id := by
        by_contra other
        exact changed (or_iff_right fun same => other same.1)
      subst here
      exact ⟨user, rfl, member loaded List.mem_cons_self mayAdd⟩
  | @removeEvaluationFromGroup user id dto =>
      rw [Tables.contains_removeEvaluation] at changed
      have here : g = id := by
        by_contra other
        exact changed (and_iff_right fun same => other same.1)
      subst here
      obtain ⟨group, loaded, can⟩ := permitted _ rfl
      exact ⟨user, rfl, member loaded (by decide) can⟩
  | createEvaluation groups loaded => exact absurd rfl (noUpload _ _)
  | @removeEvaluation user id =>
      rw [Tables.contains_destroyEvaluation] at changed
      have here : e = id := by
        by_contra other
        exact changed (and_iff_right other)
      subst here
      obtain ⟨evaluation, found, can⟩ := permitted _ rfl
      have may := Tables.may_iff_exists.mpr ⟨user, evaluation, known _ rfl, found, can⟩
      exact ⟨user, rfl, .inr (.inr ((h.may_iff (by decide)).mp may))⟩
  | _ => exact absurd Iff.rfl changed

theorem rows_effect {cfg : Config} {db db' : Tables} {call : Call} (h : db.Consistent)
    (effect : Effect cfg db (call.user db) call.request db')
    (permitted : ∀ user, call.user db = some user → Permitted db user call.request) {g : ℕ}
    {group : Group} (found : db.findGroup g = some group)
    (changed : db'.findGroup g ≠ some group) : Manages db call g := by
  unfold Manages
  generalize call.user db = caller at effect permitted
  generalize call.request = request at effect permitted
  cases effect with
  | @createGroup user dto isPublic =>
      have old : g ≠ db.nextGroup := by
        rintro rfl
        exact absurd (h.findGroup_next.symm.trans found) (by simp)
      refine absurd ?_ changed
      change (db.insertGroup dto.name isPublic).findGroup g = some group
      rw [Tables.findGroup_insertGroup h, if_neg old, found]
  | @updateGroup user id dto saved same =>
      rw [Tables.findGroup_saveGroup, same] at changed
      have here : g = id := by
        by_contra other
        exact changed (by rw [if_neg other, found])
      subst here
      exact ⟨user, rfl, owner_of_mayOnGroup h List.mem_cons_self (permitted _ rfl)⟩
  | @removeGroup user id =>
      rw [Tables.findGroup_destroyGroup] at changed
      have here : g = id := by
        by_contra other
        exact changed (by rw [if_neg other, found])
      subst here
      exact ⟨user, rfl, owner_of_mayOnGroup h (by decide) (permitted _ rfl)⟩
  | createEvaluation groups loaded =>
      refine absurd ?_ changed
      rw [Tables.findGroup, (addToGroups_frame _ groups _).2.1]
      exact found
  | _ => exact absurd found changed

theorem members_effect {cfg : Config} {db db' : Tables} {call : Call} (h : db.Consistent)
    (effect : Effect cfg db (call.user db) call.request db')
    (permitted : ∀ user, call.user db = some user → Permitted db user call.request) {g : ℕ}
    {group : Group} (found : db.findGroup g = some group) {u : ℕ} {role : JsString}
    (changed : ¬ (db'.HasRole g u role ↔ db.HasRole g u role)) : Manages db call g ∨
      ∃ caller body, call.user db = some caller ∧ caller.id = u ∧
        call.request = .removeUser u body := by
  unfold Manages
  generalize call.user db = caller at effect permitted
  generalize call.request = request at effect permitted
  cases effect with
  | @removeUser user id body old known may =>
      rw [Tables.hasRole_destroyUser] at changed
      have here : u = id := by
        by_contra other
        exact changed (and_iff_right other)
      subst here
      rcases mayOnUser_cases (by decide) (permitted _ rfl) with admin | own
      · exact .inl ⟨user, rfl, .inl admin⟩
      · exact .inr ⟨user, body, rfl, own.symm, rfl⟩
  | @createGroup user dto isPublic =>
      have old : g ≠ db.nextGroup := by
        rintro rfl
        exact absurd (h.findGroup_next.symm.trans found) (by simp)
      rw [Tables.hasRole_addUser] at changed
      refine absurd ?_ changed
      simp only [old, false_and, not_false_eq_true, true_and, false_or]
      exact Iff.rfl
  | @removeGroup user id =>
      rw [Tables.hasRole_destroyGroup] at changed
      have here : g = id := by
        by_contra other
        exact changed (and_iff_right other)
      subst here
      exact .inl ⟨user, rfl, owner_of_mayOnGroup h (by decide) (permitted _ rfl)⟩
  | @addUserToGroup user id dto loaded added there may stored =>
      rw [Tables.hasRole_addUser] at changed
      have here : g = id := by
        by_contra other
        exact changed (by simp only [other, false_and, not_false_eq_true, true_and, false_or])
      subst here
      exact .inl ⟨user, rfl, owner_of_mayOnGroup h List.mem_cons_self (permitted _ rfl)⟩
  | @removeUserFromGroup user id dto loaded removed there stored guard =>
      rw [Tables.hasRole_removeUser] at changed
      have here : g = id := by
        by_contra other
        exact changed (and_iff_right fun same => other same.1)
      subst here
      exact .inl ⟨user, rfl, owner_of_mayOnGroup h List.mem_cons_self (permitted _ rfl)⟩
  | createEvaluation groups loaded =>
      refine absurd ?_ changed
      rw [Tables.HasRole, (addToGroups_frame _ groups _).2.2.1]
      exact Iff.rfl
  | _ => exact absurd Iff.rfl changed

/-- One call changes of a group what its caller has authority over. -/
theorem groupAuthority_step (cfg : Config) (d : Database) (call : Call) :
    GroupAuthority cfg d call := by
  have h := d.consistent
  have cases := answer_permitted cfg d.tables call
  refine ⟨?_, ?_, ?_⟩
  · intro g group found changed
    rcases cases with same | ⟨effect, permitted⟩
    · exact absurd (by rw [Database.step_tables, same, found]) changed
    · exact rows_effect h effect permitted found changed
  · intro g group u role found changed
    rcases cases with same | ⟨effect, permitted⟩
    · exact absurd (by rw [Database.step_tables, same]) changed
    · exact members_effect h effect permitted found changed
  · intro g group e found changed
    rcases cases with same | ⟨effect, permitted⟩
    · exact absurd (by rw [Database.step_tables, same]) changed
    by_cases upload : ∃ dto data, call.request = .createEvaluation dto data
    · obtain ⟨dto, data, upload⟩ := upload
      cases signedIn : call.user d.tables with
      | none =>
          rw [signedIn, upload] at effect
          cases effect
      | some caller =>
          rw [Database.step_tables, answer_createEvaluation cfg signedIn upload,
            contains_addToGroups_iff, mem_uploadGroups h] at changed
          by_cases may : caller.isAdmin = true ∨ ∃ role, d.tables.HasRole g caller.id role
          · exact ⟨caller, signedIn, may.imp_right .inl⟩
          · exact absurd (or_iff_right fun new => may new.2.2.2) changed
    · exact contents_effect h effect permitted (fun dto data same => upload ⟨dto, data, same⟩)
        changed

theorem groupAuthority_run (cfg : Config) (d : Database) (calls : List Call) :
    Lib.Along (Database.step cfg) (GroupAuthority cfg) d calls :=
  Lib.along_of_step (groupAuthority_step cfg) d calls

/-- A group that an upload of the caller joins. -/
def Joins (db : Tables) (caller : User) (dto : CreateEvaluationDto) (g : ℕ) : Prop :=
  (∃ ids, dto.groups = .val ids ∧ g ∈ ids) ∧ (∃ group, db.findGroup g = some group) ∧
    (caller.isAdmin = true ∨ ∃ role, db.HasRole g caller.id role)

section Upload
variable {db : Tables} {caller : User} {dto : CreateEvaluationDto} {data : JsVal}

def uploaded (db : Tables) (caller : User) (dto : CreateEvaluationDto) (data : JsVal) : Tables :=
  addToGroups (db.insertEvaluation dto.filename data dto.isPublic caller.id)
    (uploadGroups db caller dto) db.nextEvaluation

theorem uploaded_contains (h : db.Consistent) {g e : ℕ} :
    (uploaded db caller dto data).Contains g e ↔
      (e = db.nextEvaluation ∧ Joins db caller dto g) ∨ db.Contains g e := by
  rw [uploaded, contains_addToGroups_iff, mem_uploadGroups h]
  rfl

theorem uploaded_findEvaluation (h : db.Consistent) (e : ℕ) :
    (uploaded db caller dto data).findEvaluation e =
      if e = db.nextEvaluation then
        some ⟨db.nextEvaluation, dto.filename, data, dto.isPublic, some caller.id⟩
      else db.findEvaluation e := by
  rw [Tables.findEvaluation, uploaded, (addToGroups_frame _ _ _).2.2.2]
  exact Tables.findEvaluation_insertEvaluation h _ _ _ _ e

theorem uploaded_findUser (u : ℕ) :
    (uploaded db caller dto data).findUser u = db.findUser u := by
  rw [Tables.findUser, uploaded, (addToGroups_frame _ _ _).1]
  rfl

theorem uploaded_hasRole {g u : ℕ} {role : JsString} :
    (uploaded db caller dto data).HasRole g u role ↔ db.HasRole g u role := by
  rw [Tables.HasRole, uploaded, (addToGroups_frame _ _ _).2.2.1]
  exact Iff.rfl

/-- No group contains an evaluation that is not there. -/
theorem not_contains_next (h : db.Consistent) (g : ℕ) : ¬ db.Contains g db.nextEvaluation := by
  intro contains
  obtain ⟨evaluation, found⟩ := (h.contains_keys contains).2
  exact absurd (h.findEvaluation_next.symm.trans found) (by simp)

end Upload

/-- Who has access to an upload: administrators, the uploader, everybody if it is public, and
the members and owners of those named groups that the uploader may add to. All other
evaluations have the groups that they had. -/
theorem upload_access (cfg : Config) (d : Database) {call : Call} {caller : User}
    {dto : CreateEvaluationDto} {data : JsVal} (signedIn : call.user d.tables = some caller)
    (upload : call.request = .createEvaluation dto data) :
    let after := (d.step cfg call).tables
    let new := d.tables.nextEvaluation
    (∀ u, after.May .read u new ↔ ∃ user, d.tables.findUser u = some user ∧
      (user.isAdmin = true ∨ u = caller.id ∨ dto.isPublic = true ∨
        ∃ g role, Joins d.tables caller dto g ∧ d.tables.HasRole g u role)) ∧
    (∀ u, ∀ action ∈ [Action.update, .delete], after.May action u new ↔
      ∃ user, d.tables.findUser u = some user ∧ (user.isAdmin = true ∨ u = caller.id ∨
        ∃ g, Joins d.tables caller dto g ∧ d.tables.HasRole g u (js "owner"))) ∧
    ∀ g e, e ≠ new → (after.Contains g e ↔ d.tables.Contains g e) := by
  have h := d.consistent
  have after : (d.step cfg call).tables = uploaded d.tables caller dto data :=
    answer_createEvaluation cfg signedIn upload
  have h' := (d.step cfg call).consistent
  have contains : ∀ g, (uploaded d.tables caller dto data).Contains g d.tables.nextEvaluation ↔
      Joins d.tables caller dto g := by
    intro g
    rw [uploaded_contains h]
    exact ⟨fun inside => inside.elim And.right fun old => absurd old (not_contains_next h g),
      fun joins => .inl ⟨rfl, joins⟩⟩
  refine ⟨fun u => ?_, fun u action write => ?_, fun g e other => ?_⟩
  · rw [h'.may_read_iff, Tables.Reader, after]
    simp only [uploaded_findUser, uploaded_findEvaluation h, if_true, Option.some.injEq,
      uploaded_hasRole, contains]
    constructor
    · rintro ⟨user, evaluation, known, rfl, source⟩
      refine ⟨user, known, source.imp_right (Or.imp_left fun same => ?_)⟩
      exact (Option.some.inj same).symm
    · rintro ⟨user, known, source⟩
      exact ⟨user, _, known, rfl, source.imp_right (Or.imp_left fun same => congrArg some same.symm)⟩
  · rw [h'.may_iff write, Tables.Writer, after]
    simp only [uploaded_findUser, uploaded_findEvaluation h, if_true, Option.some.injEq,
      uploaded_hasRole, contains]
    constructor
    · rintro ⟨user, evaluation, known, rfl, source⟩
      refine ⟨user, known, source.imp_right (Or.imp_left fun same => ?_)⟩
      exact (Option.some.inj same).symm
    · rintro ⟨user, known, source⟩
      exact ⟨user, _, known, rfl, source.imp_right (Or.imp_left fun same => congrArg some same.symm)⟩
  · rw [after, uploaded_contains h]
    exact or_iff_right fun new => other new.1

theorem upload_access_sample :
    (samplePrivate.step sampleConfig
      (sampleCall 2 (.createEvaluation sampleScan (.object [])))).tables.May .read 2 2 := by
  have present : ((sampleCall 2 (.createEvaluation sampleScan (.object []))).user
      samplePrivate.tables).isSome = true := by decide +kernel
  obtain ⟨caller, signedIn⟩ := Option.isSome_iff_exists.mp present
  have known : samplePrivate.tables.findUser 2 = some caller := signedIn
  have next : samplePrivate.tables.nextEvaluation = 2 := by decide +kernel
  have readers := (upload_access sampleConfig samplePrivate signedIn rfl).1 2
  rw [next] at readers
  exact readers.mpr ⟨caller, known, .inr (.inl (Tables.findUser_some known).2.symm)⟩

end Backend
