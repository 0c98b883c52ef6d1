import Heimdall.Backend.Api

/-!
# Roles of users

Three mechanisms guard the role column: the decorator on new accounts, the prohibition for
administrators to manage themselves, and the guard on removing the last one. Together they
keep the role of everybody out of reach of everybody else, call by call and so along runs.
-/
namespace Backend
open Js Casl

def Tables.HasAdmin (db : Tables) : Prop :=
  ∃ u user, db.findUser u = some user ∧ user.isAdmin = true

/-- What a call may do to roles. -/
structure RoleIntegrity (cfg : Config) (d : Database) (call : Call) : Prop where
  /-- A role changes only by a request of another user who is an administrator. -/
  changes : ∀ u old new, d.tables.findUser u = some old →
    (d.step cfg call).tables.findUser u = some new → new.role ≠ old.role →
    ∃ admin, call.user d.tables = some admin ∧ admin.isAdmin = true ∧ admin.id ≠ u
  /-- A user who was not there before is no administrator. -/
  creations : ∀ u new, d.tables.findUser u = none →
    (d.step cfg call).tables.findUser u = some new → new.role ≠ js "admin"
  administered : d.tables.HasAdmin → (d.step cfg call).tables.HasAdmin

/-- What a call can do to the users. -/
theorem Effect.users_cases {cfg : Config} {db db' : Tables} {caller : Option User}
    {request : Request} (effect : Effect cfg db caller request db') :
    db'.users = db.users ∨
    (∃ user : User, user.role = js "user" ∧ db' = db.insertUser user) ∨
    (∃ admin user saved : User, caller = some admin ∧ db.findUser user.id = some user ∧
      saved.id = user.id ∧
      (saved.role = user.role ∨ (admin.isAdmin = true ∧ user.id ≠ admin.id)) ∧
      db' = db.saveUser saved) ∨
    (∃ user : User, db.findUser user.id = some user ∧
      (user.isAdmin = true → 2 ≤ UsersService.adminCount db) ∧ db' = db.destroyUser user.id) := by
  cases effect with
  | createUser user role => exact .inr (.inl ⟨user, role, rfl⟩)
  | updateUser user saved found same role =>
      have id := (Tables.findUser_some found).2
      exact .inr (.inr (.inl ⟨_, user, saved, rfl, id ▸ found, same, role, rfl⟩))
  | removeUser user found may =>
      obtain rfl := (Tables.findUser_some found).2
      exact .inr (.inr (.inr ⟨user, found, may.guard, rfl⟩))
  | createEvaluation groups loaded => exact .inl (addToGroups_frame _ groups _).1
  | _ => exact .inl rfl

theorem hasAdmin_destroyUser {db : Tables} (h : db.Consistent) (d : ℕ)
    (two : 2 ≤ UsersService.adminCount db) : (db.destroyUser d).HasAdmin := by
  rw [UsersService.adminCount, List.countP_eq_length_filter] at two
  have distinct : ((db.users.filter fun user => user.isAdmin).map User.id).Nodup :=
    h.userKeys.nodup.sublist (List.filter_sublist.map User.id)
  obtain ⟨user, here, other⟩ := Lib.exists_key_ne distinct two d
  obtain ⟨here, admin⟩ := List.mem_filter.mp here
  refine ⟨user.id, user, ?_, admin⟩
  rw [Tables.findUser_destroyUser, if_neg other]
  exact Lib.pick_of_mem h.userKeys.nodup here

theorem hasAdmin_of_same {db db' : Tables} (same : db'.users = db.users) (h : db.HasAdmin) :
    db'.HasAdmin := by
  obtain ⟨u, user, found, admin⟩ := h
  refine ⟨u, user, ?_, admin⟩
  rw [Tables.findUser, same]
  exact found

theorem roles_administered {cfg : Config} {db db' : Tables} {caller : Option User}
    {request : Request} (h : db.Consistent) (effect : Effect cfg db caller request db')
    (known : ∀ user, caller = some user → db.findUser user.id = some user)
    (some_admin : db.HasAdmin) : db'.HasAdmin := by
  rcases effect.users_cases with same | ⟨created, -, rfl⟩ |
    ⟨admin, user, saved, signedIn, found, id, role, rfl⟩ | ⟨user, found, guard, rfl⟩
  · exact hasAdmin_of_same same some_admin
  · obtain ⟨u, user, found, isAdmin⟩ := some_admin
    refine ⟨u, user, ?_, isAdmin⟩
    rw [Tables.findUser_insertUser h, if_neg]
    · exact found
    · rintro rfl
      rw [h.findUser_next] at found
      cases found
  · rcases role with same | ⟨isAdmin, other⟩
    · obtain ⟨u, old, foundOld, oldAdmin⟩ := some_admin
      by_cases here : u = saved.id
      · refine ⟨u, saved, ?_, ?_⟩
        · rw [Tables.findUser_saveUser, if_pos here, foundOld]
          rfl
        · rw [here, id, found] at foundOld
          cases foundOld
          simpa [User.isAdmin, same] using oldAdmin
      · exact ⟨u, old, by rw [Tables.findUser_saveUser, if_neg here]; exact foundOld, oldAdmin⟩
    · refine ⟨admin.id, admin, ?_, isAdmin⟩
      rw [Tables.findUser_saveUser, if_neg (by rw [id]; exact other.symm)]
      exact known admin signedIn
  · by_cases gone : user.isAdmin = true
    · exact hasAdmin_destroyUser h _ (guard gone)
    · obtain ⟨u, old, foundOld, oldAdmin⟩ := some_admin
      refine ⟨u, old, ?_, oldAdmin⟩
      rw [Tables.findUser_destroyUser, if_neg]
      · exact foundOld
      · rintro rfl
        rw [found] at foundOld
        cases foundOld
        exact gone oldAdmin

theorem roles_changes {cfg : Config} {db db' : Tables} {caller : Option User}
    {request : Request} (h : db.Consistent) (effect : Effect cfg db caller request db') {u : ℕ} {old new : User}
    (before : db.findUser u = some old) (after : db'.findUser u = some new)
    (changed : new.role ≠ old.role) :
    ∃ admin, caller = some admin ∧ admin.isAdmin = true ∧ admin.id ≠ u := by
  rcases effect.users_cases with same | ⟨created, -, rfl⟩ |
    ⟨admin, user, saved, signedIn, found, id, role, rfl⟩ | ⟨user, found, guard, rfl⟩
  · rw [Tables.findUser, same, ← Tables.findUser, before] at after
    cases after
    exact absurd rfl changed
  · rw [Tables.findUser_insertUser h] at after
    split at after
    · rename_i fresh
      rw [fresh, h.findUser_next] at before
      cases before
    · rw [before] at after
      cases after
      exact absurd rfl changed
  · rw [Tables.findUser_saveUser, before] at after
    split at after
    · rename_i here
      cases after
      rw [here, id, found] at before
      cases before
      rcases role with kept | ⟨isAdmin, other⟩
      · exact absurd kept changed
      · exact ⟨admin, signedIn, isAdmin, by rw [here, id]; exact other.symm⟩
    · cases after
      exact absurd rfl changed
  · rw [Tables.findUser_destroyUser, before] at after
    split at after
    · cases after
    · cases after
      exact absurd rfl changed

theorem roles_creations {cfg : Config} {db db' : Tables} {caller : Option User}
    {request : Request} (h : db.Consistent) (effect : Effect cfg db caller request db') {u : ℕ} {new : User}
    (before : db.findUser u = none) (after : db'.findUser u = some new) :
    new.role = js "user" := by
  rcases effect.users_cases with same | ⟨created, role, rfl⟩ |
    ⟨admin, user, saved, signedIn, found, id, -, rfl⟩ | ⟨user, found, guard, rfl⟩
  · rw [Tables.findUser, same, ← Tables.findUser, before] at after
    cases after
  · rw [Tables.findUser_insertUser h, before] at after
    split at after
    · cases after
      exact role
    · cases after
  · rw [Tables.findUser_saveUser, before] at after
    split at after <;> cases after
  · rw [Tables.findUser_destroyUser, before] at after
    split at after <;> cases after

/-- One call keeps the roles out of reach. -/
theorem roleIntegrity_step (cfg : Config) (d : Database) (call : Call) :
    RoleIntegrity cfg d call := by
  have cases := answer_cases cfg d.tables call
  refine ⟨?_, ?_, ?_⟩
  · intro u old new before after changed
    rcases cases with same | effect
    · rw [Database.step_tables, same, before] at after
      cases after
      exact absurd rfl changed
    · exact roles_changes d.consistent effect before after changed
  · intro u new before after
    rcases cases with same | effect
    · rw [Database.step_tables, same, before] at after
      cases after
    · rw [roles_creations d.consistent effect before after]
      decide
  · intro some_admin
    rcases cases with same | effect
    · rw [Database.step_tables, same]
      exact some_admin
    · exact roles_administered d.consistent effect (fun _ => Call.user_known) some_admin

/-- Along every run from every database. -/
theorem roleIntegrity_run (cfg : Config) (d : Database) (calls : List Call) :
    Lib.Along (Database.step cfg) (RoleIntegrity cfg) d calls :=
  Lib.along_of_step (fun d call => roleIntegrity_step cfg d call) d calls

end Backend
