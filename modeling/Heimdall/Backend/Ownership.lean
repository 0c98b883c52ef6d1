import Heimdall.Backend.Api

/-!
# Owners of groups

Every group should keep an owner. Removing a member looks at the owners that are left;
giving a member another role and removing an account do not, and they are the only calls
that can leave a group without one.
-/
namespace Backend
open Js Casl

namespace Tables

def Owned (db : Tables) : Prop := ∀ g group, db.findGroup g = some group →
  ∃ m ∈ db.usersOf g, m.groupUser.role = js "owner"

/-- The user owns the group and nobody else does. -/
def OnlyOwner (db : Tables) (g u : ℕ) : Prop :=
  db.HasRole g u (js "owner") ∧ ∀ u', db.HasRole g u' (js "owner") → u' = u

theorem Consistent.owned_iff {db : Tables} (h : db.Consistent) :
    db.Owned ↔ ∀ g group, db.findGroup g = some group → ∃ u, db.HasRole g u (js "owner") := by
  refine forall_congr' fun g => forall_congr' fun group => imp_congr_right fun _ => ?_
  constructor
  · rintro ⟨m, hm, role⟩
    exact ⟨m.user.id, h.hasRole_iff.mpr ⟨m, hm, rfl, role⟩⟩
  · rintro ⟨u, has⟩
    obtain ⟨m, hm, -, role⟩ := h.hasRole_iff.mp has
    exact ⟨m, hm, role⟩

theorem exists_other_owner {db : Tables} {g u : ℕ} (shared : ¬ db.OnlyOwner g u)
    (owned : ∃ v, db.HasRole g v (js "owner")) : ∃ v, v ≠ u ∧ db.HasRole g v (js "owner") := by
  obtain ⟨v, has⟩ := owned
  by_cases same : v = u
  · subst same
    by_contra alone
    exact shared ⟨has, fun w hw => by_contra fun other => alone ⟨w, other, hw⟩⟩
  · exact ⟨v, same, has⟩

/-- A group lists every member once. -/
theorem Consistent.usersOf_nodup {db : Tables} (h : db.Consistent) (g : ℕ) :
    ((db.usersOf g).map fun m => m.user.id).Nodup := by
  refine List.pairwise_map.mpr (List.pairwise_filterMap.mpr (h.once.imp ?_))
  intro a b apart m hm n hn same
  have clash := apart g m.user.id (by rw [joins_of_joinUser hm, decide_eq_true rfl])
  rw [same, joins_of_joinUser hn, decide_eq_true rfl] at clash
  cases clash

/-- With two owners, or none of the name, another owner stays after a removal. -/
theorem Consistent.owner_left {db : Tables} (h : db.Consistent) {g u : ℕ}
    (guard : GroupsService.mayRemove db g u = true)
    (owned : ∃ v, db.HasRole g v (js "owner")) : ∃ v, v ≠ u ∧ db.HasRole g v (js "owner") := by
  rcases GroupsService.mayRemove_iff.mp guard with two | absent
  · have distinct : ((GroupsService.owners db g).map fun m => m.user.id).Nodup :=
      (h.usersOf_nodup g).sublist (List.filter_sublist.map _)
    obtain ⟨m, hm, other⟩ := Lib.exists_key_ne distinct two u
    obtain ⟨hm, role⟩ := GroupsService.mem_owners.mp hm
    exact ⟨m.user.id, other, h.hasRole_iff.mpr ⟨m, hm, rfl, role⟩⟩
  · obtain ⟨v, has⟩ := owned
    obtain ⟨m, hm, rfl, role⟩ := h.hasRole_iff.mp has
    exact ⟨m.user.id, absent m (GroupsService.mem_owners.mpr ⟨hm, role⟩), has⟩

end Tables

def MayUpdateGroup (db : Tables) (caller : User) (g : ℕ) : Prop :=
  ∃ group, db.loadGroup g = some group ∧ (createForUser caller).allows .update group.target = true

/-- No caller who may do so takes the owner role from the only owner of a group. -/
def KeepsOwner (cfg : Config) (db : Tables) (call : Call) : Prop :=
  ∀ caller, call.user db = some caller → match call.request with
    | .addUserToGroup g dto => MayUpdateGroup db caller g →
        dto.groupRole = js "owner" ∨ ¬ db.OnlyOwner g dto.userId
    | .removeUser u body => ∀ user, db.findUser u = some user →
        UsersController.MayRemove cfg db caller user body → ∀ g, ¬ db.OnlyOwner g u
    | _ => True

theorem owned_effect {cfg : Config} {db db' : Tables} {call : Call} (h : db.Consistent)
    (effect : Effect cfg db (call.user db) call.request db') (keeps : KeepsOwner cfg db call)
    (owned : ∀ g group, db.findGroup g = some group → ∃ u, db.HasRole g u (js "owner")) :
    ∀ g group, db'.findGroup g = some group → ∃ u, db'.HasRole g u (js "owner") := by
  generalize signedIn : call.user db = caller at effect
  obtain ⟨token, request, salt, now⟩ := call
  intro g group found
  cases effect with
  | createUser user role => exact owned g group found
  | updateUser user saved _ same role => exact owned g group found
  | @removeUser _ id _ user known may =>
      have shared := keeps _ signedIn user known may g
      obtain ⟨u, other, has⟩ := Tables.exists_other_owner shared (owned g group found)
      exact ⟨u, Tables.hasRole_destroyUser.mpr ⟨other, has⟩⟩
  | @createGroup caller dto isPublic =>
      change (db.insertGroup dto.name isPublic).findGroup g = some group at found
      rw [Tables.findGroup_insertGroup h] at found
      by_cases new : g = db.nextGroup
      · exact ⟨caller.id, Tables.hasRole_addUser.mpr (.inl ⟨new, rfl, rfl⟩)⟩
      · rw [if_neg new] at found
        obtain ⟨u, has⟩ := owned g group found
        exact ⟨u, Tables.hasRole_addUser.mpr (.inr ⟨fun same => new same.1, has⟩)⟩
  | updateGroup saved same =>
      rw [Tables.findGroup_saveGroup] at found
      split at found
      · obtain ⟨old, before, -⟩ := Option.map_eq_some_iff.mp found
        exact owned g old before
      · exact owned g group found
  | removeGroup =>
      rw [Tables.findGroup_destroyGroup] at found
      split at found
      · cases found
      · rename_i kept
        obtain ⟨u, has⟩ := owned g group found
        exact ⟨u, Tables.hasRole_destroyGroup.mpr ⟨kept, has⟩⟩
  | @addUserToGroup _ id dto loaded user stored may _ =>
      by_cases here : g = id
      · subst here
        rcases keeps _ signedIn ⟨loaded, stored, may⟩ with owner | shared
        · exact ⟨dto.userId, Tables.hasRole_addUser.mpr (.inl ⟨rfl, rfl, owner.symm⟩)⟩
        · obtain ⟨u, other, has⟩ := Tables.exists_other_owner shared (owned g group found)
          exact ⟨u, Tables.hasRole_addUser.mpr (.inr ⟨fun same => other same.2, has⟩)⟩
      · obtain ⟨u, has⟩ := owned g group found
        exact ⟨u, Tables.hasRole_addUser.mpr (.inr ⟨fun same => here same.1, has⟩)⟩
  | @removeUserFromGroup _ id dto removed user loaded _ guard =>
      by_cases here : g = id
      · subst here
        obtain ⟨u, other, has⟩ := h.owner_left guard (owned g group found)
        exact ⟨u, Tables.hasRole_removeUser.mpr ⟨fun same => other same.2, has⟩⟩
      · obtain ⟨u, has⟩ := owned g group found
        exact ⟨u, Tables.hasRole_removeUser.mpr ⟨fun same => here same.1, has⟩⟩
  | createEvaluation groups loaded =>
      obtain ⟨-, sameGroups, sameMembers, -⟩ := addToGroups_frame
        (db.insertEvaluation _ _ _ _) groups db.nextEvaluation
      rw [Tables.findGroup, sameGroups] at found
      obtain ⟨u, has⟩ := owned g group found
      exact ⟨u, by rw [Tables.HasRole, sameMembers]; exact has⟩
  | _ => exact owned g group found

/-- Every other call leaves a group without owner. -/
theorem keepsOwner_of_owned {cfg : Config} {db : Tables} {call : Call} (h : db.Consistent)
    (owned : (answer cfg db call).Owned) : KeepsOwner cfg db call := by
  rw [(answer_consistent h call).owned_iff] at owned
  obtain ⟨token, request, salt, now⟩ := call
  intro caller signedIn
  cases request with
  | addUserToGroup g dto =>
      rintro ⟨group, loaded, may⟩
      by_contra loses
      obtain ⟨role, only⟩ := not_or.mp loses
      have only := not_not.mp only
      obtain ⟨⟨stored, found⟩, user, known⟩ := h.hasRole_keys only.1
      rw [answer_accepted signedIn (GroupsController.addUserToGroup_ok.mpr
        ⟨group, user, loaded, may, known, rfl⟩)] at owned
      obtain ⟨u, has⟩ := owned g stored found
      rcases Tables.hasRole_addUser.mp has with ⟨-, -, same⟩ | ⟨other, has⟩
      · exact role same.symm
      · exact other ⟨rfl, only.2 u has⟩
  | removeUser u body =>
      intro user known may g only
      obtain ⟨⟨stored, found⟩, -⟩ := h.hasRole_keys only.1
      rw [answer_accepted signedIn (UsersController.remove_ok.mpr ⟨user, known, may, rfl⟩)] at owned
      obtain ⟨v, has⟩ := owned g stored found
      obtain ⟨other, has⟩ := Tables.hasRole_destroyUser.mp has
      exact other (only.2 v has)
  | _ => trivial

theorem owned_step {cfg : Config} {d : Database} {call : Call} (owned : d.tables.Owned) :
    (d.step cfg call).tables.Owned ↔ KeepsOwner cfg d.tables call := by
  refine ⟨keepsOwner_of_owned d.consistent, fun keeps => ?_⟩
  rcases answer_cases cfg d.tables call with same | effect
  · rw [Database.step_tables, same]
    exact owned
  · exact (d.step cfg call).consistent.owned_iff.mpr
      (owned_effect d.consistent effect keeps (d.consistent.owned_iff.mp owned))

/-- Exactly along the runs whose calls all keep the only owners, every group has an owner
throughout. -/
theorem owned_run (cfg : Config) {d : Database} (calls : List Call) (owned : d.tables.Owned) :
    Lib.Throughout (Database.step cfg) (fun d => d.tables.Owned) d calls ↔
      Lib.Along (Database.step cfg) (fun d call => KeepsOwner cfg d.tables call) d calls :=
  Lib.throughout_iff_along (Q := fun d : Database => d.tables.Owned)
    (fun _ _ owned => owned_step owned) owned calls

theorem empty_owned : Database.empty.tables.Owned := by
  intro g group found
  cases found

theorem not_owned_of_check {db : Tables} (g : ℕ)
    (check : ((db.findGroup g).isSome &&
      (db.usersOf g).all fun m => decide (m.groupUser.role ≠ js "owner")) = true) :
    ¬ db.Owned := by
  rw [Bool.and_eq_true, List.all_eq_true] at check
  obtain ⟨group, found⟩ := Option.isSome_iff_exists.mp check.1
  intro owned
  obtain ⟨m, hm, role⟩ := owned g group found
  exact of_decide_eq_true (check.2 m hm) role

theorem owned_run_sample : Lib.Throughout (Database.step sampleConfig) (fun d => d.tables.Owned)
    Database.empty
    [sampleRegistration "a@example.com", sampleRegistration "b@example.com",
     sampleCall 1 (.createGroup sampleGroup),
     sampleCall 1 (.addUserToGroup 1 (sampleOwnership 2)),
     sampleCall 2 (.removeUserFromGroup 1 ⟨1⟩)] :=
  (owned_run sampleConfig _ empty_owned).mpr
    ⟨fun _ _ => trivial, fun _ _ => trivial, fun _ _ => trivial, fun _ _ _ => .inl rfl,
      fun _ _ => trivial, trivial⟩

/-- The only owner makes itself a member, or deletes its account. -/
theorem not_owned_runs :
    ¬ Lib.Throughout (Database.step sampleConfig) (fun d => d.tables.Owned) Database.empty
      [sampleRegistration "a@example.com", sampleCall 1 (.createGroup sampleGroup),
       sampleCall 1 (.addUserToGroup 1 (sampleMembership 1))] ∧
    ¬ Lib.Throughout (Database.step sampleConfig) (fun d => d.tables.Owned) Database.empty
      [sampleRegistration "a@example.com", sampleCall 1 (.createGroup sampleGroup),
       sampleCall 1 (.removeUser 1
         (.object [(js "password", .str (js "aB1!cD2?eF3#gH4"))]))] := by
  refine ⟨fun h => ?_, fun h => ?_⟩
  · exact not_owned_of_check 1 (by decide +kernel) h.last
  · exact not_owned_of_check 1 (by decide +kernel) h.last

end Backend
