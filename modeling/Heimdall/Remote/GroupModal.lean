import Heimdall.Lib.Membership
import Heimdall.Backend.GroupAuthority

/-!
# Saving a group

The dialog for a group edits a copy of its list of users, then sends the name, and after that
one request for each user who was added or taken out, all at once. The server meets these in
any order. What it holds in the end is what the dialog showed.
-/
namespace Remote
open Js Backend Lib

/-- The list of users in the dialog, by their keys, and the selection to add. -/
structure Users where
  currentUsers : List ℕ
  usersToAdd : List ℕ

inductive UsersEvent where
  | select (ids : List ℕ)
  | addUsers
  | deleteUserConfirm (index : ℕ)

namespace Users
variable (allUsers : List ℕ) (self : ℕ)

/-- The users to select from: neither in the list nor the own account. -/
def availableUsers (s : Users) : List ℕ :=
  allUsers.filter fun user => user ∉ s.currentUsers ∧ user ≠ self

def step (s : Users) : UsersEvent → Users
  | .select ids => { s with usersToAdd := ids.filter fun id => id ∈ s.availableUsers allUsers self }
  | .addUsers =>
      ⟨s.currentUsers ++ allUsers.filter fun user => user ∈ s.usersToAdd, []⟩
  | .deleteUserConfirm index => { s with currentUsers := s.currentUsers.eraseIdx index }

/-- The list that a dialog shows after these edits. -/
def edited (opened : List ℕ) (edits : List UsersEvent) : List ℕ :=
  (run (step allUsers self) ⟨opened, []⟩ edits).currentUsers

end Users

/-- The list of users that the dialog was opened with, and the edited copy. -/
structure GroupModal where
  group : List ℕ
  users : List ℕ

namespace GroupModal

def toAdd (modal : GroupModal) : List ℕ := modal.users.filter fun user => user ∉ modal.group

def toRemove (modal : GroupModal) : List ℕ := modal.group.filter fun user => user ∉ modal.users

def syncUsersWithGroup (modal : GroupModal) : List (Change ℕ) :=
  modal.toAdd.map .add ++ modal.toRemove.map .remove

theorem member_notEmpty : js "member" ≠ [] := by decide

/-- The request for one change; nobody becomes an owner. -/
def request (g : ℕ) : Change ℕ → Backend.Request
  | .add user => .addUserToGroup g ⟨user, js "member", member_notEmpty⟩
  | .remove user => .removeUserFromGroup g ⟨user⟩

end GroupModal

/-- The call of a signed-in client; these requests read neither the clock nor the salt. -/
def sent (token : ℕ) (request : Backend.Request) : Call := ⟨some token, request, 0, 0⟩

/-- The server carries the call out. -/
def Accepts (cfg : Config) (d : Database) (call : Call) : Prop :=
  ∃ db, handle cfg d.tables call = .ok db

namespace Users
variable {allUsers : List ℕ} {self : ℕ} {opened : List ℕ}

/-- Whoever is shown was shown before or was selected, and nobody selects the own account. -/
theorem mem_edited {edits : List UsersEvent} {user : ℕ}
    (here : user ∈ edited allUsers self opened edits) :
    user ∈ opened ∨ (user ∈ allUsers ∧ user ≠ self) := by
  have kept : Throughout (step allUsers self)
      (fun s => (∀ user ∈ s.currentUsers, user ∈ opened ∨ (user ∈ allUsers ∧ user ≠ self)) ∧
        ∀ user ∈ s.usersToAdd, user ≠ self) ⟨opened, []⟩ edits := by
    refine @Throughout.of_invariant _ _ (step allUsers self) _ _ (fun _ _ => True)
      (fun s event inv _ => ?_) (fun _ inv => inv) _
      ⟨fun user here => .inl here, fun user here => nomatch here⟩ edits
      (along_of_step (fun _ _ => trivial) _ edits)
    cases event with
    | select ids =>
        refine ⟨inv.1, fun user here => ?_⟩
        have chosen := (List.mem_filter.mp here).2
        simp only [availableUsers, List.mem_filter, decide_eq_true_eq] at chosen
        exact chosen.2.2
    | addUsers =>
        refine ⟨fun user here => ?_, fun user here => nomatch here⟩
        rcases List.mem_append.mp here with old | new
        · exact inv.1 user old
        · obtain ⟨listed, chosen⟩ := List.mem_filter.mp new
          exact .inr ⟨listed, inv.2 user (of_decide_eq_true chosen)⟩
    | deleteUserConfirm index =>
        exact ⟨fun user here => inv.1 user (List.mem_of_mem_eraseIdx here), inv.2⟩
  exact kept.last.1 user here

end Users
section Server
variable {cfg : Config} {d : Database} {caller : User} {g : ℕ} {group : Group}

/-- Administrators and owners may update a group. -/
theorem allows_update (h : d.tables.Consistent) {loaded : LoadedGroup}
    (found : d.tables.loadGroup g = some loaded)
    (manages : caller.isAdmin = true ∨ d.tables.HasRole g caller.id (js "owner")) :
    (createForUser caller).allows .update loaded.target = true := by
  rw [LoadedGroup.target, allows_group]
  rcases manages with admin | owner
  · exact .inl admin
  · obtain ⟨m, hm, isUser, role⟩ := h.hasRole_iff.mp owner
    rw [← (loadGroup_id found).2.2] at hm
    exact .inr (.inl (LoadedGroup.hasOwner_iff.mpr ⟨m, hm, isUser, role⟩))

theorem mayRemove_of_other (h : d.tables.Consistent) {user : ℕ}
    (other : d.tables.HasRole g user (js "owner") →
      ∃ w, w ≠ user ∧ d.tables.HasRole g w (js "owner")) :
    GroupsService.mayRemove d.tables g user = true := by
  rw [GroupsService.mayRemove_iff]
  by_contra neither
  rw [not_or, not_forall] at neither
  obtain ⟨few, m, isOwner⟩ := neither
  simp only [not_forall, not_not] at isOwner
  obtain ⟨hm, rfl⟩ := isOwner
  have owner := GroupsService.mem_owners.mp hm
  obtain ⟨w, apart, has⟩ := other (h.hasRole_iff.mpr ⟨m, owner.1, rfl, owner.2⟩)
  obtain ⟨n, hn, rfl, role⟩ := h.hasRole_iff.mp has
  have hn := GroupsService.mem_owners.mpr ⟨hn, role⟩
  refine few ?_
  have distinct : m ≠ n := fun same => apart (same ▸ rfl)
  have both : [m, n].Subperm (GroupsService.owners d.tables g) :=
    List.subperm_of_subset (by simp [distinct]) (by simp [hm, hn])
  exact both.length_le

theorem handle_add (signedIn : d.tables.findUser caller.id = some caller)
    (found : d.tables.findGroup g = some group)
    (manages : caller.isAdmin = true ∨ d.tables.HasRole g caller.id (js "owner")) {user : ℕ}
    (known : ∃ row, d.tables.findUser user = some row) :
    handle cfg d.tables (sent caller.id (GroupModal.request g (.add user))) =
      .ok (d.tables.addUser g user (js "member")) := by
  obtain ⟨row, known⟩ := known
  have loaded : d.tables.loadGroup g = some ⟨group, d.tables.usersOf group.id⟩ := by
    rw [Tables.loadGroup, found]
    rfl
  unfold handle Call.user sent
  rw [Option.bind_some, signedIn]
  exact GroupsController.addUserToGroup_ok.mpr
    ⟨_, row, loaded, allows_update d.consistent loaded manages, known, rfl⟩

theorem handle_remove (signedIn : d.tables.findUser caller.id = some caller)
    (found : d.tables.findGroup g = some group)
    (manages : caller.isAdmin = true ∨ d.tables.HasRole g caller.id (js "owner")) {user : ℕ}
    (known : ∃ row, d.tables.findUser user = some row)
    (other : d.tables.HasRole g user (js "owner") →
      ∃ w, w ≠ user ∧ d.tables.HasRole g w (js "owner")) :
    handle cfg d.tables (sent caller.id (GroupModal.request g (.remove user))) =
      .ok (d.tables.removeUser g user) := by
  obtain ⟨row, known⟩ := known
  have loaded : d.tables.loadGroup g = some ⟨group, d.tables.usersOf group.id⟩ := by
    rw [Tables.loadGroup, found]
    rfl
  have guard := mayRemove_of_other d.consistent other
  unfold handle Call.user sent
  rw [Option.bind_some, signedIn]
  simp only [handleAs, GroupModal.request, GroupsController.removeUserFromGroup,
    GroupsService.removeUserFromGroup, Lib.do_eq_ok, throwUnlessCan_ok,
    GroupsService.findByPkBang_ok, findByPkBang_ok, Lib.ensure_eq_ok, pure, Except.pure,
    Except.ok.injEq]
  refine ⟨_, loaded, (), allows_update d.consistent loaded manages, row, known, (), ?_⟩
  rw [(loadGroup_id loaded).1, (Tables.findUser_some known).2]
  exact ⟨guard, rfl⟩

theorem step_accepted {call : Call} {db : Tables} (accepted : handle cfg d.tables call = .ok db) :
    (d.step cfg call).tables = db := by
  rw [Database.step_tables, answer, accepted]

end Server
/-- What the server needs to carry out the changes, in every order. -/
structure Syncable (db : Tables) (caller : User) (g : ℕ) (changes : List (Change ℕ)) : Prop where
  separate : Separate changes
  known : ∀ user, Change.add user ∈ changes ∨ Change.remove user ∈ changes →
    ∃ row, db.findUser user = some row
  newcomers : ∀ user, Change.add user ∈ changes → ∀ role, db.HasRole g user role →
    role = js "member"
  manages : caller.isAdmin = true ∨ db.HasRole g caller.id (js "owner")
  stays : caller.isAdmin = true ∨ Change.remove caller.id ∉ changes
  owned : ∀ user, Change.remove user ∈ changes → db.HasRole g user (js "owner") →
    ∃ w, db.HasRole g w (js "owner") ∧ Change.remove w ∉ changes

namespace Syncable
variable {db db' : Tables} {caller : User} {g : ℕ} {changes : List (Change ℕ)}

theorem perm {changes' : List (Change ℕ)} (order : changes.Perm changes')
    (h : Syncable db caller g changes) : Syncable db caller g changes' where
  separate := h.separate.perm order
  known user asked := h.known user (asked.imp order.mem_iff.mpr order.mem_iff.mpr)
  newcomers user added := h.newcomers user (order.mem_iff.mpr added)
  manages := h.manages
  stays := h.stays.imp_right fun kept removed => kept (order.mem_iff.mpr removed)
  owned user removed owner := by
    obtain ⟨w, has, kept⟩ := h.owned user (order.mem_iff.mpr removed) owner
    exact ⟨w, has, fun removed => kept (order.mem_iff.mpr removed)⟩

theorem not_added (h : Syncable db caller g changes) {user : ℕ}
    (owner : db.HasRole g user (js "owner")) : Change.add user ∉ changes := by
  intro added
  exact absurd (h.newcomers user added _ owner) (by decide)

theorem other_owner (h : Syncable db caller g changes) {user : ℕ}
    (removed : Change.remove user ∈ changes) (owner : db.HasRole g user (js "owner")) :
    ∃ w, w ≠ user ∧ db.HasRole g w (js "owner") := by
  obtain ⟨w, has, kept⟩ := h.owned user removed owner
  exact ⟨w, fun same => kept (same ▸ removed), has⟩

theorem add {user : ℕ} (h : Syncable db caller g (.add user :: changes)) :
    Syncable (db.addUser g user (js "member")) caller g changes := by
  have owners : ∀ u, (db.addUser g user (js "member")).HasRole g u (js "owner") ↔
      db.HasRole g u (js "owner") := by
    intro u
    rw [Tables.hasRole_addUser]
    constructor
    · rintro (⟨-, -, clash⟩ | ⟨-, has⟩)
      · exact absurd clash (by decide)
      · exact has
    · intro has
      refine .inr ⟨fun same => h.not_added has ?_, has⟩
      rw [same.2]
      exact List.mem_cons_self
  refine ⟨h.separate.tail, fun u asked => ?_, fun u added role has => ?_, ?_, ?_, ?_⟩
  · exact h.known u (asked.imp (List.mem_cons_of_mem _) (List.mem_cons_of_mem _))
  · rcases Tables.hasRole_addUser.mp has with ⟨-, -, same⟩ | ⟨-, has⟩
    · exact same
    · exact h.newcomers u (List.mem_cons_of_mem _ added) role has
  · rw [owners]
    exact h.manages
  · exact h.stays.imp_right fun kept removed => kept (List.mem_cons_of_mem _ removed)
  · intro u removed owner
    obtain ⟨w, has, kept⟩ := h.owned u (List.mem_cons_of_mem _ removed) ((owners u).mp owner)
    exact ⟨w, (owners w).mpr has, fun removed => kept (List.mem_cons_of_mem _ removed)⟩

theorem remove {user : ℕ} (h : Syncable db caller g (.remove user :: changes)) :
    Syncable (db.removeUser g user) caller g changes := by
  have kept : ∀ u, Change.remove u ∉ (Change.remove user :: changes : List (Change ℕ)) →
      ¬ (g = g ∧ u = user) := fun u kept same => kept (same.2 ▸ List.mem_cons_self)
  refine ⟨h.separate.tail, fun u asked => ?_, fun u added role has => ?_, ?_, ?_, ?_⟩
  · exact h.known u (asked.imp (List.mem_cons_of_mem _) (List.mem_cons_of_mem _))
  · exact h.newcomers u (List.mem_cons_of_mem _ added) role (Tables.hasRole_removeUser.mp has).2
  · rcases h.manages with admin | owner
    · exact .inl admin
    · rcases h.stays with admin | stays
      · exact .inl admin
      · exact .inr (Tables.hasRole_removeUser.mpr ⟨kept _ stays, owner⟩)
  · exact h.stays.imp_right fun kept removed => kept (List.mem_cons_of_mem _ removed)
  · intro u removed owner
    obtain ⟨w, has, stays⟩ := h.owned u (List.mem_cons_of_mem _ removed)
      (Tables.hasRole_removeUser.mp owner).2
    exact ⟨w, Tables.hasRole_removeUser.mpr ⟨kept w stays, has⟩,
      fun removed => stays (List.mem_cons_of_mem _ removed)⟩

end Syncable

section Run
variable (cfg : Config) {d : Database} {caller : User} {g : ℕ} {group : Group}
  {changes : List (Change ℕ)}

def calls (caller : User) (g : ℕ) (changes : List (Change ℕ)) : List Call :=
  changes.map fun change => sent caller.id (GroupModal.request g change)

/-- The server holds what it held, the group and its members apart. -/
structure KeepsOthers (db after : Tables) (g : ℕ) : Prop where
  users : after.users = db.users
  evaluations : after.evaluations = db.evaluations
  contents : after.groupEvaluations = db.groupEvaluations
  groups : ∀ g', g' ≠ g → after.findGroup g' = db.findGroup g'
  members : ∀ g' user role, g' ≠ g → (after.HasRole g' user role ↔ db.HasRole g' user role)

/-- The tables that no change of the members touches. -/
structure OnlyMembers (db after : Tables) : Prop where
  users : after.users = db.users
  evaluations : after.evaluations = db.evaluations
  contents : after.groupEvaluations = db.groupEvaluations
  groups : after.groups = db.groups

/-- The changes are carried out one by one: those who are added are members, those who are
removed are gone, and nothing else of the server has changed. -/
theorem sync_run (h : Syncable d.tables caller g changes)
    (signedIn : d.tables.findUser caller.id = some caller)
    (found : d.tables.findGroup g = some group) :
    Along (Database.step cfg) (Accepts cfg) d (calls caller g changes) ∧
    let after := (run (Database.step cfg) d (calls caller g changes)).tables
    OnlyMembers d.tables after ∧ ∀ g' user role, after.HasRole g' user role ↔
      (g' = g ∧ Change.add user ∈ changes ∧ role = js "member") ∨
        (d.tables.HasRole g' user role ∧ ¬ (g' = g ∧ Change.remove user ∈ changes)) := by
  induction changes generalizing d with
  | nil => exact ⟨trivial, ⟨rfl, rfl, rfl, rfl⟩, fun g' user role => by simp [calls, run]⟩
  | cons change changes ih =>
      cases change with
      | add user =>
          have accepted := @handle_add cfg d caller g group signedIn found h.manages user
            (h.known user (.inl List.mem_cons_self))
          have next := step_accepted accepted
          have later := @ih (d.step cfg (sent caller.id (GroupModal.request g (.add user))))
            (by rw [next]; exact h.add) (by rw [next]; exact signedIn) (by rw [next]; exact found)
          obtain ⟨rest, kept, roles⟩ := later
          rw [next] at kept
          refine ⟨⟨⟨_, accepted⟩, rest⟩, ⟨kept.users, kept.evaluations, kept.contents, kept.groups⟩,
            fun g' u role => (roles g' u role).trans ?_⟩
          rw [next, Tables.hasRole_addUser]
          simp only [List.mem_cons, Change.add.injEq, reduceCtorEq, false_or]
          by_cases here : g' = g ∧ u = user
          · obtain ⟨rfl, rfl⟩ := here
            have kept : Change.remove u ∉ changes := fun removed =>
              h.separate u ⟨List.mem_cons_self, List.mem_cons_of_mem _ removed⟩
            have member := h.newcomers u List.mem_cons_self role
            simp only [true_and, kept, not_false_eq_true, and_true, not_true_eq_false, false_and,
              or_false, true_or]
            tauto
          · simp only [here, not_false_eq_true, true_and]
            tauto
      | remove user =>
          have accepted := @handle_remove cfg d caller g group signedIn found h.manages user
            (h.known user (.inr List.mem_cons_self)) (h.other_owner List.mem_cons_self)
          have next := step_accepted accepted
          have later := @ih (d.step cfg (sent caller.id (GroupModal.request g (.remove user))))
            (by rw [next]; exact h.remove) (by rw [next]; exact signedIn)
            (by rw [next]; exact found)
          obtain ⟨rest, kept, roles⟩ := later
          rw [next] at kept
          refine ⟨⟨⟨_, accepted⟩, rest⟩, ⟨kept.users, kept.evaluations, kept.contents, kept.groups⟩,
            fun g' u role => (roles g' u role).trans ?_⟩
          rw [next, Tables.hasRole_removeUser]
          simp only [List.mem_cons, Change.remove.injEq, reduceCtorEq, false_or]
          tauto

theorem OnlyMembers.findGroup {db after : Tables} (kept : OnlyMembers db after) (g' : ℕ) :
    after.findGroup g' = db.findGroup g' :=
  congrArg (Lib.pick Group.id g') kept.groups

/-- The group is saved, and then its members, in whatever order the changes arrive. -/
theorem save_run {first : Call} {saved : Tables} {order : List (Change ℕ)}
    (accepted : handle cfg d.tables first = .ok saved) (h : Syncable saved caller g changes)
    (arrival : changes.Perm order) (signedIn : saved.findUser caller.id = some caller)
    (found : saved.findGroup g = some group) :
    Along (Database.step cfg) (Accepts cfg) d (first :: calls caller g order) ∧
    let after := (run (Database.step cfg) d (first :: calls caller g order)).tables
    OnlyMembers saved after ∧ ∀ g' user role, after.HasRole g' user role ↔
      (g' = g ∧ Change.add user ∈ changes ∧ role = js "member") ∨
        (saved.HasRole g' user role ∧ ¬ (g' = g ∧ Change.remove user ∈ changes)) := by
  have next := step_accepted accepted
  obtain ⟨rest, kept, roles⟩ := @sync_run cfg (d.step cfg first) caller g group order
    (by rw [next]; exact h.perm arrival) (by rw [next]; exact signedIn) (by rw [next]; exact found)
  rw [next] at kept roles
  simp only [arrival.mem_iff]
  exact ⟨⟨⟨_, accepted⟩, rest⟩, kept, roles⟩

end Run

namespace GroupModal
variable {modal : GroupModal} {user : ℕ}

theorem add_mem_sync : Change.add user ∈ modal.syncUsersWithGroup ↔
    user ∈ modal.users ∧ user ∉ modal.group := by
  simp [syncUsersWithGroup, toAdd]

theorem remove_mem_sync : Change.remove user ∈ modal.syncUsersWithGroup ↔
    user ∈ modal.group ∧ user ∉ modal.users := by
  simp [syncUsersWithGroup, toRemove]

theorem separate_sync (modal : GroupModal) : Separate modal.syncUsersWithGroup := by
  rintro user ⟨added, removed⟩
  exact (remove_mem_sync.mp removed).2 (add_mem_sync.mp added).1

end GroupModal

section Saves
variable (cfg : Config) {d : Database} {caller : User} {g : ℕ} {allUsers : List ℕ}
  {edits : List UsersEvent} {order : List (Change ℕ)}

theorem handle_updateGroup {group : Group} (found : d.tables.findGroup g = some group)
    (signedIn : d.tables.findUser caller.id = some caller)
    (manages : caller.isAdmin = true ∨ d.tables.HasRole g caller.id (js "owner"))
    {name : JsString} (named : name ≠ []) (isPublic : Bool) :
    handle cfg d.tables (sent caller.id (.updateGroup g ⟨name, .val isPublic, named⟩)) =
      .ok (d.tables.saveGroup ⟨g, name, isPublic⟩) := by
  obtain ⟨-, rfl⟩ := Tables.findGroup_some found
  have loaded : d.tables.loadGroup group.id = some ⟨group, d.tables.usersOf group.id⟩ := by
    rw [Tables.loadGroup, found]
    rfl
  unfold handle Call.user sent
  rw [Option.bind_some, signedIn]
  simp only [handleAs, GroupsController.update, GroupsService.update, Lib.do_eq_ok,
    throwUnlessCan_ok, GroupsService.findByPkBang_ok, assignColumn, pure, Except.pure,
    Except.ok.injEq]
  exact ⟨_, loaded, (), allows_update d.consistent loaded manages, isPublic, rfl, rfl⟩

theorem handle_createGroup (signedIn : d.tables.findUser caller.id = some caller)
    {name : JsString} (named : name ≠ []) (isPublic : Bool) :
    handle cfg d.tables (sent caller.id (.createGroup ⟨name, .val isPublic, named⟩)) =
      .ok ((d.tables.insertGroup name isPublic).addUser d.tables.nextGroup caller.id
        (js "owner")) := by
  unfold handle Call.user sent
  rw [Option.bind_some, signedIn]
  rfl

/-- A dialog that shows the members of a group is edited and saved. Every request is accepted,
and afterwards the members are those that the dialog shows: whoever stays keeps the role, and
whoever is new is a member. -/
theorem updated_group_run {group : Group} (found : d.tables.findGroup g = some group)
    (signedIn : d.tables.findUser caller.id = some caller)
    (listed : ∀ user ∈ allUsers, ∃ row, d.tables.findUser user = some row) {opened : List ℕ}
    (shown : ∀ user, user ∈ opened ↔ ∃ role, d.tables.HasRole g user role)
    (manages : caller.isAdmin = true ∨ d.tables.HasRole g caller.id (js "owner"))
    (stays : caller.isAdmin = true ∨ caller.id ∈ Users.edited allUsers caller.id opened edits)
    (owned : ∀ user ∈ opened, user ∉ Users.edited allUsers caller.id opened edits →
      d.tables.HasRole g user (js "owner") →
      ∃ w ∈ Users.edited allUsers caller.id opened edits, d.tables.HasRole g w (js "owner"))
    {name : JsString} (named : name ≠ []) (isPublic : Bool)
    (arrival : (GroupModal.syncUsersWithGroup
      ⟨opened, Users.edited allUsers caller.id opened edits⟩).Perm order) :
    let requests := sent caller.id (.updateGroup g ⟨name, .val isPublic, named⟩) ::
      calls caller g order
    let after := (run (Database.step cfg) d requests).tables
    Along (Database.step cfg) (Accepts cfg) d requests ∧
    after.findGroup g = some ⟨g, name, isPublic⟩ ∧
    (∀ user role, after.HasRole g user role ↔
      user ∈ Users.edited allUsers caller.id opened edits ∧
        (d.tables.HasRole g user role ∨ user ∉ opened ∧ role = js "member")) ∧
    KeepsOthers d.tables after g := by
  generalize shows : Users.edited allUsers caller.id opened edits = users at *
  have h := d.consistent
  have accepted := handle_updateGroup cfg found signedIn manages named isPublic
  have syncable : Syncable (d.tables.saveGroup ⟨g, name, isPublic⟩) caller g
      (GroupModal.syncUsersWithGroup ⟨opened, users⟩) := by
    refine ⟨GroupModal.separate_sync _, fun user asked => ?_, fun user added role has => ?_,
      manages, stays.imp_right fun here removed => ?_, fun user removed owner => ?_⟩
    · rcases asked with added | removed
      · obtain ⟨here, new⟩ := GroupModal.add_mem_sync.mp added
        rw [← shows] at here
        exact (Users.mem_edited here).elim (fun old => absurd old new)
          fun chosen => listed user chosen.1
      · obtain ⟨role, has⟩ := (shown user).mp (GroupModal.remove_mem_sync.mp removed).1
        exact (h.hasRole_keys has).2
    · exact absurd ((shown user).mpr ⟨role, has⟩) (GroupModal.add_mem_sync.mp added).2
    · exact (GroupModal.remove_mem_sync.mp removed).2 here
    · obtain ⟨old, gone⟩ := GroupModal.remove_mem_sync.mp removed
      obtain ⟨w, here, has⟩ := owned user old gone owner
      exact ⟨w, has, fun removed => (GroupModal.remove_mem_sync.mp removed).2 here⟩
  have saved : (d.tables.saveGroup ⟨g, name, isPublic⟩).findGroup g =
      some ⟨g, name, isPublic⟩ := by
    rw [Tables.findGroup_saveGroup, if_pos rfl, found]
    rfl
  obtain ⟨all, kept, roles⟩ := save_run cfg accepted syncable arrival signedIn saved
  refine ⟨all, (kept.findGroup g).trans saved, fun user role => (roles g user role).trans ?_,
    ⟨kept.users, kept.evaluations, kept.contents, fun g' other => ?_,
      fun g' user role other => (roles g' user role).trans ?_⟩⟩
  · rw [GroupModal.add_mem_sync, GroupModal.remove_mem_sync]
    have inside : d.tables.HasRole g user role → user ∈ opened := fun has =>
      (shown user).mpr ⟨role, has⟩
    change (_ ∨ d.tables.HasRole g user role ∧ _) ↔ _
    tauto
  · exact (kept.findGroup g').trans ((Tables.findGroup_saveGroup _ _).trans (if_neg other))
  · change (_ ∨ d.tables.HasRole g' user role ∧ _) ↔ _
    tauto

def sampleTeam : Database :=
  run (Database.step sampleConfig) Database.empty
    [sampleRegistration "a@example.com", sampleRegistration "b@example.com",
     sampleRegistration "c@example.com", sampleCall 1 (.createGroup sampleGroup),
     sampleCall 1 (.addUserToGroup 1 (sampleMembership 2))]

theorem sampleTeam_users {user : ℕ} (here : user ∈ [1, 2, 3]) :
    ∃ row, sampleTeam.tables.findUser user = some row := by
  have present : ∀ user ∈ [1, 2, 3], (sampleTeam.tables.findUser user).isSome = true := by
    decide +kernel
  exact Option.isSome_iff_exists.mp (present user here)

/-- User 1 takes user 2 out and user 3 in; the removal arrives first. -/
theorem updated_group_run_sample : ∃ caller, sampleTeam.tables.findUser 1 = some caller ∧
    let requests := sent caller.id (.updateGroup 1 ⟨js "crew", .val true, by decide⟩) ::
      calls caller 1 [.remove 2, .add 3]
    let after := (run (Database.step sampleConfig) sampleTeam requests).tables
    Along (Database.step sampleConfig) (Accepts sampleConfig) sampleTeam requests ∧
    after.findGroup 1 = some ⟨1, js "crew", true⟩ ∧
    (∀ user role, after.HasRole 1 user role ↔ user ∈ [1, 3] ∧
      (sampleTeam.tables.HasRole 1 user role ∨ user ∉ [1, 2] ∧ role = js "member")) ∧
    KeepsOthers sampleTeam.tables after 1 := by
  have stored : (sampleTeam.tables.findGroup 1).isSome = true := by decide +kernel
  obtain ⟨group, found⟩ := Option.isSome_iff_exists.mp stored
  obtain ⟨caller, known⟩ := @sampleTeam_users 1 (by simp)
  obtain ⟨-, id⟩ := Tables.findUser_some known
  have rows : sampleTeam.tables.groupUsers =
      [⟨some 1, some 1, js "owner"⟩, ⟨some 1, some 2, js "member"⟩] := by decide +kernel
  have owner : sampleTeam.tables.HasRole 1 1 (js "owner") :=
    ⟨⟨some 1, some 1, js "owner"⟩, by rw [rows]; exact List.mem_cons_self, rfl, rfl, rfl⟩
  have shown : ∀ user, user ∈ [1, 2] ↔ ∃ role, sampleTeam.tables.HasRole 1 user role := by
    intro user
    unfold Tables.HasRole
    rw [rows]
    simp [eq_comm]
  have edited : Users.edited [1, 2, 3] caller.id [1, 2]
      [.select [3], .addUsers, .deleteUserConfirm 1] = [1, 3] := by
    rw [id]
    decide
  have run := @updated_group_run sampleConfig sampleTeam caller 1 [1, 2, 3]
    [.select [3], .addUsers, .deleteUserConfirm 1] [.remove 2, .add 3] group found
    (by rw [id]; exact known) (fun user here => sampleTeam_users here) [1, 2] shown
    (.inr (by rw [id]; exact owner)) (.inr (by rw [edited, id]; simp))
    (fun user _ _ _ => ⟨1, by rw [edited]; simp, owner⟩) (js "crew") (by decide) true
    (by rw [edited]; exact List.Perm.swap (Change.remove 2) (Change.add 3) [])
  rw [edited] at run
  exact ⟨caller, known, run⟩

/-- A dialog for a new group is filled in and saved. Every request is accepted; the caller owns
the group, and whoever was added is a member. -/
theorem created_group_run (signedIn : d.tables.findUser caller.id = some caller)
    (listed : ∀ user ∈ allUsers, ∃ row, d.tables.findUser user = some row)
    {name : JsString} (named : name ≠ []) (isPublic : Bool)
    (arrival : (GroupModal.syncUsersWithGroup
      ⟨[], Users.edited allUsers caller.id [] edits⟩).Perm order) :
    let g := d.tables.nextGroup
    let requests := sent caller.id (.createGroup ⟨name, .val isPublic, named⟩) ::
      calls caller g order
    let after := (run (Database.step cfg) d requests).tables
    Along (Database.step cfg) (Accepts cfg) d requests ∧
    after.findGroup g = some ⟨g, name, isPublic⟩ ∧
    (∀ user role, after.HasRole g user role ↔ (user = caller.id ∧ role = js "owner") ∨
      (user ∈ Users.edited allUsers caller.id [] edits ∧ role = js "member")) ∧
    KeepsOthers d.tables after g := by
  intro g requests after
  generalize shows : Users.edited allUsers caller.id [] edits = users at *
  have h := d.consistent
  have chosen : ∀ user ∈ users, user ∈ allUsers ∧ user ≠ caller.id := fun user here => by
    rw [← shows] at here
    exact (Users.mem_edited here).resolve_left (by simp)
  have accepted := handle_createGroup cfg signedIn named isPublic
  have nobody : ∀ user role, ¬ d.tables.HasRole g user role := fun user role has => by
    obtain ⟨group, found⟩ := (h.hasRole_keys has).1
    exact absurd (h.findGroup_next.symm.trans found) (by simp)
  have roles₀ : ∀ g' user role,
      ((d.tables.insertGroup name isPublic).addUser g caller.id (js "owner")).HasRole g' user role ↔
        (g' = g ∧ user = caller.id ∧ role = js "owner") ∨ d.tables.HasRole g' user role := by
    intro g' user role
    rw [Tables.hasRole_addUser]
    change (_ ∨ _ ∧ d.tables.HasRole g' user role) ↔ _
    have apart : d.tables.HasRole g' user role → g' ≠ g := fun has same =>
      nobody user role (same ▸ has)
    tauto
  have syncable : Syncable ((d.tables.insertGroup name isPublic).addUser g caller.id (js "owner"))
      caller g (GroupModal.syncUsersWithGroup ⟨[], users⟩) := by
    refine ⟨GroupModal.separate_sync _, fun user asked => ?_, fun user added role has => ?_,
      .inr ((roles₀ _ _ _).mpr (.inl ⟨rfl, rfl, rfl⟩)), .inr fun removed => ?_,
      fun user removed owner => ?_⟩
    · rcases asked with added | removed
      · exact listed user (chosen user (GroupModal.add_mem_sync.mp added).1).1
      · exact absurd (GroupModal.remove_mem_sync.mp removed).1 (by simp)
    · rcases (roles₀ _ _ _).mp has with ⟨-, self, -⟩ | old
      · exact absurd self (chosen user (GroupModal.add_mem_sync.mp added).1).2
      · exact absurd old (nobody user role)
    · exact absurd (GroupModal.remove_mem_sync.mp removed).1 (by simp)
    · exact absurd (GroupModal.remove_mem_sync.mp removed).1 (by simp)
  have saved : ((d.tables.insertGroup name isPublic).addUser g caller.id (js "owner")).findGroup g =
      some ⟨g, name, isPublic⟩ := by
    change (d.tables.insertGroup name isPublic).findGroup g = _
    rw [Tables.findGroup_insertGroup h, if_pos rfl]
  obtain ⟨all, kept, roles⟩ := save_run cfg accepted syncable arrival signedIn saved
  refine ⟨all, (kept.findGroup g).trans saved, fun user role => (roles g user role).trans ?_,
    ⟨kept.users, kept.evaluations, kept.contents, fun g' other => ?_,
      fun g' user role other => (roles g' user role).trans ?_⟩⟩
  · rw [GroupModal.add_mem_sync, GroupModal.remove_mem_sync, roles₀]
    have absent := nobody user role
    simp only [List.not_mem_nil, not_false_eq_true, and_true, false_and, true_and, absent, or_false,
      and_false]
    tauto
  · refine (kept.findGroup g').trans ?_
    exact (Tables.findGroup_insertGroup h name isPublic g').trans (if_neg other)
  · rw [roles₀]
    tauto

/-- User 1 makes a group with the two others. -/
theorem created_group_run_sample : ∃ caller, sampleTeam.tables.findUser 1 = some caller ∧
    let requests := sent caller.id (.createGroup ⟨js "crew", .val true, by decide⟩) ::
      calls caller 2 [.add 3, .add 2]
    let after := (run (Database.step sampleConfig) sampleTeam requests).tables
    Along (Database.step sampleConfig) (Accepts sampleConfig) sampleTeam requests ∧
    after.findGroup 2 = some ⟨2, js "crew", true⟩ ∧
    (∀ user role, after.HasRole 2 user role ↔ (user = caller.id ∧ role = js "owner") ∨
      (user ∈ [2, 3] ∧ role = js "member")) ∧
    KeepsOthers sampleTeam.tables after 2 := by
  obtain ⟨caller, known⟩ := @sampleTeam_users 1 (by simp)
  obtain ⟨-, id⟩ := Tables.findUser_some known
  have next : sampleTeam.tables.nextGroup = 2 := by decide +kernel
  have edited : Users.edited [1, 2, 3] caller.id [] [.select [2, 3], .addUsers] = [2, 3] := by
    rw [id]
    decide
  have run := @created_group_run sampleConfig sampleTeam caller [1, 2, 3]
    [.select [2, 3], .addUsers] [.add 3, .add 2] (by rw [id]; exact known)
    (fun user here => sampleTeam_users here) (js "crew") (by decide) true
    (by rw [edited]; exact List.Perm.swap (Change.add 3) (Change.add 2) [])
  rw [edited, next] at run
  exact ⟨caller, known, run⟩

end Saves
end Remote
