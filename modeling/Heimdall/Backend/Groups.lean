import Heimdall.Backend.Users

/-!
# Groups and evaluations: controllers and services

A body that passed validation is a record whose required texts are not empty. Keys in a
body or a path are the numbers that the driver reads from their text.
-/
namespace Backend
open Js Casl

structure CreateGroupDto where
  name : JsString
  isPublic : Opt Bool
  name_notEmpty : name ≠ []

structure AddUserToGroupDto where
  userId : ℕ
  groupRole : JsString
  groupRole_notEmpty : groupRole ≠ []

structure RemoveUserFromGroupDto where
  userId : ℕ

structure EvaluationGroupDto where
  id : ℕ

structure CreateEvaluationDto where
  filename : JsString
  isPublic : Bool
  groups : Opt (List ℕ)
  filename_notEmpty : filename ≠ []

structure UpdateEvaluationDto where
  filename : Opt JsString
  data : Opt JsVal
  isPublic : Opt Bool

def LoadedGroup.target (g : LoadedGroup) : Target SubjectType := .instance .group g.doc

def LoadedEvaluation.target (e : LoadedEvaluation) : Target SubjectType :=
  .instance .evaluation e.doc

/-- A column that may not be null takes a new value unless none is given. -/
def assignColumn {α : Type} (old : α) : Opt α → Except HttpError α
  | .undefined => .ok old
  | .null => .error (.badRequest "notNull Violation")
  | .val new => .ok new

namespace GroupsService
variable (db : Tables)

def findByPkBang (id : ℕ) : Except HttpError LoadedGroup :=
  Lib.orThrow (db.loadGroup id) (.notFound "Group with given id not found")

def findByIds (ids : List ℕ) : List LoadedGroup :=
  db.groups.filterMap fun group => if group.id ∈ ids then db.loadGroup group.id else none

def addUserToGroup (group : LoadedGroup) (user : User) (role : JsString) : Tables :=
  db.addUser group.group.id user.id role

/-- The members are read again: this is the list that the guard looks at. -/
def owners (g : ℕ) : List Member :=
  (db.usersOf g).filter fun userOnGroup => decide (userOnGroup.groupUser.role = js "owner")

/-- The guard of a removal: the user is not the only owner. -/
def mayRemove (g u : ℕ) : Bool :=
  !(decide ((owners db g).length < 2) && (owners db g).any fun owner => owner.isUser u)

def removeUserFromGroup (group : LoadedGroup) (user : User) : Except HttpError Tables := do
  Lib.ensure (mayRemove db group.group.id user.id)
    (.forbidden "Cannot remove only group owner, please promote another user to owner first")
  return db.removeUser group.group.id user.id

def create (dto : CreateGroupDto) : Except HttpError (Tables × LoadedGroup) := do
  let isPublic ← assignColumn false dto.isPublic
  return (db.insertGroup dto.name isPublic, ⟨⟨db.nextGroup, dto.name, isPublic⟩, []⟩)

def update (groupToUpdate : LoadedGroup) (dto : CreateGroupDto) : Except HttpError Tables := do
  let isPublic ← assignColumn groupToUpdate.group.isPublic dto.isPublic
  return db.saveGroup { groupToUpdate.group with name := dto.name, isPublic := isPublic }

end GroupsService

namespace EvaluationsService
variable (db : Tables)

def findById (id : ℕ) : Except HttpError LoadedEvaluation :=
  Lib.orThrow (db.loadEvaluation id) (.notFound "Evaluation with given id not found")

def update (evaluation : LoadedEvaluation) (dto : UpdateEvaluationDto) :
    Except HttpError Tables := do
  let filename ← assignColumn evaluation.evaluation.filename dto.filename
  let data ← assignColumn evaluation.evaluation.data dto.data
  let isPublic ← assignColumn evaluation.evaluation.isPublic dto.isPublic
  return db.saveEvaluation { evaluation.evaluation with filename, data, isPublic }

end EvaluationsService

namespace GroupsController
variable (db : Tables) (request : User)

def create (dto : CreateGroupDto) : Except HttpError Tables := do
  let (db, group) ← GroupsService.create db dto
  return GroupsService.addUserToGroup db group request (js "owner")

def addUserToGroup (id : ℕ) (dto : AddUserToGroupDto) : Except HttpError Tables := do
  let abac := createForUser request
  let group ← GroupsService.findByPkBang db id
  throwUnlessCan abac .update group.target
  let userToAdd ← findByPkBang db dto.userId
  return GroupsService.addUserToGroup db group userToAdd dto.groupRole

def removeUserFromGroup (id : ℕ) (dto : RemoveUserFromGroupDto) : Except HttpError Tables := do
  let abac := createForUser request
  let group ← GroupsService.findByPkBang db id
  throwUnlessCan abac .update group.target
  let userToRemove ← findByPkBang db dto.userId
  GroupsService.removeUserFromGroup db group userToRemove

def addEvaluationToGroup (id : ℕ) (dto : EvaluationGroupDto) : Except HttpError Tables := do
  let abac := createForUser request
  let group ← GroupsService.findByPkBang db id
  throwUnlessCan abac .addEvaluation group.target
  let evaluationToAdd ← EvaluationsService.findById db dto.id
  throwUnlessCan abac .read evaluationToAdd.target
  return db.addEvaluation group.group.id evaluationToAdd.evaluation.id

def removeEvaluationFromGroup (id : ℕ) (dto : EvaluationGroupDto) : Except HttpError Tables := do
  let abac := createForUser request
  let group ← GroupsService.findByPkBang db id
  throwUnlessCan abac .removeEvaluation group.target
  let evaluationToRemove ← EvaluationsService.findById db dto.id
  return db.removeEvaluation group.group.id evaluationToRemove.evaluation.id

def update (id : ℕ) (dto : CreateGroupDto) : Except HttpError Tables := do
  let abac := createForUser request
  let groupToUpdate ← GroupsService.findByPkBang db id
  throwUnlessCan abac .update groupToUpdate.target
  GroupsService.update db groupToUpdate dto

def remove (id : ℕ) : Except HttpError Tables := do
  let abac := createForUser request
  let groupToDelete ← GroupsService.findByPkBang db id
  throwUnlessCan abac .delete groupToDelete.target
  return db.destroyGroup groupToDelete.group.id

end GroupsController

namespace EvaluationsController
variable (db : Tables) (request : User)

/-- The new evaluation joins those of the named groups that the user may add to. -/
def create (dto : CreateEvaluationDto) (data : JsVal) : Except HttpError Tables :=
  let abac := createForUser request
  let groups : List LoadedGroup := match dto.groups with
    | .val ids => (GroupsService.findByIds db ids).filter fun group =>
        abac.allows .addEvaluation group.target
    | _ => []
  let created := db.insertEvaluation dto.filename data dto.isPublic request.id
  .ok (groups.foldl (fun tables group => tables.addEvaluation group.group.id db.nextEvaluation)
    created)

def update (id : ℕ) (dto : UpdateEvaluationDto) : Except HttpError Tables := do
  let abac := createForUser request
  let evaluationToUpdate ← EvaluationsService.findById db id
  throwUnlessCan abac .update evaluationToUpdate.target
  EvaluationsService.update db evaluationToUpdate dto

def remove (id : ℕ) : Except HttpError Tables := do
  let abac := createForUser request
  let evaluationToDelete ← EvaluationsService.findById db id
  throwUnlessCan abac .delete evaluationToDelete.target
  return db.destroyEvaluation evaluationToDelete.evaluation.id

end EvaluationsController

theorem GroupsService.findByPkBang_ok {db : Tables} {id : ℕ} {g : LoadedGroup} :
    GroupsService.findByPkBang db id = .ok g ↔ db.loadGroup id = some g := by
  simp [GroupsService.findByPkBang]

theorem EvaluationsService.findById_ok {db : Tables} {id : ℕ} {e : LoadedEvaluation} :
    EvaluationsService.findById db id = .ok e ↔ db.loadEvaluation id = some e := by
  simp [EvaluationsService.findById]

theorem GroupsService.mem_owners {db : Tables} {g : ℕ} {m : Member} :
    m ∈ GroupsService.owners db g ↔ m ∈ db.usersOf g ∧ m.groupUser.role = js "owner" := by
  simp [GroupsService.owners]

theorem GroupsService.mayRemove_iff {db : Tables} {g u : ℕ} :
    GroupsService.mayRemove db g u = true ↔ 2 ≤ (GroupsService.owners db g).length ∨
      ∀ m ∈ GroupsService.owners db g, m.user.id ≠ u := by
  simp only [GroupsService.mayRemove, Bool.not_eq_true', Bool.and_eq_false_iff,
    decide_eq_false_iff_not, Nat.not_lt, List.any_eq_false, Member.isUser, decide_eq_true_eq, ne_eq]

theorem loadGroup_id {db : Tables} {id : ℕ} {g : LoadedGroup} (h : db.loadGroup id = some g) :
    g.group.id = id ∧ db.findGroup id = some g.group ∧ g.users = db.usersOf id := by
  obtain ⟨group, found, rfl⟩ := Option.map_eq_some_iff.mp h
  obtain ⟨-, rfl⟩ := Tables.findGroup_some found
  exact ⟨rfl, found, rfl⟩

theorem loadEvaluation_id {db : Tables} {id : ℕ} {e : LoadedEvaluation}
    (h : db.loadEvaluation id = some e) :
    e.evaluation.id = id ∧ db.findEvaluation id = some e.evaluation ∧
      e.groups = db.groupsOf id := by
  obtain ⟨evaluation, found, rfl⟩ := Option.map_eq_some_iff.mp h
  obtain ⟨-, rfl⟩ := Tables.findEvaluation_some found
  exact ⟨rfl, found, rfl⟩

theorem GroupsController.addUserToGroup_ok {db db' : Tables} {request : User} {id : ℕ}
    {dto : AddUserToGroupDto} : GroupsController.addUserToGroup db request id dto = .ok db' ↔
      ∃ group user, db.loadGroup id = some group ∧
        (createForUser request).allows .update group.target = true ∧
        db.findUser dto.userId = some user ∧ db' = db.addUser id dto.userId dto.groupRole := by
  simp only [GroupsController.addUserToGroup, Lib.do_eq_ok, throwUnlessCan_ok,
    GroupsService.findByPkBang_ok, findByPkBang_ok, pure, Except.pure, Except.ok.injEq]
  constructor
  · rintro ⟨group, loaded, -, may, user, found, rfl⟩
    rw [GroupsService.addUserToGroup, (loadGroup_id loaded).1, (Tables.findUser_some found).2]
    exact ⟨group, user, loaded, may, found, rfl⟩
  · rintro ⟨group, user, loaded, may, found, rfl⟩
    refine ⟨group, loaded, (), may, user, found, ?_⟩
    rw [GroupsService.addUserToGroup, (loadGroup_id loaded).1, (Tables.findUser_some found).2]

theorem GroupsController.addEvaluationToGroup_ok {db db' : Tables} {request : User} {id : ℕ}
    {dto : EvaluationGroupDto} :
    GroupsController.addEvaluationToGroup db request id dto = .ok db' ↔
      ∃ group evaluation, db.loadGroup id = some group ∧
        (createForUser request).allows .addEvaluation group.target = true ∧
        db.loadEvaluation dto.id = some evaluation ∧
        (createForUser request).allows .read evaluation.target = true ∧
        db' = db.addEvaluation id dto.id := by
  simp only [GroupsController.addEvaluationToGroup, Lib.do_eq_ok, throwUnlessCan_ok,
    GroupsService.findByPkBang_ok, EvaluationsService.findById_ok, pure, Except.pure,
    Except.ok.injEq]
  constructor
  · rintro ⟨group, loaded, -, mayAdd, evaluation, found, -, mayRead, rfl⟩
    rw [(loadGroup_id loaded).1, (loadEvaluation_id found).1]
    exact ⟨group, evaluation, loaded, mayAdd, found, mayRead, rfl⟩
  · rintro ⟨group, evaluation, loaded, mayAdd, found, mayRead, rfl⟩
    refine ⟨group, loaded, (), mayAdd, evaluation, found, (), mayRead, ?_⟩
    rw [(loadGroup_id loaded).1, (loadEvaluation_id found).1]

theorem mem_findByIds {db : Tables} {ids : List ℕ} {g : LoadedGroup}
    (h : g ∈ GroupsService.findByIds db ids) : db.loadGroup g.group.id = some g := by
  simp only [GroupsService.findByIds, List.mem_filterMap] at h
  obtain ⟨group, -, named⟩ := h
  split at named
  · rwa [(loadGroup_id named).1]
  · cases named

end Backend
