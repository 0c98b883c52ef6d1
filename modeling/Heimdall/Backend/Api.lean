import Heimdall.Lib.Run
import Heimdall.Backend.Groups

/-!
# The API as a transition system

A call carries a token, a request and what the clock and the hash contribute. It either
changes the tables or throws and leaves them as they are. `Effect` says once what each
accepted call has checked and what it does; all properties of runs are derived from it.
-/
namespace Backend
open Js Casl

inductive Request where
  | createUser (body : JsVal)
  | updateUser (id : ℕ) (body : JsVal)
  | removeUser (id : ℕ) (body : JsVal)
  | createGroup (dto : CreateGroupDto)
  | updateGroup (id : ℕ) (dto : CreateGroupDto)
  | removeGroup (id : ℕ)
  | addUserToGroup (id : ℕ) (dto : AddUserToGroupDto)
  | removeUserFromGroup (id : ℕ) (dto : RemoveUserFromGroupDto)
  | addEvaluationToGroup (id : ℕ) (dto : EvaluationGroupDto)
  | removeEvaluationFromGroup (id : ℕ) (dto : EvaluationGroupDto)
  | createEvaluation (dto : CreateEvaluationDto) (data : JsVal)
  | updateEvaluation (id : ℕ) (dto : UpdateEvaluationDto)
  | removeEvaluation (id : ℕ)

structure Call where
  /-- The subject of a valid token. -/
  token : Option ℕ
  request : Request
  salt : ℕ
  now : ℕ

/-- The JWT strategy loads the user of the token from the tables on every request. -/
def Call.user (call : Call) (db : Tables) : Option User := call.token.bind db.findUser

/-- The endpoints behind `JwtAuthGuard`. -/
def handleAs (cfg : Config) (db : Tables) (user : User) (call : Call) : Except HttpError Tables :=
  match call.request with
  | .createUser body => UsersController.create cfg db (some user) body call.salt
  | .updateUser id body => UsersController.update cfg db user id body call.salt call.now
  | .removeUser id body => UsersController.remove cfg db user id body
  | .createGroup dto => GroupsController.create db user dto
  | .updateGroup id dto => GroupsController.update db user id dto
  | .removeGroup id => GroupsController.remove db user id
  | .addUserToGroup id dto => GroupsController.addUserToGroup db user id dto
  | .removeUserFromGroup id dto => GroupsController.removeUserFromGroup db user id dto
  | .addEvaluationToGroup id dto => GroupsController.addEvaluationToGroup db user id dto
  | .removeEvaluationFromGroup id dto => GroupsController.removeEvaluationFromGroup db user id dto
  | .createEvaluation dto data => EvaluationsController.create db user dto data
  | .updateEvaluation id dto => EvaluationsController.update db user id dto
  | .removeEvaluation id => EvaluationsController.remove db user id

/-- Registration alone is open to callers without a valid token. -/
def handle (cfg : Config) (db : Tables) (call : Call) : Except HttpError Tables :=
  match call.user db, call.request with
  | some user, _ => handleAs cfg db user call
  | none, .createUser body => UsersController.create cfg db none body call.salt
  | none, _ => .error .unauthorized

/-- The tables after a call; one that throws leaves them as they are. -/
def answer (cfg : Config) (db : Tables) (call : Call) : Tables :=
  match handle cfg db call with
  | .ok db' => db'
  | .error _ => db

/-- The groups of a new evaluation. -/
def addToGroups (db : Tables) (groups : List LoadedGroup) (e : ℕ) : Tables :=
  groups.foldl (fun tables group => tables.addEvaluation group.group.id e) db

/-- What an accepted call has checked, and the tables it leaves. -/
inductive Effect (cfg : Config) (db : Tables) : Option User → Request → Tables → Prop
  | createUser {caller body} (user : User) (role : user.role = js "user") :
      Effect cfg db caller (.createUser body) (db.insertUser user)
  | updateUser {caller : User} {id body} (user saved : User)
      (found : db.findUser id = some user) (same : saved.id = user.id)
      (role : saved.role = user.role ∨ (caller.isAdmin = true ∧ user.id ≠ caller.id)) :
      Effect cfg db (some caller) (.updateUser id body) (db.saveUser saved)
  | removeUser {caller : User} {id body} (user : User) (found : db.findUser id = some user)
      (may : UsersController.MayRemove cfg db caller user body) :
      Effect cfg db (some caller) (.removeUser id body) (db.destroyUser id)
  | createGroup {caller : User} {dto} (isPublic : Bool) :
      Effect cfg db (some caller) (.createGroup dto)
        ((db.insertGroup dto.name isPublic).addUser db.nextGroup caller.id (js "owner"))
  | updateGroup {caller : User} {id dto} (saved : Group) (same : saved.id = id) :
      Effect cfg db (some caller) (.updateGroup id dto) (db.saveGroup saved)
  | removeGroup {caller : User} {id} :
      Effect cfg db (some caller) (.removeGroup id) (db.destroyGroup id)
  | addUserToGroup {caller : User} {id dto} (group : LoadedGroup) (user : User)
      (loaded : db.loadGroup id = some group)
      (may : (createForUser caller).allows .update group.target = true)
      (found : db.findUser dto.userId = some user) :
      Effect cfg db (some caller) (.addUserToGroup id dto) (db.addUser id dto.userId dto.groupRole)
  | removeUserFromGroup {caller : User} {id dto} (group : LoadedGroup) (user : User)
      (loaded : db.loadGroup id = some group) (found : db.findUser dto.userId = some user)
      (guard : GroupsService.mayRemove db id dto.userId = true) :
      Effect cfg db (some caller) (.removeUserFromGroup id dto) (db.removeUser id dto.userId)
  | addEvaluationToGroup {caller : User} {id dto} (group : LoadedGroup)
      (evaluation : LoadedEvaluation) (loaded : db.loadGroup id = some group)
      (mayAdd : (createForUser caller).allows .addEvaluation group.target = true)
      (found : db.loadEvaluation dto.id = some evaluation)
      (mayRead : (createForUser caller).allows .read evaluation.target = true) :
      Effect cfg db (some caller) (.addEvaluationToGroup id dto) (db.addEvaluation id dto.id)
  | removeEvaluationFromGroup {caller : User} {id dto} :
      Effect cfg db (some caller) (.removeEvaluationFromGroup id dto) (db.removeEvaluation id dto.id)
  | createEvaluation {caller : User} {dto data} (groups : List LoadedGroup)
      (loaded : ∀ g ∈ groups, db.loadGroup g.group.id = some g) :
      Effect cfg db (some caller) (.createEvaluation dto data)
        (addToGroups (db.insertEvaluation dto.filename data dto.isPublic caller.id) groups
          db.nextEvaluation)
  | updateEvaluation {caller : User} {id dto} (evaluation saved : Evaluation)
      (found : db.findEvaluation id = some evaluation) (same : saved.id = evaluation.id)
      (uploader : saved.userId = evaluation.userId) :
      Effect cfg db (some caller) (.updateEvaluation id dto) (db.saveEvaluation saved)
  | removeEvaluation {caller : User} {id} :
      Effect cfg db (some caller) (.removeEvaluation id) (db.destroyEvaluation id)

/-- Every accepted call of a signed-in user has one of the effects. -/
theorem handleAs_effect {cfg : Config} {db db' : Tables} {user : User} {call : Call}
    (h : handleAs cfg db user call = .ok db') : Effect cfg db (some user) call.request db' := by
  obtain ⟨token, request, salt, now⟩ := call
  cases request <;> simp only [handleAs] at h
  case createUser body =>
    obtain ⟨created, role, rfl⟩ := UsersController.create_ok h
    exact .createUser created role
  case updateUser id body =>
    obtain ⟨entity, old, -, -, -, -, found, -, done⟩ := UsersController.update_ok h
    obtain ⟨-, rfl⟩ := UsersService.update_ok done
    exact .updateUser old _ found UsersService.updated_id UsersService.updated_role
  case removeUser id body =>
    obtain ⟨old, found, may, rfl⟩ := UsersController.remove_ok.mp h
    exact .removeUser old found may
  case createGroup dto =>
    simp only [GroupsController.create, GroupsService.create, Lib.do_eq_ok, pure, Except.pure,
      Except.ok.injEq] at h
    obtain ⟨-, ⟨isPublic, -, rfl⟩, rfl⟩ := h
    exact .createGroup isPublic
  case updateGroup id dto =>
    simp only [GroupsController.update, GroupsService.update, Lib.do_eq_ok, throwUnlessCan_ok,
      GroupsService.findByPkBang_ok, pure, Except.pure, Except.ok.injEq] at h
    obtain ⟨group, loaded, -, -, isPublic, -, rfl⟩ := h
    exact .updateGroup _ (loadGroup_id loaded).1
  case removeGroup id =>
    simp only [GroupsController.remove, Lib.do_eq_ok, throwUnlessCan_ok,
      GroupsService.findByPkBang_ok, pure, Except.pure, Except.ok.injEq] at h
    obtain ⟨group, loaded, -, -, rfl⟩ := h
    rw [(loadGroup_id loaded).1]
    exact .removeGroup
  case addUserToGroup id dto =>
    obtain ⟨group, added, loaded, may, found, rfl⟩ := GroupsController.addUserToGroup_ok.mp h
    exact .addUserToGroup group added loaded may found
  case removeUserFromGroup id dto =>
    simp only [GroupsController.removeUserFromGroup, GroupsService.removeUserFromGroup,
      Lib.do_eq_ok, throwUnlessCan_ok, GroupsService.findByPkBang_ok, findByPkBang_ok,
      Lib.ensure_eq_ok, pure, Except.pure, Except.ok.injEq] at h
    obtain ⟨group, loaded, -, can, removed, found, -, guard, rfl⟩ := h
    rw [(loadGroup_id loaded).1, (Tables.findUser_some found).2] at guard ⊢
    exact .removeUserFromGroup group removed loaded found guard
  case addEvaluationToGroup id dto =>
    obtain ⟨group, evaluation, loaded, mayAdd, found, mayRead, rfl⟩ :=
      GroupsController.addEvaluationToGroup_ok.mp h
    exact .addEvaluationToGroup group evaluation loaded mayAdd found mayRead
  case removeEvaluationFromGroup id dto =>
    simp only [GroupsController.removeEvaluationFromGroup, Lib.do_eq_ok, throwUnlessCan_ok,
      GroupsService.findByPkBang_ok, EvaluationsService.findById_ok, pure, Except.pure,
      Except.ok.injEq] at h
    obtain ⟨group, loaded, -, -, evaluation, found, rfl⟩ := h
    rw [(loadGroup_id loaded).1, (loadEvaluation_id found).1]
    exact .removeEvaluationFromGroup
  case createEvaluation dto data =>
    obtain rfl := Except.ok.inj h
    refine .createEvaluation _ fun g hg => ?_
    split at hg
    · exact mem_findByIds (List.mem_of_mem_filter hg)
    · cases hg
  case updateEvaluation id dto =>
    simp only [EvaluationsController.update, EvaluationsService.update, Lib.do_eq_ok,
      throwUnlessCan_ok, EvaluationsService.findById_ok, pure, Except.pure, Except.ok.injEq] at h
    obtain ⟨evaluation, found, -, -, filename, -, data, -, isPublic, -, rfl⟩ := h
    exact .updateEvaluation evaluation.evaluation _ (loadEvaluation_id found).2.1 rfl rfl
  case removeEvaluation id =>
    simp only [EvaluationsController.remove, Lib.do_eq_ok, throwUnlessCan_ok,
      EvaluationsService.findById_ok, pure, Except.pure, Except.ok.injEq] at h
    obtain ⟨evaluation, found, -, -, rfl⟩ := h
    rw [(loadEvaluation_id found).1]
    exact .removeEvaluation

theorem handle_effect {cfg : Config} {db db' : Tables} {call : Call}
    (h : handle cfg db call = .ok db') : Effect cfg db (call.user db) call.request db' := by
  unfold handle at h
  split at h
  · rename_i user signedIn
    rw [signedIn]
    exact handleAs_effect h
  · rename_i body anonymous request
    obtain ⟨created, role, rfl⟩ := UsersController.create_ok h
    rw [request]
    exact .createUser created role
  · cases h

/-! Integrity is kept, so the API is a transition system on databases. -/

theorem addToGroups_consistent {groups : List LoadedGroup} {e : ℕ} {db : Tables}
    (h : db.Consistent) (loaded : ∀ g ∈ groups, g.group.id ∈ db.groups.map Group.id)
    (evaluation : e ∈ db.evaluations.map Evaluation.id) :
    (addToGroups db groups e).Consistent := by
  induction groups generalizing db with
  | nil => exact h
  | cons g groups ih =>
      exact ih (h.addEvaluation (loaded g List.mem_cons_self) evaluation)
        (fun g' hg' => loaded g' (List.mem_cons_of_mem g hg')) evaluation

theorem addToGroups_frame (db : Tables) (groups : List LoadedGroup) (e : ℕ) :
    (addToGroups db groups e).users = db.users ∧
    (addToGroups db groups e).groups = db.groups ∧
    (addToGroups db groups e).groupUsers = db.groupUsers ∧
    (addToGroups db groups e).evaluations = db.evaluations := by
  induction groups generalizing db with
  | nil => exact ⟨rfl, rfl, rfl, rfl⟩
  | cons g groups ih => exact ih (db.addEvaluation g.group.id e)

theorem findUser_key {db : Tables} {id : ℕ} {user : User} (found : db.findUser id = some user) :
    id ∈ db.users.map User.id := Lib.mem_key_iff.mpr ⟨user, found⟩

theorem loadGroup_key {db : Tables} {id : ℕ} {g : LoadedGroup} (loaded : db.loadGroup id = some g) :
    id ∈ db.groups.map Group.id := Lib.mem_key_iff.mpr ⟨g.group, (loadGroup_id loaded).2.1⟩

theorem Effect.consistent {cfg : Config} {db db' : Tables} {caller : Option User}
    {request : Request} (effect : Effect cfg db caller request db') (h : db.Consistent)
    (known : ∀ user, caller = some user → db.findUser user.id = some user) : db'.Consistent := by
  cases effect with
  | createUser user role => exact h.insertUser user
  | updateUser user saved found same role => exact h.saveUser saved
  | removeUser user found may => exact h.destroyUser _
  | createGroup isPublic =>
      refine (h.insertGroup _ isPublic).addUser ?_ (findUser_key (known _ rfl)) _
      simp [Tables.insertGroup]
  | updateGroup saved same => exact h.saveGroup saved
  | removeGroup => exact h.destroyGroup _
  | addUserToGroup group user loaded may found =>
      exact h.addUser (loadGroup_key loaded) (findUser_key found) _
  | removeUserFromGroup group user loaded found guard => exact h.removeUser _ _
  | addEvaluationToGroup group evaluation loaded mayAdd found mayRead =>
      exact h.addEvaluation (loadGroup_key loaded)
        (Lib.mem_key_iff.mpr ⟨_, (loadEvaluation_id found).2.1⟩)
  | removeEvaluationFromGroup => exact h.removeEvaluation _ _
  | createEvaluation groups loaded =>
      refine addToGroups_consistent (h.insertEvaluation _ _ _ (findUser_key (known _ rfl)))
        (fun g hg => loadGroup_key (loaded g hg)) ?_
      simp [Tables.insertEvaluation]
  | updateEvaluation evaluation saved found same uploader =>
      apply h.saveEvaluation
      rw [uploader]
      exact h.uploaders evaluation (Tables.findEvaluation_some found).1
  | removeEvaluation => exact h.destroyEvaluation _

theorem Call.user_known {db : Tables} {call : Call} {user : User}
    (signedIn : call.user db = some user) : db.findUser user.id = some user := by
  obtain ⟨id, -, found⟩ := Option.bind_eq_some_iff.mp signedIn
  rw [(Tables.findUser_some found).2, found]

/-- The tables after a call of a signed-in user that the endpoint accepts. -/
theorem answer_accepted {cfg : Config} {db db' : Tables} {call : Call} {user : User}
    (signedIn : call.user db = some user) (accepted : handleAs cfg db user call = .ok db') :
    answer cfg db call = db' := by
  have handled : handle cfg db call = .ok db' := by
    unfold handle
    rw [signedIn]
    exact accepted
  rw [answer, handled]

/-- A call leaves the tables alone or has an effect. -/
theorem answer_cases (cfg : Config) (db : Tables) (call : Call) :
    answer cfg db call = db ∨ Effect cfg db (call.user db) call.request (answer cfg db call) := by
  unfold answer
  cases result : handle cfg db call with
  | error e => exact .inl rfl
  | ok db' => exact .inr (handle_effect result)

theorem answer_consistent {cfg : Config} {db : Tables} (h : db.Consistent) (call : Call) :
    (answer cfg db call).Consistent := by
  rcases answer_cases cfg db call with same | effect
  · rwa [same]
  · exact effect.consistent h fun user signedIn => Call.user_known signedIn

def Database.step (cfg : Config) (d : Database) (call : Call) : Database :=
  ⟨answer cfg d.tables call, answer_consistent d.consistent call⟩

@[simp] theorem Database.step_tables (cfg : Config) (d : Database) (call : Call) :
    (d.step cfg call).tables = answer cfg d.tables call := rfl

def Database.empty : Database := ⟨Tables.empty, Tables.empty_consistent⟩

/-! Calls for concrete runs. -/

def sampleRegistration (email : String) : Call where
  token := none
  request := .createUser (.object
    [(js "email", .str (js email)), (js "password", .str (js "aB1!cD2?eF3#gH4")),
     (js "passwordConfirmation", .str (js "aB1!cD2?eF3#gH4")), (js "role", .str (js "user")),
     (js "creationMethod", .str (js "local"))])
  salt := 0
  now := 0

def sampleCall (user : ℕ) (request : Request) : Call := ⟨some user, request, 0, 0⟩

def sampleGroup : CreateGroupDto := ⟨js "team", .undefined, by decide⟩

def sampleMembership (user : ℕ) : AddUserToGroupDto := ⟨user, js "member", by decide⟩

def sampleOwnership (user : ℕ) : AddUserToGroupDto := ⟨user, js "owner", by decide⟩

end Backend
