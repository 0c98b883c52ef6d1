import Heimdall.Lib.EditDistance
import Heimdall.Lib.Throws
import Heimdall.Backend.AbilityFactory
import Heimdall.Backend.Pipes
import Heimdall.Backend.Relations

/-!
# Users: controller and service

The endpoints that create, update and remove an account. Hashing, the edit distance and
the syntax of addresses come from packages and are parameters; `salt` and `now` are what
the hash and the clock add to a call.
-/
namespace Backend
open Js Casl

/-- What the server takes from its settings and from packages. -/
structure Config where
  registrationAllowed : Bool
  isEmail : JsString → Bool
  /-- `hash(password, 14)` under a salt. -/
  hash : JsString → ℕ → JsString
  /-- `compare(password, encrypted)` -/
  compare : JsString → JsString → Bool
  levenshtein : JsString → JsString → ℕ

/-- Settings for concrete runs: the hash shows the string, the distance is computed. -/
def sampleConfig : Config where
  registrationAllowed := true
  isEmail := fun _ => true
  hash := fun password _ => js "$2a$14$" ++ password
  compare := fun password encrypted => decide (js "$2a$14$" ++ password = encrypted)
  levenshtein := Lib.levenshtein

def Action.text : Action → String
  | .manage => "manage"
  | .create => "create"
  | .read => "read"
  | .update => "update"
  | .delete => "delete"
  | .readAll => "read-all"
  | .readSlim => "read-slim"
  | .deleteNoPassword => "delete-no-password"
  | .updateNoPassword => "update-no-password"
  | .skipForcePasswordChange => "skip-force-password-change"
  | .updateRole => "update-role"
  | .addEvaluation => "add-evaluation"
  | .removeEvaluation => "remove-evaluation"
  | .viewStatistics => "view-statistics"
  | .forceRegistration => "force-registration"

def SubjectType.text : SubjectType → String
  | .user => "User"
  | .group => "Group"
  | .evaluation => "Evaluation"
  | .all => "all"

/-- `ForbiddenError.from(abac).throwUnlessCan(action, subject)` -/
def throwUnlessCan (abac : AppAbility) (action : Action) (target : Target SubjectType) :
    Except HttpError Unit :=
  Lib.ensure (abac.allows action target) (.forbidden
    ("Cannot execute \"" ++ action.text ++ "\" on \"" ++ target.subjectType.text ++ "\""))

def User.target (user : User) : Target SubjectType := .instance .user user.doc

def findByPkBang (db : Tables) (id : ℕ) : Except HttpError User :=
  Lib.orThrow (db.findUser id) (.notFound "User with given id not found")

namespace UsersService
variable (cfg : Config) (db : Tables)

/-- `user.save()`: another account must not have the address. -/
def emailTaken (user : User) : Bool :=
  db.users.any fun other => decide (other.id ≠ user.id) && decide (other.email = user.email)

/-- `x || undefined` -/
def orUndefined (x : Opt JsString) : Option JsString := x.orElse none

def create (dto : CreateUserDto) (salt : ℕ) : Except HttpError Tables := do
  let user : User :=
    { id := db.nextUser
      email := dto.email
      firstName := orUndefined dto.firstName
      lastName := orUndefined dto.lastName
      title := orUndefined dto.title
      organization := orUndefined dto.organization
      role := dto.role
      creationMethod := dto.creationMethod
      encryptedPassword := cfg.hash dto.password salt
      forcePasswordChange := none
      passwordChangedAt := none }
  Lib.ensure (!emailTaken db user) .uniqueConstraint
  return db.insertUser user

def testPassword (dto : UpdateUserDto) (user : User) : Except HttpError Unit :=
  Lib.ensure (cfg.compare ((dto.currentPassword.orElse none).getD []) user.encryptedPassword)
    (.forbidden "Current password is incorrect")

/-- The password columns after an update. -/
def setPassword (user : User) (dto : UpdateUserDto) (salt now : ℕ) : User :=
  match dto.password with
  | .val password =>
      if password.isEmpty then user
      else { user with
        encryptedPassword := cfg.hash password salt
        passwordChangedAt := some now
        forcePasswordChange := some false }
  | _ => user

def setProfile (user : User) (dto : UpdateUserDto) : User :=
  { user with
    email := (dto.email.orElse (some user.email)).getD user.email
    firstName := dto.firstName.orElse user.firstName
    lastName := dto.lastName.orElse user.lastName
    title := dto.title.orElse user.title
    organization := dto.organization.orElse user.organization }

def setRole (user : User) (dto : UpdateUserDto) (abac : AppAbility) : User :=
  if abac.allows .updateRole user.target then
    { user with role := (dto.role.orElse (some user.role)).getD user.role }
  else user

def setForcePasswordChange (user : User) (dto : UpdateUserDto) : User :=
  { user with
    forcePasswordChange :=
      if dto.forcePasswordChange.isTrue then some true else user.forcePasswordChange }

def update (userToUpdate : User) (dto : UpdateUserDto) (abac : AppAbility) (salt now : ℕ) :
    Except HttpError Tables := do
  if !abac.allows .updateNoPassword userToUpdate.target then
    testPassword cfg dto userToUpdate
  Lib.ensure
    (!(dto.password.isNil && userToUpdate.forcePasswordChange == some true &&
      !abac.allows .skipForcePasswordChange userToUpdate.target))
    (.badRequest "You must change your password")
  let user := setPassword cfg userToUpdate dto salt now
  let user := setProfile user dto
  let user := setRole user dto abac
  let user := setForcePasswordChange user dto
  Lib.ensure (!emailTaken db user) .uniqueConstraint
  return db.saveUser user

def adminCount : ℕ := db.users.countP fun user => user.isAdmin

def remove (userToDelete : User) (dto : DeleteUserDto) (abac : AppAbility) :
    Except HttpError Tables := do
  if !abac.allows .deleteNoPassword userToDelete.target then
    Lib.ensure (cfg.compare ((dto.password.orElse none).getD []) userToDelete.encryptedPassword)
      (.forbidden "Password was incorrect, could not delete account")
  Lib.ensure (!(userToDelete.isAdmin && decide (adminCount db < 2)))
    (.forbidden ("Cannot destroy only administrator account, please promote another user to" ++
      " administrator first"))
  return db.destroyUser userToDelete.id

end UsersService

namespace UsersController
variable (cfg : Config) (db : Tables)

def create (request : Option User) (body : JsVal) (salt : ℕ) : Except HttpError Tables := do
  let entity ← validationPipe cfg.isEmail createUserProperties body
  let entity ← passwordsMatchPipe entity
  let entity ← passwordComplexityPipe entity
  let abac := match request with
    | some user => createForUser user
    | none => createForAnonymous
  if !cfg.registrationAllowed then
    Lib.ensure (abac.allows .forceRegistration (.type .user)) (.forbidden
      ("User registration is disabled. Please ask your system administrator to create the" ++
        " account."))
  UsersService.create cfg db (CreateUserDto.of entity) salt

def update (request : User) (id : ℕ) (body : JsVal) (salt now : ℕ) : Except HttpError Tables := do
  let entity ← validationPipe cfg.isEmail updateUserProperties body
  let entity ← passwordsMatchPipe entity
  let entity ← passwordChangePipe cfg.levenshtein entity
  let entity ← passwordComplexityPipe entity
  let abac := createForUser request
  let userToUpdate ← findByPkBang db id
  throwUnlessCan abac .update userToUpdate.target
  UsersService.update cfg db userToUpdate (UpdateUserDto.of entity) abac salt now

def remove (request : User) (id : ℕ) (body : JsVal) : Except HttpError Tables := do
  let entity ← validationPipe cfg.isEmail deleteUserProperties body
  let abac := createForUser request
  let userToDelete ← findByPkBang db id
  throwUnlessCan abac .delete userToDelete.target
  UsersService.remove cfg db userToDelete (DeleteUserDto.of entity) abac

end UsersController

/-! What an accepted request has passed. -/

theorem throwUnlessCan_ok {abac : AppAbility} {action : Action} {target : Target SubjectType}
    {u : Unit} : throwUnlessCan abac action target = .ok u ↔ abac.allows action target = true := by
  simp [throwUnlessCan]

theorem findByPkBang_ok {db : Tables} {id : ℕ} {user : User} :
    findByPkBang db id = .ok user ↔ db.findUser id = some user := by
  simp [findByPkBang]

/-- The account that an update saves. -/
def UsersService.updated (cfg : Config) (user : User) (dto : UpdateUserDto) (abac : AppAbility)
    (salt now : ℕ) : User :=
  setForcePasswordChange (setRole (setProfile (setPassword cfg user dto salt now) dto) dto abac) dto

theorem UsersService.update_ok {cfg : Config} {db db' : Tables} {user : User} {dto : UpdateUserDto}
    {abac : AppAbility} {salt now : ℕ}
    (h : UsersService.update cfg db user dto abac salt now = .ok db') :
    (abac.allows .updateNoPassword user.target = false →
      cfg.compare ((dto.currentPassword.orElse none).getD []) user.encryptedPassword = true) ∧
    db' = db.saveUser (updated cfg user dto abac salt now) := by
  unfold UsersService.update at h
  obtain ⟨tested, h⟩ := Lib.when_eq_ok.mp h
  simp only [Lib.do_eq_ok, Lib.ensure_eq_ok, pure, Except.pure, Except.ok.injEq] at h
  obtain ⟨-, -, -, -, rfl⟩ := h
  refine ⟨fun asked => ?_, rfl⟩
  have passed := tested (by simp [asked])
  simpa [testPassword] using passed

@[simp] theorem UsersService.updated_id {cfg : Config} {user : User} {dto : UpdateUserDto}
    {abac : AppAbility} {salt now : ℕ} : (updated cfg user dto abac salt now).id = user.id := by
  unfold updated setForcePasswordChange setRole setProfile setPassword
  split <;> split <;> (try split) <;> rfl

/-- A role is changed by an administrator, and never by the owner of the account. -/
theorem UsersService.updated_role {cfg : Config} {request user : User} {dto : UpdateUserDto}
    {salt now : ℕ} :
    (updated cfg user dto (createForUser request) salt now).role = user.role ∨
      (request.isAdmin = true ∧ user.id ≠ request.id) := by
  have profile : (setProfile (setPassword cfg user dto salt now) dto).role = user.role ∧
      (setProfile (setPassword cfg user dto salt now) dto).id = user.id := by
    unfold setProfile setPassword
    split <;> (try split) <;> exact ⟨rfl, rfl⟩
  by_cases may : (createForUser request).allows .updateRole
      (setProfile (setPassword cfg user dto salt now) dto).target = true
  · right
    have answer := (allows_user request _ .updateRole).mp may
    rw [profile.2] at answer
    simpa using answer
  · left
    simp only [updated, setForcePasswordChange, setRole, may]
    exact profile.1

/-- The checks of a removal: the password, unless the caller needs none, and that another
administrator is left. -/
def UsersService.MayRemove (cfg : Config) (db : Tables) (user : User) (dto : DeleteUserDto)
    (abac : AppAbility) : Prop :=
  (abac.allows .deleteNoPassword user.target = true ∨
    cfg.compare ((dto.password.orElse none).getD []) user.encryptedPassword = true) ∧
  (user.isAdmin = true → 2 ≤ adminCount db)

theorem UsersService.remove_ok {cfg : Config} {db db' : Tables} {user : User} {dto : DeleteUserDto}
    {abac : AppAbility} : UsersService.remove cfg db user dto abac = .ok db' ↔
      MayRemove cfg db user dto abac ∧ db' = db.destroyUser user.id := by
  have guard : (!(user.isAdmin && decide (adminCount db < 2))) = true ↔
      (user.isAdmin = true → 2 ≤ adminCount db) := by
    cases user.isAdmin with
    | false => simp
    | true =>
        simp only [Bool.true_and, Bool.not_eq_true', decide_eq_false_iff_not, Nat.not_lt,
          true_implies]
  unfold UsersService.remove
  rw [Lib.when_eq_ok]
  simp only [Lib.do_eq_ok, Lib.ensure_eq_ok, pure, Except.pure, Except.ok.injEq, exists_const,
    guard, MayRemove, Bool.not_eq_true', and_assoc, eq_comm (a := db')]
  cases abac.allows .deleteNoPassword user.target <;> simp

theorem UsersService.create_ok {cfg : Config} {db db' : Tables} {dto : CreateUserDto} {salt : ℕ}
    (h : UsersService.create cfg db dto salt = .ok db') :
    ∃ user : User, user.email = dto.email ∧ user.role = dto.role ∧ db' = db.insertUser user := by
  simp only [UsersService.create, Lib.do_eq_ok, pure, Except.pure, Except.ok.injEq] at h
  obtain ⟨-, -, rfl⟩ := h
  exact ⟨_, rfl, rfl, rfl⟩

/-- The role of a new account passed `@IsIn(['user'])`. -/
theorem createUser_role {isEmail : JsString → Bool} {body entity : JsVal}
    (h : validationPipe isEmail createUserProperties body = .ok entity) :
    (CreateUserDto.of entity).role = js "user" := by
  obtain ⟨valid, rfl⟩ := validationPipe_ok.mp h
  have declared := valid ⟨js "role", false, [.isNotEmpty, .isString, .isIn [js "user"]]⟩
    (by simp [createUserProperties])
  have stored : (whitelist createUserProperties body).get (js "role") = body.getOwn (js "role") :=
    whitelist_get ⟨⟨js "role", false, [.isNotEmpty, .isString, .isIn [js "user"]]⟩,
      by simp [createUserProperties], rfl⟩
  change requireString ((whitelist createUserProperties body).get (js "role")) = _
  rw [stored]
  simp only [Property.valid, Bool.false_and, Bool.false_or, List.all_cons, List.all_nil,
    Bool.and_true, Bool.and_eq_true] at declared
  obtain ⟨-, -, isIn⟩ := declared
  cases given : body.getOwn (js "role") with
  | str s =>
      rw [given] at isIn
      simpa [Constraint.holds, requireString, readString, Opt.toOption] using isIn
  | _ =>
      rw [given] at isIn
      simp [Constraint.holds] at isIn

theorem UsersController.create_ok {cfg : Config} {db db' : Tables} {request : Option User}
    {body : JsVal} {salt : ℕ} (h : UsersController.create cfg db request body salt = .ok db') :
    ∃ user : User, user.role = js "user" ∧ db' = db.insertUser user := by
  simp only [UsersController.create, Lib.do_eq_ok] at h
  obtain ⟨entity, valid, e₁, matched, e₂, strong, h⟩ := h
  obtain ⟨-, h⟩ := Lib.when_eq_ok.mp h
  obtain ⟨user, -, role, rfl⟩ := UsersService.create_ok h
  obtain ⟨rfl, -⟩ := passwordsMatchPipe_ok matched
  obtain rfl := passwordComplexityPipe_same strong
  exact ⟨user, role.trans (createUser_role valid), rfl⟩

theorem UsersController.update_ok {cfg : Config} {db db' : Tables} {request : User} {id : ℕ}
    {body : JsVal} {salt now : ℕ}
    (h : UsersController.update cfg db request id body salt now = .ok db') :
    ∃ entity user, validationPipe cfg.isEmail updateUserProperties body = .ok entity ∧
      passwordsMatchPipe entity = .ok entity ∧
      passwordChangePipe cfg.levenshtein entity = .ok entity ∧
      passwordComplexityPipe entity = .ok entity ∧
      db.findUser id = some user ∧
      (createForUser request).allows .update user.target = true ∧
      UsersService.update cfg db user (UpdateUserDto.of entity) (createForUser request) salt now =
        .ok db' := by
  simp only [UsersController.update, Lib.do_eq_ok, throwUnlessCan_ok, findByPkBang_ok] at h
  obtain ⟨entity, valid, e₁, matched, e₂, changed, e₃, strong, user, found, -, can, done⟩ := h
  obtain ⟨rfl, -⟩ := passwordsMatchPipe_ok matched
  obtain rfl := passwordChangePipe_same changed
  obtain rfl := passwordComplexityPipe_same strong
  exact ⟨e₃, user, valid, matched, changed, strong, found, can, done⟩

def UsersController.MayRemove (cfg : Config) (db : Tables) (request user : User) (body : JsVal) :
    Prop :=
  ∃ entity, validationPipe cfg.isEmail deleteUserProperties body = .ok entity ∧
    (createForUser request).allows .delete user.target = true ∧
    UsersService.MayRemove cfg db user (DeleteUserDto.of entity) (createForUser request)

theorem UsersController.MayRemove.guard {cfg : Config} {db : Tables} {request user : User}
    {body : JsVal} (may : MayRemove cfg db request user body) :
    user.isAdmin = true → 2 ≤ UsersService.adminCount db := by
  obtain ⟨-, -, -, -, guard⟩ := may
  exact guard

theorem UsersController.remove_ok {cfg : Config} {db db' : Tables} {request : User} {id : ℕ}
    {body : JsVal} : UsersController.remove cfg db request id body = .ok db' ↔
      ∃ user, db.findUser id = some user ∧ MayRemove cfg db request user body ∧
        db' = db.destroyUser id := by
  simp only [UsersController.remove, Lib.do_eq_ok, throwUnlessCan_ok, findByPkBang_ok,
    UsersService.remove_ok]
  constructor
  · rintro ⟨entity, valid, user, found, -, can, may, rfl⟩
    rw [(Tables.findUser_some found).2]
    exact ⟨user, found, ⟨entity, valid, can, may⟩, rfl⟩
  · rintro ⟨user, found, ⟨entity, valid, can, may⟩, rfl⟩
    refine ⟨entity, valid, user, found, (), can, may, ?_⟩
    rw [(Tables.findUser_some found).2]

end Backend
