import Heimdall.Backend.Api

/-!
# Changing a password

The policy is spread over the validation of the body, three pipes and the service. When an
update is accepted for somebody who has to know the password, either the stored hash stays
or every rule was met: no combination of missing and empty fields passes in between.
-/
namespace Backend
open Js Casl

/-- `compare` is true exactly for the string that was hashed. -/
def Config.BcryptLaw (cfg : Config) : Prop :=
  ∀ password encrypted, cfg.compare password encrypted = true ↔
    ∃ salt, cfg.hash password salt = encrypted

/-- `levenshtein` is the edit distance on code units. -/
def Config.EditDistance (cfg : Config) : Prop :=
  ∀ future current, cfg.levenshtein future current = Lib.editDistance future current

/-- The rules for replacing the stored hash of `user` by that of `saved`. -/
structure PasswordPolicy (cfg : Config) (body : JsVal) (salt : ℕ) (user saved : User)
    (password currentPassword : JsString) : Prop where
  given : body.getOwn (js "password") = .str password
  confirmed : body.getOwn (js "passwordConfirmation") = .str password
  current : body.getOwn (js "currentPassword") = .str currentPassword
  matched : ∃ old, cfg.hash currentPassword old = user.encryptedPassword
  stored : saved.encryptedPassword = cfg.hash password salt
  complex : Complex password
  far : 8 < Lib.editDistance password currentPassword
  classes : ∀ cls ∈ [isLower, isUpper, isDigit, isSpecial],
    currentPassword.filter cls ≠ password.filter cls

/-- The columns that a new password sets. -/
def User.secret (user : User) : JsString × Option ℕ := (user.encryptedPassword, user.passwordChangedAt)

theorem updated_secret {cfg : Config} {user : User} {dto : UpdateUserDto} {abac : AppAbility}
    {salt now : ℕ} :
    (UsersService.updated cfg user dto abac salt now).secret =
      (UsersService.setPassword cfg user dto salt now).secret := by
  unfold UsersService.updated UsersService.setForcePasswordChange UsersService.setRole
    UsersService.setProfile
  split <;> rfl

/-- An update that is given no password leaves the account as it is. -/
theorem setPassword_cases (cfg : Config) (user : User) (dto : UpdateUserDto) (salt now : ℕ) :
    UsersService.setPassword cfg user dto salt now = user ∨
    ∃ password, dto.password = .val password ∧ password ≠ [] ∧
      (UsersService.setPassword cfg user dto salt now).secret =
        (cfg.hash password salt, some now) := by
  unfold UsersService.setPassword
  split
  · rename_i password given
    split
    · exact .inl rfl
    · rename_i notEmpty
      exact .inr ⟨password, given, by simpa using notEmpty, rfl⟩
  · exact .inl rfl

/-- The string that is compared with the hash is the one that was given, if any was. -/
theorem currentPassword_cases (x : Opt JsString) :
    (x.orElse none).getD [] = [] ∨ ∃ s, x = .val s ∧ s ≠ [] ∧ (x.orElse none).getD [] = s := by
  cases x with
  | undefined => exact .inl rfl
  | null => exact .inl rfl
  | val s =>
      cases s with
      | nil => exact .inl rfl
      | cons c s => exact .inr ⟨c :: s, rfl, by simp, rfl⟩

theorem updateUser_get {body : JsVal} {name : JsString}
    (declared : name ∈ updateUserProperties.map Property.name) :
    (whitelist updateUserProperties body).get name = body.getOwn name :=
  whitelist_get (List.mem_map.mp declared)

theorem str_of_strictEq {v : JsVal} {s : JsString} (h : (JsVal.str s).strictEq v = true) :
    v = .str s := by
  cases v <;> simp_all [JsVal.strictEq]

/-- The rules behind a new hash, from what the pipes and the comparison let through. -/
theorem passwordPolicy_of_checks {cfg : Config} (bcrypt : cfg.BcryptLaw)
    (distance : cfg.EditDistance) {user saved : User} {body : JsVal} {salt : ℕ}
    {password : JsString} (notEmpty : ∀ old, cfg.hash [] old ≠ user.encryptedPassword)
    (given : readString ((whitelist updateUserProperties body).get (js "password")) =
      .val password)
    (long : password ≠ []) (replaced : saved.encryptedPassword = cfg.hash password salt)
    (compared : cfg.compare
      (((readString ((whitelist updateUserProperties body).get
        (js "currentPassword"))).orElse none).getD []) user.encryptedPassword = true)
    {e₁ e₂ e₃ : JsVal}
    (matched : passwordsMatchPipe (whitelist updateUserProperties body) = .ok e₁)
    (changed : passwordChangePipe cfg.levenshtein (whitelist updateUserProperties body) = .ok e₂)
    (strong : passwordComplexityPipe (whitelist updateUserProperties body) = .ok e₃) :
    ∃ password currentPassword,
      PasswordPolicy cfg body salt user saved password currentPassword := by
  have hashed := (bcrypt _ _).mp compared
  rcases currentPassword_cases
      (readString ((whitelist updateUserProperties body).get (js "currentPassword")))
    with empty | ⟨currentPassword, current, some, same⟩
  · rw [empty] at hashed
    obtain ⟨old, clash⟩ := hashed
    exact absurd clash (notEmpty old)
  · rw [same] at hashed
    have given := readString_val.mp given
    have current := readString_val.mp current
    have confirmed := (passwordsMatchPipe_ok matched).2
    rw [given] at confirmed
    have confirmed := str_of_strictEq (confirmed.resolve_left (by simp [JsVal.isNil]))
    obtain ⟨far, classes⟩ := passwordChangePipe_ok changed given long current some
    refine ⟨password, currentPassword, ?_, ?_, ?_, hashed, replaced,
      passwordComplexityPipe_ok strong given long, ?_, classes⟩
    · rw [← given, updateUser_get (by decide)]
    · rw [← confirmed, updateUser_get (by decide)]
    · rw [← current, updateUser_get (by decide)]
    · rw [← distance]
      exact far

theorem passwordPolicy_update {cfg : Config} (bcrypt : cfg.BcryptLaw) (distance : cfg.EditDistance)
    {db db' : Tables} {requester user : User} {id : ℕ} {body : JsVal} {salt now : ℕ}
    (stored : db.findUser id = some user)
    (notEmpty : ∀ old, cfg.hash [] old ≠ user.encryptedPassword)
    (asked : (createForUser requester).allows .updateNoPassword user.target = false)
    (accepted : UsersController.update cfg db requester id body salt now = .ok db') :
    ∃ saved, db'.findUser id = some saved ∧
      (saved.secret = user.secret ∨
        ∃ password currentPassword,
          PasswordPolicy cfg body salt user saved password currentPassword) := by
  obtain ⟨entity, user', valid, matched, changed, strong, found, -, done⟩ :=
    UsersController.update_ok accepted
  obtain rfl : user = user' := Option.some.inj (stored.symm.trans found)
  obtain ⟨tested, tables⟩ := UsersService.update_ok done
  obtain ⟨-, rfl⟩ := validationPipe_ok.mp valid
  have key := (Tables.findUser_some stored).2
  refine ⟨UsersService.updated cfg user (UpdateUserDto.of (whitelist updateUserProperties body))
    (createForUser requester) salt now, ?_, ?_⟩
  · rw [tables, Tables.findUser_saveUser, UsersService.updated_id, if_pos key.symm, stored]
    rfl
  · rcases setPassword_cases cfg user (UpdateUserDto.of (whitelist updateUserProperties body)) salt
        now with kept | ⟨password, given, long, replaced⟩
    · exact .inl (updated_secret.trans (congrArg User.secret kept))
    · have hashed : (UsersService.updated cfg user
          (UpdateUserDto.of (whitelist updateUserProperties body)) (createForUser requester) salt
          now).encryptedPassword = cfg.hash password salt :=
        congrArg Prod.fst (updated_secret.trans replaced)
      exact .inr (passwordPolicy_of_checks bcrypt distance notEmpty given long hashed
        (tested asked) matched changed strong)

def sampleUser : User where
  id := 1
  email := js "user@example.com"
  firstName := none
  lastName := none
  organization := none
  title := none
  encryptedPassword := js "$2a$14$aB1!cD2?eF3#gH4"
  forcePasswordChange := none
  passwordChangedAt := none
  role := js "user"
  creationMethod := js "local"

def sampleTables : Tables := { Tables.empty with users := [sampleUser], nextUser := 2 }

def sampleBody : JsVal := .object
  [(js "password", .str (js "xY7$zW8%vU9&tS0")),
   (js "passwordConfirmation", .str (js "xY7$zW8%vU9&tS0")),
   (js "currentPassword", .str (js "aB1!cD2?eF3#gH4"))]

theorem passwordPolicy_update_sample : ∃ db' saved password currentPassword,
    UsersController.update sampleConfig sampleTables sampleUser 1 sampleBody 0 0 = .ok db' ∧
    db'.findUser 1 = some saved ∧ saved.secret ≠ sampleUser.secret ∧
    PasswordPolicy sampleConfig sampleBody 0 sampleUser saved password currentPassword := by
  have changes : ((UsersController.update sampleConfig sampleTables sampleUser 1 sampleBody 0 0).map
      fun db' => (db'.findUser 1).map (·.secret)).toOption ≠ some (some sampleUser.secret) := by
    decide +kernel
  have passes : (UsersController.update sampleConfig sampleTables sampleUser 1 sampleBody
    0 0).toBool = true := by decide +kernel
  cases accepted : UsersController.update sampleConfig sampleTables sampleUser 1 sampleBody 0 0 with
  | error e =>
      rw [accepted] at passes
      cases passes
  | ok db' =>
      have bcrypt : sampleConfig.BcryptLaw := by
        intro password encrypted
        simp [sampleConfig]
      have distance : sampleConfig.EditDistance := fun _ _ => Lib.levenshtein_eq _ _
      have stored : sampleTables.findUser 1 = some sampleUser := by decide
      have other : ∀ old, sampleConfig.hash [] old ≠ sampleUser.encryptedPassword := by
        intro old
        change js "$2a$14$" ++ [] ≠ js "$2a$14$aB1!cD2?eF3#gH4"
        decide
      obtain ⟨saved, found, policy⟩ :=
        passwordPolicy_update bcrypt distance stored other (by decide) accepted
      have replaced : saved.secret ≠ sampleUser.secret := by
        intro kept
        apply changes
        rw [accepted, ← kept]
        exact congrArg (fun user : Option User => some (user.map (·.secret))) found
      obtain ⟨password, currentPassword, here⟩ := policy.resolve_left replaced
      exact ⟨db', saved, password, currentPassword, rfl, found, replaced, here⟩

end Backend
