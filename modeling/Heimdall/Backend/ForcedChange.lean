import Heimdall.Backend.PasswordPolicy

/-!
# The forced change of a password

An account that must change its password is asked for one by the service, which takes an empty
string for a password where it asks, and for none where it would store the hash.
-/
namespace Backend
open Js Casl

/-- The body becomes the entity, and every pipe for the password returns it. -/
structure PassesPipes (cfg : Config) (body entity : JsVal) : Prop where
  valid : validationPipe cfg.isEmail updateUserProperties body = .ok entity
  matched : passwordsMatchPipe entity = .ok entity
  changed : passwordChangePipe cfg.levenshtein entity = .ok entity
  complex : passwordComplexityPipe entity = .ok entity

/-- The stored hash was replaced by that of the password in the body, which meets the rules. -/
def Replaced (cfg : Config) (body : JsVal) (salt now : ℕ) (saved : User) : Prop :=
  ∃ password, body.getOwn (js "password") = .str password ∧ Complex password ∧
    saved.secret = (cfg.hash password salt, some now)

variable {cfg : Config} {db db' : Tables} {user : User} {body entity : JsVal}
  {abac : AppAbility} {salt now : ℕ}

theorem UsersService.update_forced {dto : UpdateUserDto}
    (forced : user.forcePasswordChange = some true)
    (lacks : abac.allows .skipForcePasswordChange user.target = false)
    (accepted : UsersService.update cfg db user dto abac salt now = .ok db') :
    dto.password.isNil = false := by
  unfold UsersService.update at accepted
  obtain ⟨-, accepted⟩ := Lib.when_eq_ok.mp accepted
  simp only [Lib.do_eq_ok, Lib.ensure_eq_ok] at accepted
  obtain ⟨-, given, -⟩ := accepted
  simpa [forced, lacks] using given

theorem setPassword_secret {dto : UpdateUserDto} {password : JsString}
    (given : dto.password = .val password) (long : password ≠ []) :
    (UsersService.setPassword cfg user dto salt now).secret =
      (cfg.hash password salt, some now) := by
  have notEmpty : ¬ password.isEmpty = true := by simpa using long
  rw [UsersService.setPassword, given]
  simp only [if_neg notEmpty]
  rfl

theorem optionalString_valid {isEmail : JsString → Bool} {name : JsString} {v : JsVal}
    (valid : (optionalString name).valid isEmail v = true) :
    (readString v).isNil = true ∨ ∃ s, v = .str s := by
  cases v with
  | str s => exact .inr ⟨s, rfl⟩
  | undefined | null => exact .inl rfl
  | bool | num | arr | obj => cases valid

theorem PassesPipes.password (passes : PassesPipes cfg body entity) :
    entity.get (js "password") = body.getOwn (js "password") ∧
      ((readString (body.getOwn (js "password"))).isNil = true ∨
        ∃ password, body.getOwn (js "password") = .str password) := by
  obtain ⟨valid, rfl⟩ := validationPipe_ok.mp passes.valid
  have declared : optionalString (js "password") ∈ updateUserProperties := by
    unfold updateUserProperties
    simp
  exact ⟨updateUser_get (by decide), optionalString_valid (valid _ declared)⟩

/-- An accepted update of an account that must change its password replaces the hash by that of a
password that meets the rules exactly when the body does not have the empty string for it. -/
theorem forced_change_iff (stored : db.findUser user.id = some user)
    (forced : user.forcePasswordChange = some true)
    (lacks : abac.allows .skipForcePasswordChange user.target = false)
    (passes : PassesPipes cfg body entity)
    (accepted : UsersService.update cfg db user (UpdateUserDto.of entity) abac salt now = .ok db') :
    (∃ saved, db'.findUser user.id = some saved ∧ Replaced cfg body salt now saved) ↔
      body.getOwn (js "password") ≠ .str [] := by
  obtain ⟨same, given⟩ := passes.password
  constructor
  · rintro ⟨saved, -, password, here, complex, -⟩ empty
    obtain rfl : password = [] := JsVal.str.inj (here.symm.trans empty)
    obtain ⟨c, inside, -⟩ := complex.lower
    cases inside
  · intro notEmpty
    have asked : (readString (entity.get (js "password"))).isNil = false :=
      UsersService.update_forced forced lacks accepted
    rw [same] at asked
    rcases given with missing | ⟨password, here⟩
    · rw [missing] at asked
      cases asked
    · have long : password ≠ [] := by
        rintro rfl
        exact notEmpty here
      have new : entity.get (js "password") = .str password := same.trans here
      have read : (UpdateUserDto.of entity).password = .val password := readString_val.mpr new
      obtain ⟨-, tables⟩ := UsersService.update_ok accepted
      refine ⟨UsersService.updated cfg user (UpdateUserDto.of entity) abac salt now, ?_,
        password, here, passwordComplexityPipe_ok passes.complex new long,
        updated_secret.trans (setPassword_secret read long)⟩
      rw [tables, Tables.findUser_saveUser, UsersService.updated_id, if_pos rfl, stored]
      rfl

section Samples

def forcedUser : User := { sampleUser with forcePasswordChange := some true }

def forcedTables : Tables := { sampleTables with users := [forcedUser] }

def entityOf (body : JsVal) : JsVal := whitelist updateUserProperties body

def emptyBody : JsVal := .object
  [(js "password", .str []), (js "passwordConfirmation", .str []),
   (js "currentPassword", .str (js "aB1!cD2?eF3#gH4"))]

/-- A pipe that returns what it is given, and accepts it. -/
theorem eq_ok_of_accepts {ε : Type} {piped : Except ε JsVal} {value : JsVal}
    (same : ∀ out, piped = .ok out → out = value) (accepts : piped.toBool = true) :
    piped = .ok value := by
  cases piped with
  | error e => cases accepts
  | ok out => rw [same out rfl]

theorem forced_change_iff_sample : ∃ db' saved,
    UsersService.update sampleConfig forcedTables forcedUser
      (UpdateUserDto.of (entityOf sampleBody)) (createForUser forcedUser) 0 0 = .ok db' ∧
      db'.findUser 1 = some saved ∧ Replaced sampleConfig sampleBody 0 0 saved := by
  have passes : PassesPipes sampleConfig sampleBody (entityOf sampleBody) :=
    ⟨by rfl, by rfl,
      eq_ok_of_accepts (fun _ => passwordChangePipe_same) (by decide +kernel),
      eq_ok_of_accepts (fun _ => passwordComplexityPipe_same) (by decide +kernel)⟩
  cases accepted : UsersService.update sampleConfig forcedTables forcedUser
      (UpdateUserDto.of (entityOf sampleBody)) (createForUser forcedUser) 0 0 with
  | error e =>
      have returns : (UsersService.update sampleConfig forcedTables forcedUser
        (UpdateUserDto.of (entityOf sampleBody)) (createForUser forcedUser) 0 0).toBool = true := by
        decide +kernel
      rw [accepted] at returns
      cases returns
  | ok db' =>
      have different : sampleBody.getOwn (js "password") ≠ .str [] := by
        rintro ⟨⟩
      obtain ⟨saved, found, replaced⟩ := (forced_change_iff (by decide +kernel) rfl
        (by decide +kernel) passes accepted).mpr different
      exact ⟨db', saved, rfl, found, replaced⟩

/-- With the empty string the update is accepted, and the stored hash stays. -/
theorem forced_change_skipped :
    PassesPipes sampleConfig emptyBody (entityOf emptyBody) ∧
      (createForUser forcedUser).allows .skipForcePasswordChange forcedUser.target = false ∧
      ∃ db', UsersService.update sampleConfig forcedTables forcedUser
          (UpdateUserDto.of (entityOf emptyBody)) (createForUser forcedUser) 0 0 = .ok db' ∧
        db'.findUser 1 = some forcedUser ∧
        ¬ ∃ saved, db'.findUser 1 = some saved ∧ Replaced sampleConfig emptyBody 0 0 saved := by
  refine ⟨⟨by rfl, by rfl, by rfl, by rfl⟩, by decide +kernel, _, rfl, by decide +kernel, ?_⟩
  rintro ⟨saved, -, password, here, complex, -⟩
  obtain rfl : [] = password := JsVal.str.inj here
  obtain ⟨c, inside, -⟩ := complex.lower
  cases inside

end Samples
end Backend
