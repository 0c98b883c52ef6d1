import Heimdall.Backend.Isolation

/-!
# Authority over accounts

A call makes an account while registration is allowed or where an administrator sends it; it
changes or removes the account of its caller, or any account for an administrator.
-/
namespace Backend
open Js Casl

/-- What a call may do to accounts. -/
structure AccountAuthority (cfg : Config) (db : Tables) (call : Call) : Prop where
  created : ∀ u new, db.findUser u = none → (answer cfg db call).findUser u = some new →
    cfg.registrationAllowed = true ∨ ∃ admin, call.user db = some admin ∧ admin.isAdmin = true
  changed : ∀ u old, db.findUser u = some old → (answer cfg db call).findUser u ≠ some old →
    ∃ caller, call.user db = some caller ∧ (caller.isAdmin = true ∨ u = caller.id)

theorem UsersController.create_allowed {cfg : Config} {db db' : Tables} {request : Option User}
    {body : JsVal} {salt : ℕ} (h : UsersController.create cfg db request body salt = .ok db') :
    cfg.registrationAllowed = true ∨ ∃ admin, request = some admin ∧ admin.isAdmin = true := by
  simp only [UsersController.create, Lib.do_eq_ok] at h
  obtain ⟨entity, -, e₁, -, e₂, -, h⟩ := h
  obtain ⟨checked, -⟩ := Lib.when_eq_ok.mp h
  by_cases allowed : cfg.registrationAllowed = true
  · exact .inl allowed
  · have may := checked (by simpa using allowed)
    rw [Lib.ensure_eq_ok] at may
    cases request with
    | none =>
        rw [createForAnonymous_allows] at may
        cases may
    | some admin =>
        refine .inr ⟨admin, rfl, ?_⟩
        simpa using (allows_user_type admin .forceRegistration).mp may

/-- What an accepted call does to the accounts, with what was checked. -/
inductive AccountEffect (cfg : Config) (db : Tables) (caller : Option User) : Tables → Prop
  | none {db'} (same : db'.users = db.users) : AccountEffect cfg db caller db'
  | create (user : User) (allowed : cfg.registrationAllowed = true ∨
        ∃ admin, caller = some admin ∧ admin.isAdmin = true) :
      AccountEffect cfg db caller (db.insertUser user)
  | update (by' saved : User) (signedIn : caller = some by')
      (may : by'.isAdmin = true ∨ saved.id = by'.id) :
      AccountEffect cfg db caller (db.saveUser saved)
  | remove (by' : User) (id : ℕ) (signedIn : caller = some by')
      (may : by'.isAdmin = true ∨ id = by'.id) : AccountEffect cfg db caller (db.destroyUser id)

theorem handle_createUser (cfg : Config) (db : Tables) (token : Option ℕ) (body : JsVal)
    (salt now : ℕ) : handle cfg db ⟨token, .createUser body, salt, now⟩ =
      UsersController.create cfg db (token.bind db.findUser) body salt := by
  unfold handle Call.user
  cases token.bind db.findUser <;> rfl

theorem handle_signedIn {cfg : Config} {db db' : Tables} {call : Call}
    (accepted : handle cfg db call = .ok db') (noCreation : ∀ body, call.request ≠ .createUser body) :
    ∃ user, call.user db = some user ∧ handleAs cfg db user call = .ok db' := by
  unfold handle at accepted
  split at accepted
  · exact ⟨_, by assumption, accepted⟩
  · exact absurd (by assumption) (noCreation _)
  · cases accepted

theorem handle_account {cfg : Config} {db db' : Tables} {call : Call}
    (accepted : handle cfg db call = .ok db') : AccountEffect cfg db (call.user db) db' := by
  have effect := handle_effect accepted
  have permitted := handle_permitted accepted
  obtain ⟨token, request, salt, now⟩ := call
  cases request with
  | createUser body =>
      rw [handle_createUser] at accepted
      obtain ⟨user, -, rfl⟩ := UsersController.create_ok accepted
      exact .create user (UsersController.create_allowed accepted)
  | updateUser id body =>
      obtain ⟨caller, signedIn, accepted⟩ := handle_signedIn accepted (by rintro body ⟨⟩)
      obtain ⟨entity, old, -, -, -, -, found, -, done⟩ := UsersController.update_ok accepted
      obtain ⟨-, rfl⟩ := UsersService.update_ok done
      refine .update caller _ signedIn ?_
      rw [UsersService.updated_id, (Tables.findUser_some found).2]
      exact mayOnUser_cases (by decide) (permitted caller signedIn)
  | removeUser id body =>
      obtain ⟨caller, signedIn, accepted⟩ := handle_signedIn accepted (by rintro body ⟨⟩)
      obtain ⟨old, found, -, rfl⟩ := UsersController.remove_ok.mp accepted
      exact .remove caller id signedIn (mayOnUser_cases (by decide) (permitted caller signedIn))
  | createEvaluation dto data =>
      refine .none ?_
      generalize Call.user _ _ = caller at effect
      cases effect
      exact (addToGroups_frame _ _ _).1
  | _ =>
      refine .none ?_
      generalize Call.user _ _ = caller at effect
      cases effect
      rfl

theorem answer_account (cfg : Config) (db : Tables) (call : Call) :
    AccountEffect cfg db (call.user db) (answer cfg db call) := by
  unfold answer
  cases result : handle cfg db call with
  | error e => exact .none rfl
  | ok db' => exact handle_account result

/-- One call changes the accounts that its caller has authority over. -/
theorem accountAuthority_answer (cfg : Config) {db : Tables} (h : db.Consistent) (call : Call) :
    AccountAuthority cfg db call := by
  have effect := answer_account cfg db call
  refine ⟨fun u new absent there => ?_, fun u old known changed => ?_⟩
  · generalize answer cfg db call = db' at effect there
    cases effect with
    | none same =>
        rw [Tables.findUser, same, ← Tables.findUser, absent] at there
        cases there
    | create user allowed => exact allowed
    | update caller saved signedIn may =>
        rw [Tables.findUser_saveUser, absent] at there
        split at there <;> cases there
    | remove caller id signedIn may =>
        rw [Tables.findUser_destroyUser, absent] at there
        split at there <;> cases there
  · generalize answer cfg db call = db' at effect changed
    cases effect with
    | none same => exact absurd (by rw [Tables.findUser, same]; exact known) changed
    | create user allowed =>
        have older : u ≠ db.nextUser := by
          rintro rfl
          exact absurd (h.findUser_next.symm.trans known) (by simp)
        exact absurd (by rw [Tables.findUser_insertUser h, if_neg older, known]) changed
    | update caller saved signedIn may =>
        have here : u = saved.id := by
          by_contra other
          exact changed (by rw [Tables.findUser_saveUser, if_neg other, known])
        exact ⟨caller, signedIn, here ▸ may⟩
    | remove caller id signedIn may =>
        have here : u = id := by
          by_contra other
          exact changed (by rw [Tables.findUser_destroyUser, if_neg other, known])
        exact ⟨caller, signedIn, here ▸ may⟩

/-- `findOne({where: {email}})` -/
def UsersService.findByEmail (db : Tables) (email : JsString) : Except HttpError User :=
  Lib.orThrow (db.users.find? fun user => decide (user.email = email))
    (.notFound "User with given id not found")

end Backend
