import Mathlib.Data.List.Find
import Heimdall.Backend.Accounts

/-!
# Signing in

A login checks a password, an external login takes the word of a provider for an address;
both are answered with a signed token. A request carries a token, which is accepted until it
expires and stands for the account it names, as the tables hold it at that time. The
signature is not modelled: a token is accepted only if the server has signed it.
-/
namespace Backend
open Js Casl

/-- The payload of a token, with the second at which it expires. -/
structure Token where
  email : JsString
  sub : ℕ
  role : JsString
  forcePasswordChange : Option Bool
  exp : ℕ
  deriving DecidableEq

namespace AuthnService

/-- `none` for a wrong password; without an account the login is unauthorized. -/
def validateUser (cfg : Config) (db : Tables) (email password : JsString) :
    Except HttpError (Option User) :=
  match UsersService.findByEmail db email with
  | .ok user => .ok (if cfg.compare password user.encryptedPassword then some user else none)
  | .error _ => .error .unauthorized

def createUserDto (email firstName lastName creationMethod randomPass : JsString) :
    CreateUserDto where
  email := email
  password := randomPass
  firstName := .val firstName
  lastName := .val lastName
  organization := .val []
  title := .val []
  role := js "user"
  creationMethod := creationMethod

/-- The account under the address, which is created if there is none. The column of the
address takes nothing else. -/
def findOrCreate (cfg : Config) (db : Tables)
    (email firstName lastName creationMethod randomPass : JsString) (salt : ℕ) :
    Option (Tables × User) :=
  match UsersService.findByEmail db email with
  | .ok user => some (db, user)
  | .error _ => do
      guard (cfg.isEmail email = true)
      let created ← (UsersService.create cfg db
        (createUserDto email firstName lastName creationMethod randomPass) salt).toOption
      let user ← (UsersService.findByEmail created email).toOption
      return (created, user)

/-- The names of the provider are stored if they have changed. -/
def rename (db : Tables) (user : User) (firstName lastName : JsString) : Tables × User :=
  if user.firstName ≠ some firstName ∨ user.lastName ≠ some lastName then
    let renamed := { user with firstName := some firstName, lastName := some lastName }
    (db.saveUser renamed, renamed)
  else (db, user)

/-- `none` when it throws. -/
def validateOrCreateUser (cfg : Config) (db : Tables)
    (email firstName lastName creationMethod randomPass : JsString) (salt : ℕ) :
    Option (Tables × User) :=
  (findOrCreate cfg db email firstName lastName creationMethod randomPass salt).map
    fun (db, user) => rename db user firstName lastName

/-- How long a token is valid: ten minutes for an account that must change its password. -/
def lifetime (expireTime : ℕ) (user : User) : ℕ :=
  if user.forcePasswordChange = some true then 600 else expireTime

def login (expireTime now : ℕ) (user : User) : Token where
  email := user.email
  sub := user.id
  role := user.role
  forcePasswordChange := user.forcePasswordChange
  exp := now + lifetime expireTime user

end AuthnService

/-- The server with the tokens that it has signed and the clock in seconds. -/
structure Sessions where
  tables : Tables
  tokens : List Token
  now : ℕ

inductive SessionEvent where
  | wait (seconds : ℕ)
  | login (email password : JsString)
  | external (email firstName lastName creationMethod randomPass : JsString) (salt : ℕ)
  | call (bearer : Option Token) (request : Request) (salt : ℕ)

namespace Sessions
variable (cfg : Config) (expireTime : ℕ) (s : Sessions)

/-- The subject of the token, if the server accepts it. -/
def subject (bearer : Option Token) : Option ℕ :=
  bearer.bind fun token => if token ∈ s.tokens ∧ s.now < token.exp then some token.sub else none

/-- The account that a request is carried out for. -/
def caller (bearer : Option Token) : Option User := (s.subject bearer).bind s.tables.findUser

def signIn (db : Tables) (user : User) : Sessions :=
  { s with tables := db, tokens := AuthnService.login expireTime s.now user :: s.tokens }

def step : SessionEvent → Sessions
  | .wait seconds => { s with now := s.now + seconds }
  | .login email password =>
      match AuthnService.validateUser cfg s.tables email password with
      | .ok (some user) => s.signIn expireTime s.tables user
      | _ => s
  | .external email firstName lastName creationMethod randomPass salt =>
      match AuthnService.validateOrCreateUser cfg s.tables email firstName lastName creationMethod
        randomPass salt with
      | some (db, user) => s.signIn expireTime db user
      | none => s
  | .call bearer request salt =>
      { s with tables := answer cfg s.tables ⟨s.subject bearer, request, salt, s.now⟩ }

/-- The event shows who sends it: the password of the account under the address is given, or
a provider has vouched for the address. -/
def Shows (event : SessionEvent) (user : User) : Prop :=
  match event with
  | .login email password => UsersService.findByEmail s.tables email = .ok user ∧
      cfg.compare password user.encryptedPassword = true
  | .external email _ _ _ _ _ =>
      UsersService.findByEmail (s.step cfg expireTime event).tables email = .ok user
  | _ => False

end Sessions

/-! What a sign-in does to the tables. -/

theorem findByEmail_ok {db : Tables} {email : JsString} {user : User}
    (found : UsersService.findByEmail db email = .ok user) :
    user ∈ db.users ∧ user.email = email := by
  rw [UsersService.findByEmail, Lib.orThrow_eq_ok] at found
  have named := List.find?_some found
  exact ⟨List.mem_of_find?_eq_some found, of_decide_eq_true named⟩

/-- A row that keeps its key and its address is found under it. -/
theorem findByEmail_saveUser {db : Tables} (h : db.Consistent) {email : JsString}
    {user saved : User} (found : UsersService.findByEmail db email = .ok user)
    (id : saved.id = user.id) (address : saved.email = user.email) :
    UsersService.findByEmail (db.saveUser saved) email = .ok saved := by
  obtain ⟨here, named⟩ := findByEmail_ok found
  rw [UsersService.findByEmail, Lib.orThrow_eq_ok] at found ⊢
  change List.find? _ (List.map _ db.users) = _
  have same : ∀ row ∈ db.users,
      decide ((if row.id = saved.id then saved else row).email = email) =
        decide (row.email = email) := by
    intro row mem
    split
    · rename_i mine
      have identical : row = user := by
        have first := Lib.pick_of_mem h.userKeys.nodup mem
        have second := Lib.pick_of_mem h.userKeys.nodup here
        rw [mine, id, second] at first
        exact (Option.some.inj first).symm
      rw [identical, address]
    · rfl
  rw [List.find?_map, Function.comp_def, List.find?_congr same, found, Option.map_some,
    if_pos id.symm]

namespace AuthnService
variable {cfg : Config} {db db' : Tables} {user : User}
  {email firstName lastName creationMethod randomPass : JsString} {salt : ℕ}

theorem findOrCreate_some
    (done : findOrCreate cfg db email firstName lastName creationMethod randomPass salt =
      some (db', user)) :
    UsersService.findByEmail db' email = .ok user ∧
      (db' = db ∨ ∃ created : User, created.email = email ∧ created.role = js "user" ∧
        db' = db.insertUser created) := by
  unfold findOrCreate at done
  split at done
  · cases done
    exact ⟨by assumption, .inl rfl⟩
  · obtain ⟨-, -, rest⟩ := Option.bind_eq_some_iff.mp done
    obtain ⟨created, stored, rest⟩ := Option.bind_eq_some_iff.mp rest
    obtain ⟨found, known, ⟨⟩⟩ := Option.bind_eq_some_iff.mp rest
    obtain ⟨account, address, role, rfl⟩ := UsersService.create_ok (Lib.toOption_eq_some.mp stored)
    exact ⟨Lib.toOption_eq_some.mp known, .inr ⟨account, address, role, rfl⟩⟩

theorem rename_cases (db : Tables) (user : User) (firstName lastName : JsString) :
    rename db user firstName lastName = (db, user) ∨
      ∃ renamed : User,
        renamed = { user with firstName := some firstName, lastName := some lastName } ∧
        rename db user firstName lastName = (db.saveUser renamed, renamed) := by
  unfold rename
  split
  · exact .inr ⟨_, rfl, rfl⟩
  · exact .inl rfl

/-- An external login creates an account, or not, and then renames the account, or not. The
account is the one under the address. -/
theorem validateOrCreateUser_some (h : db.Consistent)
    (done : validateOrCreateUser cfg db email firstName lastName creationMethod randomPass salt =
      some (db', user)) :
    UsersService.findByEmail db' email = .ok user ∧
    ∃ between found, between.Consistent ∧ UsersService.findByEmail between email = .ok found ∧
      (between = db ∨ ∃ created : User, created.email = email ∧ created.role = js "user" ∧
        between = db.insertUser created) ∧
      (user = found ∧ db' = between ∨
        user = { found with firstName := some firstName, lastName := some lastName } ∧
          db' = between.saveUser user) := by
  obtain ⟨⟨between, found⟩, made, renamed⟩ := Option.map_eq_some_iff.mp done
  obtain ⟨known, created⟩ := findOrCreate_some made
  have good : between.Consistent := by
    rcases created with rfl | ⟨created, -, -, rfl⟩
    · exact h
    · exact h.insertUser created
  rcases rename_cases between found firstName lastName with same | ⟨saved, rfl, result⟩
  · cases same.symm.trans renamed
    exact ⟨known, db', user, good, known, created, .inl ⟨rfl, rfl⟩⟩
  · cases result.symm.trans renamed
    exact ⟨findByEmail_saveUser good known rfl rfl, between, found, good, known, created,
      .inr ⟨rfl, rfl⟩⟩

variable {u : ℕ}

/-- An account that is new has the address and the role `user`. -/
theorem validateOrCreateUser_created (h : db.Consistent)
    (done : validateOrCreateUser cfg db email firstName lastName creationMethod randomPass salt =
      some (db', user)) {new : User} (absent : db.findUser u = none)
    (there : db'.findUser u = some new) : new.email = email ∧ new.role = js "user" := by
  obtain ⟨-, between, found, good, known, created, renamed⟩ := validateOrCreateUser_some h done
  obtain ⟨listed, rfl⟩ := findByEmail_ok known
  have fresh : ∀ account, between.findUser u = some account →
      account.email = found.email ∧ account.role = js "user" := by
    intro account present
    rcases created with rfl | ⟨made, address, role, rfl⟩
    · rw [absent] at present
      cases present
    · rw [Tables.findUser_insertUser h, absent] at present
      split at present <;> cases present
      exact ⟨address, role⟩
  rcases renamed with ⟨-, rfl⟩ | ⟨rfl, rfl⟩
  · exact fresh new there
  · rw [Tables.findUser_saveUser] at there
    split at there
    · rename_i own
      obtain ⟨-, -, rfl⟩ := Option.map_eq_some_iff.mp there
      exact fresh found (own ▸ Lib.pick_of_mem good.userKeys.nodup listed)
    · exact fresh new there

/-- An account that changes has the address, and gets the names. -/
theorem validateOrCreateUser_changed (h : db.Consistent)
    (done : validateOrCreateUser cfg db email firstName lastName creationMethod randomPass salt =
      some (db', user)) {old : User} (here : db.findUser u = some old)
    (changed : db'.findUser u ≠ some old) : old.email = email ∧
      db'.findUser u = some { old with firstName := some firstName, lastName := some lastName } := by
  obtain ⟨-, between, found, good, known, created, renamed⟩ := validateOrCreateUser_some h done
  obtain ⟨listed, rfl⟩ := findByEmail_ok known
  have stored : between.findUser found.id = some found :=
    Lib.pick_of_mem good.userKeys.nodup listed
  have kept : between.findUser u = some old := by
    rcases created with rfl | ⟨made, -, -, rfl⟩
    · exact here
    · have older : u ≠ db.nextUser := by
        rintro rfl
        exact absurd (h.findUser_next.symm.trans here) (by simp)
      rw [Tables.findUser_insertUser h, if_neg older, here]
  rcases renamed with ⟨-, rfl⟩ | ⟨rfl, rfl⟩
  · exact absurd kept changed
  · have own : u = found.id := by
      by_contra other
      exact changed (by rw [Tables.findUser_saveUser, if_neg other, kept])
    subst own
    obtain rfl : found = old := Option.some.inj (stored.symm.trans kept)
    refine ⟨rfl, ?_⟩
    rw [Tables.findUser_saveUser, if_pos rfl, kept]
    rfl

end AuthnService

/-- Accounts are not brought back: their keys are given out once. -/
structure Tables.Continues (db db' : Tables) : Prop where
  next : db.nextUser ≤ db'.nextUser
  gone : ∀ u < db.nextUser, db.findUser u = none → db'.findUser u = none

namespace Tables.Continues
variable {db db' db'' : Tables}

theorem refl (db : Tables) : db.Continues db := ⟨Nat.le_refl _, fun _ _ absent => absent⟩

theorem trans (first : db.Continues db') (second : db'.Continues db'') : db.Continues db'' where
  next := first.next.trans second.next
  gone u old absent := second.gone u (old.trans_le first.next) (first.gone u old absent)

theorem of_same (users : db'.users = db.users) (next : db'.nextUser = db.nextUser) :
    db.Continues db' where
  next := next.ge
  gone u _ absent := by rwa [Tables.findUser, users]

theorem insertUser (h : db.Consistent) (user : User) : db.Continues (db.insertUser user) where
  next := Nat.le_succ _
  gone u old absent := by rw [findUser_insertUser h, if_neg old.ne, absent]

theorem saveUser (user : User) : db.Continues (db.saveUser user) where
  next := Nat.le_refl _
  gone u _ absent := by rw [findUser_saveUser, absent, Option.map_none, ite_self]

theorem destroyUser (id : ℕ) : db.Continues (db.destroyUser id) where
  next := Nat.le_refl _
  gone u _ absent := by rw [findUser_destroyUser, absent, ite_self]

end Tables.Continues

theorem addToGroups_nextUser (db : Tables) (groups : List LoadedGroup) (e : ℕ) :
    (addToGroups db groups e).nextUser = db.nextUser := by
  induction groups generalizing db with
  | nil => rfl
  | cons g groups ih => exact ih (db.addEvaluation g.group.id e)

theorem Effect.continues {cfg : Config} {db db' : Tables} {caller : Option User}
    {request : Request} (effect : Effect cfg db caller request db') (h : db.Consistent) :
    db.Continues db' := by
  cases effect with
  | createUser user role => exact .insertUser h user
  | updateUser user saved found same role => exact .saveUser saved
  | removeUser user found may => exact .destroyUser _
  | createEvaluation groups loaded =>
      exact .of_same (addToGroups_frame _ _ _).1 (addToGroups_nextUser _ _ _)
  | _ => exact .of_same rfl rfl

namespace Sessions
variable {cfg : Config} {expireTime : ℕ} {s : Sessions}

theorem step_consistent (h : s.tables.Consistent) (event : SessionEvent) :
    (s.step cfg expireTime event).tables.Consistent ∧
      s.tables.Continues (s.step cfg expireTime event).tables := by
  cases event with
  | wait seconds => exact ⟨h, .refl _⟩
  | login email password =>
      simp only [step]
      split <;> exact ⟨h, .refl _⟩
  | external email firstName lastName creationMethod randomPass salt =>
      simp only [step]
      split
      · rename_i db user done
        obtain ⟨-, between, found, good, -, created, renamed⟩ :=
          AuthnService.validateOrCreateUser_some h done
        have first : s.tables.Continues between := by
          rcases created with rfl | ⟨created, -, -, rfl⟩
          · exact .refl _
          · exact .insertUser h created
        rcases renamed with ⟨-, rfl⟩ | ⟨-, rfl⟩
        · exact ⟨good, first⟩
        · exact ⟨good.saveUser _, first.trans (.saveUser _)⟩
      · exact ⟨h, .refl _⟩
  | call bearer request salt =>
      refine ⟨answer_consistent h _, ?_⟩
      simp only [step]
      rcases answer_cases cfg s.tables ⟨s.subject bearer, request, salt, s.now⟩ with same | effect
      · rw [same]
        exact .refl _
      · exact effect.continues h

/-- A token is signed for the account that the event shows. -/
theorem token_step (h : s.tables.Consistent) {event : SessionEvent} {token : Token}
    (here : token ∈ (s.step cfg expireTime event).tokens) :
    token ∈ s.tokens ∨ ∃ user, s.Shows cfg expireTime event user ∧
      user ∈ (s.step cfg expireTime event).tables.users ∧
      token = AuthnService.login expireTime s.now user := by
  cases event with
  | wait seconds => exact .inl here
  | login email password =>
      simp only [step] at here ⊢
      split at here
      · rename_i user valid
        unfold AuthnService.validateUser at valid
        split at valid
        · rename_i found
          obtain ⟨known, -⟩ := findByEmail_ok found
          split at valid
          · rename_i matched
            cases valid
            rcases List.mem_cons.mp here with rfl | before
            · exact .inr ⟨_, ⟨found, matched⟩, known, rfl⟩
            · exact .inl before
          · cases valid
        · cases valid
      · exact .inl here
  | external email firstName lastName creationMethod randomPass salt =>
      have shows : ∀ user, s.Shows cfg expireTime
          (.external email firstName lastName creationMethod randomPass salt) user ↔
          UsersService.findByEmail (s.step cfg expireTime
            (.external email firstName lastName creationMethod randomPass salt)).tables email =
              .ok user := fun _ => Iff.rfl
      simp only [shows]
      simp only [step] at here ⊢
      split at here
      · rename_i db user done
        rcases List.mem_cons.mp here with rfl | before
        · obtain ⟨stored, -⟩ := AuthnService.validateOrCreateUser_some h done
          exact .inr ⟨user, stored, (findByEmail_ok stored).1, rfl⟩
        · exact .inl before
      · exact .inl here
  | call bearer request salt => exact .inl here

theorem subject_some {bearer : Option Token} {u : ℕ} (accepted : s.subject bearer = some u) :
    ∃ token, bearer = some token ∧ token ∈ s.tokens ∧ s.now < token.exp ∧ token.sub = u := by
  obtain ⟨token, given, valid⟩ := Option.bind_eq_some_iff.mp accepted
  split at valid
  · rename_i checks
    exact ⟨token, given, checks.1, checks.2, Option.some.inj valid⟩
  · cases valid

/-- What an event may do to accounts: a request as the account it is carried out for may, and an
external login only to the account under the address that the provider vouches for. -/
structure AccountsGuarded (cfg : Config) (expireTime : ℕ) (s : Sessions) (event : SessionEvent) :
    Prop where
  created : ∀ u new, s.tables.findUser u = none →
    (s.step cfg expireTime event).tables.findUser u = some new →
    (∃ bearer request salt, event = .call bearer request salt ∧
      (cfg.registrationAllowed = true ∨
        ∃ admin, s.caller bearer = some admin ∧ admin.isAdmin = true)) ∨
    ∃ firstName lastName creationMethod randomPass salt,
      event = .external new.email firstName lastName creationMethod randomPass salt ∧
      new.role = js "user"
  changed : ∀ u old, s.tables.findUser u = some old →
    (s.step cfg expireTime event).tables.findUser u ≠ some old →
    (∃ bearer request salt caller, event = .call bearer request salt ∧
      s.caller bearer = some caller ∧ (caller.isAdmin = true ∨ u = caller.id)) ∨
    ∃ firstName lastName creationMethod randomPass salt,
      event = .external old.email firstName lastName creationMethod randomPass salt ∧
      (s.step cfg expireTime event).tables.findUser u =
        some { old with firstName := some firstName, lastName := some lastName }

theorem accountsGuarded_of_same {event : SessionEvent}
    (same : (s.step cfg expireTime event).tables = s.tables) :
    AccountsGuarded cfg expireTime s event where
  created u new absent there := by
    rw [same, absent] at there
    cases there
  changed u old known changed := absurd (by rw [same, known]) changed

theorem accountsGuarded_external (h : s.tables.Consistent)
    (email firstName lastName creationMethod randomPass : JsString) (salt : ℕ) :
    AccountsGuarded cfg expireTime s
      (.external email firstName lastName creationMethod randomPass salt) := by
  cases done : AuthnService.validateOrCreateUser cfg s.tables email firstName lastName
      creationMethod randomPass salt with
  | none => exact accountsGuarded_of_same (by simp only [step, done])
  | some result =>
      obtain ⟨db, user⟩ := result
      have after : (s.step cfg expireTime
          (.external email firstName lastName creationMethod randomPass salt)).tables = db := by
        simp only [step, done]
        rfl
      refine ⟨fun u new absent there => .inr ?_, fun u old here changed => .inr ?_⟩
      · rw [after] at there
        obtain ⟨rfl, role⟩ := AuthnService.validateOrCreateUser_created h done absent there
        exact ⟨firstName, lastName, creationMethod, randomPass, salt, rfl, role⟩
      · rw [after] at changed ⊢
        obtain ⟨rfl, renamed⟩ := AuthnService.validateOrCreateUser_changed h done here changed
        exact ⟨firstName, lastName, creationMethod, randomPass, salt, rfl, renamed⟩

theorem accountsGuarded_step (h : s.tables.Consistent) (event : SessionEvent) :
    AccountsGuarded cfg expireTime s event := by
  cases event with
  | wait seconds => exact accountsGuarded_of_same rfl
  | login email password =>
      refine accountsGuarded_of_same ?_
      simp only [step]
      split <;> rfl
  | external email firstName lastName creationMethod randomPass salt =>
      exact accountsGuarded_external h email firstName lastName creationMethod randomPass salt
  | call bearer request salt =>
      obtain ⟨created, changed⟩ := accountAuthority_answer cfg h
        ⟨s.subject bearer, request, salt, s.now⟩
      refine ⟨fun u new absent there => .inl ?_, fun u old known differs => .inl ?_⟩
      · exact ⟨bearer, request, salt, rfl, created u new absent there⟩
      · obtain ⟨caller, signedIn, may⟩ := changed u old known differs
        exact ⟨bearer, request, salt, caller, rfl, signedIn, may⟩

/-- Along every run of requests, sign-ins and time. -/
theorem accountAuthority_run (h : s.tables.Consistent) (events : List SessionEvent) :
    Lib.Along (step cfg expireTime) (AccountsGuarded cfg expireTime) s events :=
  (Lib.along_of_invariant (A := fun now : Sessions => now.tables.Consistent)
    (fun _ event good _ => (step_consistent good event).1)
    (fun _ event good _ => accountsGuarded_step good event) h
    (Lib.along_of_step (fun _ _ => trivial) s events)).1

/-- A request is carried out for an account only after an event of the same run has shown that
account, at most the lifetime of its token ago, and the account has existed ever since. -/
theorem agreement_run (h : s.tables.Consistent) (start : s.tokens = [])
    (events : List SessionEvent) {bearer : Option Token} {user : User}
    (caller : (Lib.run (step cfg expireTime) s events).caller bearer = some user) :
    ∃ first event rest shown, events = first ++ event :: rest ∧
      let before := Lib.run (step cfg expireTime) s first
      before.Shows cfg expireTime event shown ∧ shown.id = user.id ∧
      (Lib.run (step cfg expireTime) s events).now <
        before.now + AuthnService.lifetime expireTime shown ∧
      Lib.Throughout (step cfg expireTime)
        (fun now => ∃ account, now.tables.findUser user.id = some account)
        (before.step cfg expireTime event) rest := by
  obtain ⟨u, accepted, stored⟩ := Option.bind_eq_some_iff.mp caller
  obtain ⟨token, -, signed, valid, rfl⟩ := subject_some accepted
  have keeps : ∀ (now : Sessions) event, now.tables.Consistent →
      (now.step cfg expireTime event).tables.Consistent :=
    fun now event good => (step_consistent good event).1
  have signs := @Lib.run_origin _ _ (step cfg expireTime) _
    (fun now => now.tables.Consistent) Sessions.tokens _ keeps
    (fun now event token good => token_step good) s h _ _ signed
  rw [start] at signs
  rcases signs with ⟨⟨⟩⟩ | ⟨first, event, rest, rfl, shown, shows, known, rfl⟩
  have id : user.id = shown.id := (Tables.findUser_some stored).2
  rw [id]
  refine ⟨first, event, rest, shown, rfl, shows, rfl, valid, ?_⟩
  rw [Lib.run_append] at stored
  have good := keeps _ event (Lib.run_invariant keeps h first)
  -- the key was given out when the event showed the account
  refine Lib.throughout_of_last (A := fun now : Sessions =>
    now.tables.Consistent ∧ shown.id < now.tables.nextUser) (fun now event inv => ?_)
    (fun now event inv exists' => ?_) ⟨good, ?_⟩ ⟨user, stored⟩
  · obtain ⟨next, continues⟩ := @step_consistent cfg expireTime now inv.1 event
    exact ⟨next, inv.2.trans_le continues.next⟩
  · obtain ⟨-, continues⟩ := @step_consistent cfg expireTime now inv.1 event
    cases absent : now.tables.findUser shown.id with
    | some account => exact ⟨account, rfl⟩
    | none =>
        obtain ⟨account, present⟩ := exists'
        rw [continues.gone _ inv.2 absent] at present
        cases present
  · exact good.userKeys.below _ (List.mem_map_of_mem known)

/-- A registration, and a login with the password. -/
def sampleSignIn : List SessionEvent :=
  [.call none (sampleRegistration "a@example.com").request 0,
   .login (js "a@example.com") (js "aB1!cD2?eF3#gH4")]

/-- The account is renamed by a provider, which makes another one for another address. -/
theorem accountAuthority_run_sample :
    Lib.Along (step sampleConfig 60) (AccountsGuarded sampleConfig 60) ⟨Tables.empty, [], 0⟩
      (sampleSignIn ++ [.external (js "a@example.com") (js "A") (js "B") (js "ldap") [] 0,
        .external (js "c@example.com") (js "C") (js "D") (js "ldap") [] 0]) :=
  accountAuthority_run Tables.empty_consistent _

def sampleToken (email : String) (sub : ℕ) : Token := ⟨js email, sub, js "user", none, 60⟩

theorem agreement_run_sample : ∃ user,
    (Lib.run (step sampleConfig 60) ⟨Tables.empty, [], 0⟩ sampleSignIn).caller
      (some (sampleToken "a@example.com" 1)) = some user ∧
    ∃ first event rest shown, sampleSignIn = first ++ event :: rest ∧
      let before := Lib.run (step sampleConfig 60) ⟨Tables.empty, [], 0⟩ first
      before.Shows sampleConfig 60 event shown ∧ shown.id = user.id ∧
      (Lib.run (step sampleConfig 60) ⟨Tables.empty, [], 0⟩ sampleSignIn).now <
        before.now + AuthnService.lifetime 60 shown ∧
      Lib.Throughout (step sampleConfig 60)
        (fun now => ∃ account, now.tables.findUser user.id = some account)
        (before.step sampleConfig 60 event) rest := by
  have accepted : ((Lib.run (step sampleConfig 60) ⟨Tables.empty, [], 0⟩ sampleSignIn).caller
      (some (sampleToken "a@example.com" 1))).isSome = true := by decide +kernel
  obtain ⟨user, caller⟩ := Option.isSome_iff_exists.mp accepted
  exact ⟨user, caller, agreement_run Tables.empty_consistent rfl sampleSignIn caller⟩

/-- An event that shows no reader of a private evaluation leaves it alone and gives nobody access
to it. -/
theorem outsider_step {e : ℕ} {loaded : LoadedEvaluation} (h : s.tables.Consistent)
    (found : s.tables.loadEvaluation e = some loaded)
    (hidden : loaded.evaluation.isPublic = false) {event : SessionEvent}
    (tokens : ∀ token ∈ s.tokens, ¬ s.tables.May .read token.sub e)
    (outside : ∀ user, s.Shows cfg expireTime event user → ¬ s.tables.May .read user.id e) :
    (s.step cfg expireTime event).tables.loadEvaluation e = some loaded ∧
      ∀ u, (s.step cfg expireTime event).tables.May .read u e → s.tables.May .read u e := by
  have onlyBefore : ∀ {db db' : Tables}, (db'.loadEvaluation e = some loaded ∧
      ∀ u, db'.May .read u e → db.May .read u e ∨
        (db.findUser u = none ∧ loaded.evaluation.isPublic = true)) →
      db'.loadEvaluation e = some loaded ∧ ∀ u, db'.May .read u e → db.May .read u e := by
    rintro db db' ⟨kept, readers⟩
    refine ⟨kept, fun u may => (readers u may).resolve_right ?_⟩
    rintro ⟨-, isPublic⟩
    rw [hidden] at isPublic
    cases isPublic
  cases event with
  | wait seconds => exact ⟨found, fun u may => may⟩
  | login email password =>
      simp only [step]
      split <;> exact ⟨found, fun u may => may⟩
  | external email firstName lastName creationMethod randomPass salt =>
      have shows := outside
      simp only [Shows, step] at shows
      simp only [step]
      split
      · rename_i db user done
        rw [done] at shows
        obtain ⟨stored, between, account, good, known, created, renamed⟩ :=
          AuthnService.validateOrCreateUser_some h done
        have first : between.loadEvaluation e = some loaded ∧
            ∀ u, between.May .read u e → s.tables.May .read u e := by
          rcases created with rfl | ⟨created, -, role, rfl⟩
          · exact ⟨found, fun u may => may⟩
          · exact onlyBefore (outside_effect h
              (@Effect.createUser cfg s.tables none .null created role)
              (by rintro user ⟨⟩) (by rintro user ⟨⟩) found (by rintro user ⟨⟩))
        rcases renamed with ⟨-, rfl⟩ | ⟨saved, rfl⟩
        · exact first
        · have id : user.id = account.id := by rw [saved]
          have role : user.role = account.role := by rw [saved]
          have known : between.findUser account.id = some account :=
            Lib.pick_of_mem good.userKeys.nodup (findByEmail_ok known).1
          have self : MayOnUser between account .update account.id :=
            ⟨account, known, (allows_user account account .update).mpr (by simp)⟩
          have second := onlyBefore (outside_effect good
            (@Effect.updateUser cfg between account account.id .null account user known id
              (.inl role))
            (fun user same => by cases same; exact known)
            (fun user same => by cases same; exact self) first.1
            (fun reader same may => by
              cases same
              exact shows user stored (id ▸ first.2 _ may)))
          exact ⟨second.1, fun u may => first.2 u (second.2 u may)⟩
      · exact ⟨found, fun u may => may⟩
  | call bearer request salt =>
      refine onlyBefore (outside_answer cfg h found fun user signedIn => ?_)
      obtain ⟨u, accepted, known⟩ := Option.bind_eq_some_iff.mp signedIn
      obtain ⟨token, -, signed, -, rfl⟩ := subject_some accepted
      rw [(Tables.findUser_some known).2]
      exact tokens token signed

/-- Unless somebody shows to be a reader of a private evaluation, no run changes it or adds a
reader, whatever requests are sent and whoever signs in. -/
theorem credentials_run (h : s.tables.Consistent) {e : ℕ} {loaded : LoadedEvaluation}
    (found : s.tables.loadEvaluation e = some loaded)
    (hidden : loaded.evaluation.isPublic = false)
    (tokens : ∀ token ∈ s.tokens, ¬ s.tables.May .read token.sub e) {events : List SessionEvent}
    (outsiders : Lib.Along (step cfg expireTime) (fun now event => ∀ user,
      now.Shows cfg expireTime event user → ¬ s.tables.May .read user.id e) s events) :
    Lib.Throughout (step cfg expireTime) (fun now => now.tables.loadEvaluation e = some loaded ∧
      ∀ u, now.tables.May .read u e → s.tables.May .read u e) s events := by
  refine Lib.Throughout.of_invariant (A := fun now : Sessions => now.tables.Consistent ∧
      (∀ token ∈ now.tokens, ¬ s.tables.May .read token.sub e) ∧
      now.tables.loadEvaluation e = some loaded ∧
      ∀ u, now.tables.May .read u e → s.tables.May .read u e)
    (fun now event inv shows => ?_) (fun _ inv => inv.2.2) ⟨h, tokens, found, fun _ may => may⟩
    outsiders
  obtain ⟨good, tokens, found, readers⟩ := inv
  obtain ⟨kept, after⟩ := @outsider_step cfg expireTime now e loaded good found hidden event
    (fun token signed may => tokens token signed (readers _ may))
    (fun user shown may => shows user shown (readers _ may))
  refine ⟨(step_consistent good event).1, fun token signed => ?_, kept,
    fun u may => readers u (after u may)⟩
  rcases token_step good signed with before | ⟨user, shown, -, rfl⟩
  · exact tokens token before
  · exact shows user shown

/-- User 2 signs in, somebody guesses the password of user 1, and user 2 tries to take the
evaluation of user 1. -/
def sampleIntrusion : List SessionEvent :=
  [.login (js "b@example.com") (js "aB1!cD2?eF3#gH4"), .login (js "a@example.com") (js "guess"),
   .call (some (sampleToken "b@example.com" 2)) (.addEvaluationToGroup 1 ⟨1⟩) 0]

theorem credentials_run_sample : ∃ loaded,
    samplePrivate.tables.loadEvaluation 1 = some loaded ∧
    Lib.Throughout (step sampleConfig 60)
      (fun now => now.tables.loadEvaluation 1 = some loaded ∧
        ∀ u, now.tables.May .read u 1 → samplePrivate.tables.May .read u 1)
      ⟨samplePrivate.tables, [], 0⟩ sampleIntrusion := by
  have loads : (samplePrivate.tables.loadEvaluation 1).map (fun e => e.evaluation.isPublic) =
      some false := by decide +kernel
  obtain ⟨loaded, found, hidden⟩ := Option.map_eq_some_iff.mp loads
  have denied : samplePrivate.tables.can .read 2 1 = false := by decide +kernel
  have second : ((UsersService.findByEmail samplePrivate.tables (js "b@example.com")).map
      User.id).toOption = some 2 := by decide +kernel
  have first : ((UsersService.findByEmail samplePrivate.tables (js "a@example.com")).map
      fun user => sampleConfig.compare (js "guess") user.encryptedPassword).toOption =
        some false := by decide +kernel
  refine ⟨loaded, found, @credentials_run sampleConfig 60 ⟨samplePrivate.tables, [], 0⟩
    samplePrivate.consistent 1 loaded found hidden (by rintro token ⟨⟩) sampleIntrusion ?_⟩
  refine ⟨?_, ?_, ?_, trivial⟩
  · rintro user ⟨known, -⟩ may
    rw [known] at second
    rw [show user.id = 2 from Option.some.inj second] at may
    exact absurd (denied.symm.trans may) (by decide)
  · rintro user ⟨known, matched⟩ may
    have same : (step sampleConfig 60 ⟨samplePrivate.tables, [], 0⟩
        (.login (js "b@example.com") (js "aB1!cD2?eF3#gH4"))).tables = samplePrivate.tables := by
      simp only [step]
      split <;> rfl
    rw [same] at known
    rw [known] at first
    exact absurd (matched.symm.trans (Option.some.inj first)) (by decide)
  · rintro user ⟨⟩

end Sessions
end Backend
