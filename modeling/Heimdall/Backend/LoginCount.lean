import Heimdall.Lib.Interleaving
import Heimdall.Lib.Run
import Heimdall.Backend.PasswordPolicy

/-!
# Counting logins

A login loads the row of its user, raises the count of the copy and saves the copy, without
a transaction. The logins with one address are processes that share that row; a save writes
the columns of the copy that have changed.
-/
namespace Backend
open Js

/-- The row of a user, with the columns that only logins write. -/
structure Account where
  user : User
  lastLogin : Option ℕ
  loginCount : ℕ

inductive Login where
  | password (password : JsString)
  | external (firstName lastName creationMethod : JsString)

/-- A login, with what the clock, the random numbers and the database add to it.
`metadataFirst` is the order in which two saves that wait together reach the database. -/
structure Attempt where
  login : Login
  email : JsString
  now : ℕ
  randomPass : JsString
  salt : ℕ
  newId : ℕ
  metadataFirst : Bool

/-- The saves of a copy that the database has not carried out. -/
inductive Pending where
  | both
  | names
  | metadata

/-- `loaded` waits for the comparison of the password; `unknown` and `created` are the two
waits of an external login whose address was not found. -/
inductive LoginPhase where
  | received
  | unknown
  | created
  | loaded (user : Account)
  | saving (user : Account) (renamed : Bool) (pending : Pending)
  | finished (success : Bool)

namespace UsersService

/-- The changes that `updateLoginMetadata` makes before it saves. -/
def updateLoginMetadata (now : ℕ) (user : Account) : Account :=
  { user with lastLogin := some now, loginCount := user.loginCount + 1 }

end UsersService

namespace Account

def rename (firstName lastName : JsString) (copy : Account) : Account :=
  { copy with user := { copy.user with firstName := some firstName, lastName := some lastName } }

def saveNames (copy row : Account) : Account :=
  { row with
    user := { row.user with firstName := copy.user.firstName, lastName := copy.user.lastName } }

/-- The save of the login; names that were not saved when it was called are written too. -/
def saveMetadata (copy : Account) (renamed : Bool) (row : Account) : Account :=
  { (if renamed then copy.saveNames row else row) with
    lastLogin := copy.lastLogin, loginCount := copy.loginCount }

end Account

namespace AuthnService
variable (cfg : Config)

/-- The row that an external login inserts for a new address. -/
def newAccount (a : Attempt) (firstName lastName creationMethod : JsString) : Account where
  user :=
    { id := a.newId
      email := a.email
      firstName := UsersService.orUndefined (.val firstName)
      lastName := UsersService.orUndefined (.val lastName)
      title := UsersService.orUndefined (.val [])
      organization := UsersService.orUndefined (.val [])
      role := js "user"
      creationMethod := creationMethod
      encryptedPassword := cfg.hash a.randomPass a.salt
      forcePasswordChange := none
      passwordChangedAt := none }
  lastLogin := none
  loginCount := 0

/-- The end of `validateOrCreateUser`: new names and the login are saved together. -/
def recordLogin (a : Attempt) (firstName lastName : JsString) (user : Account) : LoginPhase :=
  if user.user.firstName ≠ some firstName ∨ user.user.lastName ≠ some lastName then
    .saving (UsersService.updateLoginMetadata a.now (user.rename firstName lastName)) true .both
  else .saving (UsersService.updateLoginMetadata a.now user) false .metadata

/-- The answer to `findByEmail`. -/
def found (a : Attempt) (user : Account) : LoginPhase :=
  match a.login with
  | .password _ => .loaded user
  | .external firstName lastName _ => recordLogin a firstName lastName user

/-- One awaited step of `validateUser` or `validateOrCreateUser`, or of a save that they
started; a login that throws is finished without success. -/
def loginStep (row : Option Account) (p : Attempt × LoginPhase) :
    Option Account × (Attempt × LoginPhase) :=
  match p.2 with
  | .received => (row, p.1, match row, p.1.login with
      | some user, _ => found p.1 user
      | none, .password _ => .finished false
      | none, .external _ _ _ => .unknown)
  | .unknown => match row, p.1.login with
      | none, .external firstName lastName creationMethod =>
          (some (newAccount cfg p.1 firstName lastName creationMethod), p.1, .created)
      | _, _ => (row, p.1, .finished false)
  | .created => (row, p.1, match row with
      | some user => found p.1 user
      | none => .finished false)
  | .loaded user => (row, p.1, match p.1.login with
      | .password password =>
          if cfg.compare password user.user.encryptedPassword then
            .saving (UsersService.updateLoginMetadata p.1.now user) false .metadata
          else .finished false
      | .external _ _ _ => .finished false)
  | .saving copy renamed .both =>
      if p.1.metadataFirst then
        (row.map (copy.saveMetadata renamed), p.1, .saving copy renamed .names)
      else (row.map copy.saveNames, p.1, .saving copy renamed .metadata)
  | .saving copy _ .names => (row.map copy.saveNames, p.1, .finished true)
  | .saving copy renamed .metadata =>
      (row.map (copy.saveMetadata renamed), p.1, .finished true)
  | .finished _ => (row, p)

/-- The stored count; an address without a row has no logins. -/
def loginCount (row : Option Account) : ℕ := row.elim 0 Account.loginCount

/-- The count that the next step of a login writes. -/
def writes (p : Attempt × LoginPhase) : Option ℕ :=
  match p.2 with
  | .saving copy _ .both => if p.1.metadataFirst then some copy.loginCount else none
  | .saving copy _ .metadata => some copy.loginCount
  | _ => none

/-- The login writes the successor of the count that is stored when it writes. -/
def Fresh (row : Option Account) (p : Attempt × LoginPhase) : Prop :=
  ∀ n, writes p = some n → ∃ user, row = some user ∧ n = user.loginCount + 1

end AuthnService

namespace LoginPhase

/-- The count that a login is going to write. -/
def target : LoginPhase → Option ℕ
  | .loaded user => some (user.loginCount + 1)
  | .saving copy _ .both | .saving copy _ .metadata => some copy.loginCount
  | _ => none

def counted : LoginPhase → Bool
  | .saving _ _ .names | .finished true => true
  | _ => false

def succeeded : LoginPhase → Bool
  | .finished success => success
  | _ => false

def isFinished : LoginPhase → Bool
  | .finished _ => true
  | _ => false

end LoginPhase

namespace AuthnService
variable {cfg : Config}

theorem recordLogin_target (a : Attempt) (firstName lastName : JsString) (user : Account) :
    (recordLogin a firstName lastName user).target = some (user.loginCount + 1) ∧
      (recordLogin a firstName lastName user).counted = false := by
  unfold recordLogin
  split <;> exact ⟨rfl, rfl⟩

theorem found_target (a : Attempt) (user : Account) :
    (found a user).target = some (user.loginCount + 1) ∧ (found a user).counted = false := by
  unfold found
  split
  · exact ⟨rfl, rfl⟩
  · exact recordLogin_target _ _ _ _

@[simp] theorem loginCount_saveNames (copy : Account) (row : Option Account) :
    loginCount (row.map copy.saveNames) = loginCount row := by
  cases row <;> rfl

theorem loginCount_saveMetadata (copy : Account) (renamed : Bool) (row : Option Account) :
    loginCount (row.map (copy.saveMetadata renamed)) = row.elim 0 fun _ => copy.loginCount := by
  cases row <;> rfl

/-- A step that writes no count keeps the stored one, and the count that its login is going
to write is the old one or the successor of the stored one. -/
structure Quiet (row row' : Option Account) (phase phase' : LoginPhase) : Prop where
  stored : loginCount row' = loginCount row
  counted : phase'.counted = phase.counted
  target : ∀ t, phase'.target = some t → phase.target = some t ∨ t = loginCount row + 1

/-- The step that writes the count `n`. -/
structure Writing (n : ℕ) (row row' : Option Account) (phase phase' : LoginPhase) : Prop where
  stored : loginCount row' = row.elim 0 fun _ => n
  target : phase.target = some n
  before : phase.counted = false
  after : phase'.counted = true
  done : phase'.target = none

theorem Quiet.read {row : Option Account} {phase phase' : LoginPhase}
    (before : phase.counted = false) (after : phase'.counted = false)
    (target : ∀ t, phase'.target = some t → phase.target = some t ∨ t = loginCount row + 1) :
    Quiet row row phase phase' := ⟨rfl, after.trans before.symm, target⟩

theorem Quiet.failed {row : Option Account} {phase : LoginPhase} (before : phase.counted = false) :
    Quiet row row phase (.finished false) := .read before rfl fun _ none => by cases none

theorem Quiet.found {user : Account} {phase : LoginPhase} (a : Attempt)
    (before : phase.counted = false) : Quiet (some user) (some user) phase (found a user) := by
  obtain ⟨target, counted⟩ := found_target a user
  refine .read before counted fun t here => .inr ?_
  exact Option.some.inj (here.symm.trans target)

theorem loginStep_quiet {row : Option Account} {p : Attempt × LoginPhase} (none : writes p = none) :
    Quiet row (loginStep cfg row p).1 p.2 (loginStep cfg row p).2.2 := by
  obtain ⟨a, phase⟩ := p
  cases phase with
  | received =>
      cases row with
      | some user => exact .found a rfl
      | none =>
          simp only [loginStep]
          split
          · rename_i here
            cases here
          · exact .failed rfl
          · exact .read rfl rfl fun _ none => by cases none
  | unknown =>
      simp only [loginStep]
      split
      · exact ⟨rfl, rfl, fun _ none => by cases none⟩
      · exact .failed rfl
  | created =>
      cases row with
      | some user => exact .found a rfl
      | none => exact .failed rfl
  | loaded user =>
      simp only [loginStep]
      split
      · split
        · exact .read rfl rfl fun t here => .inl here
        · exact .failed rfl
      · exact .failed rfl
  | saving copy renamed pending =>
      cases pending with
      | both =>
          simp only [loginStep]
          split
          · rename_i first
            simp [writes, first] at none
          · exact ⟨loginCount_saveNames copy row, rfl, fun t here => .inl here⟩
      | names => exact ⟨loginCount_saveNames copy row, rfl, fun _ none => by cases none⟩
      | metadata => cases none
  | finished success => exact ⟨rfl, rfl, fun _ none => by cases none⟩

theorem loginStep_writing {row : Option Account} {p : Attempt × LoginPhase} {n : ℕ}
    (writing : writes p = some n) :
    Writing n row (loginStep cfg row p).1 p.2 (loginStep cfg row p).2.2 := by
  obtain ⟨a, phase⟩ := p
  cases phase with
  | saving copy renamed pending =>
      cases pending with
      | both =>
          simp only [loginStep]
          split
          · rename_i first
            simp only [writes, first, if_true, Option.some.injEq] at writing
            subst writing
            exact ⟨loginCount_saveMetadata copy renamed row, rfl, rfl, rfl, rfl⟩
          · rename_i later
            simp [writes, later] at writing
      | names => cases writing
      | metadata =>
          cases writing
          exact ⟨loginCount_saveMetadata copy renamed row, rfl, rfl, rfl, rfl⟩
  | received | unknown | created | loaded user | finished success => cases writing

abbrev Logins := Option Account × List (Attempt × LoginPhase)

def written (c : Logins) : ℕ := c.2.countP fun p => p.2.counted

/-- No count runs ahead of the logins that were written; once the stored one is behind, so is
every one that is still to be written. -/
structure Counting (initial : ℕ) (c : Logins) : Prop where
  bounded : loginCount c.1 ≤ initial + written c
  targets : ∀ p ∈ c.2, ∀ t, p.2.target = some t → t ≤ initial + written c + 1
  behind : loginCount c.1 < initial + written c →
    ∀ p ∈ c.2, ∀ t, p.2.target = some t → t ≤ initial + written c

def FreshAt (c : Logins) (i : ℕ) : Prop := ∀ p, c.2[i]? = some p → Fresh c.1 p

theorem fire_counted {c : Logins} {i : ℕ} {p : Attempt × LoginPhase} (here : c.2[i]? = some p) :
    written (Lib.fire (loginStep cfg) c i) + (if p.2.counted then 1 else 0) =
      written c + if (loginStep cfg c.1 p).2.2.counted then 1 else 0 :=
  Lib.countP_fire here fun p => p.2.counted

theorem mem_fire {c : Logins} {i : ℕ} {p q : Attempt × LoginPhase} (here : c.2[i]? = some p)
    (hq : q ∈ (Lib.fire (loginStep cfg) c i).2) : q ∈ c.2 ∨ q = (loginStep cfg c.1 p).2 := by
  rw [Lib.fire_of_some _ here] at hq
  exact List.mem_or_eq_of_mem_set hq

/-- A step that writes no count. -/
theorem counting_quiet {initial : ℕ} {c : Logins} {i : ℕ} {p : Attempt × LoginPhase}
    (here : c.2[i]? = some p) (none : writes p = none) (inv : Counting initial c) :
    Counting initial (Lib.fire (loginStep cfg) c i) ∧
      loginCount (Lib.fire (loginStep cfg) c i).1 = loginCount c.1 ∧
        written (Lib.fire (loginStep cfg) c i) = written c := by
  have quiet := @loginStep_quiet cfg c.1 p none
  have stored : loginCount (Lib.fire (loginStep cfg) c i).1 = loginCount c.1 := by
    rw [Lib.fire_of_some _ here]
    exact quiet.stored
  have same : written (Lib.fire (loginStep cfg) c i) = written c := by
    have counted := @fire_counted cfg c i p here
    rw [quiet.counted] at counted
    omega
  have mine : p ∈ c.2 := List.mem_of_getElem? here
  refine ⟨⟨?_, ?_, ?_⟩, stored, same⟩
  · rw [stored, same]
    exact inv.bounded
  · rw [same]
    intro q hq t ht
    rcases mem_fire here hq with old | rfl
    · exact inv.targets q old t ht
    · rcases quiet.target t ht with before | rfl
      · exact inv.targets p mine t before
      · exact Nat.succ_le_succ inv.bounded
  · rw [stored, same]
    intro late q hq t ht
    rcases mem_fire here hq with old | rfl
    · exact inv.behind late q old t ht
    · rcases quiet.target t ht with before | rfl
      · exact inv.behind late p mine t before
      · exact late

/-- A step that writes a count leaves it exact just if it was, and this one was loaded from
the row that is stored now. -/
theorem counting_writing {initial : ℕ} {c : Logins} {i n : ℕ} {p : Attempt × LoginPhase}
    (here : c.2[i]? = some p) (writing : writes p = some n) (inv : Counting initial c) :
    Counting initial (Lib.fire (loginStep cfg) c i) ∧
      (loginCount (Lib.fire (loginStep cfg) c i).1 =
          initial + written (Lib.fire (loginStep cfg) c i) ↔
        loginCount c.1 = initial + written c ∧ Fresh c.1 p) := by
  have step := @loginStep_writing cfg c.1 p n writing
  have stored : loginCount (Lib.fire (loginStep cfg) c i).1 = c.1.elim 0 fun _ => n := by
    rw [Lib.fire_of_some _ here]
    exact step.stored
  have more : written (Lib.fire (loginStep cfg) c i) = written c + 1 := by
    have counted := @fire_counted cfg c i p here
    simpa [step.before, step.after] using counted
  have mine : p ∈ c.2 := List.mem_of_getElem? here
  have bound : n ≤ initial + written c + 1 := inv.targets p mine n step.target
  have others : ∀ q ∈ (Lib.fire (loginStep cfg) c i).2, ∀ t, q.2.target = some t →
      t ≤ initial + written (Lib.fire (loginStep cfg) c i) := by
    intro q hq t ht
    rw [more]
    rcases mem_fire here hq with old | rfl
    · exact inv.targets q old t ht
    · rw [step.done] at ht
      cases ht
  refine ⟨⟨?_, fun q hq t ht => Nat.le_succ_of_le (others q hq t ht), fun _ => others⟩, ?_⟩
  · rw [stored, more]
    cases c.1 with
    | none => exact Nat.zero_le _
    | some user => exact bound
  · rw [stored, more]
    have before := inv.bounded
    have late := fun h => inv.behind h p mine n step.target
    unfold Fresh
    simp only [writing, Option.some.injEq, forall_eq']
    cases row : c.1 with
    | none => simp
    | some user =>
        simp only [row, loginCount, Option.elim_some, Option.some.injEq, exists_eq_left']
          at before late ⊢
        omega

/-- The stored count has counted every login that was written. -/
def Exact (initial : ℕ) (c : Logins) : Prop := loginCount c.1 = initial + written c

theorem counting_fire {initial : ℕ} {c : Logins} (inv : Counting initial c) (i : ℕ) :
    Counting initial (Lib.fire (loginStep cfg) c i) ∧
      (Exact initial (Lib.fire (loginStep cfg) c i) ↔ Exact initial c ∧ FreshAt c i) := by
  cases here : c.2[i]? with
  | none =>
      have idle : Lib.fire (loginStep cfg) c i = c := by simp [Lib.fire, here]
      rw [idle]
      exact ⟨inv, (and_iff_left fun p hp => by cases here.symm.trans hp).symm⟩
  | some p =>
      have condition : FreshAt c i ↔ Fresh c.1 p := by simp [FreshAt, here]
      rw [condition]
      cases writing : writes p with
      | none =>
          obtain ⟨next, stored, same⟩ := @counting_quiet cfg initial c i p here writing inv
          have fresh : Fresh c.1 p := fun n hn => by cases writing.symm.trans hn
          refine ⟨next, ?_⟩
          unfold Exact
          rw [stored, same]
          exact (and_iff_left fresh).symm
      | some n => exact counting_writing here writing inv

theorem counting_interleave {initial : ℕ} {c : Logins} (inv : Counting initial c)
    (schedule : List ℕ) :
    Counting initial (Lib.interleave (loginStep cfg) c schedule) ∧
      (Exact initial (Lib.interleave (loginStep cfg) c schedule) ↔
        Exact initial c ∧ Lib.Along (Lib.fire (loginStep cfg)) FreshAt c schedule) := by
  induction schedule generalizing c with
  | nil => exact ⟨inv, (and_iff_left trivial).symm⟩
  | cons i schedule ih =>
      obtain ⟨next, one⟩ := @counting_fire cfg initial c inv i
      obtain ⟨last, rest⟩ := ih next
      refine ⟨last, rest.trans ?_⟩
      rw [one, and_assoc]
      rfl

def arriving (attempts : List Attempt) : List (Attempt × LoginPhase) :=
  attempts.map fun a => (a, .received)

theorem counting_arriving (row : Option Account) (attempts : List Attempt) :
    Counting (loginCount row) (row, arriving attempts) ∧
      Exact (loginCount row) (row, arriving attempts) := by
  have none : written (row, arriving attempts) = 0 := by
    rw [written, List.countP_eq_zero]
    intro p hp
    obtain ⟨a, -, rfl⟩ := List.mem_map.mp hp
    exact Bool.false_ne_true
  have idle : ∀ p ∈ arriving attempts, ∀ t, p.2.target ≠ some t := by
    intro p hp
    obtain ⟨a, -, rfl⟩ := List.mem_map.mp hp
    exact fun t ht => by cases ht
  refine ⟨⟨Nat.le_add_right _ _, fun p hp t ht => (idle p hp t ht).elim,
    fun _ p hp t ht => (idle p hp t ht).elim⟩, ?_⟩
  rw [Exact, none]
  rfl

theorem written_of_finished {c : Logins} (complete : ∀ p ∈ c.2, p.2.isFinished = true) :
    written c = c.2.countP fun p => p.2.succeeded := by
  refine List.countP_congr fun p hp => ?_
  have finished := complete p hp
  obtain ⟨a, phase⟩ := p
  cases phase with
  | finished success => cases success <;> rfl
  | received | unknown | created | loaded user | saving copy renamed pending => cases finished

/-- No login is counted twice. -/
theorem loginCount_le {row : Option Account} {attempts : List Attempt} {schedule : List ℕ}
    (complete : ∀ p ∈ (Lib.interleave (loginStep cfg) (row, arriving attempts) schedule).2,
      p.2.isFinished = true) :
    loginCount (Lib.interleave (loginStep cfg) (row, arriving attempts) schedule).1 ≤
      loginCount row + (Lib.interleave (loginStep cfg) (row, arriving attempts) schedule).2.countP
        fun p => p.2.succeeded := by
  have start := (counting_arriving row attempts).1
  rw [← written_of_finished complete]
  exact (counting_interleave start schedule).1.bounded

/-- Every login is counted exactly if each one writes while the row still holds the count
that it loaded. -/
theorem loginCount_iff {row : Option Account} {attempts : List Attempt} {schedule : List ℕ}
    (complete : ∀ p ∈ (Lib.interleave (loginStep cfg) (row, arriving attempts) schedule).2,
      p.2.isFinished = true) :
    loginCount (Lib.interleave (loginStep cfg) (row, arriving attempts) schedule).1 =
      loginCount row + (Lib.interleave (loginStep cfg) (row, arriving attempts) schedule).2.countP
        (fun p => p.2.succeeded) ↔
      Lib.Along (Lib.fire (loginStep cfg)) FreshAt (row, arriving attempts) schedule := by
  obtain ⟨start, exact⟩ := counting_arriving row attempts
  rw [← written_of_finished complete]
  exact (counting_interleave start schedule).2.trans (and_iff_right exact)

def sampleAccount : Account := ⟨sampleUser, none, 4⟩

def sampleAttempt : Attempt where
  login := .password (js "aB1!cD2?eF3#gH4")
  email := js "user@example.com"
  now := 7
  randomPass := []
  salt := 0
  newId := 2
  metadataFirst := false

/-- One login after the other. -/
theorem loginCount_iff_sample :
    Lib.Along (Lib.fire (loginStep sampleConfig)) FreshAt
      (some sampleAccount, arriving [sampleAttempt, sampleAttempt]) [0, 0, 0, 1, 1, 1] :=
  (@loginCount_iff sampleConfig (some sampleAccount) [sampleAttempt, sampleAttempt]
    [0, 0, 0, 1, 1, 1] (by decide +kernel)).mp (by decide +kernel)

def alternating : Logins :=
  Lib.interleave (loginStep sampleConfig)
    (some sampleAccount, arriving [sampleAttempt, sampleAttempt]) [0, 1, 0, 1, 0, 1]

/-- Both load the count 4 and write 5. -/
theorem login_lost : (∀ p ∈ alternating.2, p.2.isFinished = true) ∧
    loginCount (some sampleAccount) = 4 ∧ (alternating.2.countP fun p => p.2.succeeded) = 2 ∧
      loginCount alternating.1 = 5 := by
  refine ⟨?_, rfl, ?_, ?_⟩ <;> decide +kernel

end AuthnService

end Backend
