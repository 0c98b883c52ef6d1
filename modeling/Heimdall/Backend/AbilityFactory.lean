import Heimdall.Casl.Ability
import Heimdall.Backend.Tables

/-!
# Abilities of a user

The rules that `CaslAbilityFactory` builds, over the documents that the services load:
a group with its members, an evaluation with its groups and their members.
-/
namespace Backend
open Js Casl

inductive Action where
  | manage | create | read | update | delete | readAll | readSlim | deleteNoPassword
  | updateNoPassword | skipForcePasswordChange | updateRole | addEvaluation
  | removeEvaluation | viewStatistics | forceRegistration
  deriving DecidableEq, Repr

inductive SubjectType where
  | user | group | evaluation | all
  deriving DecidableEq, Repr

instance : Keywords Action SubjectType := ⟨.manage, .all⟩

abbrev AppAbility := Ability Action SubjectType

/-- The driver hands a key over as a decimal numeral; equal numerals are equal numbers. -/
def idVal (id : ℕ) : JsVal := .num (.finite id)

def idOrNull : Option ℕ → JsVal
  | none => .null
  | some id => idVal id

/-! The documents, with the columns that conditions can name. -/

def User.props (user : User) : List (JsString × JsVal) :=
  [(js "id", idVal user.id), (js "email", .str user.email), (js "role", .str user.role)]

def User.doc (user : User) : JsVal := .object user.props

def GroupUser.doc (row : GroupUser) : JsVal :=
  .object [(js "role", .str row.role), (js "groupId", idOrNull row.groupId),
    (js "userId", idOrNull row.userId)]

def Member.doc (m : Member) : JsVal :=
  .object (m.user.props ++ [(js "GroupUser", m.groupUser.doc)])

def LoadedGroup.doc (g : LoadedGroup) : JsVal :=
  .object [(js "id", idVal g.group.id), (js "name", .str g.group.name),
    (js "public", .bool g.group.isPublic), (js "users", .arr (g.users.map Member.doc))]

def LoadedEvaluation.doc (e : LoadedEvaluation) : JsVal :=
  .object [(js "id", idVal e.evaluation.id), (js "filename", .str e.evaluation.filename),
    (js "public", .bool e.evaluation.isPublic), (js "userId", idOrNull e.evaluation.userId),
    (js "groups", .arr (e.groups.map LoadedGroup.doc))]

/-- `{id: user.id, 'GroupUser.role': 'owner'}` -/
def ownerQuery (user : User) : Query :=
  .and (.eq (js "id") (idVal user.id)) (.eq (js "GroupUser.role") (.str (js "owner")))

def adminRules (user : User) : AppAbility :=
  [can [.manage] .all none,
   can [.viewStatistics] .all none,
   cannot [.manage] .user (some (.eq (js "id") (idVal user.id)))]

def userRules (user : User) : AppAbility :=
  [can [.readSlim] .user none,
   can [.read, .update, .delete] .user (some (.eq (js "id") (idVal user.id))),
   can [.create] .group none,
   can [.read] .group (some (.eq (js "public") (.bool true))),
   can [.read, .addEvaluation, .removeEvaluation] .group
     (some (.eq (js "users.id") (idVal user.id))),
   can [.manage] .group (some (.elemMatch (js "users") (ownerQuery user))),
   can [.create] .evaluation none,
   can [.read] .evaluation (some (.eq (js "public") (.bool true))),
   can [.manage] .evaluation (some (.eq (js "userId") (idVal user.id))),
   can [.read] .evaluation (some (.eq (js "groups.users.id") (idVal user.id))),
   can [.manage] .evaluation (some (.elemMatch (js "groups.users") (ownerQuery user)))]

def createForUser (user : User) : AppAbility :=
  (if user.role = js "admin" then adminRules user else []) ++ userRules user

def createForAnonymous : AppAbility := [cannot [.manage] .all none]

def Member.isUser (m : Member) (u : ℕ) : Bool := decide (m.user.id = u)

def Member.isOwner (m : Member) (u : ℕ) : Bool :=
  m.isUser u && decide (m.groupUser.role = js "owner")

def LoadedGroup.hasMember (g : LoadedGroup) (u : ℕ) : Bool := g.users.any fun m => m.isUser u

def LoadedGroup.hasOwner (g : LoadedGroup) (u : ℕ) : Bool := g.users.any fun m => m.isOwner u

theorem LoadedGroup.hasMember_iff {g : LoadedGroup} {u : ℕ} :
    g.hasMember u = true ↔ ∃ m ∈ g.users, m.user.id = u := by
  simp [LoadedGroup.hasMember, Member.isUser]

theorem LoadedGroup.hasOwner_iff {g : LoadedGroup} {u : ℕ} :
    g.hasOwner u = true ↔ ∃ m ∈ g.users, m.user.id = u ∧ m.groupUser.role = js "owner" := by
  simp [LoadedGroup.hasOwner, Member.isOwner, Member.isUser]

theorem LoadedGroup.hasMember_of_hasOwner {g : LoadedGroup} {u : ℕ} (h : g.hasOwner u = true) :
    g.hasMember u = true := by
  obtain ⟨m, hm, hu, -⟩ := LoadedGroup.hasOwner_iff.mp h
  exact LoadedGroup.hasMember_iff.mpr ⟨m, hm, hu⟩

def User.isAdmin (user : User) : Bool := decide (user.role = js "admin")

/-! What each condition says about a document. -/

theorem idVal_strictEq (a b : ℕ) : (idVal a).strictEq (idVal b) = decide (a = b) := by
  simp [idVal, JsVal.strictEq]

theorem idOrNull_strictEq (a : Option ℕ) (b : ℕ) :
    (idOrNull a).strictEq (idVal b) = decide (a = some b) := by
  cases a with
  | none => rfl
  | some a => simp [idOrNull, idVal_strictEq]

@[simp] theorem matches_user_id (user : User) (u : ℕ) :
    (Query.eq (js "id") (idVal u)).matches user.doc = decide (user.id = u) :=
  idVal_strictEq user.id u

theorem matches_ownerQuery (user : User) (m : Member) :
    (ownerQuery user).matches m.doc = m.isOwner user.id := by
  change ((idVal m.user.id).strictEq (idVal user.id) &&
    (JsVal.str m.groupUser.role).strictEq (.str (js "owner"))) = _
  have role : (JsVal.str m.groupUser.role).strictEq (.str (js "owner")) =
      decide (m.groupUser.role = js "owner") := beq_eq_decide _ _
  rw [idVal_strictEq, role]
  rfl

@[simp] theorem matches_group_public (g : LoadedGroup) :
    (Query.eq (js "public") (.bool true)).matches g.doc = g.group.isPublic := by
  change (JsVal.bool g.group.isPublic).strictEq (.bool true) = _
  cases g.group.isPublic <;> rfl

@[simp] theorem matches_group_member (g : LoadedGroup) (u : ℕ) :
    (Query.eq (js "users.id") (idVal u)).matches g.doc = g.hasMember u := by
  have field : getObjectField g.doc (js "users.id") =
      .arr (g.users.flatMap fun m => [idVal m.user.id]) :=
    getField_map Member.doc _ (js "id") (fun _ => rfl) g.users
  simp [Query.matches, field, List.any_flatMap, idVal_strictEq, LoadedGroup.hasMember,
    Member.isUser]

@[simp] theorem matches_group_owner (g : LoadedGroup) (user : User) :
    (Query.elemMatch (js "users") (ownerQuery user)).matches g.doc = g.hasOwner user.id := by
  have field : getObjectField g.doc (js "users") = .arr (g.users.map Member.doc) := rfl
  simp [Query.matches, field, List.any_map, Function.comp_def, matches_ownerQuery,
    LoadedGroup.hasOwner]

@[simp] theorem matches_evaluation_public (e : LoadedEvaluation) :
    (Query.eq (js "public") (.bool true)).matches e.doc = e.evaluation.isPublic := by
  change (JsVal.bool e.evaluation.isPublic).strictEq (.bool true) = _
  cases e.evaluation.isPublic <;> rfl

@[simp] theorem matches_evaluation_uploader (e : LoadedEvaluation) (u : ℕ) :
    (Query.eq (js "userId") (idVal u)).matches e.doc =
      decide (e.evaluation.userId = some u) := by
  have read : getField e.doc (js "userId") = idOrNull e.evaluation.userId := rfl
  have field : getObjectField e.doc (js "userId") = idOrNull e.evaluation.userId := by
    change walk e.doc [js "userId"] = _
    rw [walk, read]
    cases e.evaluation.userId <;> rfl
  rw [← idOrNull_strictEq, Query.matches, field]
  cases e.evaluation.userId <;> rfl

/-- The members of all groups of an evaluation stand in one list. -/
theorem evaluation_get_users (e : LoadedEvaluation) :
    getField (getField e.doc (js "groups")) (js "users") =
      .arr (e.groups.flatMap fun g => g.users.map Member.doc) :=
  getField_map LoadedGroup.doc _ (js "users") (fun _ => rfl) e.groups

@[simp] theorem matches_evaluation_member (e : LoadedEvaluation) (u : ℕ) :
    (Query.eq (js "groups.users.id") (idVal u)).matches e.doc =
      e.groups.any fun g => g.hasMember u := by
  have members : (e.groups.flatMap fun g => g.users.map Member.doc) =
      (e.groups.flatMap LoadedGroup.users).map Member.doc := by
    rw [List.map_flatMap]
  have field : getObjectField e.doc (js "groups.users.id") =
      .arr ((e.groups.flatMap LoadedGroup.users).flatMap fun m => [idVal m.user.id]) := by
    change walk (getField e.doc (js "groups")) [js "users", js "id"] = _
    change walk (getField (getField e.doc (js "groups")) (js "users")) [js "id"] = _
    rw [evaluation_get_users, members]
    exact getField_map Member.doc _ (js "id") (fun _ => rfl) _
  simp [Query.matches, field, List.any_flatMap, idVal_strictEq, LoadedGroup.hasMember,
    Member.isUser]

@[simp] theorem matches_evaluation_owner (e : LoadedEvaluation) (user : User) :
    (Query.elemMatch (js "groups.users") (ownerQuery user)).matches e.doc =
      e.groups.any fun g => g.hasOwner user.id := by
  have field : getObjectField e.doc (js "groups.users") =
      .arr (e.groups.flatMap fun g => g.users.map Member.doc) := evaluation_get_users e
  simp [Query.matches, field, List.any_flatMap, List.any_map, Function.comp_def,
    matches_ownerQuery, LoadedGroup.hasOwner]

/-! The whole table of answers, for every action. -/

theorem userRules_inverted {user : User} {rule : Rule Action SubjectType}
    (h : rule ∈ userRules user) : rule.inverted = false := by
  simp only [userRules, can, List.mem_cons, List.not_mem_nil, or_false] at h
  rcases h with rfl | rfl | rfl | rfl | rfl | rfl | rfl | rfl | rfl | rfl | rfl <;> rfl

/-- The only prohibition is the one that keeps administrators from managing themselves. -/
theorem createForUser_inverted {user : User} {rule : Rule Action SubjectType}
    (h : rule ∈ createForUser user) : rule.inverted = false ∨ rule.subject = .user := by
  rcases List.mem_append.mp h with admin | own
  · split at admin
    · simp only [adminRules, can, cannot, List.mem_cons, List.not_mem_nil, or_false] at admin
      rcases admin with rfl | rfl | rfl
      · exact .inl rfl
      · exact .inl rfl
      · exact .inr rfl
    · cases admin
  · exact .inl (userRules_inverted own)

theorem createForUser_permissive (user : User) {t : SubjectType} (other : t ≠ .user)
    (doc : JsVal) (action : Action) : ∀ rule ∈ createForUser user,
      rule.relevant action (.instance t doc) → rule.inverted = false := by
  intro rule here relevant
  rcases createForUser_inverted here with permits | subject
  · exact permits
  · have covers : rule.subject = t ∨ rule.subject = Keywords.all Action := by
      simp only [Rule.relevant, Rule.covers, Bool.and_eq_true, Bool.or_eq_true,
        decide_eq_true_eq] at relevant
      exact relevant.1.2
    rcases covers with same | every
    · exact absurd (same.symm.trans subject) other
    · rw [subject] at every
      cases every

/-- The answers about a group. -/
theorem allows_group (user : User) (g : LoadedGroup) (action : Action) :
    (createForUser user).allows action (.instance .group g.doc) = true ↔
      user.isAdmin ∨ g.hasOwner user.id ∨ action = .create ∨
      (action = .read ∧ g.group.isPublic) ∨
      (action ∈ [Action.read, .addEvaluation, .removeEvaluation] ∧ g.hasMember user.id) := by
  rw [allows_iff_exists _ _ _ (createForUser_permissive user (by decide) g.doc action)]
  by_cases admin : user.role = js "admin" <;>
    simp [createForUser, admin, adminRules, userRules, Rule.relevant, Rule.covers, can, cannot,
      Target.subjectType, Rule.matchesConditions, User.isAdmin, Keywords.manage, Keywords.all]
  tauto

/-- The answers about an evaluation. -/
theorem allows_evaluation (user : User) (e : LoadedEvaluation) (action : Action) :
    (createForUser user).allows action (.instance .evaluation e.doc) = true ↔
      user.isAdmin ∨ e.evaluation.userId = some user.id ∨
      (∃ g ∈ e.groups, g.hasOwner user.id) ∨ action = .create ∨
      (action = .read ∧ (e.evaluation.isPublic ∨ ∃ g ∈ e.groups, g.hasMember user.id)) := by
  rw [allows_iff_exists _ _ _ (createForUser_permissive user (by decide) e.doc action)]
  by_cases admin : user.role = js "admin" <;>
    simp [createForUser, admin, adminRules, userRules, Rule.relevant, Rule.covers, can, cannot,
      Target.subjectType, Rule.matchesConditions, User.isAdmin, Keywords.manage, Keywords.all]
  generalize (∃ g ∈ e.groups, g.hasMember user.id = true) = member
  generalize (∃ g ∈ e.groups, g.hasOwner user.id = true) = owner
  tauto

/-- The answers about a user: what an administrator may do to others, the rules about
oneself allow again for reading, updating and deleting only. -/
theorem allows_user (user target : User) (action : Action) :
    (createForUser user).allows action (.instance .user target.doc) = true ↔
      action = .readSlim ∨ (user.isAdmin ∧ target.id ≠ user.id) ∨
      (action ∈ [Action.read, .update, .delete] ∧ target.id = user.id) := by
  by_cases admin : user.role = js "admin" <;> by_cases self : target.id = user.id <;>
    simp [Ability.allows, relevantRuleFor, createForUser, admin, adminRules, userRules,
      Rule.relevant, Rule.covers, can, cannot, Target.subjectType, Rule.matchesConditions,
      User.isAdmin, Keywords.manage, Keywords.all, self, List.find?_cons]
  all_goals cases action <;> simp

theorem allows_user_type (user : User) (action : Action) :
    (createForUser user).allows action (.type .user) = true ↔
      user.isAdmin ∨ action ∈ [Action.readSlim, .read, .update, .delete] := by
  by_cases admin : user.role = js "admin" <;>
    simp [Ability.allows, relevantRuleFor, createForUser, admin, adminRules, userRules,
      Rule.relevant, Rule.covers, can, cannot, Target.subjectType, Rule.matchesConditions,
      User.isAdmin, Keywords.manage, Keywords.all, List.find?_cons]
  all_goals cases action <;> simp

theorem createForAnonymous_allows (action : Action) (target : Target SubjectType) :
    createForAnonymous.allows action target = false := by
  cases target <;>
    simp [Ability.allows, relevantRuleFor, createForAnonymous, cannot, Rule.relevant, Rule.covers,
      Keywords.manage, Keywords.all, Rule.matchesConditions]

/-- Who may do what, in terms of memberships: the row that joins the user to the very group
decides, for a group and for each group of an evaluation. -/
theorem createForUser_table (user : User) :
    (∀ g : LoadedGroup,
      let allowed := fun action => (createForUser user).allows action (.instance .group g.doc)
      let member := ∃ m ∈ g.users, m.user.id = user.id
      let owner := ∃ m ∈ g.users, m.user.id = user.id ∧ m.groupUser.role = js "owner"
      let admin := user.role = js "admin"
      (allowed .read ↔ g.group.isPublic ∨ member ∨ admin) ∧
      (allowed .addEvaluation ↔ member ∨ admin) ∧
      (allowed .removeEvaluation ↔ member ∨ admin) ∧
      (allowed .update ↔ owner ∨ admin) ∧
      (allowed .delete ↔ owner ∨ admin)) ∧
    (∀ e : LoadedEvaluation,
      let allowed := fun action =>
        (createForUser user).allows action (.instance .evaluation e.doc)
      let uploader := e.evaluation.userId = some user.id
      let member := ∃ g ∈ e.groups, ∃ m ∈ g.users, m.user.id = user.id
      let owner := ∃ g ∈ e.groups, ∃ m ∈ g.users,
        m.user.id = user.id ∧ m.groupUser.role = js "owner"
      let admin := user.role = js "admin"
      (allowed .read ↔ e.evaluation.isPublic ∨ uploader ∨ member ∨ admin) ∧
      (allowed .update ↔ uploader ∨ owner ∨ admin) ∧
      (allowed .delete ↔ uploader ∨ owner ∨ admin)) := by
  refine ⟨fun g => ?_, fun e => ?_⟩
  · have owners : g.hasOwner user.id = true → g.hasMember user.id = true :=
      LoadedGroup.hasMember_of_hasOwner
    simp only [allows_group, ← LoadedGroup.hasMember_iff, ← LoadedGroup.hasOwner_iff,
      User.isAdmin, decide_eq_true_eq]
    refine ⟨?_, ?_, ?_, ?_, ?_⟩ <;> simp <;> tauto
  · have owners : (∃ g ∈ e.groups, g.hasOwner user.id = true) →
        ∃ g ∈ e.groups, g.hasMember user.id = true := fun ⟨g, hg, h⟩ =>
      ⟨g, hg, LoadedGroup.hasMember_of_hasOwner h⟩
    simp only [allows_evaluation, ← LoadedGroup.hasMember_iff, ← LoadedGroup.hasOwner_iff,
      User.isAdmin, decide_eq_true_eq]
    generalize (∃ g ∈ e.groups, g.hasMember user.id = true) = member at owners ⊢
    generalize (∃ g ∈ e.groups, g.hasOwner user.id = true) = owner at owners ⊢
    refine ⟨?_, ?_, ?_⟩ <;> simp <;> tauto

end Backend
