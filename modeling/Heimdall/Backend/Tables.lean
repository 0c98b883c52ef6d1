import Heimdall.Js.Value
import Heimdall.Lib.Rows

/-!
# Tables of the server

The rows of users, groups, evaluations and of the two join tables, with the statements
that the services issue on them. A key is the BIGINT of its row; it is taken from a
sequence, so a key that was given out is never given again. Timestamps of the rows and the
tags of an evaluation are left out.
-/
namespace Backend
open Js

structure User where
  id : ℕ
  email : JsString
  firstName : Option JsString
  lastName : Option JsString
  organization : Option JsString
  title : Option JsString
  encryptedPassword : JsString
  forcePasswordChange : Option Bool
  passwordChangedAt : Option ℕ
  role : JsString
  creationMethod : JsString
  deriving DecidableEq

structure Group where
  id : ℕ
  name : JsString
  isPublic : Bool
  deriving DecidableEq

structure GroupUser where
  groupId : Option ℕ
  userId : Option ℕ
  role : JsString
  deriving DecidableEq

structure Evaluation where
  id : ℕ
  filename : JsString
  data : JsVal
  isPublic : Bool
  userId : Option ℕ

structure GroupEvaluation where
  groupId : Option ℕ
  evaluationId : Option ℕ
  deriving DecidableEq

structure Tables where
  users : List User
  groups : List Group
  groupUsers : List GroupUser
  evaluations : List Evaluation
  groupEvaluations : List GroupEvaluation
  nextUser : ℕ
  nextGroup : ℕ
  nextEvaluation : ℕ

def Tables.empty : Tables := ⟨[], [], [], [], [], 1, 1, 1⟩

/-- `User & {GroupUser: GroupUser}` -/
structure Member where
  user : User
  groupUser : GroupUser

/-- A group with the users joined to it. -/
structure LoadedGroup where
  group : Group
  users : List Member

/-- An evaluation with its groups and their users. -/
structure LoadedEvaluation where
  evaluation : Evaluation
  groups : List LoadedGroup

def GroupUser.joins (row : GroupUser) (g u : ℕ) : Bool :=
  decide (row.groupId = some g) && decide (row.userId = some u)

def GroupEvaluation.joins (row : GroupEvaluation) (g e : ℕ) : Bool :=
  decide (row.groupId = some g) && decide (row.evaluationId = some e)

namespace Tables
variable (db : Tables)

def findUser (id : ℕ) : Option User := Lib.pick User.id id db.users

def findGroup (id : ℕ) : Option Group := Lib.pick Group.id id db.groups

def findEvaluation (id : ℕ) : Option Evaluation := Lib.pick Evaluation.id id db.evaluations

def joinUser (g : ℕ) (row : GroupUser) : Option Member :=
  if row.groupId = some g then (row.userId.bind db.findUser).map fun user => ⟨user, row⟩ else none

/-- `group.$get('users')` -/
def usersOf (g : ℕ) : List Member := db.groupUsers.filterMap fun row => db.joinUser g row

def loadGroup (id : ℕ) : Option LoadedGroup :=
  (db.findGroup id).map fun group => ⟨group, db.usersOf group.id⟩

def groupsOf (e : ℕ) : List LoadedGroup :=
  db.groupEvaluations.filterMap fun row =>
    if row.evaluationId = some e then row.groupId.bind db.loadGroup else none

def loadEvaluation (id : ℕ) : Option LoadedEvaluation :=
  (db.findEvaluation id).map fun evaluation => ⟨evaluation, db.groupsOf evaluation.id⟩

/-- Statements on the users; deleting one clears the columns that refer to it. -/
def insertUser (user : User) : Tables :=
  { db with users := db.users ++ [{ user with id := db.nextUser }], nextUser := db.nextUser + 1 }

def saveUser (user : User) : Tables :=
  { db with users := Lib.save User.id user db.users }

def destroyUser (id : ℕ) : Tables :=
  { db with
    users := Lib.discard User.id id db.users
    groupUsers := db.groupUsers.map fun row => { row with userId := Lib.clear id row.userId }
    evaluations := db.evaluations.map fun row => { row with userId := Lib.clear id row.userId } }

/-- Statements on the groups. -/
def insertGroup (name : JsString) (isPublic : Bool) : Tables :=
  { db with
    groups := db.groups ++ [⟨db.nextGroup, name, isPublic⟩]
    nextGroup := db.nextGroup + 1 }

def saveGroup (group : Group) : Tables :=
  { db with groups := Lib.save Group.id group db.groups }

def destroyGroup (id : ℕ) : Tables :=
  { db with
    groups := Lib.discard Group.id id db.groups
    groupUsers := db.groupUsers.map fun row => { row with groupId := Lib.clear id row.groupId }
    groupEvaluations :=
      db.groupEvaluations.map fun row => { row with groupId := Lib.clear id row.groupId } }

/-- `group.$add('user', user, {through: {role}})`: an existing row gets the role. -/
def addUser (g u : ℕ) (role : JsString) : Tables :=
  { db with
    groupUsers :=
      if db.groupUsers.any fun row => row.joins g u then
        db.groupUsers.map fun row => if row.joins g u then { row with role := role } else row
      else db.groupUsers ++ [⟨some g, some u, role⟩] }

/-- `group.$remove('user', user)` -/
def removeUser (g u : ℕ) : Tables :=
  { db with groupUsers := db.groupUsers.filter fun row => !row.joins g u }

/-- `group.$add('evaluation', evaluation)` -/
def addEvaluation (g e : ℕ) : Tables :=
  { db with
    groupEvaluations :=
      if db.groupEvaluations.any fun row => row.joins g e then db.groupEvaluations
      else db.groupEvaluations ++ [⟨some g, some e⟩] }

/-- `group.$remove('evaluation', evaluation)` -/
def removeEvaluation (g e : ℕ) : Tables :=
  { db with groupEvaluations := db.groupEvaluations.filter fun row => !row.joins g e }

/-- Statements on the evaluations. -/
def insertEvaluation (filename : JsString) (data : JsVal) (isPublic : Bool) (userId : ℕ) :
    Tables :=
  { db with
    evaluations := db.evaluations ++ [⟨db.nextEvaluation, filename, data, isPublic, some userId⟩]
    nextEvaluation := db.nextEvaluation + 1 }

def saveEvaluation (evaluation : Evaluation) : Tables :=
  { db with evaluations := Lib.save Evaluation.id evaluation db.evaluations }

def destroyEvaluation (id : ℕ) : Tables :=
  { db with
    evaluations := Lib.discard Evaluation.id id db.evaluations
    groupEvaluations :=
      db.groupEvaluations.map fun row => { row with evaluationId := Lib.clear id row.evaluationId } }

end Tables
end Backend
