import Heimdall.Backend.EvaluationTags

/-!
# Reading

The endpoints that read, with the records that they answer with. A listing and the request
for one row agree, no answer depends on a password, and what a user may not read leaves no
trace in the answers except that the row is there when its key is guessed. The times of the
rows and the counts of logins are left out.
-/
namespace Backend
open Js Casl

structure SlimUserDto where
  id : ℕ
  email : JsString
  title : Option JsString
  groupRole : Option JsString
  firstName : Option JsString
  lastName : Option JsString

structure UserDto where
  id : ℕ
  email : JsString
  firstName : Option JsString
  lastName : Option JsString
  title : Option JsString
  role : JsString
  organization : Option JsString
  creationMethod : JsString

structure GroupDto where
  id : ℕ
  name : JsString
  role : Option JsString
  isPublic : Bool
  users : List SlimUserDto

structure EvaluationTagDto where
  id : ℕ
  value : JsString
  evaluationId : Option ℕ

structure EvaluationDto where
  id : ℕ
  filename : JsString
  data : Option JsVal
  evaluationTags : List EvaluationTagDto
  groups : List GroupDto
  userId : Option ℕ
  isPublic : Bool
  editable : Bool

structure StatisticsDTO where
  userCount : ℕ
  evaluationCount : ℕ
  evaluationTagCount : ℕ
  groupCount : ℕ

namespace SlimUserDto

def of (user : User) (groupRole : Option JsString) : SlimUserDto :=
  ⟨user.id, user.email, user.title, groupRole, user.firstName, user.lastName⟩

end SlimUserDto

namespace UserDto

def of (user : User) : UserDto :=
  ⟨user.id, user.email, user.firstName, user.lastName, user.title, user.role, user.organization,
    user.creationMethod⟩

end UserDto

namespace GroupDto

def of (group : LoadedGroup) (role : Option JsString) : GroupDto :=
  ⟨group.group.id, group.group.name, role, group.group.isPublic,
    group.users.map fun m => SlimUserDto.of m.user (some m.groupUser.role)⟩

end GroupDto

namespace EvaluationTagDto

def of (row : TagRow) : EvaluationTagDto := ⟨row.tag.id, row.tag.value, row.evaluationId⟩

end EvaluationTagDto

namespace EvaluationDto

def of (evaluation : LoadedEvaluation) (data : Option JsVal) (tags : List TagRow)
    (editable : Bool) : EvaluationDto :=
  ⟨evaluation.evaluation.id, evaluation.evaluation.filename, data, tags.map EvaluationTagDto.of,
    evaluation.groups.map fun group => GroupDto.of group none, evaluation.evaluation.userId,
    evaluation.evaluation.isPublic, editable⟩

end EvaluationDto

/-- The rows with their groups, in the order of the table. -/
def EvaluationsService.findAll (db : Tables) : List LoadedEvaluation :=
  db.evaluations.map fun row => ⟨row, db.groupsOf row.id⟩

def GroupsService.findAll (db : Tables) : List LoadedGroup :=
  db.groups.map fun row => ⟨row, db.usersOf row.id⟩

section Controllers
variable (s : Store) (request : User)

namespace EvaluationsController

def findById (id : ℕ) : Except HttpError EvaluationDto := do
  let abac := createForUser request
  let evaluation ← EvaluationsService.findById s.tables id
  throwUnlessCan abac .read evaluation.target
  return EvaluationDto.of evaluation (some evaluation.evaluation.data)
    (s.tagsOf evaluation.evaluation.id) (abac.allows .update evaluation.target)

def groupsForEvaluation (id : ℕ) : Except HttpError (List GroupDto) := do
  let abac := createForUser request
  let evaluation ← EvaluationsService.findById s.tables id
  let evaluationGroups := evaluation.groups.filter fun group =>
    abac.allows .addEvaluation group.target && abac.allows .removeEvaluation group.target
  return evaluationGroups.map fun group => GroupDto.of group none

/-- The query of the listing leaves the data out. -/
def findAll : List EvaluationDto :=
  let abac := createForUser request
  let evaluations := (EvaluationsService.findAll s.tables).filter fun evaluation =>
    abac.allows .read evaluation.target
  evaluations.map fun evaluation => EvaluationDto.of evaluation none
    (s.tagsOf evaluation.evaluation.id) (abac.allows .update evaluation.target)

end EvaluationsController

namespace EvaluationTagsController

def index : List EvaluationTagDto :=
  let abac := createForUser request
  let evaluationTags := s.tags.filter fun row => abac.allows .read (row.subject s.tables)
  evaluationTags.map EvaluationTagDto.of

def findById (id : ℕ) : Except HttpError EvaluationTagDto := do
  let abac := createForUser request
  let evaluationTag ← EvaluationTagsService.findByPkBang s id
  throwUnlessCan abac .read (evaluationTag.subject s.tables)
  return EvaluationTagDto.of evaluationTag

end EvaluationTagsController

namespace GroupsController

def findAll : List GroupDto :=
  let abac := createForUser request
  let groups := (GroupsService.findAll s.tables).filter fun group =>
    abac.allows .read group.target
  groups.map fun group => GroupDto.of group none

/-- The groups of the caller, with the role on the row that joins them. -/
def findForUser : List GroupDto :=
  s.tables.groupUsers.filterMap fun row =>
    if row.userId = some request.id then
      (row.groupId.bind s.tables.loadGroup).map fun group => GroupDto.of group (some row.role)
    else none

def findById (id : ℕ) : Except HttpError GroupDto := do
  let abac := createForUser request
  let group ← GroupsService.findByPkBang s.tables id
  throwUnlessCan abac .read group.target
  return GroupDto.of group (some (js "owner"))

end GroupsController

namespace UsersController

def findAllUsers : Except HttpError (List SlimUserDto) := do
  throwUnlessCan (createForUser request) .readSlim (.type .user)
  return s.tables.users.map fun user => SlimUserDto.of user none

def findUserById (id : ℕ) : Except HttpError UserDto := do
  let user ← findByPkBang s.tables id
  throwUnlessCan (createForUser request) .read user.target
  return UserDto.of user

def adminFindAllUsers : Except HttpError (List UserDto) := do
  throwUnlessCan (createForUser request) .readAll (.type .user)
  return s.tables.users.map UserDto.of

end UsersController

namespace StatisticsController

def getHeimdallStatistics : Except HttpError StatisticsDTO := do
  throwUnlessCan (createForUser request) .viewStatistics (.type .user)
  return ⟨s.tables.users.length, s.tables.evaluations.length, s.tags.length,
    s.tables.groups.length⟩

end StatisticsController

end Controllers

/-- A request that changes nothing. -/
inductive ReadRequest where
  | evaluations
  | evaluation (id : ℕ)
  | groupsForEvaluation (id : ℕ)
  | evaluationTags
  | evaluationTag (id : ℕ)
  | groups
  | myGroups
  | group (id : ℕ)
  | slimUsers
  | user (id : ℕ)
  | users
  | statistics

inductive Response where
  | evaluations (dtos : List EvaluationDto)
  | evaluation (dto : EvaluationDto)
  | evaluationTags (dtos : List EvaluationTagDto)
  | evaluationTag (dto : EvaluationTagDto)
  | groups (dtos : List GroupDto)
  | group (dto : GroupDto)
  | slimUsers (dtos : List SlimUserDto)
  | user (dto : UserDto)
  | users (dtos : List UserDto)
  | statistics (dto : StatisticsDTO)

/-- The answer to a user who is signed in. -/
def Store.respond (s : Store) (request : User) : ReadRequest → Except HttpError Response
  | .evaluations => .ok (.evaluations (EvaluationsController.findAll s request))
  | .evaluation id => (EvaluationsController.findById s request id).map .evaluation
  | .groupsForEvaluation id =>
      (EvaluationsController.groupsForEvaluation s request id).map .groups
  | .evaluationTags => .ok (.evaluationTags (EvaluationTagsController.index s request))
  | .evaluationTag id => (EvaluationTagsController.findById s request id).map .evaluationTag
  | .groups => .ok (.groups (GroupsController.findAll s request))
  | .myGroups => .ok (.groups (GroupsController.findForUser s request))
  | .group id => (GroupsController.findById s request id).map .group
  | .slimUsers => (UsersController.findAllUsers s request).map .slimUsers
  | .user id => (UsersController.findUserById s request id).map .user
  | .users => (UsersController.adminFindAllUsers s request).map .users
  | .statistics => (StatisticsController.getHeimdallStatistics s request).map .statistics

/-! A listing and the request for one row. -/

theorem loadEvaluation_of_mem {db : Tables} (h : db.Consistent) {row : Evaluation}
    (here : row ∈ db.evaluations) : db.loadEvaluation row.id = some ⟨row, db.groupsOf row.id⟩ := by
  rw [Tables.loadEvaluation, Tables.findEvaluation, Lib.pick_of_mem h.evaluationKeys.nodup here]
  rfl

theorem mem_findAll {db : Tables} (h : db.Consistent) {evaluation : LoadedEvaluation} :
    evaluation ∈ EvaluationsService.findAll db ↔
      db.loadEvaluation evaluation.evaluation.id = some evaluation := by
  simp only [EvaluationsService.findAll, List.mem_map]
  constructor
  · rintro ⟨row, here, rfl⟩
    exact loadEvaluation_of_mem h here
  · intro loaded
    obtain ⟨-, found, groups⟩ := loadEvaluation_id loaded
    refine ⟨evaluation.evaluation, (Tables.findEvaluation_some found).1, ?_⟩
    rw [← groups]

theorem findById_ok {s : Store} {user : User} {id : ℕ} {dto : EvaluationDto} :
    EvaluationsController.findById s user id = .ok dto ↔
      ∃ evaluation, s.tables.loadEvaluation id = some evaluation ∧
        (createForUser user).allows .read evaluation.target = true ∧
        dto = EvaluationDto.of evaluation (some evaluation.evaluation.data) (s.tagsOf id)
          ((createForUser user).allows .update evaluation.target) := by
  simp only [EvaluationsController.findById, Lib.do_eq_ok, EvaluationsService.findById_ok,
    throwUnlessCan_ok, pure, Except.pure, Except.ok.injEq]
  constructor
  · rintro ⟨evaluation, loaded, -, can, rfl⟩
    exact ⟨evaluation, loaded, can, by rw [(loadEvaluation_id loaded).1]⟩
  · rintro ⟨evaluation, loaded, can, rfl⟩
    exact ⟨evaluation, loaded, (), can, by rw [(loadEvaluation_id loaded).1]⟩

theorem mem_listing {s : Store} (h : s.tables.Consistent) {user : User} {dto : EvaluationDto} :
    dto ∈ EvaluationsController.findAll s user ↔
      ∃ evaluation, s.tables.loadEvaluation dto.id = some evaluation ∧
        (createForUser user).allows .read evaluation.target = true ∧
        dto = EvaluationDto.of evaluation none (s.tagsOf dto.id)
          ((createForUser user).allows .update evaluation.target) := by
  simp only [EvaluationsController.findAll, List.mem_map, List.mem_filter, mem_findAll h]
  constructor
  · rintro ⟨evaluation, ⟨loaded, can⟩, rfl⟩
    exact ⟨evaluation, loaded, can, rfl⟩
  · rintro ⟨evaluation, loaded, can, same⟩
    have id := (loadEvaluation_id loaded).1
    exact ⟨evaluation, ⟨id ▸ loaded, can⟩, by rw [id, ← same]⟩

/-- An update or a removal of a loaded evaluation is accepted if the permission is there. -/
theorem update_accepted {db : Tables} {user : User} {id : ℕ} {evaluation : LoadedEvaluation}
    (loaded : db.loadEvaluation id = some evaluation) :
    (∃ db', EvaluationsController.update db user id ⟨.undefined, .undefined, .undefined⟩ =
      .ok db') ↔ (createForUser user).allows .update evaluation.target = true := by
  simp only [EvaluationsController.update, EvaluationsService.update, assignColumn, Lib.do_eq_ok,
    EvaluationsService.findById_ok, throwUnlessCan_ok, loaded, Option.some.injEq]
  constructor
  · rintro ⟨db', subject, rfl, checked, may, -⟩
    exact may
  · exact fun can => ⟨_, evaluation, rfl, (), can, _, rfl, _, rfl, _, rfl, rfl⟩

theorem remove_accepted {db : Tables} {user : User} {id : ℕ} {evaluation : LoadedEvaluation}
    (loaded : db.loadEvaluation id = some evaluation) :
    (∃ db', EvaluationsController.remove db user id = .ok db') ↔
      (createForUser user).allows .delete evaluation.target = true := by
  simp only [EvaluationsController.remove, Lib.do_eq_ok, EvaluationsService.findById_ok,
    throwUnlessCan_ok, loaded, Option.some.injEq]
  constructor
  · rintro ⟨db', subject, rfl, checked, may, -⟩
    exact may
  · exact fun can => ⟨_, evaluation, rfl, (), can, rfl⟩

/-- What the listing of evaluations promises. -/
structure Coherent (s : Store) (user : User) : Prop where
  /-- The readable rows, once each and in the order of the table. -/
  ids : (EvaluationsController.findAll s user).map EvaluationDto.id =
    (s.tables.evaluations.map Evaluation.id).filter fun e => s.tables.can .read user.id e
  /-- An entry is what the request for its key answers, without the data. -/
  entries : ∀ dto, dto ∈ EvaluationsController.findAll s user ↔
    ∃ full, EvaluationsController.findById s user dto.id = .ok full ∧
      dto = { full with data := none }
  /-- An entry is marked as editable if changes and the removal are accepted. -/
  editable : ∀ dto ∈ EvaluationsController.findAll s user,
    (dto.editable = true ↔ ∃ db, EvaluationsController.update s.tables user dto.id
      ⟨.undefined, .undefined, .undefined⟩ = .ok db) ∧
    (dto.editable = true ↔ ∃ db, EvaluationsController.remove s.tables user dto.id = .ok db)

theorem can_of_loaded {db : Tables} {user : User} (known : db.findUser user.id = some user)
    {e : ℕ} {evaluation : LoadedEvaluation} (loaded : db.loadEvaluation e = some evaluation)
    (action : Action) :
    db.can action user.id e = (createForUser user).allows action evaluation.target := by
  rw [Tables.can, known, loaded]

theorem listing_coherent {s : Store} (h : s.tables.Consistent) {user : User}
    (known : s.tables.findUser user.id = some user) : Coherent s user := by
  refine ⟨?_, fun dto => ?_, fun dto here => ?_⟩
  · simp only [EvaluationsController.findAll, EvaluationsService.findAll, List.map_map,
      List.filter_map]
    congr 1
    refine List.filter_congr fun row here => ?_
    exact (can_of_loaded known (loadEvaluation_of_mem h here) .read).symm
  · simp only [mem_listing h, findById_ok]
    constructor
    · rintro ⟨evaluation, loaded, can, same⟩
      exact ⟨_, ⟨evaluation, loaded, can, rfl⟩, same⟩
    · rintro ⟨_, ⟨evaluation, loaded, can, rfl⟩, same⟩
      exact ⟨evaluation, loaded, can, same⟩
  · obtain ⟨evaluation, loaded, -, same⟩ := (mem_listing h).mp here
    have mark : dto.editable = (createForUser user).allows .update evaluation.target := by
      rw [same]
      rfl
    have writes : (createForUser user).allows .update evaluation.target = true ↔
        (createForUser user).allows .delete evaluation.target = true :=
      (h.allows_write (by decide) loaded).trans (h.allows_write (by decide) loaded).symm
    rw [mark, update_accepted loaded, remove_accepted loaded]
    exact ⟨Iff.rfl, writes⟩

theorem listing_coherent_sample : ∃ user, sampleStore.tables.findUser 1 = some user ∧
    Coherent sampleStore user := by
  have present : (sampleStore.tables.findUser 1).isSome = true := by decide +kernel
  obtain ⟨user, known⟩ := Option.isSome_iff_exists.mp present
  refine ⟨user, known, listing_coherent sampleStore_consistent.tables ?_⟩
  rw [(Tables.findUser_some known).2, known]

end Backend
