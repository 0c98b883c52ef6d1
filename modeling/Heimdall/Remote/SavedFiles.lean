import Heimdall.Js.Decimal
import Heimdall.Backend.Accounts
import Heimdall.Backend.AppConfig
import Heimdall.Backend.Responses
import Heimdall.Inspec.RoundTrip
import Heimdall.Frontend.Evaluations

/-!
# Saving files to the database

A client saves a loaded file as an upload of its data, and another client loads it by its key.
Until the evaluation is removed, or its name or data is changed, whoever may read it loads what
the original file loads as.
-/
namespace Remote
open Js Backend

/-- The text fields of an upload. -/
structure UploadForm where
  filename : Option JsString
  isPublic : Option JsString
  evaluationTags : Option JsString
  groups : Option JsString

/-- The body behind the interceptor; a missing or empty `public` stays what it is. -/
structure UploadBody where
  filename : Option JsString
  isPublic : Option Bool
  evaluationTags : List JsString
  groups : Option (List JsString)

namespace CreateEvaluationInterceptor

def intercept (body : UploadForm) : UploadBody where
  filename := body.filename
  isPublic := body.isPublic.bind fun text =>
    if text.isEmpty then none else some (decide (text = js "true"))
  evaluationTags := match body.evaluationTags with
    | some text => if text.isEmpty then [] else split 44 text
    | none => []
  groups := body.groups.map (split 44)

end CreateEvaluationInterceptor

namespace UploadBody

def key (text : JsString) : Option ℕ :=
  if !text.isEmpty && text.all isDigit then some (parseDigits text) else none

def keys : Option (List JsString) → Option (Opt (List ℕ))
  | none => some .undefined
  | some texts => (texts.mapM key).map .val

/-- The body is accepted with a name and a decision who may read it. -/
def dto (body : UploadBody) : Option CreateEvaluationDto :=
  match body.filename, body.isPublic, keys body.groups with
  | some filename, some isPublic, some groups =>
      if named : filename ≠ [] then some ⟨filename, isPublic, groups, named⟩ else none
  | _, _, _ => none

end UploadBody

namespace SidebarFileList

/-- The form of `save_to_database`: a private evaluation without tags and groups. -/
def saveForm (filename : JsString) : UploadForm :=
  ⟨some filename, some (js "false"), some [], none⟩

/-- The request of `save_to_database`, as the server takes it. The data is sent as text. -/
def save_to_database (token : ℕ) (filename : JsString) (data : JsVal) (salt now : ℕ) :
    Option StoreCall :=
  let body := CreateEvaluationInterceptor.intercept (saveForm filename)
  body.dto.map fun dto =>
    .other ⟨some token, .createEvaluation dto data.persist, salt, now⟩ body.evaluationTags

theorem save_to_database_eq {token : ℕ} {filename : JsString} {data : JsVal} {salt now : ℕ}
    {call : StoreCall} (saves : save_to_database token filename data salt now = some call) :
    ∃ named : filename ≠ [], call = .other ⟨some token,
      .createEvaluation ⟨filename, false, .undefined, named⟩ data.persist, salt, now⟩ [] := by
  obtain ⟨dto, accepted, rfl⟩ := Option.map_eq_some_iff.mp saves
  change (if named : filename ≠ [] then some _ else none) = some dto at accepted
  split at accepted
  · rename_i named
    cases accepted
    exact ⟨named, rfl⟩
  · cases accepted

end SidebarFileList

/-- The answer of the server, as `load_results` takes it; a key is sent as a string. -/
def received (dto : EvaluationDto) : Option Frontend.IEvaluation :=
  dto.data.map fun data => ⟨decimal dto.id, dto.filename, data⟩

def Rewrites (e : ℕ) : StoreCall → Prop
  | .other call _ => call.request = .removeEvaluation e ∨ ∃ dto,
      call.request = .updateEvaluation e dto ∧ (dto.filename ≠ .undefined ∨ dto.data ≠ .undefined)
  | _ => False

def Holds (s : Store) (e : ℕ) (filename : JsString) (data : JsVal) : Prop :=
  ∃ row, s.tables.findEvaluation e = some row ∧ row.filename = filename ∧ row.data = data

section Kept
variable {cfg : Config} {s : Store} {e : ℕ} {filename : JsString} {data : JsVal}

theorem assignColumn_undefined {α : Type} {old new : α}
    (kept : assignColumn old .undefined = .ok new) : new = old := (Except.ok.inj kept).symm

theorem holds_update {db' : Tables} {user : User} {dto : UpdateEvaluationDto}
    (holds : Holds s e filename data) (noName : dto.filename = .undefined)
    (noData : dto.data = .undefined)
    (accepted : EvaluationsController.update s.tables user e dto = .ok db') :
    ∃ row, db'.findEvaluation e = some row ∧ row.filename = filename ∧ row.data = data := by
  obtain ⟨row, found, named, held⟩ := holds
  simp only [EvaluationsController.update, EvaluationsService.update, Lib.do_eq_ok,
    throwUnlessCan_ok, EvaluationsService.findById_ok, pure, Except.pure, Except.ok.injEq,
    noName, noData] at accepted
  obtain ⟨loaded, known, -, -, name, keptName, content, keptData, isPublic, -, rfl⟩ := accepted
  obtain ⟨id, stored, -⟩ := loadEvaluation_id known
  rw [found] at stored
  cases stored
  rw [Tables.findEvaluation_saveEvaluation, if_pos id.symm, found]
  exact ⟨_, rfl, (assignColumn_undefined keptName).trans named,
    (assignColumn_undefined keptData).trans held⟩

/-- Every other accepted call leaves the row, but for the account that uploaded it. -/
theorem holds_effect {db' : Tables} {caller : Option User} {request : Backend.Request}
    (h : s.tables.Consistent) (holds : Holds s e filename data)
    (effect : Effect cfg s.tables caller request db') (stays : request ≠ .removeEvaluation e)
    (unchanged : ∀ dto, request ≠ .updateEvaluation e dto) :
    ∃ row, db'.findEvaluation e = some row ∧ row.filename = filename ∧ row.data = data := by
  obtain ⟨row, found, named, held⟩ := holds
  cases effect with
  | @removeUser user id body removed known may =>
      exact ⟨{ row with userId := Lib.clear id row.userId },
        by rw [Tables.findEvaluation_destroyUser, found]; rfl, named, held⟩
  | createEvaluation groups loaded =>
      have old : e ≠ s.tables.nextEvaluation := by
        rintro rfl
        exact absurd (h.findEvaluation_next.symm.trans found) (by simp)
      refine ⟨row, ?_, named, held⟩
      rw [Tables.findEvaluation, (addToGroups_frame _ groups _).2.2.2]
      exact (Tables.findEvaluation_insertEvaluation h _ _ _ _ e).trans (by rw [if_neg old, found])
  | @updateEvaluation user id dto old saved known same uploader =>
      have other : e ≠ id := fun same => unchanged dto (same ▸ rfl)
      refine ⟨row, ?_, named, held⟩
      rw [Tables.findEvaluation_saveEvaluation, if_neg, found]
      rwa [same, (Tables.findEvaluation_some known).2]
  | @removeEvaluation user id =>
      have other : e ≠ id := fun same => stays (same ▸ rfl)
      exact ⟨row, by rw [Tables.findEvaluation_destroyEvaluation, if_neg other, found], named, held⟩
  | _ => exact ⟨row, found, named, held⟩

theorem holds_handle {db' : Tables} {call : Call} {evaluationTags : List JsString}
    (h : s.tables.Consistent) (holds : Holds s e filename data)
    (accepted : handle cfg s.tables call = .ok db') (kept : ¬ Rewrites e (.other call evaluationTags)) :
    ∃ row, db'.findEvaluation e = some row ∧ row.filename = filename ∧ row.data = data := by
  simp only [Rewrites, not_or, not_exists, not_and, not_not] at kept
  obtain ⟨stays, unchanged⟩ := kept
  by_cases update : ∃ dto, call.request = .updateEvaluation e dto
  · obtain ⟨dto, request⟩ := update
    have same := unchanged dto request
    obtain ⟨user, -, done⟩ := handle_signedIn accepted (by rw [request]; rintro body ⟨⟩)
    rw [handleAs, request] at done
    exact holds_update holds same.1 same.2 done
  · exact holds_effect h holds (handle_effect accepted) stays fun dto request =>
      update ⟨dto, request⟩

theorem holds_step (h : s.Consistent) (holds : Holds s e filename data) {call : StoreCall}
    (kept : Rewrites e call → ∃ error, s.handle cfg call = .error error) :
    Holds (s.step cfg call) e filename data := by
  have effect := step_effect cfg s call
  cases call with
  | other call evaluationTags =>
      unfold Store.step
      cases result : s.handle cfg (.other call evaluationTags) with
      | error error => exact holds
      | ok s' =>
          have quiet : ¬ Rewrites e (.other call evaluationTags) := fun rewrites => by
            obtain ⟨error, refused⟩ := kept rewrites
            rw [result] at refused
            cases refused
          simp only [Store.handle, Lib.do_eq_ok, pure, Except.pure, Except.ok.injEq] at result
          obtain ⟨db, accepted, rfl⟩ := result
          obtain ⟨row, found, same⟩ := holds_handle h.tables holds accepted quiet
          exact ⟨row, by rw [Store.afterCall_tables]; exact found, same⟩
  | createTag token id dto =>
      rcases effect with same | effect
      · rwa [same]
      · generalize s.step cfg _ = s' at effect
        cases effect
        exact holds
  | removeTag token id =>
      rcases effect with same | effect
      · rwa [same]
      · generalize s.step cfg _ = s' at effect
        cases effect
        exact holds

end Kept

theorem saved_tables {cfg : Config} {s : Store} {token : ℕ} {user : User}
    (signedIn : s.tables.findUser token = some user) {filename : JsString} {data : JsVal}
    {salt now : ℕ} {call : StoreCall}
    (saves : SidebarFileList.save_to_database token filename data salt now = some call) :
    ∃ named : filename ≠ [], (s.step cfg call).tables =
      uploaded s.tables user ⟨filename, false, .undefined, named⟩ data.persist := by
  obtain ⟨named, rfl⟩ := SidebarFileList.save_to_database_eq saves
  refine ⟨named, ?_⟩
  have accepted : handle cfg s.tables ⟨some token,
      .createEvaluation ⟨filename, false, .undefined, named⟩ data.persist, salt, now⟩ =
      .ok (uploaded s.tables user ⟨filename, false, .undefined, named⟩ data.persist) := by
    unfold handle Call.user
    rw [Option.bind_some, signedIn]
    rfl
  simp only [Store.step, Store.handle, accepted]
  exact Store.afterCall_tables _ _ _ _

/-- The upload stores the name and the data, and the uploader may read them. -/
theorem saved_step {cfg : Config} {s : Store} (h : s.Consistent) {token : ℕ} {user : User}
    (signedIn : s.tables.findUser token = some user) {filename : JsString} {data : JsVal}
    {salt now : ℕ} {call : StoreCall}
    (saves : SidebarFileList.save_to_database token filename data salt now = some call) :
    Holds (s.step cfg call) s.tables.nextEvaluation filename data.persist ∧
      (s.step cfg call).tables.May .read user.id s.tables.nextEvaluation := by
  obtain ⟨named, stored⟩ := @saved_tables cfg s token user signedIn filename data salt now call saves
  have row := @uploaded_findEvaluation s.tables user ⟨filename, false, .undefined, named⟩
    data.persist h.tables s.tables.nextEvaluation
  rw [if_pos rfl, ← stored] at row
  obtain rfl := (Tables.findUser_some signedIn).2
  refine ⟨⟨_, row, rfl, rfl⟩, (h.step cfg call).tables.may_read_iff.mpr ⟨user, _, ?_, row, ?_⟩⟩
  · rw [stored, uploaded_findUser, signedIn]
  · exact .inr (.inl rfl)

/-- What a client loads of the answer is what it would load of the original file. -/
theorem load_received [UnicodeTables] {json data : JsVal} (clean : Clean json)
    (loaded : Inspec.loadedData json = some data) {row : Evaluation} {filename : JsString}
    (named : row.filename = filename) (held : row.data = data.persist)
    (client : Frontend.Store) (fileID : Frontend.FileID) :
    client.loadText fileID (Frontend.IEvaluation.options ⟨decimal row.id, row.filename, row.data⟩) =
      client.loadText fileID ⟨filename, some (decimal row.id), some json⟩ := by
  obtain ⟨-, same⟩ := Inspec.convertFile_persist clean loaded
  unfold Frontend.Store.loadText Frontend.IEvaluation.options
  simp only [named, held, same]

/-- After every run without an accepted change of the name or the data, the evaluation is there,
and whoever may read it loads what the original file loads as. -/
theorem saved_file_run [UnicodeTables] (cfg : Config) {s : Store} (h : s.Consistent) {token : ℕ}
    {user : User} (signedIn : s.tables.findUser token = some user) {filename : JsString}
    {json data : JsVal} (clean : Clean json) (loaded : Inspec.loadedData json = some data)
    {salt now : ℕ} {call : StoreCall}
    (saves : SidebarFileList.save_to_database token filename data salt now = some call)
    {later : List StoreCall}
    (kept : Lib.Along (Store.step cfg) (fun now call =>
      Rewrites s.tables.nextEvaluation call → ∃ error, now.handle cfg call = .error error)
      (s.step cfg call) later) :
    let e := s.tables.nextEvaluation
    let after := Lib.run (Store.step cfg) (s.step cfg call) later
    (s.step cfg call).tables.May .read user.id e ∧
    (∃ row, after.tables.findEvaluation e = some row) ∧
    ∀ reader, after.tables.findUser reader.id = some reader → after.tables.May .read reader.id e →
      ∃ dto evaluation, after.respond reader (.evaluation e) = .ok (.evaluation dto) ∧
        received dto = some evaluation ∧
        ∀ (client : Frontend.Store) fileID, client.loadText fileID evaluation.options =
          client.loadText fileID ⟨filename, some (decimal e), some json⟩ := by
  intro e after
  obtain ⟨-, consistent, held⟩ := @Lib.along_of_invariant _ _ (Store.step cfg)
    (fun now => now.Consistent ∧ Holds now e filename data.persist) _ (fun _ _ => True)
    (fun now call inv kept => ⟨inv.1.step cfg call, holds_step inv.1 inv.2 kept⟩)
    (fun _ _ _ _ => trivial) _ ⟨h.step cfg call, (saved_step h signedIn saves).1⟩ later kept
  obtain ⟨row, found, named, content⟩ := held
  refine ⟨(saved_step h signedIn saves).2, ⟨row, found⟩, fun reader known may => ?_⟩
  obtain ⟨reader', evaluation, same, stored, can⟩ := Tables.may_iff_exists.mp may
  rw [known] at same
  cases same
  obtain ⟨id, found', -⟩ := loadEvaluation_id stored
  rw [found] at found'
  cases found'
  have answer := findById_ok.mpr ⟨evaluation, stored, can, rfl⟩
  refine ⟨_, _, by rw [Store.respond, answer]; rfl, rfl, fun client fileID => ?_⟩
  exact (load_received clean loaded named content client fileID).trans (by rw [id])

theorem saved_file_run_sample : ∃ data call,
    Inspec.loadedData Inspec.wrappedJson = some data ∧
    SidebarFileList.save_to_database 1 (js "wrapper.json") data 0 0 = some call ∧
    let saved := sampleStore.step sampleConfig call
    let after := Lib.run (Store.step sampleConfig) saved
      [.createTag (some 1) 2 ⟨js "x", by decide⟩]
    saved.tables.May .read 1 2 ∧ (∃ row, after.tables.findEvaluation 2 = some row) ∧
    ∀ reader, after.tables.findUser reader.id = some reader → after.tables.May .read reader.id 2 →
      ∃ dto evaluation, after.respond reader (.evaluation 2) = .ok (.evaluation dto) ∧
        received dto = some evaluation ∧
        ∀ (client : Frontend.Store) fileID, @Frontend.Store.loadText asciiTables client fileID
          evaluation.options = @Frontend.Store.loadText asciiTables client fileID
            ⟨js "wrapper.json", some (decimal 2), some Inspec.wrappedJson⟩ := by
  obtain ⟨data, accepted, -⟩ := Inspec.toExecJSON_eq_ok.mp Inspec.wrapped_accepted
  have loaded : Inspec.loadedData Inspec.wrappedJson = some data := by
    rw [Inspec.loadedData, accepted]
  have present : (sampleStore.tables.findUser 1).map User.id = some 1 := by decide +kernel
  obtain ⟨user, signedIn, id⟩ := Option.map_eq_some_iff.mp present
  have next : sampleStore.tables.nextEvaluation = 2 := by decide +kernel
  have saves : SidebarFileList.save_to_database 1 (js "wrapper.json") data 0 0 =
      some (.other ⟨some 1, .createEvaluation ⟨js "wrapper.json", false, .undefined, by decide⟩
        data.persist, 0, 0⟩ []) := rfl
  have result := @saved_file_run asciiTables sampleConfig sampleStore sampleStore_consistent 1 user
    signedIn (js "wrapper.json") Inspec.wrappedJson data Inspec.clean_wrappedJson loaded 0 0 _ saves
    [.createTag (some 1) 2 ⟨js "x", by decide⟩] ⟨by rintro ⟨⟩, trivial⟩
  rw [next, id] at result
  exact ⟨data, _, loaded, saves, result⟩

end Remote
