import Heimdall.Inspec.CanonizedTags
import Heimdall.Frontend.ExportCaat

/-!
# When the rows of a CAAT export are made

A row assumes results, a status for each of them, and texts for the check and the fix. The rows
of a file are made when this holds of the first root of every id that its filter selects.
-/
namespace Frontend
open Js Lib Inspec

section Fields

/-- A field that `fix` accepts. -/
def TextOrNone (x : JsVal) : Prop := x.truthy = false ∨ x.typeOf = .string

instance (x : JsVal) : Decidable (TextOrNone x) := inferInstanceAs (Decidable (_ ∨ _))

theorem fixValue_returns (x : JsVal) : (∃ text, fixValue x = .ok text) ↔ TextOrNone x := by
  unfold fixValue TextOrNone
  by_cases there : x.truthy = true
  · rw [if_pos there]
    cases x <;> simp_all [JsVal.typeOf]
  · rw [if_neg there]
    exact iff_of_true ⟨_, rfl⟩ (.inl (Bool.eq_false_iff.mpr there))

/-- An object whose properties are all strings. -/
def AllStrings (x : JsVal) : Prop :=
  ∃ props, x = .obj props [] ∧ ∀ key value, props.lookup key = some value → ∃ s, value = .str s

theorem allStrings_empty : AllStrings (.object []) := ⟨[], rfl, fun _ _ found => nomatch found⟩

theorem AllStrings.assign {x : JsVal} (strings : AllStrings x) (key s : JsString) :
    AllStrings (x.assign key (.str s)) := by
  obtain ⟨props, rfl, each⟩ := strings
  unfold JsVal.assign
  by_cases proto : key = js "__proto__"
  · exact ⟨props, by simp [proto], each⟩
  · refine ⟨JsVal.setProp props key (.str s), by simp [proto], fun other value found => ?_⟩
    rw [JsVal.lookup_setProp] at found
    split at found
    · exact ⟨s, (Option.some.inj found).symm⟩
    · exact each other value found

theorem AllStrings.get {x : JsVal} (strings : AllStrings x) (key : JsString) :
    TextOrNone (x.get key) := by
  obtain ⟨props, rfl, each⟩ := strings
  have read : (JsVal.obj props []).get key = (props.lookup key).getD .undefined := rfl
  rw [read]
  cases found : props.lookup key with
  | none => exact .inl rfl
  | some value =>
      obtain ⟨s, rfl⟩ := each key value found
      exact .inr rfl

theorem allStrings_described (control : AnyControl) : AllStrings control.described := by
  cases control with
  | exec control =>
      show AllStrings (ExecControl.descriptions control)
      unfold ExecControl.descriptions
      cases control.descriptions with
      | val descriptions =>
          apply List.foldlRecOn descriptions _ allStrings_empty
          intro d strings x _
          exact strings.assign x.label x.data
      | _ => exact allStrings_empty
  | profile control =>
      simp only [AnyControl.described]
      split
      · unfold ProfileControl.descriptions
        cases control.descriptions with
        | val descriptions =>
            apply List.foldlRecOn descriptions.props _ allStrings_empty
            intro d strings entry _
            split
            · exact strings.assign entry.1 _
            · exact strings
        | _ => exact allStrings_empty
      · exact allStrings_empty

theorem upperStatus_returns (status : Opt ControlResultStatus) :
    (∃ text, upperStatus status = .ok text) ↔ status.isNil = false := by
  cases status with
  | val s => cases s <;> simp [upperStatus, Opt.isNil]
  | _ => simp [upperStatus, Opt.isNil]

theorem resultText_returns (result : ControlResult) :
    (∃ text, resultText result = .ok text) ↔ result.status.isNil = false := by
  rw [← upperStatus_returns]
  unfold resultText
  constructor
  · rintro ⟨text, returned⟩
    obtain ⟨status, here, -⟩ := do_eq_ok.mp returned
    exact ⟨status, here⟩
  · rintro ⟨status, here⟩
    rw [here]
    by_cases message : result.message.truthy = true
    · exact ⟨_, if_pos message⟩
    · exact ⟨_, if_neg message⟩

end Fields

section Rows

/-- The control has results, and each of them a status. -/
def HasStatuses (control : AnyControl) : Prop :=
  match control.results with
  | some results => ∀ r ∈ results, r.status.isNil = false
  | none => False

instance : DecidablePred HasStatuses := fun control =>
  match results : control.results with
  | some items => decidable_of_iff (∀ r ∈ items, r.status.isNil = false)
      (by rw [HasStatuses, results])
  | none => isFalse (by rw [HasStatuses, results]; exact id)

/-- What a row needs of its control: results, each with a status, and texts where the check and
the fix are read. -/
structure Describable (hdf : HDFControl) : Prop where
  results : HasStatuses hdf.wraps
  check : TextOrNone (orValue (hdf.descriptions.get (js "check")) (hdf.wraps.tags.get (js "check")))
  fix : TextOrNone (orValue (hdf.descriptions.get (js "fix")) (hdf.wraps.tags.get (js "fix")))

instance (hdf : HDFControl) : Decidable (Describable hdf) :=
  decidable_of_iff (HasStatuses hdf.wraps ∧
      TextOrNone (orValue (hdf.descriptions.get (js "check")) (hdf.wraps.tags.get (js "check"))) ∧
      TextOrNone (orValue (hdf.descriptions.get (js "fix")) (hdf.wraps.tags.get (js "fix"))))
    ⟨fun ⟨results, check, fix⟩ => ⟨results, check, fix⟩,
      fun ⟨results, check, fix⟩ => ⟨results, check, fix⟩⟩

theorem createTestResultDescription_returns (hdf : HDFControl) :
    (∃ text, createTestResultDescription hdf = .ok text) ↔ HasStatuses hdf.wraps := by
  unfold createTestResultDescription HasStatuses
  cases hdf.wraps.results with
  | none => exact iff_of_false (fun returned => nomatch returned) id
  | some results =>
      rw [returns_bind_pure]
      constructor
      · rintro ⟨texts, made⟩
        intro r inside
        obtain ⟨text, -, written⟩ := mapM_eq_ok_of_mem made inside
        exact (resultText_returns r).mp ⟨text, written⟩
      · intro statuses
        exact mapM_returns fun r inside => (resultText_returns r).mpr (statuses r inside)

variable [UnicodeTables] {control : AnyControl} {hdf : HDFControl}

theorem createCaveat_returns (wrapped : hdfWrapControl control = .ok hdf) :
    ∃ text, createCaveat hdf = .ok text := by
  have readable : TextOrNone (hdf.descriptions.get (js "caveat")) := by
    rw [(hdfWrapControl_wraps wrapped).2]
    exact (allStrings_described control).get _
  obtain ⟨text, fixed⟩ := (fixValue_returns _).mpr readable
  unfold createCaveat
  by_cases there : (hdf.descriptions.get (js "caveat")).truthy = true
  · rw [if_pos there, fixed]
    exact ⟨_, rfl⟩
  · rw [if_neg there]
    exact ⟨_, rfl⟩

/-- A wrapped control has a canonical text that is not empty. -/
theorem exists_formatted (wrapped : hdfWrapControl control = .ok hdf) :
    ∃ formatted, formatted ∈
      (canonized_nist hdf.parsedNistTags caatConfig).filter fun s => !s.isEmpty := by
  obtain ⟨t, tag⟩ := List.exists_mem_of_ne_nil _ (hdfWrapControl_tags wrapped)
  obtain ⟨s, parsed⟩ := hdfWrapControl_parsed wrapped t tag
  refine ⟨t.canonize caatConfig, List.mem_filter.mpr ⟨mem_canonized_nist.mpr ⟨t, tag, rfl⟩, ?_⟩⟩
  unfold NistControl.canonize
  rcases parse_nist_shape parsed with ⟨a, b, -, chain⟩ | ⟨a, b, num, specs, -, chain⟩
  · rw [chain]
    rfl
  · rw [chain]
    rfl

variable [Calendar] (filename : Option JsString)

theorem caatRow_returns (wrapped : hdfWrapControl control = .ok hdf) (formatted : JsString) :
    (∃ row, caatRow hdf filename formatted = .ok row) ↔ Describable hdf := by
  unfold caatRow
  constructor
  · rintro ⟨row, returned⟩
    obtain ⟨weakness, -, rest⟩ := do_eq_ok.mp returned
    obtain ⟨objective, check, rest⟩ := do_eq_ok.mp rest
    obtain ⟨description, results, rest⟩ := do_eq_ok.mp rest
    obtain ⟨recommended, fix, -⟩ := do_eq_ok.mp rest
    exact ⟨(createTestResultDescription_returns hdf).mp ⟨description, results⟩,
      (fixValue_returns _).mp ⟨objective, check⟩, (fixValue_returns _).mp ⟨recommended, fix⟩⟩
  · intro describable
    obtain ⟨weakness, caveat⟩ := createCaveat_returns wrapped
    obtain ⟨objective, check⟩ := (fixValue_returns _).mpr describable.check
    obtain ⟨description, results⟩ :=
      (createTestResultDescription_returns hdf).mpr describable.results
    obtain ⟨recommended, fix⟩ := (fixValue_returns _).mpr describable.fix
    rw [caveat, check, results, fix]
    exact ⟨_, rfl⟩

/-- The rows of a wrapped control are made exactly when it is describable. -/
theorem getRow_returns (wrapped : hdfWrapControl control = .ok hdf) :
    (∃ rows, getRow hdf filename = .ok rows) ↔ Describable hdf := by
  constructor
  · rintro ⟨rows, made⟩
    obtain ⟨formatted, inside⟩ := exists_formatted wrapped
    obtain ⟨row, -, here⟩ := mapM_eq_ok_of_mem made inside
    exact (caatRow_returns filename wrapped formatted).mp ⟨row, here⟩
  · intro describable
    exact mapM_returns fun formatted _ =>
      (caatRow_returns filename wrapped formatted).mpr describable

end Rows

section Files

def wrappedId (hdf : HDFControl) : JsString := hdf.wraps.id

/-- The HDF views of the roots. -/
def rootViews (cs : List StoredControl) : List HDFControl := cs.filterMap StoredControl.view

/-- The views that rows are made of: the first of every id. -/
def describedViews (cs : List StoredControl) : List HDFControl :=
  firsts wrappedId (rootViews cs) []

theorem rootViews_cons {c : StoredControl} {hdf : HDFControl} (here : c.rootHdf = .ok (some hdf))
    (cs : List StoredControl) : rootViews (c :: cs) = hdf :: rootViews cs :=
  List.filterMap_cons_some (StoredControl.view_of_ok here)

variable [UnicodeTables] [Calendar] (filename : Option JsString)

/-- Rows are made exactly when every root is found and the first view of every id is
describable. -/
theorem freshRows_returns {cs : List StoredControl} (found : ∀ c ∈ cs, c.Rooted →
      ∃ control hdf, c.rootHdf = .ok (some hdf) ∧ hdfWrapControl control = .ok hdf)
    (hitIds : List JsString) : (∃ rows, freshRows filename cs hitIds = .ok rows) ↔
      (∀ c ∈ cs, c.Rooted) ∧ ∀ hdf ∈ firsts wrappedId (rootViews cs) hitIds, Describable hdf := by
  induction cs generalizing hitIds with
  | nil => exact iff_of_true ⟨[], rfl⟩ ⟨List.forall_mem_nil _, List.forall_mem_nil _⟩
  | cons c cs ih =>
      rw [List.forall_mem_cons] at found ⊢
      by_cases rooted : c.Rooted
      · obtain ⟨control, hdf, here, wrapped⟩ := found.1 rooted
        have later := ih found.2
        rw [freshRows, here, rootViews_cons here]
        by_cases hit : wrappedId hdf ∈ hitIds
        · rw [firsts_cons_of_seen hit]
          simp only [rooted, true_and]
          rw [← later]
          show (∃ rows, (if wrappedId hdf ∈ hitIds then _ else _) = _) ↔ _
          rw [if_pos hit]
        · rw [firsts_cons_of_new hit, List.forall_mem_cons, ← getRow_returns filename wrapped]
          simp only [rooted, true_and]
          rw [and_left_comm, ← later]
          show (∃ rows, (if wrappedId hdf ∈ hitIds then _ else _) = _) ↔ _
          rw [if_neg hit]
          constructor
          · rintro ⟨rows, returned⟩
            obtain ⟨first, made, rest⟩ := do_eq_ok.mp returned
            obtain ⟨rest, after, -⟩ := do_eq_ok.mp rest
            exact ⟨⟨first, made⟩, rest, after⟩
          · rintro ⟨⟨first, made⟩, rest, after⟩
            exact ⟨first ++ rest, do_eq_ok.mpr ⟨first, made, do_eq_ok.mpr ⟨rest, after, rfl⟩⟩⟩
      · refine iff_of_false ?_ fun both => rooted both.1.1
        rintro ⟨rows, returned⟩
        obtain ⟨hdf, here, -⟩ := do_eq_ok.mp returned
        exact rooted ⟨hdf, here⟩

omit [UnicodeTables] in
/-- What holds of all rows is what holds of those of the first view of every id. -/
theorem forall_freshRows {cs : List StoredControl} {hitIds : List JsString} {rows : List CAATRow}
    (made : freshRows filename cs hitIds = .ok rows) (P : CAATRow → Prop) :
    (∀ row ∈ rows, P row) ↔ ∀ hdf ∈ firsts wrappedId (rootViews cs) hitIds,
      ∀ own, getRow hdf filename = .ok own → ∀ row ∈ own, P row := by
  induction cs generalizing hitIds rows with
  | nil =>
      cases made
      exact iff_of_true (List.forall_mem_nil _) (List.forall_mem_nil _)
  | cons c cs ih =>
      obtain ⟨view, here, rest⟩ := do_eq_ok.mp made
      cases view with
      | none => cases rest
      | some hdf =>
          rw [rootViews_cons here]
          change (if wrappedId hdf ∈ hitIds then _ else _) = _ at rest
          by_cases hit : wrappedId hdf ∈ hitIds
          · rw [if_pos hit] at rest
            rw [firsts_cons_of_seen hit]
            exact ih rest
          · rw [if_neg hit] at rest
            obtain ⟨own, first, rest⟩ := do_eq_ok.mp rest
            obtain ⟨later, after, done⟩ := do_eq_ok.mp rest
            have others := ih after
            rw [pure_eq_ok.mp done, List.forall_mem_append, firsts_cons_of_new hit,
              List.forall_mem_cons, others]
            change _ ∧ (∀ hdf ∈ firsts wrappedId _ (wrappedId _ :: _), _) ↔ _
            refine and_congr_left fun _ => ⟨fun all own' again => ?_, fun all => all own first⟩
            rwa [← Except.ok.inj (first.symm.trans again)]

/-- The controls of a file that the filter of a request selects. -/
def CaatRequest.selected (request : CaatRequest) (fileId : FileID) : List StoredControl :=
  (allControls request.data [fileId]).filter
    (accepts { request.filter with fromFile := [fileId] }.selects)

/-- The filter answers on the controls of the file, the roots of those it selects are found, and
the views that rows are made of are describable. -/
structure CaatRequest.Exports (request : CaatRequest) (fileId : FileID) : Prop where
  answers : ∀ c ∈ allControls request.data [fileId],
    Answers { request.filter with fromFile := [fileId] }.selects c
  rooted : ∀ c ∈ request.selected fileId, c.Rooted
  describable : ∀ hdf ∈ describedViews (request.selected fileId), Describable hdf

theorem CaatRequest.rows_returns {request : CaatRequest} (loaded : request.data.Loaded)
    (fileId : FileID) : (∃ rows, request.rows fileId = .ok rows) ↔ request.Exports fileId := by
  have found : ∀ c ∈ request.selected fileId, c.Rooted →
      ∃ control hdf, c.rootHdf = .ok (some hdf) ∧ hdfWrapControl control = .ok hdf := by
    intro c inside rooted
    obtain ⟨r, cc, -, -, here, wrapped⟩ := loaded.rooted (List.mem_filter.mp inside).1 rooted
    exact ⟨cc.data, cc.hdf, here, wrapped⟩
  have made := freshRows_returns ((findFile request.allFiles fileId).map (·.filename)) found []
  constructor
  · rintro ⟨rows, returned⟩
    obtain ⟨cs, selected, rest⟩ := do_eq_ok.mp returned
    obtain ⟨answers, rfl⟩ := controls_eq_ok.mp selected
    obtain ⟨rooted, describable⟩ := made.mp ⟨rows, rest⟩
    exact ⟨answers, rooted, describable⟩
  · rintro ⟨answers, rooted, describable⟩
    obtain ⟨rows, returned⟩ := made.mpr ⟨rooted, describable⟩
    exact ⟨rows, do_eq_ok.mpr ⟨_, controls_eq_ok.mpr ⟨answers, rfl⟩, returned⟩⟩

end Files

section Turns
variable [UnicodeTables] [Calendar] {request : CaatRequest}

/-- The files that an export names: up to the first whose rows throw. -/
def CaatRequest.reached (request : CaatRequest) : List FileID → List FileID
  | [] => []
  | fileId :: rest =>
      match request.rows fileId with
      | .ok _ => fileId :: reached request rest
      | .error _ => [fileId]

/-- The labels of the files that are named. -/
def CaatRequest.labels (request : CaatRequest) (ids : List FileID) : List JsString :=
  (request.reached ids).map (sheetLabel request.allFiles)

/-- What an export leaves behind: the names given to the files that it reached, which are those
of the sheets when all rows are made. -/
structure Exported (request : CaatRequest) (fuel : ℕ) (taken : List JsString) (ids : List FileID)
    (result : List JsString × Except JsError (List CAATSheet)) : Prop where
  named : ∃ names, caatScheme.names fuel taken (request.labels ids) = some names ∧
    result.1 = taken ++ names ∧ ∀ sheets, result.2 = .ok sheets → sheets.map (·.name) = names
  made : (∃ sheets, result.2 = .ok sheets) ↔ ∀ fileId ∈ ids, ∃ rows, request.rows fileId = .ok rows
  filled : ∀ sheets, result.2 = .ok sheets →
    List.Forall₂ (fun fileId sheet => request.rows fileId = .ok sheet.rows) ids sheets

section Turn
variable {fuel : ℕ} {taken : List JsString} {fileId : FileID} {ids : List FileID} {name : JsString}

theorem labels_of_error {thrown : JsError} (rows : request.rows fileId = .error thrown) :
    request.labels (fileId :: ids) = [sheetLabel request.allFiles fileId] := by
  rw [CaatRequest.labels, CaatRequest.reached, rows]
  rfl

theorem labels_of_ok {made : List CAATRow} (rows : request.rows fileId = .ok made) :
    request.labels (fileId :: ids) =
      sheetLabel request.allFiles fileId :: request.labels ids := by
  rw [CaatRequest.labels, CaatRequest.reached, rows]
  rfl

/-- A file whose rows throw ends the export. -/
theorem exported_of_error {thrown : JsError}
    (here : caatScheme.name fuel taken (sheetLabel request.allFiles fileId) = some name)
    (rows : request.rows fileId = .error thrown) :
    Exported request fuel taken (fileId :: ids) (taken ++ [name], .error thrown) := by
  refine ⟨⟨[name], ?_, rfl, fun sheets same => nomatch same⟩, ?_, fun sheets same => nomatch same⟩
  · rw [labels_of_error rows]
    exact Scheme.names_cons_eq_some.mpr ⟨name, [], here, rfl, rfl⟩
  · refine iff_of_false (fun made => nomatch made) fun all => ?_
    obtain ⟨_, made⟩ := all fileId List.mem_cons_self
    rw [rows] at made
    cases made

/-- The sheet of a file whose rows are made comes before those of the later files. -/
theorem Exported.cons {made : List CAATRow} {last : List JsString}
    {later : Except JsError (List CAATSheet)}
    (here : caatScheme.name fuel taken (sheetLabel request.allFiles fileId) = some name)
    (rows : request.rows fileId = .ok made)
    (rest : Exported request fuel (taken ++ [name]) ids (last, later)) :
    Exported request fuel taken (fileId :: ids)
      (last, later.map fun sheets => ⟨name, made⟩ :: sheets) := by
  obtain ⟨⟨names, named, same, sheets⟩, all, filled⟩ := rest
  refine ⟨⟨name :: names, ?_, ?_, ?_⟩, ?_, ?_⟩
  · rw [labels_of_ok rows]
    exact Scheme.names_cons_eq_some.mpr ⟨name, names, here, named, rfl⟩
  · show last = _
    rw [List.append_cons]
    exact same
  · intro both same
    obtain ⟨rest, made, rfl⟩ := map_eq_ok.mp same
    exact congrArg (name :: ·) (sheets rest made)
  · rw [List.forall_mem_cons, ← all]
    constructor
    · rintro ⟨both, same⟩
      obtain ⟨rest, after, -⟩ := map_eq_ok.mp same
      exact ⟨⟨made, rows⟩, rest, after⟩
    · rintro ⟨-, rest, after⟩
      exact ⟨_, map_eq_ok.mpr ⟨rest, after, rfl⟩⟩
  · intro both same
    obtain ⟨rest, after, rfl⟩ := map_eq_ok.mp same
    exact .cons rows (filled rest after)

end Turn

theorem exportFiles_exported {fuel : ℕ} {taken : List JsString} {ids : List FileID}
    {result : List JsString × Except JsError (List CAATSheet)}
    (returned : exportFiles fuel request taken ids = some result) :
    Exported request fuel taken ids result := by
  induction ids generalizing taken result with
  | nil =>
      cases returned
      refine ⟨⟨[], rfl, (List.append_nil _).symm, fun sheets same => ?_⟩, ?_, fun sheets same => ?_⟩
      · cases same
        rfl
      · exact iff_of_true ⟨[], rfl⟩ (List.forall_mem_nil _)
      · cases same
        exact .nil
  | cons fileId ids ih =>
      obtain ⟨name, here, rest⟩ := Option.bind_eq_some_iff.mp returned
      cases rows : request.rows fileId with
      | error thrown =>
          rw [rows] at rest
          cases rest
          exact exported_of_error here rows
      | ok made =>
          rw [rows] at rest
          obtain ⟨⟨last, later⟩, there, done⟩ := Option.bind_eq_some_iff.mp rest
          cases done
          exact (ih there).cons here rows

theorem exportFiles_ends {fuel : ℕ} {taken names : List JsString} {ids : List FileID}
    (named : caatScheme.names fuel taken (request.labels ids) = some names) :
    ∃ result, exportFiles fuel request taken ids = some result := by
  induction ids generalizing taken names with
  | nil => exact ⟨_, rfl⟩
  | cons fileId ids ih =>
      cases rows : request.rows fileId with
      | error thrown =>
          rw [labels_of_error rows] at named
          obtain ⟨name, later, here, -, -⟩ := Scheme.names_cons_eq_some.mp named
          refine ⟨(taken ++ [name], .error thrown), Option.bind_eq_some_iff.mpr ⟨name, here, ?_⟩⟩
          rw [rows]
          rfl
      | ok made =>
          rw [labels_of_ok rows] at named
          obtain ⟨name, later, here, there, -⟩ := Scheme.names_cons_eq_some.mp named
          obtain ⟨result, rest⟩ := ih there
          refine ⟨(result.1, result.2.map fun sheets => ⟨name, made⟩ :: sheets),
            Option.bind_eq_some_iff.mpr ⟨name, here, ?_⟩⟩
          rw [rows]
          exact Option.bind_eq_some_iff.mpr ⟨result, rest, rfl⟩

end Turns

section Samples

/-- A reader for whom no time is valid. -/
@[reducible] def noCalendar : Calendar :=
  ⟨fun _ => none, ⟨0, 1, 2021, by decide, by decide, by decide⟩⟩

def caatSample : CaatRequest where
  allFiles := [⟨js "f", js "scan.json"⟩]
  data := waivedStore
  filter := topFilter (js "f")

end Samples
end Frontend
