import Heimdall.Lib.Lists
import Heimdall.Frontend.CaatCells
import Heimdall.Frontend.CaatNames

/-!
# When a CAAT export returns

The rows of all files have to be made, and the writer has to take the workbook: it wants a sheet,
names that it allows and, where it looks at the texts, cells that fit.
-/
namespace Frontend
open Js Lib Inspec

section Names
variable [XlsxWriter]

/-- A name that the writer takes. -/
def NameAllowed (name : JsString) : Prop :=
  name.length ≤ sheetNameLimit ∧ ∀ c ∈ name, XlsxWriter.nameChar c = true

/-- A name that fits is left, and the part of the label that it keeps is allowed. -/
def AllowedLeft (taken : List JsString) (label : JsString) : Prop :=
  ShortLeft taken label ∧
    ∀ c ∈ label.take (if caatScheme.first label ∈ taken then 26 else sheetNameLimit),
      XlsxWriter.nameChar c = true

theorem nameChars_of_suffix {s : JsString}
    (suffix : s.all (fun c => decide (c = 32 ∨ c = 40 ∨ c = 41 ∨ isDigit c = true)) = true) :
    ∀ c ∈ s, XlsxWriter.nameChar c = true := fun c inside =>
  XlsxWriter.suffix_chars c (of_decide_eq_true (List.all_eq_true.mp suffix c inside))

theorem renamed_chars (label : JsString) (n : ℕ) :
    (∀ c ∈ renamed label n, XlsxWriter.nameChar c = true) ↔
      ∀ c ∈ label.take 26, XlsxWriter.nameChar c = true := by
  have blank : ∀ c ∈ js " ", XlsxWriter.nameChar c = true := nameChars_of_suffix (by decide)
  have opening : ∀ c ∈ js " (", XlsxWriter.nameChar c = true := nameChars_of_suffix (by decide)
  have closing : ∀ c ∈ js ")", XlsxWriter.nameChar c = true := nameChars_of_suffix (by decide)
  have digits : ∀ c ∈ decimal n, XlsxWriter.nameChar c = true := fun c inside =>
    XlsxWriter.suffix_chars c (.inr (.inr (.inr (isDigit_of_mem_decimal inside))))
  simp only [renamed, List.take_append, List.forall_mem_append]
  constructor
  · rintro ⟨⟨⟨⟨kept, -⟩, -⟩, -⟩, -⟩
    exact kept
  · intro kept
    exact ⟨⟨⟨⟨kept, fun c inside => blank c (List.mem_of_mem_take inside)⟩, opening⟩, digits⟩,
      closing⟩

/-- The name that a file is given is allowed exactly when an allowed one is left. -/
theorem name_allowed_iff {fuel : ℕ} {taken : List JsString} {label name : JsString}
    (named : caatScheme.name fuel taken label = some name) :
    AllowedLeft taken label ↔ NameAllowed name := by
  rw [AllowedLeft, NameAllowed, name_short_iff named]
  refine and_congr_right fun _ => ?_
  obtain ⟨-, ⟨outside, rfl⟩ | ⟨inside, k, -, rfl, -⟩⟩ := Scheme.search_some named
  · rw [if_neg outside]
    exact Iff.rfl
  · rw [if_pos inside]
    exact (renamed_chars label k).symm

end Names

section Files
variable [UnicodeTables] [Calendar] {request : CaatRequest}

theorem labels_of_all {ids : List FileID}
    (all : ∀ fileId ∈ ids, ∃ rows, request.rows fileId = .ok rows) :
    request.labels ids = ids.map (sheetLabel request.allFiles) := by
  induction ids with
  | nil => rfl
  | cons fileId ids ih =>
      obtain ⟨⟨rows, made⟩, rest⟩ := List.forall_mem_cons.mp all
      rw [labels_of_ok made, ih rest, List.map_cons]

omit [Calendar] in
theorem wrapped_of_described (loaded : request.data.Loaded) {fileId : FileID} {hdf : HDFControl}
    (described : hdf ∈ describedViews (request.selected fileId)) :
    ∃ control, hdfWrapControl control = .ok hdf := by
  obtain ⟨c, inside, view⟩ := List.mem_filterMap.mp ((firsts_sublist _ _).subset described)
  have here := StoredControl.view_eq_some.mp view
  obtain ⟨r, cc, -, -, same, wrapped⟩ :=
    loaded.rooted (List.mem_filter.mp inside).1 ⟨_, here⟩
  obtain rfl : hdf = cc.hdf := Option.some.inj (Except.ok.inj (here.symm.trans same))
  exact ⟨cc.data, wrapped⟩

def CaatRequest.filename (request : CaatRequest) (fileId : FileID) : Option JsString :=
  (findFile request.allFiles fileId).map (·.filename)

/-- The cells of the sheet of a file fit exactly when the views that rows are made of leave
room. -/
theorem rows_fit (loaded : request.data.Loaded) {fileId : FileID} {rows : List CAATRow}
    (made : request.rows fileId = .ok rows) : (∀ row ∈ rows, CellsFit row) ↔
      ∀ hdf ∈ describedViews (request.selected fileId),
        LeavesRoom hdf (request.filename fileId) := by
  have describable := ((CaatRequest.rows_returns loaded fileId).mp ⟨rows, made⟩).describable
  obtain ⟨cs, selected, rest⟩ := do_eq_ok.mp made
  obtain ⟨-, rfl⟩ := controls_eq_ok.mp selected
  rw [forall_freshRows _ rest]
  refine forall₂_congr fun hdf described => ?_
  obtain ⟨control, wrapped⟩ := wrapped_of_described loaded described
  obtain ⟨own, here⟩ := (getRow_returns _ wrapped).mpr (describable hdf described)
  constructor
  · exact fun all => leavesRoom_of_fit wrapped here (all own here)
  · exact fun room own' here' => fit_of_leavesRoom wrapped here' room

end Files

section Exports
variable [UnicodeTables] [Calendar] [XlsxWriter] {request : CaatRequest}

/-- A file is selected, the rows of all files are made, an allowed name is left for each file when
it is named, and the cells fit where the writer looks at them. -/
structure CaatRequest.Saves (request : CaatRequest) (takenFilenames : List JsString) : Prop where
  some_file : request.filter.fromFile ≠ []
  exports : ∀ fileId ∈ request.filter.fromFile, request.Exports fileId
  named : caatScheme.Steps AllowedLeft takenFilenames
    (request.filter.fromFile.map (sheetLabel request.allFiles))
  room : XlsxWriter.looksAtTexts = true → ∀ fileId ∈ request.filter.fromFile,
    ∀ hdf ∈ describedViews (request.selected fileId), LeavesRoom hdf (request.filename fileId)

/-- An export saves a file when its workbook is made and the writer takes it. -/
theorem exportCaat_eq_some {fuel : ℕ} {takenFilenames taken : List JsString} :
    (∃ saved, exportCaat fuel request takenFilenames = some (taken, .ok saved)) ↔
      ∃ sheets, caatWorkbook fuel request takenFilenames = some (taken, .ok sheets) ∧
        ∃ wbout, XlsxWriter.write sheets = .ok wbout := by
  simp only [exportCaat, Option.map_eq_some_iff]
  constructor
  · rintro ⟨saved, ⟨taken', outcome⟩, made, same⟩
    obtain ⟨rfl, result⟩ := Prod.mk.inj same
    obtain ⟨sheets, rfl, written⟩ := do_eq_ok.mp result
    exact ⟨sheets, made, returns_bind_pure.mp ⟨saved, written⟩⟩
  · rintro ⟨sheets, made, written⟩
    obtain ⟨saved, result⟩ := returns_bind_pure.mpr written
    exact ⟨saved, (taken, .ok sheets), made, Prod.ext rfl result⟩

/-- The writer takes a workbook that was made exactly when there is a sheet, an allowed name was
left for each file, and the cells fit where it looks at them. -/
theorem write_workbook {fuel : ℕ} {takenFilenames taken : List JsString}
    {sheets : List CAATSheet} (loaded : request.data.Loaded)
    (made : caatWorkbook fuel request takenFilenames = some (taken, .ok sheets)) :
    (∃ wbout, XlsxWriter.write sheets = .ok wbout) ↔ request.Saves takenFilenames := by
  have exported := exportFiles_exported made
  have rows := exported.made.mp ⟨sheets, rfl⟩
  have exports : ∀ fileId ∈ request.filter.fromFile, request.Exports fileId :=
    fun fileId inside => (CaatRequest.rows_returns loaded fileId).mp (rows fileId inside)
  obtain ⟨names, given, -, names_eq⟩ := exported.named
  obtain rfl := names_eq sheets rfl
  rw [labels_of_all rows] at given
  have filled := exported.filled sheets rfl
  have empty : sheets = [] ↔ request.filter.fromFile = [] := by
    rw [← List.length_eq_zero_iff, ← List.length_eq_zero_iff, filled.length_eq]
  have named := Scheme.steps_iff_forall_names name_allowed_iff given
  rw [List.forall_mem_map] at named
  have cells : (∀ sheet ∈ sheets, ∀ row ∈ sheet.rows, CellsFit row) ↔
      ∀ fileId ∈ request.filter.fromFile, ∀ hdf ∈ describedViews (request.selected fileId),
        LeavesRoom hdf (request.filename fileId) := by
    constructor
    · intro fit fileId inside
      obtain ⟨sheet, member, here⟩ := exists_of_forall₂ filled.flip inside
      exact (rows_fit loaded here).mp (fit sheet member)
    · intro room sheet member
      obtain ⟨fileId, inside, here⟩ := exists_of_forall₂ filled member
      exact (rows_fit loaded here).mpr (room fileId inside)
  rw [XlsxWriter.write_returns, ne_eq, empty, cells]
  constructor
  · rintro ⟨some_file, -, allowed, room⟩
    exact ⟨some_file, exports, named.mpr allowed, room⟩
  · intro saves
    exact ⟨saves.some_file, (Scheme.names_nodup given).1, named.mp saves.named, saves.room⟩

/-- An export returns exactly when the rows of all its files are made and the writer takes the
workbook; and the rows of a control are made exactly when it is describable. -/
theorem exportCaat_returns_iff (loaded : request.data.Loaded) (takenFilenames : List JsString) :
    ((∃ fuel taken saved, exportCaat fuel request takenFilenames = some (taken, .ok saved)) ↔
      request.Saves takenFilenames) ∧
    ∀ control hdf filename, hdfWrapControl control = .ok hdf →
      ((∃ rows, getRow hdf filename = .ok rows) ↔ Describable hdf) := by
  refine ⟨?_, fun control hdf filename wrapped => getRow_returns filename wrapped⟩
  simp only [exportCaat_eq_some]
  constructor
  · rintro ⟨fuel, taken, sheets, made, written⟩
    exact (write_workbook loaded made).mp written
  · intro saves
    obtain ⟨fuel, names, named⟩ := names_end takenFilenames
      (request.labels request.filter.fromFile)
    obtain ⟨⟨taken, outcome⟩, returned⟩ := exportFiles_ends named
    obtain ⟨sheets, rfl⟩ := (exportFiles_exported returned).made.mpr fun fileId inside =>
      (CaatRequest.rows_returns loaded fileId).mpr (saves.exports fileId inside)
    exact ⟨fuel, taken, sheets, returned, (write_workbook loaded returned).mpr saves⟩

end Exports

section Samples

def forbidden : JsString := js ":\\/?*[]"

/-- A writer that refuses what the package refuses. -/
def writeXlsx (sheets : List CAATSheet) : Except JsError JsString :=
  if sheets.isEmpty then .error (.error "Workbook is empty")
  else if ∃ sheet ∈ sheets, sheetNameLimit < sheet.name.length then
    .error (.error "Sheet names cannot exceed 31 chars")
  else if ∃ sheet ∈ sheets, ∃ c ∈ sheet.name, c ∈ forbidden then
    .error (.error "Sheet name cannot contain : \\ / ? * [ ]")
  else if (sheets.map (·.name)).Nodup then
    if ∃ sheet ∈ sheets, ∃ row ∈ sheet.rows, ¬ CellsFit row then
      .error (.error "Text length must not exceed 32767 characters")
    else .ok (js "PK")
  else .error (.error "Duplicate Sheet Name")

theorem writeXlsx_returns (sheets : List CAATSheet) :
    (∃ wbout, writeXlsx sheets = .ok wbout) ↔ sheets ≠ [] ∧ (sheets.map (·.name)).Nodup ∧
      (∀ sheet ∈ sheets, sheet.name.length ≤ sheetNameLimit ∧
        ∀ c ∈ sheet.name, decide (c ∉ forbidden) = true) ∧
      (true = true → ∀ sheet ∈ sheets, ∀ row ∈ sheet.rows, CellsFit row) := by
  unfold writeXlsx
  split_ifs with empty long bad distinct large
  · simp_all
  · obtain ⟨sheet, inside, longer⟩ := long
    exact iff_of_false nofun fun takes =>
      absurd (takes.2.2.1 sheet inside).1 (Nat.not_le_of_lt longer)
  · obtain ⟨sheet, inside, c, member, never⟩ := bad
    exact iff_of_false nofun fun takes =>
      of_decide_eq_true ((takes.2.2.1 sheet inside).2 c member) never
  · obtain ⟨sheet, inside, row, member, unfit⟩ := large
    exact iff_of_false nofun fun takes => unfit (takes.2.2.2 rfl sheet inside row member)
  · push Not at long bad large
    refine iff_of_true ⟨_, rfl⟩ ⟨fun none => empty (by simp [none]), distinct, ?_, fun _ => large⟩
    exact fun sheet inside =>
      ⟨long sheet inside, fun c member => decide_eq_true (bad sheet inside c member)⟩
  · exact iff_of_false nofun fun takes => distinct takes.2.1

theorem suffix_allowed (c : CodeUnit) (suffix : c = 32 ∨ c = 40 ∨ c = 41 ∨ isDigit c = true) :
    decide (c ∉ forbidden) = true := by
  have never : forbidden.all (fun c =>
      !decide (c = 32 ∨ c = 40 ∨ c = 41 ∨ isDigit c = true)) = true := by decide
  refine decide_eq_true fun inside => ?_
  have no := List.all_eq_true.mp never c inside
  rw [decide_eq_true suffix] at no
  exact Bool.false_ne_true no

@[reducible] def xlsxWriter : XlsxWriter where
  write := writeXlsx
  nameChar c := decide (c ∉ forbidden)
  looksAtTexts := true
  suffix_chars := suffix_allowed
  write_returns := writeXlsx_returns

theorem exportCaat_returns_iff_sample :
    (∃ fuel taken saved, @exportCaat noCalendar asciiTables xlsxWriter fuel caatSample [] =
      some (taken, .ok saved)) ∧
    ∃ hdf rows, @hdfWrapControl asciiTables (.exec (bareControl "C-1" [])) = .ok hdf ∧
      @getRow noCalendar hdf none = .ok rows := by
  have both := @exportCaat_returns_iff asciiTables noCalendar xlsxWriter caatSample
    (sampleStore_loaded _) []
  constructor
  · apply both.1.mpr
    have answers := (@controls_eq_ok asciiTables caatSample.data caatSample.filter _).mp rfl
    refine @CaatRequest.Saves.mk asciiTables xlsxWriter _ _ (List.cons_ne_nil _ _) ?_ ?_ ?_
    · intro fileId inside
      obtain rfl := List.mem_singleton.mp inside
      refine @CaatRequest.Exports.mk asciiTables _ _ answers.1 ?_ ?_
      · exact StoredControl.rooted_of_all (by decide +kernel)
      · decide +kernel
    · refine ⟨⟨.inl List.not_mem_nil, ?_⟩, fun _ _ _ => trivial⟩
      exact List.all_eq_true.mp (by decide +kernel)
    · intro _ fileId inside
      obtain rfl := List.mem_singleton.mp inside
      decide +kernel
  · obtain ⟨hdf, wrapped⟩ : ∃ hdf, @hdfWrapControl asciiTables (.exec (bareControl "C-1" [])) =
      .ok hdf := ⟨_, rfl⟩
    obtain ⟨wraps, described⟩ := @hdfWrapControl_wraps asciiTables _ _ wrapped
    have describable : Describable hdf := by
      refine ⟨?_, ?_, ?_⟩
      · rw [wraps]
        decide +kernel
      · rw [wraps, described]
        decide +kernel
      · rw [wraps, described]
        decide +kernel
    obtain ⟨rows, made⟩ := (both.2 _ hdf none wrapped).mpr describable
    exact ⟨hdf, rows, wrapped, made⟩

def plainProfile : ProfileJSON where
  name := js "plain"
  controls := [{
    code := []
    desc := .undefined
    descriptions := .undefined
    id := js "C-1"
    impact := .finite (1 / 2)
    tags := ⟨[], []⟩
    title := .undefined
    results := .absent
    waiver_data := .undefined }]

def profileRequest : CaatRequest where
  allFiles := [⟨js "p", js "profile.json"⟩]
  data := ⟨[], (@contextualizeProfile asciiTables plainProfile).toOption.toList.map
    fun graph => ⟨js "p", graph⟩⟩
  filter := topFilter (js "p")

theorem profileRequest_loaded : @InspecData.Loaded asciiTables profileRequest.data := by
  refine @InspecData.Loaded.mk asciiTables _ (List.forall_mem_nil _) fun file inside => ?_
  obtain ⟨graph, made, rfl⟩ := List.mem_map.mp inside
  refine ⟨plainProfile, ?_⟩
  cases here : @contextualizeProfile asciiTables plainProfile with
  | error e =>
      rw [here] at made
      cases made
  | ok g =>
      rw [here] at made
      rw [List.mem_singleton.mp made]

/-- A control of a profile file that has no results makes the export throw. -/
theorem exportCaat_throws : @InspecData.Loaded asciiTables profileRequest.data ∧
    ¬ ∃ fuel taken saved, @exportCaat noCalendar asciiTables xlsxWriter fuel profileRequest [] =
      some (taken, .ok saved) := by
  refine ⟨profileRequest_loaded, ?_⟩
  rintro ⟨fuel, taken, returned⟩
  obtain ⟨sheets, made, -⟩ :=
    (@exportCaat_eq_some asciiTables noCalendar xlsxWriter _ _ _ _).mp returned
  have exported := @exportFiles_exported asciiTables noCalendar _ _ _ _ _ made
  have rows := (@Exported.made asciiTables noCalendar _ _ _ _ _ exported).mp ⟨sheets, rfl⟩ (js "p")
    List.mem_cons_self
  have exports := (@CaatRequest.rows_returns asciiTables noCalendar _ profileRequest_loaded _).mp rows
  have describable := @CaatRequest.Exports.describable asciiTables _ _ exports
  revert describable
  decide +kernel

end Samples
end Frontend
