import Heimdall.Lib.Naming
import Heimdall.Js.Decimal
import Heimdall.Inspec.Canonize
import Heimdall.Frontend.ExportUtil
import Heimdall.Frontend.LoadedData

/-!
# The CAAT spreadsheet

A sheet for each file of a filter, with a row for every canonical NIST text of every control.
The names that the sheets were given stay taken for the exports that follow.
-/
namespace Frontend
open Js Lib Inspec

section Cells

def MAX_CELL_SIZE : ℕ := 32000

/-- `.replace(/(\r\n|\n|\r)/gm, "\r\n")` -/
def windowsLines : JsString → JsString
  | 13 :: 10 :: rest => 13 :: 10 :: windowsLines rest
  | 13 :: rest => 13 :: 10 :: windowsLines rest
  | 10 :: rest => 13 :: 10 :: windowsLines rest
  | c :: rest => c :: windowsLines rest
  | [] => []

def fixText (x : JsString) : JsString := (windowsLines x).take MAX_CELL_SIZE

/-- `fix(x)` for a string, `null` or `undefined`. -/
def fix (x : Opt JsString) : JsString := fixText (x.toOption.getD [])

/-- `fix(x)` for a field of any type; `replace` exists for strings only. -/
def fixValue (x : JsVal) : Except JsError JsString :=
  if x.truthy then
    match x with
    | .str s => .ok (fixText s)
    | _ => .error (.typeError "(x || \"\").replace is not a function")
  else .ok (fixText [])

def orValue (a b : JsVal) : JsVal := if a.truthy then a else b

/-- A day as the getters of `Date` tell it, the month counted from 0. -/
structure CalendarDay where
  month : ℕ
  date : ℕ
  fullYear : ℤ
  month_lt : month < 12
  date_le : date ≤ 31
  year_bounds : -271821 ≤ fullYear ∧ fullYear ≤ 275760

/-- `new Date(s)` in the reader's time zone, `none` where it is invalid; and `new Date()`. -/
class Calendar where
  day : JsString → Option CalendarDay
  today : CalendarDay

/-- Outputs the given number as a 2-digit string. -/
def padTwoDigits (s : ℕ) : JsString := if s < 10 then js "0" ++ decimal s else decimal s

/-- The parts of an invalid date are `NaN`. -/
def convertDate (d : Option CalendarDay) (delimiter : JsString) : JsString :=
  match d with
  | some d => join delimiter
      [padTwoDigits (d.month + 1), padTwoDigits d.date, signedDecimal d.fullYear]
  | none => join delimiter [js "NaN", js "NaN", js "NaN"]

end Cells

section Rows

def createCaveat (hdf : HDFControl) : Except JsError JsString := do
  let caveat ← if (hdf.descriptions.get (js "caveat")).truthy then do
      let text ← fixValue (hdf.descriptions.get (js "caveat"))
      pure (js "(Caveat: " ++ text ++ js ")\n")
    else pure []
  return caveat ++ fix hdf.wraps.desc

def createTestResult (hdf : HDFControl) : JsString :=
  if hdf.status = .passed then js "Satisfied" else js "Other Than Satisfied"

def upperStatus : Opt ControlResultStatus → Except JsError JsString
  | .val .error => .ok (js "ERROR")
  | .val .failed => .ok (js "FAILED")
  | .val .passed => .ok (js "PASSED")
  | .val .skipped => .ok (js "SKIPPED")
  | _ => .error (.typeError "Cannot read properties of undefined (reading 'toUpperCase')")

def resultText (result : ControlResult) : Except JsError JsString := do
  let status ← upperStatus result.status
  if result.message.truthy then
    return status ++ js " -- Test: " ++ result.code_desc ++ js "\r\nMessage: " ++
      result.message.inTemplate ++ js "\r\n\r\n"
  else return status ++ js " -- Test: " ++ result.code_desc ++ js "\r\n\r\n"

def createTestResultDescription (hdf : HDFControl) : Except JsError JsString :=
  match hdf.wraps.results with
  | some results => do
      let texts ← results.mapM resultText
      return hdf.status.text ++ js ":\r\n\r\n" ++ texts.flatten
  | none => .error (.typeError "Cannot read properties of undefined (reading 'forEach')")

def createImpact (hdf : HDFControl) : JsString :=
  let controlSeverity := if hdf.severity = .medium then js "moderate" else hdf.severity.text
  fix (.val (if hdf.wraps.impact.isZero then js "none" else controlSeverity))

def start_time (hdf : HDFControl) : Option JsString :=
  hdf.segments.bind fun segments => segments.head?.map (·.start_time)

/-- The cells of a row under the names of their columns. -/
abbrev CAATRow := List (JsString × JsString)

def caatConfig : CanonizationConfig where
  max_specifiers := some (.finite 3)
  pad_zeros := some (some true)
  allow_letters := some (some false)
  add_spaces := some (some false)

variable [Calendar]

def dateCell (hdf : HDFControl) : CAATRow :=
  match (start_time hdf).filter fun time => !time.isEmpty with
  | some time => [(js "Date Identified", convertDate (Calendar.day time) (js "/"))]
  | none => []

def caatRow (hdf : HDFControl) (filename : Option JsString) (formatted : JsString) :
    Except JsError CAATRow := do
  let weakness ← createCaveat hdf
  let objective ← fixValue (orValue (hdf.descriptions.get (js "check"))
    (hdf.wraps.tags.get (js "check")))
  let description ← createTestResultDescription hdf
  let recommended ← fixValue (orValue (hdf.descriptions.get (js "fix"))
    (hdf.wraps.tags.get (js "fix")))
  return [(js "Control Number", formatted),
      (js "Finding Title",
        js "Test " ++ fix (.val hdf.wraps.id) ++ js " - " ++ fix hdf.wraps.title)] ++
    dateCell hdf ++
    [(js "Finding ID",
        filename.getD (js "undefined") ++ js " - Test " ++ fix (.val hdf.wraps.id)),
      (js "Finding Description", fix hdf.wraps.title),
      (js "Weakness Description", weakness),
      (js "Control Weakness Type", js "Security"),
      (js "Source", js "Self-Assessment"),
      (js "Test Method", js "Test"),
      (js "Test Objective", objective),
      (js "Test Result Description", fixText description),
      (js "Test Result", createTestResult hdf),
      (js "Recommended Corrective Action(s)", recommended),
      (js "Impact", createImpact hdf)]

/-- A row for every canonical text that is not empty. -/
def getRow (hdf : HDFControl) (filename : Option JsString) : Except JsError (List CAATRow) :=
  ((canonized_nist hdf.parsedNistTags caatConfig).filter fun s => !s.isEmpty).mapM
    (caatRow hdf filename)

end Rows

section Sheets

structure CAATSheet where
  name : JsString
  rows : List CAATRow

def sheetNameLimit : ℕ := 31

/-- The most code units that a cell of the format holds. -/
def xlsxCellLimit : ℕ := 32767

def CellsFit (row : CAATRow) : Prop := ∀ cell ∈ row, cell.2.length ≤ xlsxCellLimit

instance (row : CAATRow) : Decidable (CellsFit row) :=
  inferInstanceAs (Decidable (∀ _ ∈ row, _))

/-- `XLSX.write`. It refuses a workbook without sheets, a name that is used twice, is too long or
has a character that is not allowed, and, in the versions that look, a text that is too long. -/
class XlsxWriter where
  write : List CAATSheet → Except JsError JsString
  nameChar : CodeUnit → Bool
  looksAtTexts : Bool
  suffix_chars : ∀ c, c = 32 ∨ c = 40 ∨ c = 41 ∨ isDigit c = true → nameChar c = true
  write_returns : ∀ sheets, (∃ wbout, write sheets = .ok wbout) ↔
    sheets ≠ [] ∧ (sheets.map (·.name)).Nodup ∧
      (∀ sheet ∈ sheets, sheet.name.length ≤ sheetNameLimit ∧
        ∀ c ∈ sheet.name, nameChar c = true) ∧
      (looksAtTexts = true → ∀ sheet ∈ sheets, ∀ row ∈ sheet.rows, CellsFit row)

/-- The name before a suffix, which keeps a blank at its end where the name is short. -/
def renamed (name : JsString) (renameCount : ℕ) : JsString :=
  (name ++ js " ").take 26 ++ js " (" ++ decimal renameCount ++ js ")"

/-- `while (this.takenFilenames.includes(sheetName)) { …; renameCount++ }` -/
def caatScheme : Scheme JsString JsString where
  first name := name.take 31
  next := renamed
  start := 2

theorem renamed_injective (name : JsString) : Function.Injective (renamed name) := by
  intro m n same
  have digits := List.append_cancel_right same
  exact decimal_injective (List.append_cancel_left digits)

theorem names_end (taken labels : List JsString) :
    ∃ fuel names, caatScheme.names fuel taken labels = some names := by
  apply Scheme.names_returns.mpr
  apply Scheme.steps_of_forall
  intro taken label
  exact Scheme.name_returns.mp (Scheme.name_ends (renamed_injective label))

/-- `file?.filename || fileId` -/
def sheetLabel (allFiles : List InspecFile) (fileId : FileID) : JsString :=
  match ((findFile allFiles fileId).map (·.filename)).filter fun name => !name.isEmpty with
  | some filename => filename
  | none => fileId

variable [Calendar]

/-- The rows of the controls whose root has an id that no root before it had. -/
def freshRows (filename : Option JsString) :
    List StoredControl → List JsString → Except JsError (List CAATRow)
  | [], _ => .ok []
  | ctrl :: rest, hitIds => do
      match ← ctrl.rootHdf with
      | none => .error (.typeError "Cannot read properties of undefined (reading 'hdf')")
      | some hdf =>
          if hdf.wraps.id ∈ hitIds then freshRows filename rest hitIds
          else do
            let rows ← getRow hdf filename
            let later ← freshRows filename rest (hdf.wraps.id :: hitIds)
            return rows ++ later

structure CaatRequest where
  allFiles : List InspecFile
  data : InspecData
  filter : Filter

variable [UnicodeTables]

def CaatRequest.rows (request : CaatRequest) (fileId : FileID) : Except JsError (List CAATRow) := do
  let controls ← controls request.data { request.filter with fromFile := [fileId] }
  freshRows ((findFile request.allFiles fileId).map (·.filename)) controls []

/-- The turns of `fromFile.forEach`, with fuel for the loop over the names: the names that are
taken afterwards, and the sheets or what was thrown. A name is taken before its rows are made. -/
def exportFiles (fuel : ℕ) (request : CaatRequest) :
    List JsString → List FileID → Option (List JsString × Except JsError (List CAATSheet))
  | takenFilenames, [] => some (takenFilenames, .ok [])
  | takenFilenames, fileId :: rest => do
      let sheetName ← caatScheme.name fuel takenFilenames (sheetLabel request.allFiles fileId)
      match request.rows fileId with
      | .error thrown => return (takenFilenames ++ [sheetName], .error thrown)
      | .ok rows =>
          let (taken, later) ← exportFiles fuel request (takenFilenames ++ [sheetName]) rest
          return (taken, later.map fun sheets => ⟨sheetName, rows⟩ :: sheets)

/-- The workbook of an export, as it is handed to the writer. -/
def caatWorkbook (fuel : ℕ) (request : CaatRequest) (takenFilenames : List JsString) :
    Option (List JsString × Except JsError (List CAATSheet)) :=
  exportFiles fuel request takenFilenames request.filter.fromFile

structure SavedFile where
  name : JsString
  bytes : List UInt8

/-- Write the workbook and save it. -/
def saveWorkbook [XlsxWriter] (wb : List CAATSheet) : Except JsError SavedFile := do
  let wbout ← XlsxWriter.write wb
  return {
    name := js "CAAT-" ++ convertDate (some Calendar.today) (js "-") ++ js ".xlsx"
    bytes := s2ab wbout }

/-- The names that are taken after an export, and the file that it saves or what it throws. -/
def exportCaat [XlsxWriter] (fuel : ℕ) (request : CaatRequest) (takenFilenames : List JsString) :
    Option (List JsString × Except JsError SavedFile) :=
  (caatWorkbook fuel request takenFilenames).map fun (taken, made) =>
    (taken, made.bind saveWorkbook)

end Sheets
end Frontend
