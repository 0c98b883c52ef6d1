import Mathlib.Data.Set.List
import Heimdall.Lib.Firsts
import Heimdall.Lib.Naming
import Heimdall.Inspec.NistTags
import Heimdall.Frontend.LoadedData

/-!
# The NIST spreadsheet

A sheet for all selected files and one for each of them: the NIST controls that their controls
are tagged with. The names of the sheets are cut to the length that the format allows, and a
name that is taken is numbered.
-/
namespace Frontend
open Js Lib Inspec

/-- A sheet of one column, its header first. -/
structure NISTSheet where
  name : JsString
  data : List JsString

def MAX_SHEET_NAME_SIZE : ℕ := 31

section Source

/-- Formats a tag into a well-structured nist string -/
def format_tag (control : NistControl) : Option JsString :=
  match control.rawText with
  | some (c :: raw) => some ((c :: raw).filter fun c => !isSpace c)
  | _ =>
      match control.subSpecifiers with
      | family :: number :: rest => some (family ++ js "-" ++ number ++ rest.flatten)
      | _ => none

/-- `if (!nistControls.some((otherTag) => …)) nistControls.push(t)` -/
def pushTag (nistControls : List NistControl) (t : NistControl) : List NistControl :=
  if format_tag t ∈ nistControls.map format_tag then nistControls else nistControls ++ [t]

def pushTags (nistControls : List NistControl) (c : StoredControl) :
    Except JsError (List NistControl) := do
  match ← c.rootHdf with
  | some hdf => return hdf.parsedNistTags.foldl pushTag nistControls
  | none => return nistControls

/-- The name of a sheet and the files that its controls come from. An empty identifier counts
as none. -/
def sheetSource (allFiles : List InspecFile) (selected_file_ids : List FileID)
    (file : Option FileID) : Except JsError (JsString × List FileID) :=
  match file.filter fun file => !file.isEmpty with
  | none => .ok (js "All files", selected_file_ids)
  | some file => do
      let found ← orThrow (findFile allFiles file)
        (.typeError "Cannot read properties of undefined (reading 'filename')")
      return (found.filename, [file])

variable [UnicodeTables]

def sheetControls (controls : List StoredControl) : Except JsError (List NistControl) := do
  let nistControls ← controls.foldlM pushTags []
  return nistControls.insertionSort fun a b => a.localCompare b ≤ 0

def sheetHeader (filename : JsString) : JsString :=
  filename ++ js " NIST SP 800-53 Security and Privacy Control Coverage"

/-- Makes a sheet for the given file id -/
def sheet_for (allFiles : List InspecFile) (data : InspecData) (filter : Filter)
    (selected_file_ids : List FileID) (file : Option FileID) : Except JsError NISTSheet := do
  let (filename, id) ← sheetSource allFiles selected_file_ids file
  let controls ← controls data { filter with fromFile := id }
  let nistControls ← sheetControls controls
  let asRows := (nistControls.map format_tag).reduceOption
  return ⟨filename.take MAX_SHEET_NAME_SIZE, sheetHeader filename :: asRows⟩

end Source

section Names

/-- The suffix of a name that is taken; `i` is a constant. -/
def appendage : JsString := js " (2)"

def numbered (name : JsString) : JsString :=
  name.take (MAX_SHEET_NAME_SIZE - appendage.length) ++ appendage

/-- `while (wb.SheetNames.includes(newName))`, where every pass makes the same name. -/
def sheetScheme : Scheme JsString JsString := twice numbered 2

/-- The names of the sheets in the workbook. -/
def sheetNames (fuel : ℕ) (names : List JsString) : Option (List JsString) :=
  sheetScheme.names fuel [] names

/-- The workbook, when the loops over the names end. -/
def export_nist [UnicodeTables] (fuel : ℕ) (allFiles : List InspecFile) (data : InspecData)
    (filter : Filter) (selected_file_ids : List FileID) :
    Except JsError (Option (List NISTSheet)) := do
  let sheets ← (none :: selected_file_ids.map some).mapM
    (sheet_for allFiles data filter selected_file_ids)
  return (sheetNames fuel (sheets.map (·.name))).map fun names =>
    (names.zip sheets).map fun (newName, sheet) => ⟨newName, sheet.data⟩

def sheetTitles (filenames : List JsString) : List JsString :=
  (js "All files" :: filenames).map (·.take MAX_SHEET_NAME_SIZE)

/-- The loops end, and the names in the workbook differ and have an allowed length. -/
def Disambiguated (titles : List JsString) : Prop :=
  ∃ fuel names, sheetNames fuel titles = some names ∧ names.length = titles.length ∧
    names.Nodup ∧ ∀ name ∈ names, name.length ≤ MAX_SHEET_NAME_SIZE

theorem numbered_length (name : JsString) : (numbered name).length ≤ MAX_SHEET_NAME_SIZE := by
  have suffix : appendage.length = 4 := by decide
  rw [numbered, List.length_append, List.length_take, suffix, MAX_SHEET_NAME_SIZE]
  omega

theorem sheetTitles_length {filenames : List JsString} {title : JsString}
    (inside : title ∈ sheetTitles filenames) : title.length ≤ MAX_SHEET_NAME_SIZE := by
  obtain ⟨filename, -, rfl⟩ := List.mem_map.mp inside
  rw [List.length_take]
  exact Nat.min_le_left _ _

theorem used_length {before : List JsString} {name : JsString}
    (short : ∀ title ∈ before, title.length ≤ MAX_SHEET_NAME_SIZE)
    (used : Used numbered before name) : name.length ≤ MAX_SHEET_NAME_SIZE := by
  cases used with
  | first inside => exact short name inside
  | second earlier => exact numbered_length _

/-- The sheets are named as they should be exactly when no file comes after both its cut name
and the numbered form of it were used. -/
theorem disambiguated_iff (filenames : List JsString) :
    Disambiguated (sheetTitles filenames) ↔
      ∀ before title after, sheetTitles filenames = before ++ title :: after →
        ¬ (Used numbered before title ∧ Used numbered before (numbered title)) := by
  rw [← @twice_returns _ numbered 2]
  constructor
  · rintro ⟨fuel, names, returned, -⟩
    exact ⟨fuel, names, returned⟩
  · rintro ⟨fuel, names, returned⟩
    refine ⟨fuel, names, returned, Scheme.names_length returned, (Scheme.names_nodup returned).1, ?_⟩
    intro name inside
    exact used_length (fun _ => sheetTitles_length) ((mem_names_twice returned).mp inside)

theorem sheet_for_name [UnicodeTables] {allFiles : List InspecFile} {data : InspecData}
    {filter : Filter} {selected : List FileID} {file : Option FileID} {sheet : NISTSheet}
    (made : sheet_for allFiles data filter selected file = .ok sheet) :
    ∃ filename ids, sheetSource allFiles selected file = .ok (filename, ids) ∧
      sheet.name = filename.take MAX_SHEET_NAME_SIZE := by
  obtain ⟨⟨filename, ids⟩, source, rest⟩ := do_eq_ok.mp made
  obtain ⟨cs, -, rest⟩ := do_eq_ok.mp rest
  obtain ⟨listed, -, done⟩ := do_eq_ok.mp rest
  exact ⟨filename, ids, source, by rw [pure_eq_ok.mp done]⟩

theorem export_nist_names [UnicodeTables] {fuel : ℕ} {allFiles : List InspecFile}
    {data : InspecData} {filter : Filter} {selected : List FileID} {book : List NISTSheet}
    (returned : export_nist fuel allFiles data filter selected = .ok (some book)) :
    ∃ filenames, filenames.length = selected.length ∧
      sheetNames fuel (sheetTitles filenames) = some (book.map (·.name)) := by
  obtain ⟨sheets, made, done⟩ := do_eq_ok.mp returned
  obtain ⟨names, named, rfl⟩ := Option.map_eq_some_iff.mp (pure_eq_ok.mp done).symm
  have each := mapM_eq_ok.mp made
  cases each with
  | @cons _ first _ rest here there =>
      obtain ⟨filename, ids, source, title⟩ := sheet_for_name here
      cases source
      have cut : rest.map (·.name) ∈ Set.range (List.map (List.take MAX_SHEET_NAME_SIZE)) := by
        rw [Set.range_list_map]
        intro name inside
        obtain ⟨sheet, member, rfl⟩ := List.mem_map.mp inside
        obtain ⟨file, -, made⟩ := mem_of_mapM_eq_ok (mapM_eq_ok.mpr there) member
        obtain ⟨filename, ids, -, title⟩ := sheet_for_name made
        exact ⟨filename, title.symm⟩
      obtain ⟨filenames, same⟩ := cut
      have counted : filenames.length = selected.length := by
        have lengths := congrArg List.length same
        rw [List.length_map, List.length_map, ← there.length_eq, List.length_map] at lengths
        exact lengths
      have titles : (first :: rest).map (·.name) = sheetTitles filenames := by
        rw [List.map_cons, title, ← same]
        rfl
      refine ⟨filenames, counted, ?_⟩
      rw [titles] at named
      have length : names.length = (first :: rest).length := by
        rw [Scheme.names_length named, ← titles, List.length_map]
      rw [named, List.map_map]
      exact congrArg some (List.map_fst_zip (Nat.le_of_eq length)).symm

/-- The third file of one name is never given a sheet. -/
theorem sheetNames_stuck : ¬ Disambiguated (sheetTitles [js "a", js "a", js "a"]) := by
  rintro ⟨fuel, names, returned, -⟩
  apply twice_returns.mp ⟨fuel, names, returned⟩ [js "All files", js "a", js "a"] (js "a") []
    (by decide)
  have once : Used numbered [js "All files"] (js "All files") := .first List.mem_cons_self
  have again : Used numbered ([js "All files", js "a"] ++ js "a" :: []) (numbered (js "a")) :=
    .second (.first (List.mem_cons_of_mem _ List.mem_cons_self))
  exact ⟨.first (List.mem_cons_of_mem _ List.mem_cons_self), again⟩

end Names

section Contents

def StoredControl.rootTags (c : StoredControl) : List NistControl :=
  (c.view.map (·.parsedNistTags)).getD []

def spelledFirst (tags : List NistControl) : List NistControl := firsts format_tag tags []

/-- What a sheet is to list: every chain once, in order, and nothing else. -/
structure ListsChains [UnicodeTables] (tags listed : List NistControl) : Prop where
  once : (listed.map (·.subSpecifiers)).Nodup
  complete : ∀ t ∈ tags, t.subSpecifiers ∈ listed.map (·.subSpecifiers)
  found : listed ⊆ tags
  sorted : listed.Pairwise fun a b => a.localCompare b ≤ 0

/-- Tags with one text have one chain. -/
def TextsTell (tags : List NistControl) : Prop :=
  Determines format_tag NistControl.subSpecifiers tags

/-- Tags with one chain have one text. -/
def ChainsTell (tags : List NistControl) : Prop :=
  Determines NistControl.subSpecifiers format_tag tags

instance (tags : List NistControl) : Decidable (TextsTell tags) :=
  inferInstanceAs (Decidable (Determines _ _ _))

instance (tags : List NistControl) : Decidable (ChainsTell tags) :=
  inferInstanceAs (Decidable (Determines _ _ _))

theorem pushTags_eq_ok (found : List NistControl) (c : StoredControl) (found' : List NistControl) :
    pushTags found c = .ok found' ↔ c.Rooted ∧ found' = c.rootTags.foldl pushTag found := by
  have pushed : pushTags found c =
      c.rootHdf.map fun hdf => ((hdf.map (·.parsedNistTags)).getD []).foldl pushTag found := by
    unfold pushTags
    rcases c.rootHdf with e | hdf
    · rfl
    · cases hdf <;> rfl
  rw [pushed]
  unfold StoredControl.Rooted StoredControl.rootTags StoredControl.view
  cases c.rootHdf with
  | error e => simp [Except.map]
  | ok hdf => simp [Except.map, eq_comm]

theorem foldl_pushTag (tags : List NistControl) : tags.foldl pushTag [] = spelledFirst tags := by
  have none_seen : ∀ text, text ∈ [] ↔ text ∈ ([] : List NistControl).map format_tag :=
    fun _ => Iff.rfl
  rw [spelledFirst, ← List.nil_append (firsts format_tag tags []), ← foldl_firsts tags none_seen]
  congr 1
  funext result t
  unfold pushTag
  congr 1

section Sheet
variable [UnicodeTables]

theorem sheetControls_eq_ok {cs : List StoredControl} {listed : List NistControl} :
    sheetControls cs = .ok listed ↔ (∀ c ∈ cs, c.Rooted) ∧
      listed = (spelledFirst (cs.flatMap StoredControl.rootTags)).insertionSort
        fun a b => a.localCompare b ≤ 0 := by
  unfold sheetControls
  rw [do_eq_ok]
  simp only [pure_eq_ok, foldlM_eq_ok_iff pushTags_eq_ok, ← List.foldl_flatMap, foldl_pushTag]
  constructor
  · rintro ⟨_, ⟨rooted, rfl⟩, rfl⟩
    exact ⟨rooted, rfl⟩
  · rintro ⟨rooted, rfl⟩
    exact ⟨_, ⟨rooted, rfl⟩, rfl⟩

/-- The sorted first spellings list the chains exactly when they tell them apart. -/
theorem listsChains_iff (collates : Collates) (tags : List NistControl) :
    ListsChains tags ((spelledFirst tags).insertionSort fun a b => a.localCompare b ≤ 0) ↔
      FirstsTell format_tag NistControl.subSpecifiers tags := by
  have perm := List.perm_insertionSort (fun a b : NistControl => a.localCompare b ≤ 0)
    (spelledFirst tags)
  have chains := perm.map (·.subSpecifiers)
  constructor
  · intro lists
    refine ⟨chains.nodup_iff.mp lists.once, fun t inside => ?_⟩
    exact chains.mem_iff.mp (lists.complete t inside)
  · intro tell
    have preorder := NistControl.localCompare_preorder collates
    have total : Std.Total fun a b : NistControl => a.localCompare b ≤ 0 := ⟨preorder.total⟩
    have trans : IsTrans NistControl fun a b => a.localCompare b ≤ 0 := ⟨preorder.trans⟩
    refine ⟨chains.nodup_iff.mpr tell.once, fun t inside => ?_, ?_, ?_⟩
    · exact chains.mem_iff.mpr (tell.complete t inside)
    · exact fun t inside => (firsts_sublist _ _).subset (perm.mem_iff.mp inside)
    · exact List.pairwise_insertionSort _ _

theorem format_tag_of_loaded {data : InspecData} (loaded : data.Loaded) {files : List FileID}
    {c : StoredControl} (inside : c ∈ allControls data files) {t : NistControl}
    (tag : t ∈ c.rootTags) : ∃ text, format_tag t = some text := by
  cases here : c.rootHdf with
  | error e =>
      unfold StoredControl.rootTags StoredControl.view at tag
      rw [here] at tag
      cases tag
  | ok hdf =>
      obtain ⟨r, cc, -, -, view, wrapped⟩ := loaded.rooted inside ⟨hdf, here⟩
      rw [StoredControl.rootTags, StoredControl.view_of_ok view] at tag
      obtain ⟨s, parsed⟩ := hdfWrapControl_parsed wrapped t tag
      obtain ⟨raw, filled⟩ := parse_nist_rawText parsed
      obtain ⟨u, rest, rfl⟩ := List.exists_cons_of_ne_nil filled
      exact ⟨_, by rw [format_tag, raw]⟩

end Sheet

def RowsOf (filename : JsString) (listed : List NistControl) (sheet : NISTSheet) : Prop :=
  ∃ rows, sheet.data = sheetHeader filename :: rows ∧ rows.map some = listed.map format_tag

/-- A sheet is made, and its rows list the chains of the tags of these controls. -/
def SheetComplete [UnicodeTables] (filename : JsString) (cs : List StoredControl)
    (made : Except JsError NISTSheet) : Prop :=
  ∃ sheet listed, made = .ok sheet ∧ sheetControls cs = .ok listed ∧
    RowsOf filename listed sheet ∧ ListsChains (cs.flatMap StoredControl.rootTags) listed

/-- The sheet of a file, or of all files, lists every chain of the controls that the filter
selects exactly when their roots are found and the first spellings tell the chains apart. -/
theorem sheet_for_tells [UnicodeTables] (collates : Collates) {data : InspecData}
    (loaded : data.Loaded) {allFiles : List InspecFile} {filter : Filter}
    {selected_file_ids ids : List FileID} {file : Option FileID} {filename : JsString}
    {cs : List StoredControl}
    (source : sheetSource allFiles selected_file_ids file = .ok (filename, ids))
    (selected : controls data { filter with fromFile := ids } = .ok cs) :
    SheetComplete filename cs (sheet_for allFiles data filter selected_file_ids file) ↔
      (∀ c ∈ cs, c.Rooted) ∧ FirstsTell format_tag NistControl.subSpecifiers
        (cs.flatMap StoredControl.rootTags) := by
  have made : sheet_for allFiles data filter selected_file_ids file =
      (sheetControls cs).bind fun nistControls => pure ⟨filename.take MAX_SHEET_NAME_SIZE,
        sheetHeader filename :: (nistControls.map format_tag).reduceOption⟩ := by
    unfold sheet_for
    rw [source]
    show (controls data { filter with fromFile := ids } >>= _) = _
    rw [selected]
    rfl
  have inside : ∀ c ∈ cs, c ∈ allControls data ids := by
    intro c member
    rw [(controls_eq_ok.mp selected).2] at member
    exact (List.mem_filter.mp member).1
  constructor
  · rintro ⟨sheet, listed, -, sorted, -, lists⟩
    obtain ⟨rooted, rfl⟩ := sheetControls_eq_ok.mp sorted
    exact ⟨rooted, (listsChains_iff collates _).mp lists⟩
  · rintro ⟨rooted, tell⟩
    have sorted := sheetControls_eq_ok.mpr ⟨rooted, rfl⟩
    have lists := (listsChains_iff collates _).mpr tell
    have texts : ((spelledFirst (cs.flatMap StoredControl.rootTags)).insertionSort
        fun a b => a.localCompare b ≤ 0).map format_tag ∈ Set.range (List.map some) := by
      rw [Set.range_list_map]
      intro text member
      obtain ⟨t, listed, rfl⟩ := List.mem_map.mp member
      obtain ⟨c, here, tag⟩ := List.mem_flatMap.mp (lists.found listed)
      obtain ⟨text, same⟩ := format_tag_of_loaded loaded (inside c here) tag
      exact ⟨text, same.symm⟩
    obtain ⟨rows, same⟩ := texts
    refine ⟨_, _, by rw [made, sorted]; rfl, sorted, ⟨rows, ?_, same⟩, lists⟩
    have all : (rows.map some).reduceOption = rows :=
      List.filterMap_map.trans List.filterMap_some
    rw [← same, all]

/-- The sheet of a file, or of all files, lists every chain of the controls that the filter
selects where their roots are found and texts and chains of their tags tell each other. A sheet
that does so without is one where neither tells the other. -/
theorem sheet_for_complete [UnicodeTables] (collates : Collates) {data : InspecData}
    (loaded : data.Loaded) {allFiles : List InspecFile} {filter : Filter}
    {selected_file_ids ids : List FileID} {file : Option FileID} {filename : JsString}
    {cs : List StoredControl}
    (source : sheetSource allFiles selected_file_ids file = .ok (filename, ids))
    (selected : controls data { filter with fromFile := ids } = .ok cs) :
    ((∀ c ∈ cs, c.Rooted) → TextsTell (cs.flatMap StoredControl.rootTags) →
        ChainsTell (cs.flatMap StoredControl.rootTags) →
      SheetComplete filename cs (sheet_for allFiles data filter selected_file_ids file)) ∧
    (SheetComplete filename cs (sheet_for allFiles data filter selected_file_ids file) →
      (∀ c ∈ cs, c.Rooted) ∧ (TextsTell (cs.flatMap StoredControl.rootTags) ↔
        ChainsTell (cs.flatMap StoredControl.rootTags))) := by
  have tells := sheet_for_tells collates loaded source selected
  constructor
  · intro rooted texts chains
    exact tells.mpr ⟨rooted, firstsTell_of_determines texts chains⟩
  · intro complete
    obtain ⟨rooted, tell⟩ := tells.mp complete
    exact ⟨rooted, tell.back, tell.forth⟩

def taggedFile (tags : List String) : ExecJSON := sampleExec
  [⟨js "base", .undefined, tags.map fun tag =>
    bareControl tag [("nist", .arr [.str (js tag)])]⟩]

def taggedStore (tags : List String) : InspecData := sampleStore [("f", taggedFile tags)]

def scanFiles : List InspecFile := [⟨js "f", js "scan.json"⟩]

theorem sheet_for_complete_sample : ∃ cs,
    @controls asciiTables (taggedStore ["AC-3 (1)", "AC-1", "AC-3(1)"])
      { fromFile := [js "f"] } = .ok cs ∧ cs.length = 3 ∧
    @SheetComplete asciiTables (js "scan.json") cs
      (@sheet_for asciiTables scanFiles (taggedStore ["AC-3 (1)", "AC-1", "AC-3(1)"])
        { fromFile := [] } [js "f"] (some (js "f"))) := by
  refine ⟨_, rfl, by decide +kernel, (@sheet_for_complete asciiTables asciiTables_collates _
    (sampleStore_loaded _) _ _ _ [js "f"] _ (js "scan.json") _ (by rfl) rfl).1 ?_ ?_ ?_⟩
  · exact StoredControl.rooted_of_all (by decide +kernel)
  · decide +kernel
  · decide +kernel

/-- Two spellings of one control are listed both. -/
theorem sheet_for_repeats : ∃ cs,
    @controls asciiTables (taggedStore ["AC-1 a", "AC-1 (a)"]) { fromFile := [js "f"] } = .ok cs ∧
    ¬ @SheetComplete asciiTables (js "scan.json") cs
      (@sheet_for asciiTables scanFiles (taggedStore ["AC-1 a", "AC-1 (a)"])
        { fromFile := [] } [js "f"] (some (js "f"))) := by
  refine ⟨_, rfl, ?_⟩
  rintro ⟨sheet, listed, -, sorted, -, lists⟩
  obtain ⟨-, rfl⟩ := (@sheetControls_eq_ok asciiTables _ _).mp sorted
  have apart := ((@listsChains_iff asciiTables asciiTables_collates _).mp lists).once
  revert apart
  decide +kernel

end Contents
end Frontend
