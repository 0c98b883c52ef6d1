import Heimdall.Frontend.CaatText
import Heimdall.Frontend.CaatRows

/-!
# The size of CAAT cells

Texts are cut before they are put together, so that a cell of several texts can be longer than
the format allows. The other cells are short, whatever the control holds.
-/
namespace Frontend
open Js Lib Inspec

/-- The caveat among the descriptions, empty where there is none. -/
def caveatText (hdf : HDFControl) : JsString :=
  match hdf.descriptions.get (js "caveat") with
  | .str s => s
  | _ => []

section Lengths

/-- The line ends of a single unit, which become two. -/
def loneBreaks : JsString → ℕ
  | 13 :: 10 :: rest => loneBreaks rest
  | 13 :: rest => loneBreaks rest + 1
  | 10 :: rest => loneBreaks rest + 1
  | _ :: rest => loneBreaks rest
  | [] => 0

/-- The length of a text that is cut. -/
def cutLength (x : JsString) : ℕ := min MAX_CELL_SIZE (x.length + loneBreaks x)

/-- A number is written with two digits or more, and nothing else is written. -/
def numberLength (spec : JsString) : ℕ := if isNumber spec then max 2 spec.length else 0

/-- The length of a canonical text: the family, the number, and in parentheses the third
specifier. -/
def canonicalLength (t : NistControl) : ℕ :=
  match t.subSpecifiers with
  | [] => 0
  | [family] => family.length
  | [family, number] => family.length + 1 + numberLength number
  | family :: number :: spec :: _ => family.length + 1 + numberLength number +
      numberLength spec + (if isNumber spec then 2 else 0)

end Lengths

/-- The texts of the four cells that are not cut as a whole leave room for one another. -/
structure LeavesRoom (hdf : HDFControl) (filename : Option JsString) : Prop where
  number : ∀ t ∈ hdf.parsedNistTags, canonicalLength t ≤ xlsxCellLimit
  title : cutLength hdf.wraps.id + cutLength (hdf.wraps.title.toOption.getD []) + 8 ≤
    xlsxCellLimit
  finding : (filename.getD (js "undefined")).length + cutLength hdf.wraps.id + 8 ≤ xlsxCellLimit
  weakness : caveatText hdf ≠ [] →
    cutLength (caveatText hdf) + cutLength (hdf.wraps.desc.toOption.getD []) + 11 ≤ xlsxCellLimit

instance (hdf : HDFControl) (filename : Option JsString) : Decidable (LeavesRoom hdf filename) :=
  decidable_of_iff
    ((∀ t ∈ hdf.parsedNistTags, canonicalLength t ≤ xlsxCellLimit) ∧
      cutLength hdf.wraps.id + cutLength (hdf.wraps.title.toOption.getD []) + 8 ≤ xlsxCellLimit ∧
      (filename.getD (js "undefined")).length + cutLength hdf.wraps.id + 8 ≤ xlsxCellLimit ∧
      (caveatText hdf ≠ [] → cutLength (caveatText hdf) +
        cutLength (hdf.wraps.desc.toOption.getD []) + 11 ≤ xlsxCellLimit))
    ⟨fun ⟨number, title, finding, weakness⟩ => ⟨number, title, finding, weakness⟩,
      fun ⟨number, title, finding, weakness⟩ => ⟨number, title, finding, weakness⟩⟩

section Pieces

theorem windowsLines_length (x : JsString) :
    (windowsLines x).length = x.length + loneBreaks x := by
  fun_induction windowsLines x with
  | case1 rest ih => simp only [loneBreaks, List.length_cons, ih]; omega
  | case2 rest single ih => simp only [loneBreaks, List.length_cons, ih]; omega
  | case3 rest ih => simp only [loneBreaks, List.length_cons, ih]; omega
  | case4 c rest _ notReturn notFeed ih =>
      rw [loneBreaks, List.length_cons, List.length_cons, ih]
      · omega
      all_goals assumption
  | case5 => rfl

theorem fixText_length (x : JsString) : (fixText x).length = cutLength x := by
  rw [fixText, List.length_take, windowsLines_length, cutLength]

theorem fixText_fits (x : JsString) : (fixText x).length ≤ xlsxCellLimit := by
  rw [fixText_length]
  exact Nat.le_trans (Nat.min_le_left _ _) (by decide)

theorem specText_length (i : ℕ) (spec : JsString) :
    (specText (default_partial_config caatConfig) i spec).length =
      numberLength spec + (if isNumber spec ∧ i > 1 then 2 else 0) := by
  by_cases number : isNumber spec = true
  · have filled : spec ≠ [] := by
      rintro rfl
      cases number
    have some_digit := List.length_pos_iff.mpr filled
    have zero : (js "0").length = 1 := by decide
    have padded : (if spec.length < 2 then js "0" ++ spec else spec).length = max 2 spec.length := by
      split
      · rw [List.length_append, zero]
        omega
      · omega
    have parens : (js "(").length = 1 ∧ (js ")").length = 1 := by decide
    rw [specText, if_pos number, numberLength, if_pos number, ← padded]
    by_cases third : i > 1
    · simp [caatConfig, default_partial_config, Setting.isTrue, number, third, parens]
      omega
    · simp [caatConfig, default_partial_config, Setting.isTrue, third]
  · simp [specText, numberLength, number, caatConfig, default_partial_config, Setting.isTrue]

theorem canonize_length (t : NistControl) :
    (t.canonize caatConfig).length = canonicalLength t := by
  have dash : (js "-").length = 1 := by decide
  have shown : ∀ i, (default_partial_config caatConfig).shows i = decide (i < 3) := by
    intro i
    show decide ((i : ℚ) < 3) = _
    exact decide_eq_decide.mpr (by exact_mod_cast Iff.rfl)
  unfold NistControl.canonize canonicalLength
  match t.subSpecifiers with
  | [] => rfl
  | [family] => rfl
  | [family, number] =>
      simp [specTexts, shown, specText_length, dash]
      omega
  | family :: number :: spec :: rest =>
      have rest_hidden : specTexts (default_partial_config caatConfig) 3 rest = [] := by
        cases rest with
        | nil => rfl
        | cons s rest => simp [specTexts, shown]
      simp [specTexts, shown, specText_length, dash, rest_hidden]
      omega

theorem fixValue_fits {x : JsVal} {text : JsString} (fixed : fixValue x = .ok text) :
    text.length ≤ xlsxCellLimit := by
  unfold fixValue at fixed
  split at fixed
  · split at fixed
    · cases fixed
      exact fixText_fits _
    · cases fixed
  · cases fixed
    exact fixText_fits _

theorem padTwoDigits_length {n : ℕ} (small : n < 100) : (padTwoDigits n).length ≤ 2 := by
  unfold padTwoDigits
  split
  · next digit =>
    have one : (decimal n).length ≤ 1 := (decimal_length_le Nat.one_pos).mpr digit
    rw [List.length_append]
    exact Nat.add_le_add (Nat.le_refl 1) one
  · exact (decimal_length_le Nat.two_pos).mpr small

theorem signedDecimal_length {n : ℤ} (low : -1000000 < n) (high : n < 1000000) :
    (signedDecimal n).length ≤ 7 := by
  have digits : ∀ m : ℕ, m < 10 ^ 6 → (decimal m).length ≤ 6 :=
    fun m => (decimal_length_le (by decide)).mpr
  cases n with
  | ofNat m =>
      have short := digits m (by simp only [Int.ofNat_eq_natCast] at high; omega)
      exact Nat.le_trans short (by decide)
  | negSucc m =>
      have short := digits (m + 1) (by omega)
      show (js "-" ++ decimal (m + 1)).length ≤ 7
      rw [List.length_append]
      exact Nat.add_le_add (Nat.le_refl 1) short

theorem join_length (delimiter a b c : JsString) :
    (join delimiter [a, b, c]).length =
      a.length + b.length + c.length + 2 * delimiter.length := by
  simp only [join, List.length_append]
  omega

theorem convertDate_fits (d : Option CalendarDay) :
    (convertDate d (js "/")).length ≤ xlsxCellLimit := by
  cases d with
  | none => decide
  | some d =>
      have month := padTwoDigits_length (n := d.month + 1) (by have := d.month_lt; omega)
      have date := padTwoDigits_length (n := d.date) (by have := d.date_le; omega)
      have year := signedDecimal_length (n := d.fullYear) (by have := d.year_bounds; omega)
        (by have := d.year_bounds; omega)
      have slash : (js "/").length = 1 := rfl
      rw [convertDate, join_length, slash, xlsxCellLimit]
      omega

theorem dateCell_fits [Calendar] (hdf : HDFControl) : CellsFit (dateCell hdf) := by
  unfold dateCell
  split
  · intro cell inside
    rw [List.mem_singleton.mp inside]
    exact convertDate_fits _
  · exact List.forall_mem_nil _

end Pieces

section Cells
variable [UnicodeTables] {control : AnyControl} {hdf : HDFControl}

/-- The caveat of a wrapped control is a text, and none where it is not truthy. -/
theorem caveat_cases (wrapped : hdfWrapControl control = .ok hdf) :
    (hdf.descriptions.get (js "caveat") = .str (caveatText hdf) ∧ caveatText hdf ≠ []) ∨
      ((hdf.descriptions.get (js "caveat")).truthy = false ∧ caveatText hdf = []) := by
  have strings : AllStrings hdf.descriptions := by
    rw [(hdfWrapControl_wraps wrapped).2]
    exact allStrings_described control
  have text := strings.get (js "caveat")
  unfold caveatText
  cases value : hdf.descriptions.get (js "caveat") with
  | str s =>
      cases s with
      | nil => exact .inr ⟨rfl, rfl⟩
      | cons c s => exact .inl ⟨rfl, List.cons_ne_nil _ _⟩
  | _ =>
      rw [value] at text
      rcases text with falsy | string
      · exact .inr ⟨falsy, rfl⟩
      · cases string

theorem createCaveat_fits (wrapped : hdfWrapControl control = .ok hdf) {text : JsString}
    (made : createCaveat hdf = .ok text) : text.length ≤ xlsxCellLimit ↔
      (caveatText hdf ≠ [] → cutLength (caveatText hdf) +
        cutLength (hdf.wraps.desc.toOption.getD []) + 11 ≤ xlsxCellLimit) := by
  rw [← fixText_length, ← fixText_length]
  unfold createCaveat at made
  rcases caveat_cases wrapped with ⟨value, filled⟩ | ⟨falsy, empty⟩
  · have truthy : (JsVal.str (caveatText hdf)).truthy = true := by
      simpa [JsVal.truthy] using filled
    have fixed : fixValue (.str (caveatText hdf)) = .ok (fixText (caveatText hdf)) := if_pos truthy
    rw [value, if_pos truthy, fixed] at made
    cases made
    have before : (js "(Caveat: ").length = 9 := by decide
    have behind : (js ")\n").length = 2 := by decide
    simp only [fix, List.length_append, before, behind]
    constructor
    · intro small _
      omega
    · intro room
      have small := room filled
      omega
  · rw [if_neg (Bool.eq_false_iff.mp falsy)] at made
    cases made
    exact iff_of_true (fixText_fits _) fun filled => absurd empty filled

/-- The cells of a row fit exactly when the four that are put together do. -/
theorem caatRow_fits [Calendar] {filename : Option JsString} {formatted : JsString}
    (wrapped : hdfWrapControl control = .ok hdf) {row : CAATRow}
    (made : caatRow hdf filename formatted = .ok row) : CellsFit row ↔
      formatted.length ≤ xlsxCellLimit ∧
      cutLength hdf.wraps.id + cutLength (hdf.wraps.title.toOption.getD []) + 8 ≤
        xlsxCellLimit ∧
      (filename.getD (js "undefined")).length + cutLength hdf.wraps.id + 8 ≤ xlsxCellLimit ∧
      (caveatText hdf ≠ [] → cutLength (caveatText hdf) +
        cutLength (hdf.wraps.desc.toOption.getD []) + 11 ≤ xlsxCellLimit) := by
  obtain ⟨weakness, caveat, rest⟩ := do_eq_ok.mp made
  obtain ⟨objective, check, rest⟩ := do_eq_ok.mp rest
  obtain ⟨description, -, rest⟩ := do_eq_ok.mp rest
  obtain ⟨recommended, fixed, done⟩ := do_eq_ok.mp rest
  have test : (js "Test ").length = 5 := by decide
  have dash : (js " - ").length = 3 := by decide
  have dashed : (js " - Test ").length = 8 := by decide
  have security : (js "Security").length ≤ xlsxCellLimit := by decide
  have source : (js "Self-Assessment").length ≤ xlsxCellLimit := by decide
  have method : (js "Test").length ≤ xlsxCellLimit := by decide
  have result : (createTestResult hdf).length ≤ xlsxCellLimit := by
    unfold createTestResult
    split
    · decide
    · decide
  have id : (fix (.val hdf.wraps.id)).length = cutLength hdf.wraps.id := fixText_length _
  have title : (fix hdf.wraps.title).length = cutLength (hdf.wraps.title.toOption.getD []) :=
    fixText_length _
  rw [← createCaveat_fits wrapped caveat, pure_eq_ok.mp done, CellsFit]
  have dates : ∀ cell ∈ dateCell hdf, cell.2.length ≤ xlsxCellLimit := dateCell_fits hdf
  have titled : (fix hdf.wraps.title).length ≤ xlsxCellLimit := fixText_fits _
  have impact : (createImpact hdf).length ≤ xlsxCellLimit := fixText_fits _
  have described := fixText_fits description
  have objectives := fixValue_fits check
  have actions := fixValue_fits fixed
  simp only [List.forall_mem_append, List.forall_mem_cons, List.length_append, test, dash, dashed,
    id, title]
  constructor
  · rintro ⟨⟨⟨number, finding, -⟩, -⟩, id, -, caveat, -⟩
    exact ⟨number, by omega, by omega, caveat⟩
  · rintro ⟨number, finding, id, caveat⟩
    refine ⟨⟨⟨number, by omega, List.forall_mem_nil _⟩, dates⟩, by omega, title ▸ titled, caveat,
      security, source, method, objectives, described, result, actions, impact,
      List.forall_mem_nil _⟩

section Rows
variable [Calendar] {filename : Option JsString} {rows : List CAATRow}

/-- A tag whose text is not empty has a row of its own, and there is one. -/
theorem leavesRoom_of_fit (wrapped : hdfWrapControl control = .ok hdf)
    (made : getRow hdf filename = .ok rows) (fit : ∀ row ∈ rows, CellsFit row) :
    LeavesRoom hdf filename := by
  obtain ⟨formatted, listed⟩ := exists_formatted wrapped
  obtain ⟨row, inside, here⟩ := mapM_eq_ok_of_mem made listed
  obtain ⟨-, title, finding, weakness⟩ := (caatRow_fits wrapped here).mp (fit row inside)
  refine ⟨fun t tag => ?_, title, finding, weakness⟩
  rw [← canonize_length]
  by_cases empty : t.canonize caatConfig = []
  · rw [empty]
    exact Nat.zero_le _
  · have shown : t.canonize caatConfig ∈
        (canonized_nist hdf.parsedNistTags caatConfig).filter fun s => !s.isEmpty :=
      List.mem_filter.mpr ⟨mem_canonized_nist.mpr ⟨t, tag, rfl⟩, by simpa using empty⟩
    obtain ⟨other, inside', here'⟩ := mapM_eq_ok_of_mem made shown
    exact ((caatRow_fits wrapped here').mp (fit other inside')).1

theorem fit_of_leavesRoom (wrapped : hdfWrapControl control = .ok hdf)
    (made : getRow hdf filename = .ok rows) (room : LeavesRoom hdf filename) :
    ∀ row ∈ rows, CellsFit row := by
  intro row inside
  obtain ⟨formatted, listed, here⟩ := mem_of_mapM_eq_ok made inside
  obtain ⟨t, tag, rfl⟩ := mem_canonized_nist.mp (List.mem_filter.mp listed).1
  have number := room.number t tag
  rw [← canonize_length] at number
  exact (caatRow_fits wrapped here).mpr ⟨number, room.title, room.finding, room.weakness⟩

/-- The cells of the rows of a control fit the format exactly when its texts leave room for one
another. -/
theorem getRow_fits_iff (wrapped : hdfWrapControl control = .ok hdf)
    (made : getRow hdf filename = .ok rows) :
    (∀ row ∈ rows, CellsFit row) ↔ LeavesRoom hdf filename :=
  ⟨leavesRoom_of_fit wrapped made, fit_of_leavesRoom wrapped made⟩

end Rows
end Cells

section Samples

/-- As many letters. -/
def letters (n : ℕ) : JsString := List.replicate n 97

theorem cutLength_letters {n : ℕ} (short : n ≤ MAX_CELL_SIZE) : cutLength (letters n) = n := by
  have unbroken : loneBreaks (letters n) = 0 := by
    clear short
    induction n with
    | zero => rfl
    | succ n ih => exact ih
  rw [cutLength, unbroken, letters, List.length_replicate]
  exact Nat.min_eq_right short

/-- A control whose caveat has 32000 letters and whose description has these many. -/
def longControl (n : ℕ) : AnyControl := .exec
  { bareControl "C-1" [] with
    desc := .val (letters n)
    descriptions := .val [⟨letters 32000, js "caveat"⟩] }

theorem longControl_made {n : ℕ} (short : n ≤ MAX_CELL_SIZE) : ∃ hdf rows,
    @hdfWrapControl asciiTables (longControl n) = .ok hdf ∧
      @getRow noCalendar hdf (some (js "scan.json")) = .ok rows ∧
      hdf.parsedNistTags.map canonicalLength = [5] ∧
      hdf.wraps = longControl n ∧ caveatText hdf ≠ [] ∧
      cutLength (caveatText hdf) + cutLength (hdf.wraps.desc.toOption.getD []) = 32000 + n := by
  obtain ⟨hdf, wrapped⟩ := (@hdfWrapControl_returns asciiTables (longControl n)).mpr ⟨rfl, trivial⟩
  have lengths : (@hdfWrapControl asciiTables (longControl n)).map
      (fun hdf => hdf.parsedNistTags.map canonicalLength) = .ok [5] := by rfl
  obtain ⟨wraps, described⟩ := @hdfWrapControl_wraps asciiTables _ _ wrapped
  have describable : Describable hdf := by
    refine ⟨?_, ?_, ?_⟩
    · rw [wraps]
      exact List.forall_mem_nil _
    · rw [wraps, described]
      exact .inl rfl
    · rw [wraps, described]
      exact .inl rfl
  obtain ⟨rows, made⟩ := (@getRow_returns asciiTables _ _ noCalendar _ wrapped).mpr describable
  have caveat : caveatText hdf = letters 32000 := by
    rw [caveatText, described]
    rfl
  have desc : hdf.wraps.desc.toOption.getD [] = letters n := by
    rw [wraps]
    rfl
  have most : 32000 ≤ MAX_CELL_SIZE := Nat.le_refl _
  refine ⟨hdf, rows, wrapped, made, ?_, wraps, ?_, ?_⟩
  · rw [wrapped] at lengths
    exact Except.ok.inj lengths
  · rw [caveat]
    exact List.cons_ne_nil _ _
  · rw [caveat, desc, cutLength_letters most, cutLength_letters short]

theorem getRow_fits_iff_sample : ∃ hdf rows,
    @hdfWrapControl asciiTables (longControl 700) = .ok hdf ∧
      @getRow noCalendar hdf (some (js "scan.json")) = .ok rows ∧ ∀ row ∈ rows, CellsFit row := by
  obtain ⟨hdf, rows, wrapped, made, lengths, wraps, -, length⟩ := @longControl_made 700 (by decide)
  refine ⟨hdf, rows, wrapped, made,
    (@getRow_fits_iff asciiTables _ _ noCalendar _ _ wrapped made).mpr ⟨?_, ?_, ?_, fun _ => ?_⟩⟩
  · intro t tag
    have short := List.mem_map_of_mem (f := canonicalLength) tag
    rw [lengths, List.mem_singleton] at short
    rw [short]
    decide
  · rw [wraps]
    decide
  · rw [wraps]
    decide
  · rw [length]
    decide

/-- A long caveat before a long description makes a cell that the format does not hold. -/
theorem getRow_overflows : ∃ hdf rows,
    @hdfWrapControl asciiTables (longControl 1000) = .ok hdf ∧
      @getRow noCalendar hdf (some (js "scan.json")) = .ok rows ∧
      ¬ ∀ row ∈ rows, CellsFit row := by
  obtain ⟨hdf, rows, wrapped, made, -, -, filled, length⟩ := @longControl_made 1000 (by decide)
  refine ⟨hdf, rows, wrapped, made, fun fit => ?_⟩
  obtain ⟨formatted, listed⟩ := @exists_formatted asciiTables _ _ wrapped
  obtain ⟨row, inside, here⟩ := mapM_eq_ok_of_mem made listed
  have fits := (@caatRow_fits asciiTables _ _ noCalendar _ _ wrapped _ here).mp (fit row inside)
  have room := fits.2.2.2 filled
  rw [length] at room
  exact absurd room (by decide)

end Samples
end Frontend
