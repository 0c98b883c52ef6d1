import Heimdall.Frontend.CaatRows

/-!
# The names of CAAT sheets over a run of exports

One component keeps the names that it has given, so that the number after a name grows from
export to export. The names fit the format as long as one with a short number is left.
-/
namespace Frontend
open Js Lib Inspec

section Lengths

/-- A name that fits is left: the cut one, or one with a number. -/
def ShortLeft (taken : List JsString) (label : JsString) : Prop :=
  label.take sheetNameLimit ∉ taken ∨
    ∃ n ≥ 2, (renamed label n).length ≤ sheetNameLimit ∧ renamed label n ∉ taken

theorem decimal_length_mono {m n : ℕ} (le : m ≤ n) : (decimal m).length ≤ (decimal n).length := by
  have some_digit : 0 < (decimal n).length := by
    rw [decimal, List.length_map]
    exact Nat.length_toDigits_pos
  have bound := (decimal_length_le some_digit).mp (Nat.le_refl (decimal n).length)
  exact (decimal_length_le some_digit).mpr (Nat.lt_of_le_of_lt le bound)

theorem renamed_length (label : JsString) (n : ℕ) :
    (renamed label n).length = min 26 (label.length + 1) + (decimal n).length + 3 := by
  have opening : (js " (").length = 2 := by decide
  have closing : (js ")").length = 1 := by decide
  have blank : (js " ").length = 1 := by decide
  rw [renamed, List.length_append, List.length_append, List.length_append, List.length_take,
    List.length_append, opening, closing, blank]
  omega

theorem first_length (label : JsString) : (caatScheme.first label).length ≤ sheetNameLimit := by
  show (label.take 31).length ≤ 31
  rw [List.length_take]
  exact Nat.min_le_left _ _

/-- The name that a file is given fits exactly when one that fits is left. -/
theorem name_short_iff {fuel : ℕ} {taken : List JsString} {label name : JsString}
    (named : caatScheme.name fuel taken label = some name) :
    name.length ≤ sheetNameLimit ↔ ShortLeft taken label := by
  obtain ⟨free, ⟨outside, rfl⟩ | ⟨inside, k, above, rfl, before⟩⟩ := Scheme.search_some named
  · exact iff_of_true (first_length label) (.inl outside)
  · constructor
    · intro short
      exact .inr ⟨k, above, short, free⟩
    · rintro (outside | ⟨n, least, short, left⟩)
      · exact absurd inside outside
      · have reached : k ≤ n := by
          by_contra later
          exact left (before n least (by omega))
        have digits := decimal_length_mono reached
        have length := renamed_length label n
        show (renamed label k).length ≤ sheetNameLimit
        rw [renamed_length]
        omega

end Lengths

section Runs
variable [UnicodeTables] [Calendar]

/-- The workbooks of one component, one export after the other. -/
def exports (fuel : ℕ) : List JsString → List CaatRequest →
    Option (List JsString × List (Except JsError (List CAATSheet)))
  | taken, [] => some (taken, [])
  | taken, request :: requests => do
      let (taken, outcome) ← caatWorkbook fuel request taken
      let (last, later) ← exports fuel taken requests
      return (last, outcome :: later)

def allLabels (requests : List CaatRequest) : List JsString :=
  requests.flatMap fun request => request.labels request.filter.fromFile

/-- The sheets of a workbook have names that differ and fit. -/
def WellNamed (sheets : List CAATSheet) : Prop :=
  (sheets.map (·.name)).Nodup ∧ ∀ sheet ∈ sheets, sheet.name.length ≤ sheetNameLimit

variable {fuel : ℕ} {taken last : List JsString} {request : CaatRequest}
  {requests : List CaatRequest} {outcomes : List (Except JsError (List CAATSheet))}

theorem exports_cons_eq_some :
    exports fuel taken (request :: requests) = some (last, outcomes) ↔
      ∃ taken' outcome later, caatWorkbook fuel request taken = some (taken', outcome) ∧
        exports fuel taken' requests = some (last, later) ∧ outcomes = outcome :: later := by
  rw [exports, Option.bind_eq_bind, Option.bind_eq_some_iff]
  constructor
  · rintro ⟨⟨taken', outcome⟩, here, rest⟩
    obtain ⟨⟨last', later⟩, there, same⟩ := Option.bind_eq_some_iff.mp rest
    cases same
    exact ⟨taken', outcome, later, here, there, rfl⟩
  · rintro ⟨taken', outcome, later, here, there, rfl⟩
    exact ⟨(taken', outcome), here, Option.bind_eq_some_iff.mpr ⟨(last, later), there, rfl⟩⟩

theorem exports_names (returned : exports fuel taken requests = some (last, outcomes)) :
    ∃ names, caatScheme.names fuel taken (allLabels requests) = some names ∧
      last = taken ++ names ∧
      ∀ sheets, .ok sheets ∈ outcomes → (sheets.map (·.name)).Sublist names := by
  induction requests generalizing taken last outcomes with
  | nil =>
      cases returned
      exact ⟨[], rfl, (List.append_nil _).symm, fun _ inside => nomatch inside⟩
  | cons request requests ih =>
      obtain ⟨taken', outcome, later, here, there, rfl⟩ := exports_cons_eq_some.mp returned
      obtain ⟨given, named, same, sheets⟩ := (exportFiles_exported here).named
      obtain rfl : taken' = taken ++ given := same
      obtain ⟨names, named', rfl, sheets'⟩ := ih there
      refine ⟨given ++ names, ?_, List.append_assoc _ _ _, ?_⟩
      · exact Scheme.names_append_eq_some.mpr ⟨given, names, named, named', rfl⟩
      · intro book inside
        rcases List.mem_cons.mp inside with first | rest
        · rw [sheets book first.symm]
          exact List.sublist_append_left _ _
        · exact (sheets' book rest).trans (List.sublist_append_right _ _)

theorem exports_ends {names : List JsString}
    (named : caatScheme.names fuel taken (allLabels requests) = some names) :
    ∃ result, exports fuel taken requests = some result := by
  induction requests generalizing taken names with
  | nil => exact ⟨_, rfl⟩
  | cons request requests ih =>
      obtain ⟨given, later, first, rest, -⟩ := Scheme.names_append_eq_some.mp named
      obtain ⟨⟨taken', outcome⟩, here⟩ := exportFiles_ends first
      obtain ⟨given', named', same, -⟩ := (exportFiles_exported here).named
      obtain rfl : given' = given := Option.some.inj (named'.symm.trans first)
      obtain rfl : taken' = taken ++ given' := same
      obtain ⟨⟨last, outcomes⟩, there⟩ := ih rest
      exact ⟨_, exports_cons_eq_some.mpr ⟨_, outcome, outcomes, here, there, rfl⟩⟩

/-- Every run of exports ends, and no workbook has a name twice; and where a name that fits is
left for each file when it is named, the sheets of every workbook are well named. -/
theorem exports_wellNamed (requests : List CaatRequest) :
    ∃ fuel taken outcomes, exports fuel [] requests = some (taken, outcomes) ∧
      (∀ sheets, .ok sheets ∈ outcomes → (sheets.map (·.name)).Nodup) ∧
      (caatScheme.Steps ShortLeft [] (allLabels requests) →
        ∀ sheets, .ok sheets ∈ outcomes → WellNamed sheets) := by
  obtain ⟨fuel, names, named⟩ := names_end [] (allLabels requests)
  obtain ⟨⟨taken, outcomes⟩, returned⟩ := exports_ends named
  obtain ⟨names', named', -, part⟩ := exports_names returned
  obtain rfl : names' = names := Option.some.inj (named'.symm.trans named)
  have distinct : ∀ sheets, .ok sheets ∈ outcomes → (sheets.map (·.name)).Nodup :=
    fun sheets inside => (part sheets inside).nodup (Scheme.names_nodup named).1
  refine ⟨fuel, taken, outcomes, returned, distinct, fun short sheets inside => ?_⟩
  have lengths := (Scheme.steps_iff_forall_names (fun here => (name_short_iff here).symm) named).mp
    short
  refine ⟨distinct sheets inside, fun sheet member => ?_⟩
  exact lengths _ ((part sheets inside).subset (List.mem_map_of_mem member))

/-- Where all rows are made, every name that a run gives is that of a sheet in a workbook. -/
theorem exports_complete (all : ∀ request ∈ requests, ∀ fileId ∈ request.filter.fromFile,
      ∃ rows, request.rows fileId = .ok rows)
    (returned : exports fuel taken requests = some (last, outcomes)) :
    ∀ name ∈ last, name ∈ taken ∨
      ∃ sheets, .ok sheets ∈ outcomes ∧ ∃ sheet ∈ sheets, sheet.name = name := by
  induction requests generalizing taken last outcomes with
  | nil =>
      cases returned
      exact fun name old => .inl old
  | cons request requests ih =>
      obtain ⟨taken', outcome, later, here, there, rfl⟩ := exports_cons_eq_some.mp returned
      rw [List.forall_mem_cons] at all
      obtain ⟨given, -, same, names⟩ := (exportFiles_exported here).named
      obtain rfl : taken' = taken ++ given := same
      obtain ⟨book, made⟩ := (exportFiles_exported here).made.mpr all.1
      obtain rfl : outcome = .ok book := made
      intro name inside
      rcases ih all.2 there name inside with old | ⟨sheets, member, found⟩
      · rcases List.mem_append.mp old with before | new
        · exact .inl before
        · rw [← names book rfl] at new
          exact .inr ⟨book, List.mem_cons_self, List.mem_map.mp new⟩
      · exact .inr ⟨sheets, List.mem_cons_of_mem _ member, found⟩

end Runs

section Samples

theorem exports_wellNamed_sample : ∃ fuel taken outcomes,
    @exports asciiTables noCalendar fuel [] [caatSample, caatSample] = some (taken, outcomes) ∧
      ∀ sheets, .ok sheets ∈ outcomes → WellNamed sheets := by
  obtain ⟨fuel, taken, outcomes, returned, -, wellNamed⟩ :=
    @exports_wellNamed asciiTables noCalendar [caatSample, caatSample]
  refine ⟨fuel, taken, outcomes, returned, wellNamed ?_⟩
  have labels : @allLabels asciiTables noCalendar [caatSample, caatSample] =
      [js "scan.json", js "scan.json"] := by decide +kernel
  rw [labels]
  refine ⟨.inl List.not_mem_nil, fun fuel name here => ⟨.inr ⟨2, Nat.le_refl 2, ?_⟩, ?_⟩⟩
  · rcases (Scheme.search_some here).2 with ⟨-, rfl⟩ | ⟨inside, -⟩
    · decide
    · cases inside
  · exact fun _ _ _ => trivial

def alphabetRequest : CaatRequest where
  allFiles := [⟨js "f", js "abcdefghijklmnopqrstuvwxyz"⟩]
  data := ⟨[], []⟩
  filter := { fromFile := [js "f"] }

theorem allLabels_alphabet (n : ℕ) :
    @allLabels asciiTables noCalendar (List.replicate n alphabetRequest) =
      List.replicate n (js "abcdefghijklmnopqrstuvwxyz") := by
  induction n with
  | zero => rfl
  | succ n ih =>
      rw [List.replicate_succ, List.replicate_succ]
      exact congrArg (js "abcdefghijklmnopqrstuvwxyz" :: ·) ih

/-- The hundredth export of one file makes a sheet with a name of 32 characters. -/
theorem exports_overflow : ¬ ∃ fuel taken outcomes,
    @exports asciiTables noCalendar fuel [] (List.replicate 100 alphabetRequest) =
      some (taken, outcomes) ∧ ∀ sheets, .ok sheets ∈ outcomes → WellNamed sheets := by
  rintro ⟨fuel, taken, outcomes, returned, named⟩
  obtain ⟨names, given, same, -⟩ := @exports_names asciiTables noCalendar _ _ _ _ _ returned
  obtain rfl : taken = names := same
  rw [allLabels_alphabet] at given
  have complete := @exports_complete asciiTables noCalendar _ _ _ _ _ (fun request inside => by
    rw [List.eq_of_mem_replicate inside]
    exact List.forall_mem_singleton.mpr ⟨[], rfl⟩) returned
  have short : ∀ name ∈ taken, name.length ≤ sheetNameLimit := by
    intro name inside
    rcases complete name inside with old | ⟨sheets, member, sheet, found, rfl⟩
    · cases old
    · exact (named sheets member).2 sheet found
  have candidates : taken ⊆ caatScheme.first (js "abcdefghijklmnopqrstuvwxyz") ::
      (List.range 98).map fun i => renamed (js "abcdefghijklmnopqrstuvwxyz") (i + 2) := by
    intro name inside
    obtain ⟨label, member, candidate⟩ := Scheme.names_mem given name inside
    rw [List.eq_of_mem_replicate member] at candidate
    rcases candidate with rfl | ⟨k, above, rfl⟩
    · exact List.mem_cons_self
    · have length := short _ inside
      have least : 2 ≤ k := above
      have label : (js "abcdefghijklmnopqrstuvwxyz").length = 26 := by decide
      change (renamed _ k).length ≤ 31 at length
      rw [renamed_length, label] at length
      have digits : k < 10 ^ 2 := (decimal_length_le Nat.two_pos).mp (by omega)
      refine List.mem_cons_of_mem _ (List.mem_map.mpr ⟨k - 2, List.mem_range.mpr (by omega), ?_⟩)
      rw [Nat.sub_add_cancel least]
      rfl
  have counted := (List.subperm_of_subset (Scheme.names_nodup given).1 candidates).length_le
  rw [Scheme.names_length given, List.length_replicate, List.length_cons, List.length_map,
    List.length_range] at counted
  omega

end Samples
end Frontend
