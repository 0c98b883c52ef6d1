import Heimdall.Frontend.Comparison

/-!
# The changes of a compared control

The columns of a row belong to the files of the comparison in the order in which they are shown.
The changes above them are computed from a list of controls in the order of the series, which has
no place for a file.
-/
namespace Frontend
open Js Lib Inspec

section Source

def NOT_SELECTED : JsString := js "not selected"

/-- Represents a change in a property. -/
structure ControlChange where
  name : JsString
  values : List JsString
  deriving DecidableEq

/-- Some value that is selected differs from the first one. -/
def ControlChange.valid (change : ControlChange) : Bool :=
  match change.values.dropWhile fun v => decide (v = NOT_SELECTED) with
  | [] => false
  | firstSelected :: rest => rest.any fun v => decide (v ≠ firstSelected ∧ v ≠ NOT_SELECTED)

structure ControlDelta where
  controls : List StoredControl
  controlsandnull : List (Option StoredControl)
  numNull : ℕ

def newControlDelta (controls : List (Option StoredControl)) : ControlDelta where
  controls := controls.reduceOption
  controlsandnull := controls
  numNull := controls.countP Option.isNone

/-- A header element of a control, under its title. -/
structure HeaderField where
  name : JsString
  value : StoredControl → JsString

/-- `rawNistTags.join(', ')`; the tags of a wrapped control are strings. -/
def joinTags : JsVal → JsString
  | .arr items => join (js ", ") (items.map fun | .str s => s | _ => [])
  | _ => []

def headerFields : List HeaderField :=
  [⟨js "ID", StoredControl.id⟩,
    ⟨js "Severity", fun c => (c.hdf.map (·.severity.text)).getD []⟩,
    ⟨js "NIST Tags", fun c => (c.hdf.map fun hdf => joinTags hdf.rawNistTags).getD []⟩]

def HeaderField.at (field : HeaderField) : Option StoredControl → JsString
  | some c => field.value c
  | none => NOT_SELECTED

/-- Returns the changes in "header" elements of a control, those that are none left out. -/
def ControlDelta.headerChanges (delta : ControlDelta) : List ControlChange :=
  (headerFields.map fun field => ⟨field.name, delta.controlsandnull.map field.at⟩).filter
    ControlChange.valid

/-- The entries of the series whose file is shown. -/
def shownEntries (fileIds : List FileID) (controls : ControlSeries) :
    List (FileID × StoredControl) :=
  (Hash.entries controls).filter fun e => decide (e.1 ∈ fileIds)

/-- Extracts relevant controls for currently visible fileIds and passes those to ControlDelta -/
def delta (fileIds : List FileID) (controls : ControlSeries) : ControlDelta :=
  newControlDelta ((shownEntries fileIds controls).map fun e => some e.2)

end Source

section Purpose

/-- The value of a field for the control of a file. -/
def HeaderField.ofFile (field : HeaderField) (controls : ControlSeries) (fileId : FileID) :
    JsString :=
  match Hash.get controls fileId with
  | .own c => field.value c
  | _ => NOT_SELECTED

/-- Each value of each change is that of the file in its column. -/
def LinesUp (fileIds : List FileID) (controls : ControlSeries) : Prop :=
  ∀ change ∈ (delta fileIds controls).headerChanges, ∃ field ∈ headerFields,
    change.name = field.name ∧ change.values = fileIds.map (field.ofFile controls)

/-- The series has the listed files, and its entries are in their order. -/
def InOrder (fileIds : List FileID) (controls : ControlSeries) : Prop :=
  fileIds.Sublist ((Hash.entries controls).map Prod.fst)

/-- No two listed files have different values that count as selected. -/
def ValuesAgree (field : HeaderField) (fileIds : List FileID) (controls : ControlSeries) : Prop :=
  ∀ p ∈ controls, ∀ q ∈ controls, p.1 ∈ fileIds → q.1 ∈ fileIds → field.value p.2 ≠ NOT_SELECTED →
    field.value q.2 ≠ NOT_SELECTED → field.value p.2 = field.value q.2

/-- Different listed files have different values. -/
def TellsApart (field : HeaderField) (fileIds : List FileID) (controls : ControlSeries) : Prop :=
  ∀ p ∈ controls, ∀ q ∈ controls, p.1 ∈ fileIds → q.1 ∈ fileIds →
    field.value p.2 = field.value q.2 → p.1 = q.1

instance (fileIds : List FileID) (controls : ControlSeries) :
    Decidable (InOrder fileIds controls) := inferInstanceAs (Decidable (List.Sublist _ _))

end Purpose

section Changes

theorem valid_iff (change : ControlChange) : change.valid = true ↔
    ∃ v ∈ change.values, ∃ w ∈ change.values, v ≠ NOT_SELECTED ∧ w ≠ NOT_SELECTED ∧ v ≠ w := by
  obtain ⟨name, values⟩ := change
  unfold ControlChange.valid
  dsimp only
  induction values with
  | nil => simp
  | cons v values ih =>
      by_cases skipped : v = NOT_SELECTED
      · rw [List.dropWhile_cons, if_pos (decide_eq_true skipped), ih]
        subst skipped
        simp
      · rw [List.dropWhile_cons, if_neg (by simpa using skipped), List.any_eq_true]
        constructor
        · rintro ⟨w, inside, differs⟩
          obtain ⟨other, selected⟩ := of_decide_eq_true differs
          exact ⟨v, List.mem_cons_self, w, List.mem_cons_of_mem _ inside, skipped, selected,
            other.symm⟩
        · rintro ⟨u, hu, w, hw, selected, selected', differ⟩
          by_cases first : u = v
          · subst first
            refine ⟨w, (List.mem_cons.mp hw).resolve_left differ.symm, ?_⟩
            exact decide_eq_true ⟨differ.symm, selected'⟩
          · refine ⟨u, (List.mem_cons.mp hu).resolve_left first, ?_⟩
            exact decide_eq_true ⟨first, selected⟩

theorem headerFields_distinct {f g : HeaderField} (hf : f ∈ headerFields) (hg : g ∈ headerFields)
    (same : f.name = g.name) : f = g := by
  have names : (headerFields.map (·.name)).Nodup := by decide
  exact List.inj_on_of_nodup_map names hf hg same

def fieldChange (field : HeaderField) (fileIds : List FileID) (controls : ControlSeries) :
    ControlChange :=
  ⟨field.name, (shownEntries fileIds controls).map fun e => field.value e.2⟩

variable {fileIds : List FileID} {controls : ControlSeries}

theorem mem_shownEntries {e : FileID × StoredControl} :
    e ∈ shownEntries fileIds controls ↔ e ∈ controls ∧ e.1 ∈ fileIds := by
  unfold shownEntries
  rw [List.mem_filter, (Hash.entries_perm controls).mem_iff, decide_eq_true_eq]

theorem mem_headerChanges {change : ControlChange} :
    change ∈ (delta fileIds controls).headerChanges ↔
      ∃ field ∈ headerFields, change = fieldChange field fileIds controls ∧ change.valid = true := by
  have changes : (delta fileIds controls).headerChanges =
      (headerFields.map fun field => fieldChange field fileIds controls).filter
        ControlChange.valid := by
    unfold ControlDelta.headerChanges delta newControlDelta fieldChange
    simp only [List.map_map]
    rfl
  rw [changes, List.mem_filter, List.mem_map]
  constructor
  · rintro ⟨⟨field, inside, rfl⟩, valid⟩
    exact ⟨field, inside, rfl, valid⟩
  · rintro ⟨field, inside, rfl, valid⟩
    exact ⟨⟨field, inside, rfl⟩, valid⟩

theorem fieldChange_valid (field : HeaderField) : (fieldChange field fileIds controls).valid = true ↔
    ¬ ValuesAgree field fileIds controls := by
  rw [valid_iff]
  unfold ValuesAgree fieldChange
  push Not
  constructor
  · rintro ⟨_, inside, _, inside', selected, selected', differ⟩
    obtain ⟨p, hp, rfl⟩ := List.mem_map.mp inside
    obtain ⟨q, hq, rfl⟩ := List.mem_map.mp inside'
    obtain ⟨entry, listed⟩ := mem_shownEntries.mp hp
    obtain ⟨entry', listed'⟩ := mem_shownEntries.mp hq
    exact ⟨p, entry, q, entry', listed, listed', selected, selected', differ⟩
  · rintro ⟨p, entry, q, entry', listed, listed', selected, selected', differ⟩
    refine ⟨_, List.mem_map_of_mem (mem_shownEntries.mpr ⟨entry, listed⟩), _,
      List.mem_map_of_mem (mem_shownEntries.mpr ⟨entry', listed'⟩), selected, selected', differ⟩

end Changes

section Columns
variable {fileIds : List FileID} {controls : ControlSeries}
  (distinct : (controls.map Prod.fst).Nodup)

theorem shownFiles : (shownEntries fileIds controls).map Prod.fst =
    ((Hash.entries controls).map Prod.fst).filter fun fileId => decide (fileId ∈ fileIds) := by
  rw [List.filter_map]
  rfl

include distinct

theorem entries_nodup : ((Hash.entries controls).map Prod.fst).Nodup :=
  (((Hash.entries_perm controls).map Prod.fst).nodup_iff).mpr distinct

theorem shownFiles_eq (order : InOrder fileIds controls) :
    (shownEntries fileIds controls).map Prod.fst = fileIds :=
  shownFiles.trans (filter_mem_of_sublist order (entries_nodup distinct))

theorem fieldChange_values (field : HeaderField) : (fieldChange field fileIds controls).values =
    ((shownEntries fileIds controls).map Prod.fst).map (field.ofFile controls) := by
  unfold fieldChange
  rw [List.map_map]
  apply List.map_congr_left
  intro e inside
  have entry := (mem_shownEntries.mp inside).1
  show field.value e.2 = field.ofFile controls e.1
  unfold HeaderField.ofFile
  rw [Hash.get_of_mem distinct entry]

theorem linesUp_of_inOrder (order : InOrder fileIds controls) : LinesUp fileIds controls := by
  intro change kept
  obtain ⟨field, inside, rfl, -⟩ := mem_headerChanges.mp kept
  refine ⟨field, inside, rfl, ?_⟩
  rw [fieldChange_values distinct, shownFiles_eq distinct order]

/-- When as many files are shown as listed, the series has every listed file. -/
theorem present_of_length
    (counted : ((shownEntries fileIds controls).map Prod.fst).length = fileIds.length) :
    ∀ fileId ∈ fileIds, fileId ∈ (shownEntries fileIds controls).map Prod.fst := by
  have once : ((shownEntries fileIds controls).map Prod.fst).Nodup :=
    (entries_nodup distinct).sublist (List.filter_sublist.map _)
  have named : (shownEntries fileIds controls).map Prod.fst ⊆ fileIds := by
    intro fileId inside
    obtain ⟨e, shown, rfl⟩ := List.mem_map.mp inside
    exact (mem_shownEntries.mp shown).2
  have same := (List.subperm_of_subset once named).perm_of_length_le counted.ge
  exact fun fileId inside => same.mem_iff.mpr inside

/-- A field that tells the listed files apart is out of line when they are out of order. -/
theorem inOrder_of_linesUp {field : HeaderField} (inside : field ∈ headerFields)
    (differ : ¬ ValuesAgree field fileIds controls) (apart : TellsApart field fileIds controls)
    (lines : LinesUp fileIds controls) : InOrder fileIds controls := by
  have kept := mem_headerChanges.mpr ⟨field, inside, rfl, (fieldChange_valid field).mpr differ⟩
  obtain ⟨other, inside', name, values⟩ := lines _ kept
  obtain rfl : field = other := headerFields_distinct inside inside' name
  rw [fieldChange_values distinct] at values
  have counted : ((shownEntries fileIds controls).map Prod.fst).length = fileIds.length := by
    simpa only [List.length_map] using congrArg List.length values
  have present := present_of_length distinct counted
  have injective : ∀ f ∈ (shownEntries fileIds controls).map Prod.fst,
      ∀ g ∈ (shownEntries fileIds controls).map Prod.fst,
      field.ofFile controls f = field.ofFile controls g → f = g := by
    rintro f shown g shown' same
    obtain ⟨p, hp, rfl⟩ := List.mem_map.mp shown
    obtain ⟨q, hq, rfl⟩ := List.mem_map.mp shown'
    obtain ⟨entry, listed⟩ := mem_shownEntries.mp hp
    obtain ⟨entry', listed'⟩ := mem_shownEntries.mp hq
    unfold HeaderField.ofFile at same
    rw [Hash.get_of_mem distinct entry, Hash.get_of_mem distinct entry'] at same
    exact apart p entry q entry' listed listed' same
  have order : (shownEntries fileIds controls).map Prod.fst = fileIds :=
    eq_of_map_eq (fun f shown g listed => injective f shown g (present g listed)) values
  unfold InOrder
  rw [← order, shownFiles]
  exact List.filter_sublist

/-- The changes line up with the files where the series has the files in their order, or where
there is nothing to show. For a field that tells the files apart the order is needed. -/
theorem linesUp_order (fileIds : List FileID) :
    ((InOrder fileIds controls ∨ ∀ field ∈ headerFields, ValuesAgree field fileIds controls) →
      LinesUp fileIds controls) ∧
    ∀ field ∈ headerFields, ¬ ValuesAgree field fileIds controls →
      TellsApart field fileIds controls →
        (LinesUp fileIds controls ↔ InOrder fileIds controls) := by
  refine ⟨fun condition => ?_, fun field inside differ apart => ?_⟩
  · rcases condition with order | agree
    · exact linesUp_of_inOrder distinct order
    · intro change kept
      obtain ⟨field, inside, rfl, valid⟩ := mem_headerChanges.mp kept
      exact absurd (agree field inside) ((fieldChange_valid field).mp valid)
  · exact ⟨inOrder_of_linesUp distinct inside differ apart, linesUp_of_inOrder distinct⟩

end Columns

section Samples

def gradedStore : InspecData := sampleStore
  [("f", sampleExec [⟨js "base", .undefined, [{ bareControl "C-1" [] with
      impact := .finite 1 }]⟩]),
   ("g", sampleExec [⟨js "base", .undefined, [bareControl "C-1" []]⟩])]

def gradedSeries : ControlSeries :=
  match Hash.get (ComparisonContext gradedStore.executionFiles) (js "C-1") with
  | .own series => series
  | _ => []

theorem linesUp_order_sample : LinesUp [js "f", js "g"] gradedSeries :=
  (linesUp_order (by decide +kernel) [js "f", js "g"]).1 (.inl (by decide +kernel))

/-- Files that are shown in another order than the series has them get each other's values. -/
theorem gradedSeries_swapped : ¬ LinesUp [js "g", js "f"] gradedSeries := by
  intro lines
  have kept : ⟨js "Severity", [js "critical", js "medium"]⟩ ∈
      (delta [js "g", js "f"] gradedSeries).headerChanges := by decide +kernel
  obtain ⟨field, inside, name, values⟩ := lines _ kept
  rcases List.mem_cons.mp inside with rfl | later
  · exact absurd name (by decide)
  · rcases List.mem_cons.mp later with rfl | last
    · revert values
      decide +kernel
    · rw [List.mem_singleton.mp last] at name
      exact absurd name (by decide)

end Samples
end Frontend
