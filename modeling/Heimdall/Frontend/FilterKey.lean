import Heimdall.Js.Json
import Heimdall.Frontend.DataFilters

/-!
# The key of a filter

The text under which the answer for a filter is cached: the filter with two properties filled
in, written as JSON. The text tells all that the pipeline reads of the filter, apart from two
things: an empty search term may be absent, and so may a flag that is false.
-/
namespace Frontend
open Js Lib Inspec

section Objects

/-- The properties of a filter. -/
inductive FilterName where
  | fromFile | status | severity | omit_overlayed_controls | searchTerm | treeFilters | control_id
  deriving DecidableEq

def FilterName.text : FilterName → JsString
  | fromFile => js "fromFile"
  | status => js "status"
  | severity => js "severity"
  | omit_overlayed_controls => js "omit_overlayed_controls"
  | searchTerm => js "searchTerm"
  | treeFilters => js "treeFilters"
  | control_id => js "control_id"

/-- An own property of a filter object. An optional property may be there and undefined. -/
inductive FilterField where
  | fromFile (ids : List FileID)
  | status (value : Option StatusFilter)
  | severity (value : Option Severity)
  | omit_overlayed_controls (value : Option Bool)
  | searchTerm (value : Option JsString)
  | treeFilters (value : Option (List JsString))
  | control_id (value : Option JsString)

/-- The string that the status is. -/
def StatusFilter.text : StatusFilter → JsString
  | .status s => s.text
  | .waived => js "Waived"

namespace FilterField

def name : FilterField → FilterName
  | fromFile _ => .fromFile
  | status _ => .status
  | severity _ => .severity
  | omit_overlayed_controls _ => .omit_overlayed_controls
  | searchTerm _ => .searchTerm
  | treeFilters _ => .treeFilters
  | control_id _ => .control_id

def value : FilterField → Option JsonValue
  | fromFile ids => some (.strs ids)
  | status v => v.map fun s => .str s.text
  | severity v => v.map fun s => .str s.text
  | omit_overlayed_controls v => v.map .bool
  | searchTerm v => v.map .str
  | treeFilters v => v.map .strs
  | control_id v => v.map .str

/-- What is written of a property: nothing where it is undefined. -/
def entry (field : FilterField) : Option (JsString × JsonValue) :=
  field.value.map fun v => (field.name.text, v)

def fromFile? : FilterField → Option (List FileID)
  | fromFile ids => some ids
  | _ => none

def status? : FilterField → Option StatusFilter
  | status v => v
  | _ => none

def severity? : FilterField → Option Severity
  | severity v => v
  | _ => none

def omit? : FilterField → Option Bool
  | omit_overlayed_controls v => v
  | _ => none

def searchTerm? : FilterField → Option JsString
  | searchTerm v => v
  | _ => none

def treeFilters? : FilterField → Option (List JsString)
  | treeFilters v => v
  | _ => none

def control_id? : FilterField → Option JsString
  | control_id v => v
  | _ => none

end FilterField

/-- The own properties, in the order in which they were added. -/
structure FilterObject where
  fields : List FilterField
  distinct : (fields.map FilterField.name).Nodup
  required : ∃ ids, FilterField.fromFile ids ∈ fields

/-- What is found when the properties are read. -/
def filterOf (fields : List FilterField) : Filter where
  fromFile := (fields.findSome? FilterField.fromFile?).getD []
  status := fields.findSome? FilterField.status?
  severity := fields.findSome? FilterField.severity?
  omit_overlayed_controls := fields.findSome? FilterField.omit?
  searchTerm := fields.findSome? FilterField.searchTerm?
  treeFilters := fields.findSome? FilterField.treeFilters?
  control_id := fields.findSome? FilterField.control_id?

def FilterObject.filter (f : FilterObject) : Filter := filterOf f.fields

/-- `{...base, ...own}`: a property of both keeps its place and takes the later value. -/
def spread (base own : List FilterField) : List FilterField :=
  (base.map fun field => (own.find? fun f => f.name = field.name).getD field) ++
    own.filter fun f => f.name ∉ base.map FilterField.name

/-- The search term without the space around it, or the empty one. -/
def newSearch (f : FilterObject) : JsString := (f.filter.searchTerm.map trim).getD []

def newFilter (f : FilterObject) : List FilterField :=
  spread [.searchTerm (some (newSearch f)),
    .omit_overlayed_controls (some (f.filter.omit_overlayed_controls.getD false))] f.fields

def filter_cache_key (f : FilterObject) : JsString :=
  stringify ((newFilter f).filterMap FilterField.entry)

end Objects

section Keys

theorem FilterName.text_injective : Function.Injective FilterName.text := by
  intro a b same
  cases a <;> cases b <;> first | rfl | exact absurd same (by decide)

theorem ControlStatus.text_injective : Function.Injective Inspec.ControlStatus.text := by
  intro a b same
  cases a <;> cases b <;> first | rfl | exact absurd same (by decide)

theorem Severity.text_injective : Function.Injective Inspec.Severity.text := by
  intro a b same
  cases a <;> cases b <;> first | rfl | exact absurd same (by decide)

theorem StatusFilter.text_injective : Function.Injective StatusFilter.text := by
  have waived : ∀ s : ControlStatus, s.text ≠ js "Waived" := by
    intro s
    cases s <;> decide
  intro a b same
  cases a with
  | status s =>
      cases b with
      | status t => exact congrArg _ (ControlStatus.text_injective same)
      | waived => exact absurd same (waived s)
  | waived =>
      cases b with
      | status t => exact absurd same.symm (waived t)
      | waived => rfl

theorem JsonValue.str_injective : Function.Injective JsonValue.str :=
  fun _ _ same => JsonValue.str.inj same

/-- A property is told by its name and what is written for it. -/
theorem FilterField.eq_of_value {a b : FilterField} (names : a.name = b.name)
    (values : a.value = b.value) : a = b := by
  cases a with
  | fromFile ids =>
      cases b with
      | fromFile ids' => exact congrArg _ (JsonValue.strs.inj (Option.some.inj values))
      | _ => cases names
  | status v =>
      cases b with
      | status w =>
          exact congrArg _ (Option.map_injective
            (JsonValue.str_injective.comp StatusFilter.text_injective) values)
      | _ => cases names
  | severity v =>
      cases b with
      | severity w =>
          exact congrArg _ (Option.map_injective
            (JsonValue.str_injective.comp Severity.text_injective) values)
      | _ => cases names
  | omit_overlayed_controls v =>
      cases b with
      | omit_overlayed_controls w =>
          exact congrArg _ (Option.map_injective (fun _ _ same => JsonValue.bool.inj same) values)
      | _ => cases names
  | searchTerm v =>
      cases b with
      | searchTerm w => exact congrArg _ (Option.map_injective JsonValue.str_injective values)
      | _ => cases names
  | treeFilters v =>
      cases b with
      | treeFilters w =>
          exact congrArg _ (Option.map_injective (fun _ _ same => JsonValue.strs.inj same) values)
      | _ => cases names
  | control_id v =>
      cases b with
      | control_id w => exact congrArg _ (Option.map_injective JsonValue.str_injective values)
      | _ => cases names

theorem entry_injective {a b : FilterField} {e : JsString × JsonValue} (ha : a.entry = some e)
    (hb : b.entry = some e) : a = b := by
  obtain ⟨v, value, rfl⟩ := Option.map_eq_some_iff.mp ha
  obtain ⟨w, value', same⟩ := Option.map_eq_some_iff.mp hb
  obtain ⟨names, rfl⟩ := Prod.mk.inj same
  exact FilterField.eq_of_value (FilterName.text_injective names).symm (value.trans value'.symm)

/-- Lists with the same entries have the same defined properties. -/
theorem defined_eq {xs ys : List FilterField}
    (same : xs.filterMap FilterField.entry = ys.filterMap FilterField.entry) :
    (xs.filter fun a => a.entry.isSome) = ys.filter fun a => a.entry.isSome := by
  have entries : ∀ zs : List FilterField, (zs.filter fun a => a.entry.isSome).map
      FilterField.entry = (zs.filterMap FilterField.entry).map some := by
    intro zs
    induction zs with
    | nil => rfl
    | cons a zs ih =>
        cases here : a.entry with
        | none => simpa [here] using ih
        | some e => simpa [here] using ih
  have unique : ∀ zs zs' : List FilterField, (∀ a ∈ zs, a.entry.isSome = true) →
      zs.map FilterField.entry = zs'.map FilterField.entry → zs = zs' := by
    intro zs
    induction zs with
    | nil =>
        intro zs' _ same
        exact (List.map_eq_nil_iff.mp same.symm).symm
    | cons a zs ih =>
        intro zs' defined same
        cases zs' with
        | nil => cases same
        | cons b zs' =>
            obtain ⟨here, rest⟩ := List.cons.inj same
            obtain ⟨some_a, later⟩ := List.forall_mem_cons.mp defined
            obtain ⟨e, known⟩ := Option.isSome_iff_exists.mp some_a
            rw [entry_injective known (here.symm.trans known), ih zs' later rest]
  refine unique _ _ (fun a inside => (List.mem_filter.mp inside).2) ?_
  rw [entries, entries, same]

/-- Fields that are not read may be dropped. -/
theorem findSome?_filter {β : Type} {read : FilterField → Option β} {keep : FilterField → Bool}
    (dropped : ∀ a, keep a = false → read a = none) (fields : List FilterField) :
    (fields.filter keep).findSome? read = fields.findSome? read := by
  induction fields with
  | nil => rfl
  | cons a fields ih =>
      cases here : keep a with
      | false =>
          rw [List.filter_cons_of_neg (by simp [here]), ih, List.findSome?_cons, dropped a here]
      | true =>
          rw [List.filter_cons_of_pos here, List.findSome?_cons, List.findSome?_cons, ih]

/-- An undefined property is read as an absent one. -/
theorem findSome?_defined {β : Type} {read : FilterField → Option β}
    (undefined : ∀ a, a.value = none → read a = none) (fields : List FilterField) :
    (fields.filter fun a => a.entry.isSome).findSome? read = fields.findSome? read := by
  refine findSome?_filter (fun a skipped => undefined a ?_) fields
  have missing : a.entry = none := by simpa using skipped
  exact Option.map_eq_none_iff.mp missing

theorem filterOf_defined (fields : List FilterField) :
    filterOf (fields.filter fun a => a.entry.isSome) = filterOf fields := by
  unfold filterOf
  rw [findSome?_defined, findSome?_defined, findSome?_defined, findSome?_defined,
    findSome?_defined, findSome?_defined, findSome?_defined]
  all_goals
    intro a none
    cases a <;> first | rfl | exact Option.map_eq_none_iff.mp none

/-- The key determines what the pipeline reads of the normalised filter. -/
theorem filterOf_newFilter {f g : FilterObject}
    (same : filter_cache_key f = filter_cache_key g) :
    filterOf (newFilter f) = filterOf (newFilter g) := by
  rw [← filterOf_defined (newFilter f), defined_eq (stringify_injective same), filterOf_defined]

/-- A property that no field but those of one name has. -/
theorem findSome?_eq_find? {β : Type} {read : FilterField → Option β} {n : FilterName}
    (own : ∀ a, a.name ≠ n → read a = none) {fields : List FilterField}
    (distinct : (fields.map FilterField.name).Nodup) :
    fields.findSome? read = (fields.find? fun a => a.name = n).bind read := by
  induction fields with
  | nil => rfl
  | cons a fields ih =>
      rw [List.map_cons, List.nodup_cons] at distinct
      by_cases here : a.name = n
      · have absent : fields.findSome? read = none := by
          refine List.findSome?_eq_none_iff.mpr fun b inside => own b fun same => ?_
          exact distinct.1 (List.mem_map.mpr ⟨b, inside, same.trans here.symm⟩)
        have found : (a :: fields).find? (fun a => a.name = n) = some a :=
          List.find?_cons_of_pos (decide_eq_true here)
        rw [found, List.findSome?_cons, absent, Option.bind_some]
        cases read a <;> rfl
      · have passed : (a :: fields).find? (fun a => a.name = n) =
            fields.find? fun a => a.name = n :=
          List.find?_cons_of_neg fun same => here (of_decide_eq_true same)
        rw [passed, List.findSome?_cons, own a here]
        exact ih distinct.2

/-- Two filters that ask for the same, apart from an empty search term and from a false flag
that may be there or not. -/
structure Alike (a b : Filter) : Prop where
  fromFile : a.fromFile = b.fromFile
  status : a.status = b.status
  severity : a.severity = b.severity
  omit_overlayed_controls :
    a.omit_overlayed_controls.getD false = b.omit_overlayed_controls.getD false
  searchTerm : a.searchTerm.getD [] = b.searchTerm.getD []
  treeFilters : a.treeFilters = b.treeFilters
  control_id : a.control_id = b.control_id

theorem Alike.symm {a b : Filter} (alike : Alike a b) : Alike b a :=
  ⟨alike.fromFile.symm, alike.status.symm, alike.severity.symm,
    alike.omit_overlayed_controls.symm, alike.searchTerm.symm, alike.treeFilters.symm,
    alike.control_id.symm⟩

theorem Alike.trans {a b c : Filter} (first : Alike a b) (second : Alike b c) : Alike a c :=
  ⟨first.fromFile.trans second.fromFile, first.status.trans second.status,
    first.severity.trans second.severity,
    first.omit_overlayed_controls.trans second.omit_overlayed_controls,
    first.searchTerm.trans second.searchTerm, first.treeFilters.trans second.treeFilters,
    first.control_id.trans second.control_id⟩

variable (f : FilterObject)

/-- The normalised filter: the two properties of the base, which an own property replaces, and
the other own properties. -/
theorem newFilter_eq : newFilter f =
    (f.fields.find? fun a => a.name = .searchTerm).getD (.searchTerm (some (newSearch f))) ::
      (f.fields.find? fun a => a.name = .omit_overlayed_controls).getD
        (.omit_overlayed_controls (some (f.filter.omit_overlayed_controls.getD false))) ::
      f.fields.filter fun a => a.name ∉ [.searchTerm, .omit_overlayed_controls] := rfl

theorem name_getD_find? {fields : List FilterField} {base : FilterField} {n : FilterName}
    (named : base.name = n) : ((fields.find? fun a => a.name = n).getD base).name = n := by
  cases found : fields.find? fun a => a.name = n with
  | none => exact named
  | some a => simpa using List.find?_some found

/-- The properties that the base does not have are read as before. -/
theorem findSome?_newFilter {β : Type} {read : FilterField → Option β}
    (other : ∀ a, a.name ∈ [FilterName.searchTerm, .omit_overlayed_controls] → read a = none) :
    (newFilter f).findSome? read = f.fields.findSome? read := by
  have first : ∀ base : FilterField, base.name = .searchTerm →
      read ((f.fields.find? fun a => a.name = .searchTerm).getD base) = none := by
    intro base named
    exact other _ (List.mem_cons.mpr (.inl (name_getD_find? named)))
  have second : ∀ base : FilterField, base.name = .omit_overlayed_controls →
      read ((f.fields.find? fun a => a.name = .omit_overlayed_controls).getD base) = none := by
    intro base named
    exact other _ (List.mem_cons_of_mem _ (List.mem_singleton.mpr (name_getD_find? named)))
  rw [newFilter_eq, List.findSome?_cons, first _ rfl, List.findSome?_cons, second _ rfl]
  refine findSome?_filter (fun a dropped => other a ?_) f.fields
  exact not_not.mp (of_decide_eq_false dropped)

/-- A property of the base is the own one, if there is one, or that of the base. -/
theorem findSome?_getD {β : Type} {read : FilterField → Option β} {n : FilterName}
    (own : ∀ a, a.name ≠ n → read a = none) {base : FilterField} {rest : List FilterField}
    (others : ∀ a ∈ rest, a.name ≠ n) :
    (((f.fields.find? fun a => a.name = n).getD base) :: rest).findSome? read =
      if (f.fields.find? fun a => a.name = n).isSome then f.fields.findSome? read
      else read base := by
  have nothing : rest.findSome? read = none :=
    List.findSome?_eq_none_iff.mpr fun a inside => own a (others a inside)
  rw [findSome?_eq_find? own f.distinct, List.findSome?_cons, nothing]
  cases f.fields.find? fun a => a.name = n with
  | none => cases h : read base <;> simp [h]
  | some a => cases h : read a <;> simp [h]

theorem own_searchTerm (a : FilterField) (other : a.name ≠ .searchTerm) :
    a.searchTerm? = none := by
  cases a <;> first | rfl | exact absurd rfl other

theorem own_omit (a : FilterField) (other : a.name ≠ .omit_overlayed_controls) :
    a.omit? = none := by
  cases a <;> first | rfl | exact absurd rfl other

theorem read_absent {β : Type} {read : FilterField → Option β} {n : FilterName}
    (own : ∀ a, a.name ≠ n → read a = none)
    (absent : ¬ (f.fields.find? fun a => a.name = n).isSome) :
    f.fields.findSome? read = none := by
  rw [findSome?_eq_find? own f.distinct, Option.not_isSome_iff_eq_none.mp absent]
  rfl

theorem searchTerm_newFilter : (filterOf (newFilter f)).searchTerm.getD [] =
    f.filter.searchTerm.getD [] := by
  show ((newFilter f).findSome? FilterField.searchTerm?).getD [] = f.filter.searchTerm.getD []
  rw [newFilter_eq, findSome?_getD f own_searchTerm]
  · split
    · rfl
    · rename_i absent
      have none : f.filter.searchTerm = none := read_absent f own_searchTerm absent
      show newSearch f = _
      unfold newSearch
      rw [none]
      rfl
  · refine List.forall_mem_cons.mpr ⟨?_, fun a kept => ?_⟩
    · rw [name_getD_find? (n := .omit_overlayed_controls) rfl]
      exact fun same => nomatch same
    · have outside := of_decide_eq_true (List.mem_filter.mp kept).2
      exact fun same => outside (List.mem_cons.mpr (.inl same))

theorem omit_newFilter : (filterOf (newFilter f)).omit_overlayed_controls.getD false =
    f.filter.omit_overlayed_controls.getD false := by
  show ((newFilter f).findSome? FilterField.omit?).getD false =
    f.filter.omit_overlayed_controls.getD false
  rw [newFilter_eq, List.findSome?_cons, own_omit, findSome?_getD f own_omit]
  · dsimp only
    split
    · rfl
    · rename_i absent
      have none : f.filter.omit_overlayed_controls = none := read_absent f own_omit absent
      rw [none]
      rfl
  · intro a kept same
    have outside := of_decide_eq_true (List.mem_filter.mp kept).2
    exact outside (List.mem_cons_of_mem _ (List.mem_singleton.mpr same))
  · rw [name_getD_find? (n := .searchTerm) rfl]
    exact fun same => nomatch same

theorem alike_newFilter : Alike f.filter (filterOf (newFilter f)) where
  fromFile := congrArg (Option.getD · []) (findSome?_newFilter f fun a other => by
    cases a <;> first | rfl | simp [FilterField.name] at other).symm
  status := (findSome?_newFilter f fun a other => by
    cases a <;> first | rfl | simp [FilterField.name] at other).symm
  severity := (findSome?_newFilter f fun a other => by
    cases a <;> first | rfl | simp [FilterField.name] at other).symm
  omit_overlayed_controls := (omit_newFilter f).symm
  searchTerm := (searchTerm_newFilter f).symm
  treeFilters := (findSome?_newFilter f fun a other => by
    cases a <;> first | rfl | simp [FilterField.name] at other).symm
  control_id := (findSome?_newFilter f fun a other => by
    cases a <;> first | rfl | simp [FilterField.name] at other).symm

variable {f}

/-- Filters with one key ask for the same. -/
theorem alike_of_key {g : FilterObject} (same : filter_cache_key f = filter_cache_key g) :
    Alike f.filter g.filter := by
  have middle : Alike f.filter (filterOf (newFilter g)) :=
    filterOf_newFilter same ▸ alike_newFilter f
  exact middle.trans (alike_newFilter g).symm

end Keys
end Frontend
