import Heimdall.Frontend.LoadedData
import Heimdall.Frontend.FilterKey

/-!
# Counting without the status

The counts should not depend on the status that a filter asks for: the status is set to
undefined before the controls are counted. But the filter is copied over it, so that the
status of the filter stays, and the counts are those of the controls with the status.
-/
namespace Frontend
open Js Lib Inspec

section Copied

theorem own_status (a : FilterField) (other : a.name ≠ .status) : a.status? = none := by
  cases a <;> first | rfl | exact absurd rfl other

/-- `{status: undefined, ...filter}` reads like the filter. -/
theorem filterOf_spread_status (f : FilterObject) :
    filterOf (spread [.status none] f.fields) = f.filter := by
  have parts : spread [.status none] f.fields =
      (f.fields.find? fun a => a.name = .status).getD (.status none) ::
        f.fields.filter fun a => a.name ∉ [FilterName.status] := rfl
  have others : ∀ {β : Type} {read : FilterField → Option β},
      (∀ a, a.name = FilterName.status → read a = none) →
        (spread [.status none] f.fields).findSome? read = f.fields.findSome? read := by
    intro β read other
    rw [parts, List.findSome?_cons, other _ (name_getD_find? rfl)]
    refine findSome?_filter (fun a dropped => other a ?_) f.fields
    exact List.mem_singleton.mp (not_not.mp (of_decide_eq_false dropped))
  have status : (spread [.status none] f.fields).findSome? FilterField.status? =
      f.fields.findSome? FilterField.status? := by
    rw [parts, findSome?_getD f own_status]
    · split
      · rfl
      · rename_i absent
        exact (read_absent f own_status absent).symm
    · intro a kept same
      exact of_decide_eq_true (List.mem_filter.mp kept).2 (List.mem_singleton.mpr same)
  unfold FilterObject.filter filterOf
  rw [status, others, others, others, others, others, others]
  all_goals
    intro a named
    cases a <;> first | rfl | cases named

end Copied

section Allowed
variable {s t : Option StatusFilter} {cs : List StoredControl}

/-- The status lets a control through. -/
def allows (status : Option StatusFilter) (c : StoredControl) : Bool :=
  match status with
  | none => true
  | some s => accepts (hasStatus s) c

theorem hasRootStatus_unique {c : StoredControl} {a b : ControlStatus}
    (first : c.hasRootStatus a = true) (second : c.hasRootStatus b = true) : a = b := by
  unfold StoredControl.hasRootStatus at first second
  cases here : c.view with
  | none => rw [here] at first; cases first
  | some hdf =>
      rw [here] at first second
      exact (of_decide_eq_true first).symm.trans (of_decide_eq_true second)

/-- What a root status selects has this status; so does what another status selects, where
the counts are the same. -/
theorem allows_of_counts (other : s ≠ some .waived)
    (counts : ∀ a, (cs.filter (allows s)).countP (StoredControl.hasRootStatus a) =
      (cs.filter (allows t)).countP (StoredControl.hasRootStatus a))
    (known : ∀ c ∈ cs, allows t c = true → ∃ a, c.hasRootStatus a = true) :
    ∀ c ∈ cs, allows t c = true → allows s c = true := by
  intro c inside allowed
  cases s with
  | none => rfl
  | some status =>
      cases status with
      | waived => exact absurd rfl other
      | status a =>
          have rootStatus : allows (some (.status a)) = StoredControl.hasRootStatus a :=
            accepts_hasStatus a
          obtain ⟨b, here⟩ := known c inside allowed
          have positive : 0 < (cs.filter (allows t)).countP (StoredControl.hasRootStatus b) :=
            List.countP_pos_iff.mpr ⟨c, List.mem_filter.mpr ⟨inside, allowed⟩, here⟩
          rw [← counts b, List.countP_pos_iff] at positive
          obtain ⟨d, kept, there⟩ := positive
          have same := (List.mem_filter.mp kept).2
          rw [rootStatus] at same ⊢
          rw [hasRootStatus_unique same there]
          exact here

theorem agree_of_counts {p q : StoredControl → Bool} (less : ∀ c ∈ cs, q c = true → p c = true)
    (counts : ∀ a, (cs.filter p).countP (StoredControl.hasRootStatus a) =
      (cs.filter q).countP (StoredControl.hasRootStatus a))
    (known : ∀ c ∈ cs, p c = true → ∃ a, c.hasRootStatus a = true) :
    ∀ c ∈ cs, p c = q c := by
  intro c inside
  refine Bool.eq_iff_iff.mpr ⟨fun kept => ?_, less c inside⟩
  obtain ⟨a, here⟩ := known c inside kept
  have among : cs.filter q = (cs.filter p).filter q := by
    rw [List.filter_filter]
    apply List.filter_congr
    intro d member
    cases chosen : q d with
    | false => rfl
    | true => rw [less d member chosen]; rfl
  have sublist : ((cs.filter q).filter (StoredControl.hasRootStatus a)).Sublist
      ((cs.filter p).filter (StoredControl.hasRootStatus a)) := by
    rw [among]
    exact List.filter_sublist.filter _
  have whole := sublist.eq_of_length (by
    rw [← List.countP_eq_length_filter, ← List.countP_eq_length_filter, counts a])
  have listed : c ∈ (cs.filter p).filter (StoredControl.hasRootStatus a) :=
    List.mem_filter.mpr ⟨List.mem_filter.mpr ⟨inside, kept⟩, here⟩
  rw [← whole] at listed
  exact (List.mem_filter.mp (List.mem_filter.mp listed).1).2

/-- The counts are the same exactly when the statuses let the same controls through. -/
theorem tally_eq_iff (knownS : ∀ c ∈ cs, allows s c = true → ∃ a, c.hasRootStatus a = true)
    (knownT : ∀ c ∈ cs, allows t c = true → ∃ a, c.hasRootStatus a = true) :
    tally (cs.filter (allows s)) = tally (cs.filter (allows t)) ↔
      ∀ c ∈ cs, allows s c = allows t c := by
  constructor
  · intro same
    have counts : ∀ a, (cs.filter (allows s)).countP (StoredControl.hasRootStatus a) =
        (cs.filter (allows t)).countP (StoredControl.hasRootStatus a) := by
      intro a
      rw [← tally_entry, ← tally_entry, same]
    by_cases rootS : s = some .waived
    · by_cases rootT : t = some .waived
      · intro c _
        rw [rootS, rootT]
      · have less := allows_of_counts rootT (fun a => (counts a).symm) knownS
        exact fun c inside => (agree_of_counts less (fun a => (counts a).symm) knownT c inside).symm
    · exact agree_of_counts (allows_of_counts rootS counts knownT) counts knownS
  · intro agree
    rw [List.filter_congr agree]

end Allowed

section Counted
variable [UnicodeTables]

def Filter.withStatus (f : Filter) (status : Option StatusFilter) : Filter := { f with status }

/-- No test of the filter throws, and what it selects has a root. -/
def Counted (data : InspecData) (f : Filter) : Prop :=
  ∀ c ∈ allControls data f.fromFile,
    Answers f.selects c ∧ (accepts f.selects c = true → c.Rooted)

/-- What the tests other than the one for the status select. -/
def otherwise (data : InspecData) (f : Filter) : List StoredControl :=
  (allControls data f.fromFile).filter (accepts (passes (f.idTest ++ f.laterTests)))

variable {data : InspecData} {f : Filter} {status : Option StatusFilter}

theorem accepts_withStatus (f : Filter) (status : Option StatusFilter) (c : StoredControl) :
    accepts (f.withStatus status).selects c =
      (accepts (passes (f.idTest ++ f.laterTests)) c && allows status c) := by
  cases status with
  | none => exact (Bool.and_true _).symm
  | some s => exact accepts_passes_insert

theorem count_eq_ok {hash : StatusHash} : count_statuses data (f.withStatus status) = .ok hash ↔
    Counted data (f.withStatus status) ∧ hash = tally ((otherwise data f).filter (allows status)) := by
  have selected : (allControls data f.fromFile).filter (accepts (f.withStatus status).selects) =
      (otherwise data f).filter (allows status) := by
    unfold otherwise
    rw [List.filter_filter]
    apply List.filter_congr
    intro c _
    rw [accepts_withStatus, Bool.and_comm]
  rw [count_statuses_eq_ok]
  simp only [controls_eq_ok]
  constructor
  · rintro ⟨cs, ⟨answers, rfl⟩, rooted, rfl⟩
    refine ⟨fun c inside => ⟨answers c inside, fun kept => ?_⟩, congrArg tally selected⟩
    exact rooted c (List.mem_filter.mpr ⟨inside, kept⟩)
  · rintro ⟨counted, rfl⟩
    refine ⟨_, ⟨fun c inside => (counted c inside).1, rfl⟩, fun c kept => ?_,
      (congrArg tally selected).symm⟩
    obtain ⟨inside, kept⟩ := List.mem_filter.mp kept
    exact (counted c inside).2 kept

theorem exists_rootStatus (loaded : data.Loaded) {files : List FileID} {c : StoredControl}
    (inside : c ∈ allControls data files) (rooted : c.Rooted) :
    ∃ a, c.hasRootStatus a = true := by
  obtain ⟨hdf, here, -⟩ := loaded.tagged inside rooted
  refine ⟨hdf.status, ?_⟩
  unfold StoredControl.hasRootStatus
  rw [StoredControl.view_of_ok here]
  exact decide_eq_true rfl

theorem Counted.exists_status (counted : Counted data (f.withStatus status))
    (loaded : data.Loaded) {c : StoredControl} (inside : c ∈ otherwise data f)
    (allowed : allows status c = true) : ∃ a, c.hasRootStatus a = true := by
  obtain ⟨member, others⟩ := List.mem_filter.mp inside
  refine exists_rootStatus loaded member ((counted c member).2 ?_)
  rw [accepts_withStatus, others, allowed]
  rfl

/-- Filters that differ in the status have the same counts. -/
structure SameCounts (data : InspecData) (f g : Filter) : Prop where
  hash : ∀ hash, count_statuses data f = .ok hash ↔ count_statuses data g = .ok hash
  countOf : ∀ category n, countOf data f category = .ok n ↔ countOf data g category = .ok n

theorem sameCounts_iff {f g : Filter} : SameCounts data f g ↔
    ∀ hash, count_statuses data f = .ok hash ↔ count_statuses data g = .ok hash := by
  refine ⟨SameCounts.hash, fun same => ⟨same, fun category n => ?_⟩⟩
  unfold Frontend.countOf
  rw [do_eq_ok, do_eq_ok]
  exact exists_congr fun hash => and_congr_left fun _ => same hash

/-- The counts do not depend on the status exactly when both statuses let the same of the
other controls through, as far as the counts come back. -/
theorem count_status_blind_iff (loaded : data.Loaded) (f : Filter) (s t : Option StatusFilter) :
    SameCounts data (f.withStatus s) (f.withStatus t) ↔
      (Counted data (f.withStatus s) ↔ Counted data (f.withStatus t)) ∧
        (Counted data (f.withStatus s) → ∀ c ∈ otherwise data f, allows s c = allows t c) := by
  rw [sameCounts_iff]
  simp only [count_eq_ok]
  constructor
  · intro same
    have both : Counted data (f.withStatus s) ↔ Counted data (f.withStatus t) :=
      ⟨fun counted => ((same _).mp ⟨counted, rfl⟩).1,
        fun counted => ((same _).mpr ⟨counted, rfl⟩).1⟩
    refine ⟨both, fun counted => ?_⟩
    have counts := ((same _).mp ⟨counted, rfl⟩).2
    exact (tally_eq_iff (fun _ => counted.exists_status loaded)
      fun _ => (both.mp counted).exists_status loaded).mp counts
  · rintro ⟨both, agree⟩ hash
    have tallies : Counted data (f.withStatus s) → tally ((otherwise data f).filter (allows s)) =
        tally ((otherwise data f).filter (allows t)) := fun counted => by
      rw [List.filter_congr (agree counted)]
    constructor
    · rintro ⟨counted, rfl⟩
      exact ⟨both.mp counted, tallies counted⟩
    · rintro ⟨counted, rfl⟩
      exact ⟨both.mpr counted, (tallies (both.mpr counted)).symm⟩

theorem counted_of_isOk (returns : (count_statuses data (f.withStatus status)).isOk = true) :
    Counted data (f.withStatus status) := by
  cases here : count_statuses data (f.withStatus status) with
  | error e => rw [here] at returns; cases returns
  | ok hash => exact (count_eq_ok.mp here).1

end Counted

section Samples

theorem count_status_blind_iff_sample : @SameCounts asciiTables waivedStore
    { topFilter (js "f") with control_id := some (js "C-1"), status := none }
    { topFilter (js "f") with control_id := some (js "C-1"), status := some (.status .failed) } := by
  have all := @counted_of_isOk asciiTables waivedStore
    { topFilter (js "f") with control_id := some (js "C-1") } none (by decide +kernel)
  have failed := @counted_of_isOk asciiTables waivedStore
    { topFilter (js "f") with control_id := some (js "C-1") } (some (.status .failed))
    (by decide +kernel)
  exact (@count_status_blind_iff asciiTables _ (sampleStore_loaded _)
    { topFilter (js "f") with control_id := some (js "C-1") } none
    (some (.status .failed))).mpr ⟨iff_of_true all failed, fun _ => by decide +kernel⟩

/-- The waived control is not counted when the filter asks for the failed ones. -/
theorem count_status_sees :
    ¬ ∀ [UnicodeTables] (data : InspecData), data.Loaded →
      ∀ (f : Filter) (s t : Option StatusFilter),
        SameCounts data (f.withStatus s) (f.withStatus t) := by
  intro always
  have same := @always asciiTables waivedStore (sampleStore_loaded _) (topFilter (js "f"))
    (some (.status .failed)) none
  have filtered : @countOf asciiTables waivedStore
      ((topFilter (js "f")).withStatus (some (.status .failed))) (.status .notApplicable) =
        .ok 0 := by
    decide +kernel
  have whole : @countOf asciiTables waivedStore ((topFilter (js "f")).withStatus none)
      (.status .notApplicable) = .ok 1 := by
    decide +kernel
  cases whole.symm.trans ((@SameCounts.countOf asciiTables _ _ _ same _ _).mp filtered)

end Samples
end Frontend
