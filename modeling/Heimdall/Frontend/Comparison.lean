import Mathlib.Data.List.Perm.Subperm
import Heimdall.Js.Hash
import Heimdall.Frontend.StatusCards

/-!
# Comparing evaluations

The comparison indexes the controls on top of each file by their id and their file. It is
compared with the counts of the filter pipeline for the same files.
-/
namespace Frontend
open Js Lib Inspec

def StoredControl.id (c : StoredControl) : JsString := (c.get.map (·.data.id)).getD []

section Source

structure ResultControls where
  uniqueId : FileID
  controls : List StoredControl

def EvaluationFile.controls (exec : EvaluationFile) : List StoredControl :=
  exec.evaluation.contains.flatMap fun p =>
    StoredProfile.contained ⟨exec.uniqueId, exec.evaluation.graph, p⟩

def extract_top_level_controls (exec : EvaluationFile) : ResultControls :=
  ⟨exec.uniqueId, exec.controls.filter fun control => !isOverlayed control⟩

abbrev ControlSeries := Hash StoredControl

/-- `inherited` are the names of the properties that every object inherits. -/
structure Matched where
  pairings : Hash ControlSeries
  inherited : List JsString

/-- One turn of the inner loop. What an inherited property holds is truthy, so that the
control is put on the inherited object; `acc["__proto__"]` is the one that all share. -/
def pair (uniqueId : FileID) (acc : Matched) (control : StoredControl) : Matched :=
  match pick Prod.fst control.id acc.pairings with
  | some (_, series) =>
      { acc with pairings := Hash.set acc.pairings control.id (Hash.set series uniqueId control) }
  | none =>
      if control.id ∈ acc.inherited then
        if control.id = js "__proto__" then { acc with inherited := uniqueId :: acc.inherited }
        else acc
      else
        { acc with pairings := Hash.set acc.pairings control.id (Hash.set [] uniqueId control) }

def matchControls (acc : Matched) (evaluation : ResultControls) : Matched :=
  evaluation.controls.foldl (pair evaluation.uniqueId) acc

/-- The `pairings` of `new ComparisonContext(executions)`. -/
def ComparisonContext (executions : List EvaluationFile) : Hash ControlSeries :=
  ((executions.map extract_top_level_controls).foldl matchControls ⟨[], objectPrototype⟩).pairings

/-- Every control that is stored in the pairings. -/
def paired (pairings : Hash ControlSeries) : List StoredControl :=
  (Hash.values pairings).flatMap Hash.values

end Source

section Index

/-- Where a control is stored. -/
def slot (c : StoredControl) : JsString × FileID := (c.id, c.file)

/-- The stored controls, in the order in which they were stored. -/
def kept (acc : Matched) : List StoredControl := acc.pairings.flatMap fun e => e.2.map Prod.snd

theorem paired_perm (pairings : Hash ControlSeries) (inherited : List JsString) :
    (paired pairings).Perm (kept ⟨pairings, inherited⟩) := by
  unfold paired kept Hash.values
  rw [List.flatMap_map]
  apply (List.Perm.flatMap_right _ (Hash.entries_perm pairings)).trans
  apply List.Perm.flatMap_left _
  intro e _
  exact (Hash.entries_perm e.2).map Prod.snd

/-- Each control is stored under its id and its file; no name of an inherited property is
a key. -/
structure Slotted (acc : Matched) : Prop where
  keys : (acc.pairings.map Prod.fst).Nodup
  ordinary : ∀ e ∈ acc.pairings, e.1 ∉ objectPrototype
  inherits : objectPrototype ⊆ acc.inherited
  distinct : ∀ e ∈ acc.pairings, (e.2.map Prod.fst).Nodup
  slots : ∀ e ∈ acc.pairings, ∀ p ∈ e.2, p.2.id = e.1 ∧ p.2.file = p.1

theorem slotted_empty : Slotted ⟨[], objectPrototype⟩ where
  keys := List.nodup_nil
  ordinary _ inside := nomatch inside
  inherits := List.Subset.refl _
  distinct _ inside := nomatch inside
  slots _ inside := nomatch inside

/-- The controls of one id, before the next one is stored. -/
def SeriesOf (acc : Matched) (id : JsString) (series : ControlSeries) : Prop :=
  (id, series) ∈ acc.pairings ∨ (series = [] ∧ id ∉ acc.pairings.map Prod.fst)

/-- A control is stored, or it is put on an inherited object. -/
theorem pair_cases {acc : Matched} (slotted : Slotted acc) (c : StoredControl) :
    (c.id ∉ objectPrototype ∧ (c.id ∈ acc.inherited → c.id ∈ acc.pairings.map Prod.fst) ∧
      ∃ series, SeriesOf acc c.id series ∧ pair c.file acc c =
        { acc with pairings := Hash.set acc.pairings c.id (Hash.set series c.file c) }) ∨
    (c.id ∈ acc.inherited ∧ c.id ∉ acc.pairings.map Prod.fst ∧
      (pair c.file acc c).pairings = acc.pairings ∧
      acc.inherited ⊆ (pair c.file acc c).inherited) := by
  unfold pair
  match found : pick Prod.fst c.id acc.pairings with
  | some (id, series) =>
      obtain ⟨inside, same⟩ := pick_some found
      obtain rfl : id = c.id := same
      refine .inl ⟨slotted.ordinary _ inside, fun _ => ?_, series, .inl inside, rfl⟩
      exact List.mem_map_of_mem inside
  | none =>
      have absent : c.id ∉ acc.pairings.map Prod.fst := fun known => by
        obtain ⟨e, here⟩ := mem_key_iff.mp known
        rw [found] at here
        cases here
      by_cases inherited : c.id ∈ acc.inherited
      · refine .inr ⟨inherited, absent, ?_⟩
        simp only [if_pos inherited]
        split
        · exact ⟨rfl, fun name old => List.mem_cons_of_mem _ old⟩
        · exact ⟨rfl, fun name old => old⟩
      · refine .inl ⟨fun builtin => inherited (slotted.inherits builtin),
          fun known => absurd known inherited, [], .inr ⟨rfl, absent⟩, ?_⟩
        simp only [if_neg inherited]

theorem SeriesOf.spec {acc : Matched} (slotted : Slotted acc) {id : JsString}
    {series : ControlSeries} (here : SeriesOf acc id series) :
    (series.map Prod.fst).Nodup ∧ (∀ p ∈ series, p.2.id = id ∧ p.2.file = p.1) ∧
      (kept acc).Perm (series.map Prod.snd ++
        (acc.pairings.filter fun e => e.1 ≠ id).flatMap fun e => e.2.map Prod.snd) := by
  rcases here with inside | ⟨rfl, absent⟩
  · refine ⟨slotted.distinct _ inside, slotted.slots _ inside, ?_⟩
    exact List.Perm.flatMap_right _ (Hash.perm_cons_filter slotted.keys inside)
  · refine ⟨List.nodup_nil, List.forall_mem_nil _, ?_⟩
    rw [Hash.filter_of_fresh absent]
    exact List.Perm.refl _

theorem Slotted.pair {acc : Matched} (slotted : Slotted acc) (c : StoredControl) :
    Slotted (pair c.file acc c) := by
  rcases pair_cases slotted c with ⟨ordinary, -, series, here, stored⟩ | ⟨-, -, same, more⟩
  · obtain ⟨distinct, slots, -⟩ := here.spec slotted
    rw [stored]
    refine ⟨Hash.set_keys_nodup slotted.keys _ _, ?_, slotted.inherits, ?_, ?_⟩
    · intro e inside
      rcases Hash.mem_set slotted.keys inside with rfl | old
      · exact ordinary
      · exact slotted.ordinary e old
    · intro e inside
      rcases Hash.mem_set slotted.keys inside with rfl | old
      · exact Hash.set_keys_nodup distinct _ _
      · exact slotted.distinct e old
    · intro e inside
      rcases Hash.mem_set slotted.keys inside with rfl | old
      · intro p member
        rcases Hash.mem_set distinct member with rfl | earlier
        · exact ⟨rfl, rfl⟩
        · exact slots p earlier
      · exact slotted.slots e old
  · refine ⟨same ▸ slotted.keys, same ▸ slotted.ordinary, ?_, same ▸ slotted.distinct,
      same ▸ slotted.slots⟩
    exact fun name builtin => more (slotted.inherits builtin)

/-- The next control takes the place of the one in its slot. -/
theorem kept_pair {acc : Matched} (slotted : Slotted acc) (c : StoredControl) :
    (c.id ∉ objectPrototype ∧
      (kept (pair c.file acc c)).Perm (c :: (kept acc).filter fun d => slot d ≠ slot c)) ∨
    (c.id ∈ acc.inherited ∧ c.id ∉ acc.pairings.map Prod.fst ∧
      kept (pair c.file acc c) = kept acc) := by
  rcases pair_cases slotted c with
    ⟨ordinary, -, series, here, stored⟩ | ⟨inherited, absent, same, -⟩
  · refine .inl ⟨ordinary, ?_⟩
    obtain ⟨distinct, slots, before⟩ := here.spec slotted
    have others : ∀ e ∈ acc.pairings.filter (fun e => e.1 ≠ c.id), ∀ d ∈ e.2.map Prod.snd,
        slot d ≠ slot c := by
      intro e inside d member same
      obtain ⟨old, other⟩ := List.mem_filter.mp inside
      obtain ⟨p, place, rfl⟩ := List.mem_map.mp member
      have id := (slotted.slots e old p place).1
      exact of_decide_eq_true other (id.symm.trans (congrArg Prod.fst same))
    have series_part : (series.map Prod.snd).filter (fun d => slot d ≠ slot c) =
        (series.filter fun p => p.1 ≠ c.file).map Prod.snd := by
      rw [List.filter_map]
      congr 1
      apply List.filter_congr
      intro p inside
      obtain ⟨id, file⟩ := slots p inside
      simp [slot, id, file]
    have rest_part : ((acc.pairings.filter fun e => e.1 ≠ c.id).flatMap
        fun e => e.2.map Prod.snd).filter (fun d => slot d ≠ slot c) =
        (acc.pairings.filter fun e => e.1 ≠ c.id).flatMap fun e => e.2.map Prod.snd := by
      refine List.filter_eq_self.mpr fun d inside => decide_eq_true ?_
      obtain ⟨e, place, member⟩ := List.mem_flatMap.mp inside
      exact others e place d member
    have after : (kept (Frontend.pair c.file acc c)).Perm
        ((Hash.set series c.file c).map Prod.snd ++
          (acc.pairings.filter fun e => e.1 ≠ c.id).flatMap fun e => e.2.map Prod.snd) := by
      rw [stored]
      exact List.Perm.flatMap_right _ (Hash.set_perm slotted.keys _ _)
    have filtered := before.filter fun d => slot d ≠ slot c
    rw [List.filter_append, series_part, rest_part] at filtered
    apply after.trans
    refine List.Perm.trans ?_ (filtered.symm.cons c)
    exact (((Hash.set_perm distinct c.file c).map Prod.snd).append_right _)
  · refine .inr ⟨inherited, absent, ?_⟩
    unfold kept
    rw [same]

theorem pair_inherited {acc : Matched} (uniqueId : FileID) {c : StoredControl}
    (own : c.id ∉ acc.inherited) : (pair uniqueId acc c).inherited = acc.inherited := by
  unfold pair
  match pick Prod.fst c.id acc.pairings with
  | some (_, series) => rfl
  | none => simp only [if_neg own]

/-- No two stored controls share a slot. -/
theorem Slotted.nodup {acc : Matched} (slotted : Slotted acc) : ((kept acc).map slot).Nodup := by
  have slots : (kept acc).map slot =
      acc.pairings.flatMap fun e => (e.2.map Prod.fst).map fun file => (e.1, file) := by
    unfold kept
    rw [List.map_flatMap]
    apply List.flatMap_congr
    intro e inside
    rw [List.map_map, List.map_map]
    apply List.map_congr_left
    intro p member
    obtain ⟨id, file⟩ := slotted.slots e inside p member
    show (p.2.id, p.2.file) = (e.1, p.1)
    rw [id, file]
  rw [slots, List.nodup_flatMap]
  constructor
  · intro e inside
    exact (slotted.distinct e inside).map fun a b same => congrArg Prod.snd same
  · refine (List.pairwise_map.mp slotted.keys).imp fun {e d} other => ?_
    intro x inE inD
    obtain ⟨file, -, rfl⟩ := List.mem_map.mp inE
    obtain ⟨file', -, same⟩ := List.mem_map.mp inD
    exact other (congrArg Prod.fst same).symm

theorem Slotted.ordinary_of_mem {acc : Matched} (slotted : Slotted acc) {c : StoredControl}
    (inside : c ∈ kept acc) : c.id ∉ objectPrototype := by
  obtain ⟨e, place, member⟩ := List.mem_flatMap.mp inside
  obtain ⟨p, here, rfl⟩ := List.mem_map.mp member
  rw [(slotted.slots e place p here).1]
  exact slotted.ordinary e place

end Index

section Runs

def pairAll (acc : Matched) (cs : List StoredControl) : Matched :=
  cs.foldl (fun acc c => pair c.file acc c) acc

theorem slotted_pairAll {acc : Matched} (slotted : Slotted acc) (cs : List StoredControl) :
    Slotted (pairAll acc cs) := by
  induction cs generalizing acc with
  | nil => exact slotted
  | cons c cs ih => exact ih (slotted.pair c)

/-- Controls with ordinary ids and slots of their own are all stored. -/
theorem kept_pairAll {acc : Matched} (slotted : Slotted acc)
    (builtin : acc.inherited = objectPrototype) {cs : List StoredControl}
    (ordinary : ∀ c ∈ cs, c.id ∉ objectPrototype)
    (distinct : ((kept acc ++ cs).map slot).Nodup) :
    (kept (pairAll acc cs)).Perm (kept acc ++ cs) := by
  induction cs generalizing acc with
  | nil => rw [List.append_nil]; exact List.Perm.refl _
  | cons c cs ih =>
      obtain ⟨own, others⟩ := List.forall_mem_cons.mp ordinary
      have next : (kept (pair c.file acc c)).Perm (kept acc ++ [c]) := by
        rcases kept_pair slotted c with ⟨-, stored⟩ | ⟨inherited, -⟩
        · have fresh : (kept acc).filter (fun d => slot d ≠ slot c) = kept acc := by
            refine List.filter_eq_self.mpr fun d inside => decide_eq_true fun same => ?_
            rw [List.map_append, List.nodup_append] at distinct
            exact distinct.2.2 _ (List.mem_map_of_mem inside) _
              (List.mem_map_of_mem List.mem_cons_self) same
          rw [fresh] at stored
          exact stored.trans (List.perm_append_singleton c _).symm
        · exact absurd (builtin ▸ inherited) own
      have rest : (kept (pair c.file acc c) ++ cs).Perm (kept acc ++ c :: cs) := by
        rw [List.append_cons]
        exact next.append_right cs
      refine (ih (slotted.pair c) ?_ others ?_).trans rest
      · rw [pair_inherited _ (builtin ▸ own), builtin]
      · exact (rest.map slot).nodup_iff.mpr distinct

/-- The controls on top of the files. -/
def tops (executions : List EvaluationFile) : List StoredControl :=
  executions.flatMap fun exec => (extract_top_level_controls exec).controls

theorem file_of_mem {exec : EvaluationFile} {c : StoredControl}
    (inside : c ∈ (extract_top_level_controls exec).controls) : c.file = exec.uniqueId := by
  obtain ⟨p, -, contained⟩ := List.mem_flatMap.mp (List.mem_filter.mp inside).1
  obtain ⟨k, -, rfl⟩ := List.mem_map.mp contained
  rfl

theorem matched_eq (executions : List EvaluationFile) (acc : Matched) :
    (executions.map extract_top_level_controls).foldl matchControls acc =
      pairAll acc (tops executions) := by
  unfold pairAll tops
  rw [List.foldl_map, List.foldl_flatMap]
  congr 1
  funext acc exec
  unfold matchControls
  apply List.foldl_ext _ _ acc
  intro acc c inside
  rw [file_of_mem inside]
  rfl

theorem slotted_comparison (executions : List EvaluationFile) :
    Slotted ((executions.map extract_top_level_controls).foldl matchControls
      ⟨[], objectPrototype⟩) := by
  rw [matched_eq]
  exact slotted_pairAll slotted_empty _

/-- What the comparison holds, whatever the controls are. -/
theorem paired_slots (executions : List EvaluationFile) :
    ((paired (ComparisonContext executions)).map slot).Nodup ∧
      ∀ c ∈ paired (ComparisonContext executions), c.id ∉ objectPrototype := by
  have slotted := slotted_comparison executions
  have perm := paired_perm (ComparisonContext executions)
    ((executions.map extract_top_level_controls).foldl matchControls
      ⟨[], objectPrototype⟩).inherited
  refine ⟨(perm.map slot).nodup_iff.mpr slotted.nodup, fun c inside => ?_⟩
  exact slotted.ordinary_of_mem (perm.mem_iff.mp inside)

/-- The comparison holds the controls on top, each once, exactly when their slots differ and
no id is the name of an inherited property. -/
theorem paired_perm_tops (executions : List EvaluationFile) :
    (paired (ComparisonContext executions)).Perm (tops executions) ↔
      ((tops executions).map slot).Nodup ∧ ∀ c ∈ tops executions, c.id ∉ objectPrototype := by
  constructor
  · intro perm
    obtain ⟨distinct, ordinary⟩ := paired_slots executions
    refine ⟨(perm.map slot).nodup_iff.mp distinct, fun c inside => ?_⟩
    exact ordinary c (perm.mem_iff.mpr inside)
  · rintro ⟨distinct, ordinary⟩
    have all := kept_pairAll slotted_empty rfl ordinary distinct
    rw [← matched_eq] at all
    exact (paired_perm _ _).trans all

theorem nodup_slots_iff {executions : List EvaluationFile}
    (once : (executions.map (·.uniqueId)).Nodup) : ((tops executions).map slot).Nodup ↔
      ∀ exec ∈ executions,
        ((extract_top_level_controls exec).controls.map StoredControl.id).Nodup := by
  have slots : (tops executions).map slot = executions.flatMap fun exec =>
      ((extract_top_level_controls exec).controls.map StoredControl.id).map
        fun id => (id, exec.uniqueId) := by
    unfold tops
    rw [List.map_flatMap]
    apply List.flatMap_congr
    intro exec _
    rw [List.map_map]
    apply List.map_congr_left
    intro c inside
    exact congrArg (Prod.mk c.id) (file_of_mem inside)
  have injective : ∀ file : FileID, Function.Injective fun id : JsString => (id, file) :=
    fun file a b same => congrArg Prod.fst same
  rw [slots, List.nodup_flatMap]
  constructor
  · intro both exec inside
    exact List.Nodup.of_map _ (both.1 exec inside)
  · intro each
    refine ⟨fun exec inside => (each exec inside).map (injective _), ?_⟩
    refine (List.pairwise_map.mp once).imp fun {e d} other => ?_
    intro x inE inD
    obtain ⟨p, -, rfl⟩ := List.mem_map.mp inE
    obtain ⟨q, -, same⟩ := List.mem_map.mp inD
    exact other (congrArg Prod.snd same).symm

end Runs

section Series

/-- The control has its slot, or it was put on an inherited object. -/
def Placed (acc : Matched) (c : StoredControl) : Prop :=
  slot c ∈ (kept acc).map slot ∨ (c.id ∈ acc.inherited ∧ c.id ∉ acc.pairings.map Prod.fst)

variable {acc : Matched}

theorem placed_pair (slotted : Slotted acc) (c : StoredControl) :
    Placed (pair c.file acc c) c := by
  rcases kept_pair slotted c with ⟨-, stored⟩ | ⟨inherited, absent, -⟩
  · exact .inl (List.mem_map_of_mem (stored.mem_iff.mpr List.mem_cons_self))
  · rcases pair_cases slotted c with ⟨-, guard, -⟩ | ⟨-, -, same, more⟩
    · exact absurd (guard inherited) absent
    · exact .inr ⟨more inherited, same ▸ absent⟩

/-- A control keeps its slot when the next one is stored, and none is found for it later. -/
theorem Placed.pair (slotted : Slotted acc) {c : StoredControl} (placed : Placed acc c)
    (d : StoredControl) : Placed (pair d.file acc d) c := by
  rcases placed with stored | ⟨inherited, absent⟩
  · left
    rcases kept_pair slotted d with ⟨-, perm⟩ | ⟨-, -, same⟩
    · obtain ⟨e, inside, same⟩ := List.mem_map.mp stored
      rw [(perm.map slot).mem_iff, List.map_cons, List.mem_cons]
      by_cases own : slot c = slot d
      · exact .inl own
      · have other : slot e ≠ slot d := same ▸ own
        exact .inr (List.mem_map.mpr
          ⟨e, List.mem_filter.mpr ⟨inside, decide_eq_true other⟩, same⟩)
    · rw [same]
      exact stored
  · right
    rcases pair_cases slotted d with ⟨-, guard, series, -, stored⟩ | ⟨-, -, same, more⟩
    · rw [stored]
      refine ⟨inherited, fun known => ?_⟩
      obtain ⟨e, inside, own⟩ := List.mem_map.mp known
      rcases Hash.mem_set slotted.keys inside with rfl | old
      · have same : d.id = c.id := own
        rw [same] at guard
        exact absent (guard inherited)
      · exact absent (own ▸ List.mem_map_of_mem old)
    · exact ⟨more inherited, same ▸ absent⟩

theorem Placed.pairAll (slotted : Slotted acc) {c : StoredControl} (placed : Placed acc c)
    (cs : List StoredControl) : Placed (pairAll acc cs) c := by
  induction cs generalizing acc with
  | nil => exact placed
  | cons d cs ih => exact ih (slotted.pair d) (placed.pair slotted d)

theorem placed_of_mem (slotted : Slotted acc) {cs : List StoredControl} {c : StoredControl}
    (inside : c ∈ cs) : Placed (pairAll acc cs) c := by
  induction cs generalizing acc with
  | nil => cases inside
  | cons d cs ih =>
      rcases List.mem_cons.mp inside with rfl | later
      · exact (placed_pair slotted c).pairAll (slotted.pair c) cs
      · exact ih (slotted.pair d) later

theorem mem_of_mem_kept (slotted : Slotted acc) {cs : List StoredControl} {c : StoredControl}
    (inside : c ∈ kept (pairAll acc cs)) : c ∈ kept acc ∨ c ∈ cs := by
  induction cs generalizing acc with
  | nil => exact .inl inside
  | cons d cs ih =>
      rcases ih (slotted.pair d) inside with stored | later
      · rcases kept_pair slotted d with ⟨-, perm⟩ | ⟨-, -, same⟩
        · rcases List.mem_cons.mp (perm.mem_iff.mp stored) with rfl | old
          · exact .inr List.mem_cons_self
          · exact .inl (List.mem_filter.mp old).1
        · exact .inl (same ▸ stored)
      · exact .inr (List.mem_cons_of_mem d later)

variable {executions : List EvaluationFile} {id : JsString} {series : ControlSeries}
  (paired : (id, series) ∈ ComparisonContext executions)
include paired

theorem series_nodup : (series.map Prod.fst).Nodup :=
  (slotted_comparison executions).distinct _ paired

theorem series_slots : ∀ p ∈ series, p.2.id = id ∧ p.2.file = p.1 :=
  (slotted_comparison executions).slots _ paired

/-- A series holds controls on top of the compared files. -/
theorem series_tops : ∀ p ∈ series, p.2 ∈ tops executions := by
  intro p inside
  have stored : p.2 ∈ kept ((executions.map extract_top_level_controls).foldl matchControls
      ⟨[], objectPrototype⟩) :=
    List.mem_flatMap.mpr ⟨_, paired, List.mem_map_of_mem inside⟩
  rw [matched_eq] at stored
  rcases mem_of_mem_kept slotted_empty stored with nothing | top
  · cases nothing
  · exact top

/-- A series has the files that have a control with its id on top. -/
theorem mem_series_iff (file : FileID) :
    file ∈ series.map Prod.fst ↔ ∃ c ∈ tops executions, c.id = id ∧ c.file = file := by
  constructor
  · intro known
    obtain ⟨p, inside, rfl⟩ := List.mem_map.mp known
    exact ⟨p.2, series_tops paired p inside, series_slots paired p inside⟩
  · rintro ⟨c, top, own, rfl⟩
    have placed := placed_of_mem slotted_empty top
    rw [← matched_eq] at placed
    have slotted := slotted_comparison executions
    rcases placed with stored | ⟨-, absent⟩
    · obtain ⟨d, inside, same⟩ := List.mem_map.mp stored
      obtain ⟨e, entry, member⟩ := List.mem_flatMap.mp inside
      obtain ⟨p, place, rfl⟩ := List.mem_map.mp member
      obtain ⟨named, kept_under⟩ := slotted.slots e entry p place
      have key : e.1 = id := named.symm.trans ((congrArg Prod.fst same).trans own)
      obtain rfl : e = (id, series) := List.inj_on_of_nodup_map slotted.keys entry paired key
      exact List.mem_map.mpr ⟨p, place, kept_under.symm.trans (congrArg Prod.snd same)⟩
    · exact absurd (List.mem_map.mpr ⟨_, paired, own.symm⟩) absent

end Series

section Agreement

/-- The filter that names the same files, with the overlayed controls left out. -/
def comparedFilter (executions : List EvaluationFile) : Filter where
  fromFile := executions.map (·.uniqueId)
  omit_overlayed_controls := some true

/-- The statuses of the roots over all stored controls. -/
def pairedTally (executions : List EvaluationFile) : Except JsError StatusHash :=
  (paired (ComparisonContext executions)).foldlM countControl .zero

variable {data : InspecData} {executions : List EvaluationFile}

theorem executions_perm (distinct : (data.executionFiles.map (·.uniqueId)).Nodup)
    (loaded : executions ⊆ data.executionFiles) (once : (executions.map (·.uniqueId)).Nodup) :
    (data.executionFiles.filter fun f => decide (f.uniqueId ∈ executions.map (·.uniqueId))).Perm
      executions := by
  refine (List.perm_ext_iff_of_nodup ((List.Nodup.of_map _ distinct).filter _)
    (List.Nodup.of_map _ once)).mpr fun f => ?_
  rw [List.mem_filter, decide_eq_true_eq, List.mem_map]
  constructor
  · rintro ⟨inside, g, member, same⟩
    exact List.inj_on_of_nodup_map distinct (loaded member) inside same ▸ member
  · intro member
    exact ⟨loaded member, f, member, rfl⟩

/-- The filter that names the files keeps their controls on top. -/
theorem controls_compared [UnicodeTables]
    (distinct : (data.executionFiles.map (·.uniqueId) ++
      data.profileFiles.map (·.uniqueId)).Nodup)
    (loaded : executions ⊆ data.executionFiles) (once : (executions.map (·.uniqueId)).Nodup) :
    ∃ cs, controls data (comparedFilter executions) = .ok cs ∧ cs.Perm (tops executions) := by
  obtain ⟨evaluations, -, disjoint⟩ := List.nodup_append.mp distinct
  have no_profiles : profiles data (executions.map (·.uniqueId)) = [] := by
    unfold profiles
    rw [List.map_eq_nil_iff, List.filter_eq_nil_iff]
    intro file inside named
    obtain ⟨exec, member, same⟩ := List.mem_map.mp (of_decide_eq_true named)
    exact disjoint _ (List.mem_map_of_mem (loaded member)) _ (List.mem_map_of_mem inside) same
  have all : allControls data (executions.map (·.uniqueId)) =
      (data.executionFiles.filter fun f =>
        decide (f.uniqueId ∈ executions.map (·.uniqueId))).flatMap EvaluationFile.controls := by
    unfold allControls profiles_for_evaluations EvaluationFile.controls
    rw [no_profiles, List.append_nil, List.flatMap_assoc]
    simp only [List.flatMap_map]
  have perm := List.Perm.flatMap_right EvaluationFile.controls
    (executions_perm evaluations loaded once)
  refine ⟨_, rfl, ?_⟩
  show ((allControls data (executions.map (·.uniqueId))).filter fun c => !isOverlayed c).Perm _
  rw [all]
  refine (perm.filter _).trans (List.Perm.of_eq ?_)
  exact List.filter_flatMap

/-- The comparison counts what the filter pipeline counts, and holds every control on top
once. -/
structure ComparisonAgrees [UnicodeTables] (data : InspecData)
    (executions : List EvaluationFile) : Prop where
  counts : ∃ counted compared, count_statuses data (comparedFilter executions) = .ok counted ∧
    pairedTally executions = .ok compared ∧ ∀ s, compared.count s = counted.count s
  once : (paired (ComparisonContext executions)).Perm (tops executions)

/-- The comparison agrees with the counts exactly when the chains of the controls on top end,
no two controls on top of one file share their id, and no id names a property that every
object inherits. -/
theorem comparison_agrees_iff [UnicodeTables]
    (distinct : (data.executionFiles.map (·.uniqueId) ++
      data.profileFiles.map (·.uniqueId)).Nodup)
    (loaded : executions ⊆ data.executionFiles) (once : (executions.map (·.uniqueId)).Nodup) :
    ComparisonAgrees data executions ↔
      (∀ c ∈ tops executions, c.Rooted) ∧
      (∀ exec ∈ executions,
        ((extract_top_level_controls exec).controls.map StoredControl.id).Nodup) ∧
      ∀ c ∈ tops executions, c.id ∉ objectPrototype := by
  obtain ⟨shown, returned, same⟩ := controls_compared distinct loaded once
  rw [← nodup_slots_iff once, ← paired_perm_tops]
  constructor
  · rintro ⟨⟨counted, _, here, -⟩, perm⟩
    obtain ⟨cs, returned', rooted, -⟩ := count_statuses_eq_ok.mp here
    obtain rfl := Except.ok.inj (returned'.symm.trans returned)
    exact ⟨fun c inside => rooted c (same.mem_iff.mpr inside), perm⟩
  · rintro ⟨rooted, perm⟩
    refine ⟨⟨tally shown, tally (paired (ComparisonContext executions)), ?_, ?_, fun s => ?_⟩, perm⟩
    · exact count_statuses_eq_ok.mpr
        ⟨shown, returned, fun c inside => rooted c (same.mem_iff.mp inside), rfl⟩
    · exact (foldlM_eq_ok_iff countControl_eq_ok).mpr
        ⟨fun c inside => rooted c (perm.mem_iff.mp inside), rfl⟩
    · exact ((tally_entry _ s).trans ((perm.trans same.symm).countP_eq _)).trans
        (tally_entry _ s).symm

end Agreement

section Samples

def comparedStore : InspecData := sampleStore [("f", waivedFile), ("g", waivedFile)]

theorem comparison_agrees_iff_sample :
    @ComparisonAgrees asciiTables comparedStore comparedStore.executionFiles := by
  refine (@comparison_agrees_iff comparedStore comparedStore.executionFiles asciiTables
    (by decide +kernel) (List.Subset.refl _) (by decide +kernel)).mpr ⟨?_, ?_, ?_⟩
  · exact StoredControl.rooted_of_all (by decide +kernel)
  · decide +kernel
  · decide +kernel

/-- Three profiles that name no parent, and share the id of their control. -/
def sharedIdFile : ExecJSON := sampleExec <|
  ["a", "b", "c"].map fun name => ⟨js name, .undefined,
    [{ bareControl "C-1" [] with results := [sampleResult .passed] }]⟩

def sharedIdStore : InspecData := sampleStore [("f", sharedIdFile)]

/-- Two controls are on top, and one of them is lost. -/
theorem comparison_loses_control :
    (@count_statuses asciiTables sharedIdStore (comparedFilter sharedIdStore.executionFiles)).map
        (fun hash => hash.count .passed) = .ok 2 ∧
      (pairedTally sharedIdStore.executionFiles).map (fun hash => hash.count .passed) = .ok 1 ∧
      ¬ @ComparisonAgrees asciiTables sharedIdStore sharedIdStore.executionFiles := by
  have counted_two : (@count_statuses asciiTables sharedIdStore
      (comparedFilter sharedIdStore.executionFiles)).map (fun hash => hash.count .passed) =
        .ok 2 := by
    decide +kernel
  have compared_one : (pairedTally sharedIdStore.executionFiles).map
      (fun hash => hash.count .passed) = .ok 1 := by
    decide +kernel
  refine ⟨counted_two, compared_one, ?_⟩
  rintro ⟨⟨counted, compared, here, there, same⟩, -⟩
  rw [here] at counted_two
  rw [there] at compared_one
  have two : counted.count .passed = 2 := Except.ok.inj counted_two
  have one : compared.count .passed = 1 := Except.ok.inj compared_one
  have equal := same .passed
  omega

end Samples
end Frontend
