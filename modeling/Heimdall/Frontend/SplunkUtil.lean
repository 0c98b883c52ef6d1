import Mathlib.Data.List.Perm.Basic
import Heimdall.Lib.Lists
import Heimdall.Frontend.HelperUtil

/-!
# Reassembling Splunk events

The events of an index are regrouped by the file they come from, and the controls of a file
by the profile they name.
-/
namespace Frontend
open Js Lib

/-- A control event; `body` is everything but the keys of `meta` that are read here. -/
structure ControlPayload where
  guid : JsString
  profile_sha256 : JsString
  body : JsVal

structure ProfilePayload where
  guid : JsString
  profile_sha256 : JsString
  controls : List ControlPayload
  body : JsVal

structure ExecutionPayload where
  guid : JsString
  profiles : List ProfilePayload
  body : JsVal

inductive UnknownPayload where
  | header (event : ExecutionPayload)
  | profile (event : ProfilePayload)
  | control (event : ControlPayload)

namespace UnknownPayload

def guid : UnknownPayload → JsString
  | header e => e.guid
  | profile p => p.guid
  | control c => c.guid

/-- `meta.subtype` -/
def subtype : UnknownPayload → JsString
  | header _ => js "header"
  | profile _ => js "profile"
  | control _ => js "control"

def asExecution : UnknownPayload → Option ExecutionPayload
  | header e => some e
  | _ => none

def asProfile : UnknownPayload → Option ProfilePayload
  | profile p => some p
  | _ => none

def asControl : UnknownPayload → Option ControlPayload
  | control c => some c
  | _ => none

end UnknownPayload

section Functions

/-- `profile.controls.push(...corrControls)` -/
def fillProfile (shaGroupedControls : Hash (List ControlPayload)) (profile : ProfilePayload) :
    Except JsError ProfilePayload := do
  let corrControls ← listOr shaGroupedControls profile.profile_sha256
  return { profile with controls := profile.controls ++ corrControls }

def consolidate_file_payloads (filePayloads : List UnknownPayload) :
    Except JsError ExecutionPayload := do
  let subtypes ← group_by filePayloads (·.subtype)
  let execEvents := (← listOr subtypes (js "header")).filterMap (·.asExecution)
  let profileEvents := (← listOr subtypes (js "profile")).filterMap (·.asProfile)
  let controlEvents := (← listOr subtypes (js "control")).filterMap (·.asControl)
  match execEvents with
  | [exec] => do
      let shaGroupedControls ← group_by controlEvents (·.profile_sha256)
      let filled ← profileEvents.mapM (fillProfile shaGroupedControls)
      return { exec with profiles := exec.profiles ++ filled }
  | _ => .error (.error "Incorrect # of Evaluation events.")

def consolidate_payloads (payloads : List UnknownPayload) :
    Except JsError (List ExecutionPayload) := do
  let grouped ← group_by payloads (·.guid)
  let built ← map_hash grouped consolidate_file_payloads
  return built.values

end Functions

section Events

def headersOf (events : List UnknownPayload) : List ExecutionPayload :=
  events.filterMap (·.asExecution)

def profilesOf (events : List UnknownPayload) : List ProfilePayload :=
  events.filterMap (·.asProfile)

def controlsOf (events : List UnknownPayload) : List ControlPayload :=
  events.filterMap (·.asControl)

/-- The events of one file. -/
def fileOf (events : List UnknownPayload) (guid : JsString) : List UnknownPayload :=
  group UnknownPayload.guid events guid

/-- A profile with the control events that name it. -/
def withControls (controls : List ControlPayload) (profile : ProfilePayload) : ProfilePayload :=
  { profile with
    controls := profile.controls ++
      group ControlPayload.profile_sha256 controls profile.profile_sha256 }

/-- What is made of the events of one file, if it has one header. -/
def assembled (file : List UnknownPayload) : Option ExecutionPayload :=
  match headersOf file with
  | [exec] => some { exec with
      profiles := exec.profiles ++ (profilesOf file).map (withControls (controlsOf file)) }
  | _ => none

/-- The names that a file groups its controls by are not inherited members of an object. -/
def OrdinaryShas (file : List UnknownPayload) : Prop :=
  (∀ c ∈ controlsOf file, c.profile_sha256 ∉ objectPrototype) ∧
    ∀ p ∈ profilesOf file, p.profile_sha256 ∉ objectPrototype

/-- The events of a subtype are found again behind the group of its name. -/
theorem filterMap_group {α : Type} (as : UnknownPayload → Option α) (subtype : JsString)
    (only : ∀ e a, as e = some a → e.subtype = subtype) (events : List UnknownPayload) :
    (group UnknownPayload.subtype events subtype).filterMap as = events.filterMap as := by
  induction events with
  | nil => rfl
  | cons e events ih =>
      unfold group at ih ⊢
      rw [List.filter_cons]
      cases kind : as e with
      | none =>
          split
          · rw [List.filterMap_cons_none kind, List.filterMap_cons_none kind, ih]
          · rw [List.filterMap_cons_none kind, ih]
      | some a =>
          rw [if_pos (by simpa using only e a kind), List.filterMap_cons_some kind,
            List.filterMap_cons_some kind, ih]

theorem subtype_ordinary (e : UnknownPayload) : e.subtype ∉ objectPrototype := by
  cases e with
  | header => exact (by decide +kernel : js "header" ∉ objectPrototype)
  | profile => exact (by decide +kernel : js "profile" ∉ objectPrototype)
  | control => exact (by decide +kernel : js "control" ∉ objectPrototype)

/-- Looking up the events of a subtype never throws. -/
theorem listOr_subtypes (file : List UnknownPayload) (e : UnknownPayload) :
    listOr (groups UnknownPayload.subtype file) e.subtype =
      .ok (group UnknownPayload.subtype file e.subtype) := by
  rw [listOr_groups, if_neg fun h => subtype_ordinary e h.1]

theorem fillProfile_eq_ok {controls : List ControlPayload}
    (ordinary : ∀ c ∈ controls, c.profile_sha256 ∉ objectPrototype)
    (profile filled : ProfilePayload) :
    fillProfile (groups ControlPayload.profile_sha256 controls) profile = .ok filled ↔
      profile.profile_sha256 ∉ objectPrototype ∧ filled = withControls controls profile := by
  rw [fillProfile, listOr_groups]
  by_cases inherited : profile.profile_sha256 ∈ objectPrototype
  · have absent : profile.profile_sha256 ∉ controls.map (·.profile_sha256) := by
      intro known
      obtain ⟨c, inside, same⟩ := List.mem_map.mp known
      exact ordinary c inside (same ▸ inherited)
    rw [if_pos ⟨inherited, absent⟩]
    exact iff_of_false (fun h => by cases h) fun h => h.1 inherited
  · rw [if_neg fun h => inherited h.1]
    simp only [do_eq_ok, pure_eq_ok, Except.ok.injEq, exists_eq_left', inherited,
      not_false_eq_true, true_and]
    rfl

theorem headersOf_subtype (file : List UnknownPayload) :
    headersOf (group UnknownPayload.subtype file (js "header")) = headersOf file := by
  refine filterMap_group _ _ (fun e a h => ?_) file
  cases e with
  | header => rfl
  | profile | control => cases h

theorem profilesOf_subtype (file : List UnknownPayload) :
    profilesOf (group UnknownPayload.subtype file (js "profile")) = profilesOf file := by
  refine filterMap_group _ _ (fun e a h => ?_) file
  cases e with
  | profile => rfl
  | header | control => cases h

theorem controlsOf_subtype (file : List UnknownPayload) :
    controlsOf (group UnknownPayload.subtype file (js "control")) = controlsOf file := by
  refine filterMap_group _ _ (fun e a h => ?_) file
  cases e with
  | control => rfl
  | header | profile => cases h

theorem consolidate_file_payloads_eq_ok {file : List UnknownPayload} {exec : ExecutionPayload} :
    consolidate_file_payloads file = .ok exec ↔
      OrdinaryShas file ∧ assembled file = some exec := by
  have grouped : group_by file (·.subtype) = .ok (groups UnknownPayload.subtype file) :=
    group_by_eq_ok.mpr ⟨fun e _ => subtype_ordinary e, rfl⟩
  have headers := listOr_subtypes file (.header ⟨[], [], .null⟩)
  have profiles := listOr_subtypes file (.profile ⟨[], [], [], .null⟩)
  have controls := listOr_subtypes file (.control ⟨[], [], .null⟩)
  simp only [UnknownPayload.subtype] at headers profiles controls
  simp only [consolidate_file_payloads, do_eq_ok, grouped, headers, profiles, controls,
    Except.ok.injEq, exists_eq_left']
  have profiles' := profilesOf_subtype file
  have controls' := controlsOf_subtype file
  unfold profilesOf at profiles'
  unfold controlsOf at controls'
  rw [profiles', controls']
  unfold assembled
  change (match headersOf _ with | [exec] => _ | _ => _) = _ ↔ _
  rw [headersOf_subtype]
  split
  next exec _ =>
      simp only [do_eq_ok, group_by_eq_ok, pure_eq_ok, Option.some.injEq]
      constructor
      · rintro ⟨_, ⟨ordinary, rfl⟩, filled, mapped, rfl⟩
        obtain ⟨named, rfl⟩ := (mapM_eq_ok_iff (fillProfile_eq_ok ordinary)).mp mapped
        exact ⟨⟨ordinary, named⟩, rfl⟩
      · rintro ⟨⟨ordinary, named⟩, rfl⟩
        exact ⟨_, ⟨ordinary, rfl⟩, _,
          (mapM_eq_ok_iff (fillProfile_eq_ok ordinary)).mpr ⟨named, rfl⟩, rfl⟩
  next => simp

theorem mem_fileOf {events : List UnknownPayload} {g : JsString} {e : UnknownPayload} :
    e ∈ fileOf events g ↔ e ∈ events ∧ e.guid = g := mem_group

theorem mem_headersOf {events : List UnknownPayload} {exec : ExecutionPayload} :
    exec ∈ headersOf events ↔ .header exec ∈ events := by
  rw [headersOf, List.mem_filterMap]
  constructor
  · rintro ⟨e, inside, kind⟩
    cases e with
    | header => exact Option.some.inj kind ▸ inside
    | profile | control => cases kind
  · exact fun inside => ⟨_, inside, rfl⟩

theorem mem_profilesOf {events : List UnknownPayload} {p : ProfilePayload} :
    p ∈ profilesOf events ↔ .profile p ∈ events := by
  rw [profilesOf, List.mem_filterMap]
  constructor
  · rintro ⟨e, inside, kind⟩
    cases e with
    | profile => exact Option.some.inj kind ▸ inside
    | header | control => cases kind
  · exact fun inside => ⟨_, inside, rfl⟩

theorem mem_controlsOf {events : List UnknownPayload} {c : ControlPayload} :
    c ∈ controlsOf events ↔ .control c ∈ events := by
  rw [controlsOf, List.mem_filterMap]
  constructor
  · rintro ⟨e, inside, kind⟩
    cases e with
    | control => exact Option.some.inj kind ▸ inside
    | header | profile => cases kind
  · exact fun inside => ⟨_, inside, rfl⟩

/-- What `map_hash` makes of the groups. -/
theorem mapM_consolidate {es : List (JsString × List UnknownPayload)}
    {built : Hash ExecutionPayload}
    (returned : es.mapM (mapEntry consolidate_file_payloads) = .ok built) :
    (∀ e ∈ es, OrdinaryShas e.2) ∧ built.map Prod.snd = es.filterMap fun e => assembled e.2 := by
  have pairs := mapM_eq_ok.mp returned
  clear returned
  induction pairs with
  | nil => simp
  | cons first _ ih =>
      obtain ⟨exec, done, h⟩ := do_eq_ok.mp first
      obtain rfl := pure_eq_ok.mp h
      obtain ⟨ordinary, made⟩ := consolidate_file_payloads_eq_ok.mp done
      refine ⟨List.forall_mem_cons.mpr ⟨ordinary, ih.1⟩, ?_⟩
      rw [List.filterMap_cons, List.map_cons, ih.2]
      simp only [made]

/-- The executions of an answer, up to their order. -/
theorem consolidate_payloads_perm {events : List UnknownPayload} {answer : List ExecutionPayload}
    (returned : consolidate_payloads events = .ok answer) :
    ((∀ e ∈ events, e.guid ∉ objectPrototype) ∧ ∀ e ∈ events, OrdinaryShas (fileOf events e.guid)) ∧
      answer.Perm ((distinct (events.map (·.guid))).filterMap fun g =>
        assembled (fileOf events g)) := by
  obtain ⟨grouped, h, returned⟩ := do_eq_ok.mp returned
  obtain ⟨ordinary, rfl⟩ := group_by_eq_ok.mp h
  obtain ⟨built, mapped, h⟩ := do_eq_ok.mp returned
  obtain rfl := pure_eq_ok.mp h
  obtain ⟨named, made⟩ := mapM_consolidate ((map_hash_eq_ok (groups_nodup events)).mp mapped)
  have entries := Hash.entries_perm (groups UnknownPayload.guid events)
  refine ⟨⟨ordinary, fun e inside => ?_⟩, ?_⟩
  · refine named (e.guid, fileOf events e.guid) (entries.mem_iff.mpr ?_)
    exact List.mem_map.mpr ⟨e.guid, mem_distinct.mpr (List.mem_map_of_mem inside), rfl⟩
  · apply (built.entries_perm.map Prod.snd).trans
    rw [made]
    refine (entries.filterMap _).trans (List.Perm.of_eq ?_)
    rw [groups, List.filterMap_map]
    rfl

/-- An answer comes when all names are ordinary and every file has one header. -/
theorem consolidate_payloads_returns {events : List UnknownPayload}
    (guids : ∀ e ∈ events, e.guid ∉ objectPrototype)
    (shas : ∀ e ∈ events, OrdinaryShas (fileOf events e.guid))
    (made : ∀ e ∈ events, ∃ exec, assembled (fileOf events e.guid) = some exec) :
    ∃ answer, consolidate_payloads events = .ok answer := by
  have each : ∀ entry ∈ Hash.entries (groups UnknownPayload.guid events),
      ∃ out, mapEntry consolidate_file_payloads entry = .ok out := by
    intro entry inside
    obtain ⟨g, known, rfl⟩ := List.mem_map.mp ((Hash.entries_perm _).mem_iff.mp inside)
    obtain ⟨e, here, rfl⟩ := List.mem_map.mp (mem_distinct.mp known)
    obtain ⟨exec, done⟩ := made e here
    exact ⟨_, do_eq_ok.mpr
      ⟨exec, consolidate_file_payloads_eq_ok.mpr ⟨shas e here, done⟩, rfl⟩⟩
  obtain ⟨built, mapped⟩ := mapM_returns each
  exact ⟨_, do_eq_ok.mpr ⟨_, group_by_eq_ok.mpr ⟨guids, rfl⟩,
    do_eq_ok.mpr ⟨built, (map_hash_eq_ok (groups_nodup events)).mpr mapped, rfl⟩⟩⟩

end Events

section Lossless

def ProfilePayload.bare (p : ProfilePayload) : ProfilePayload := { p with controls := [] }

def ExecutionPayload.bare (e : ExecutionPayload) : ExecutionPayload := { e with profiles := [] }

/-- Every file has one header event, headers carry no profiles and profiles no controls. -/
structure Stored (events : List UnknownPayload) : Prop where
  headers : ∀ e ∈ events, ∃ exec, headersOf (fileOf events e.guid) = [exec]
  executions : ∀ exec ∈ headersOf events, exec.profiles = []
  profiles : ∀ p ∈ profilesOf events, p.controls = []

/-- A profile event of this file is named by the control. -/
def named (file : List UnknownPayload) (c : ControlPayload) : Bool :=
  (profilesOf file).any fun p => c.profile_sha256 = p.profile_sha256

/-- Nothing is lost, repeated or made up. -/
structure Reassembled (events : List UnknownPayload) (answer : List ExecutionPayload) :
    Prop where
  guids : (answer.map (·.guid)).Perm (distinct (events.map (·.guid)))
  headers : (answer.map (·.bare)).Perm (headersOf events)
  profiles : ∀ exec ∈ answer,
    (exec.profiles.map (·.bare)).Perm (profilesOf (fileOf events exec.guid))
  controls : ∀ exec ∈ answer, (exec.profiles.flatMap (·.controls)).Perm
    ((controlsOf (fileOf events exec.guid)).filter (named (fileOf events exec.guid)))
  shas : ∀ exec ∈ answer, ∀ p ∈ exec.profiles, ∀ c ∈ p.controls,
    c.profile_sha256 = p.profile_sha256

structure SameProfile (p q : ProfilePayload) : Prop where
  bare : p.bare = q.bare
  controls : p.controls.Perm q.controls

/-- The same execution, up to the order of its profiles and of their controls. -/
structure SameExecution (a b : ExecutionPayload) : Prop where
  bare : a.bare = b.bare
  profiles : ∃ ps, a.profiles.Perm ps ∧ List.Forall₂ SameProfile ps b.profiles

/-- The same executions, each up to the order of its profiles and of their controls. -/
def SameContent (answer answer' : List ExecutionPayload) : Prop :=
  ∃ es, answer.Perm es ∧ List.Forall₂ SameExecution es answer'

/-- What the reassembly promises for a list of events. -/
def Lossless (events : List UnknownPayload) : Prop :=
  ∃ answer, consolidate_payloads events = .ok answer ∧ Reassembled events answer ∧
    ∀ events', events'.Perm events →
      ∃ answer', consolidate_payloads events' = .ok answer' ∧ SameContent answer answer'

/-- No guid or sha that events are grouped by is the name of an inherited member. -/
def OrdinaryNames (events : List UnknownPayload) : Prop :=
  (∀ e ∈ events, e.guid ∉ objectPrototype) ∧ OrdinaryShas events

/-- No control event finds two profile events of its file. -/
def SingleProfiles (events : List UnknownPayload) : Prop :=
  ∀ c ∈ controlsOf events, ((profilesOf (fileOf events c.guid)).filter fun p =>
    c.profile_sha256 = p.profile_sha256).length ≤ 1

section Stored
variable {events events' : List UnknownPayload}

theorem ordinaryShas_iff : OrdinaryShas events ↔
    ∀ e ∈ events, OrdinaryShas (fileOf events e.guid) := by
  constructor
  · intro ordinary e _
    refine ⟨fun c inside => ordinary.1 c ?_, fun p inside => ordinary.2 p ?_⟩
    · exact mem_controlsOf.mpr (mem_fileOf.mp (mem_controlsOf.mp inside)).1
    · exact mem_profilesOf.mpr (mem_fileOf.mp (mem_profilesOf.mp inside)).1
  · intro each
    refine ⟨fun c inside => ?_, fun p inside => ?_⟩
    · have here := mem_controlsOf.mp inside
      exact (each _ here).1 c (mem_controlsOf.mpr (mem_fileOf.mpr ⟨here, rfl⟩))
    · have here := mem_profilesOf.mp inside
      exact (each _ here).2 p (mem_profilesOf.mpr (mem_fileOf.mpr ⟨here, rfl⟩))

theorem Stored.perm (stored : Stored events) (perm : events'.Perm events) : Stored events' where
  headers e inside := by
    obtain ⟨exec, one⟩ := stored.headers e (perm.mem_iff.mp inside)
    refine ⟨exec, List.perm_singleton.mp ?_⟩
    rw [← one]
    exact (perm.filter _).filterMap _
  executions exec inside := stored.executions exec ((perm.filterMap _).mem_iff.mp inside)
  profiles p inside := stored.profiles p ((perm.filterMap _).mem_iff.mp inside)

theorem OrdinaryNames.perm (ordinary : OrdinaryNames events) (perm : events'.Perm events) :
    OrdinaryNames events' :=
  ⟨fun e inside => ordinary.1 e (perm.mem_iff.mp inside),
    fun c inside => ordinary.2.1 c ((perm.filterMap _).mem_iff.mp inside),
    fun p inside => ordinary.2.2 p ((perm.filterMap _).mem_iff.mp inside)⟩

/-- The execution that is made of a file. -/
theorem Stored.assembled (stored : Stored events) {e : UnknownPayload} (inside : e ∈ events) :
    ∃ exec, headersOf (fileOf events e.guid) = [exec] ∧ exec.guid = e.guid ∧
      exec.profiles = [] ∧ Frontend.assembled (fileOf events e.guid) = some { exec with
        profiles := (profilesOf (fileOf events e.guid)).map
          (withControls (controlsOf (fileOf events e.guid))) } := by
  obtain ⟨exec, one⟩ := stored.headers e inside
  have here : exec ∈ headersOf (fileOf events e.guid) := one ▸ List.mem_singleton_self exec
  obtain ⟨known, guid⟩ := mem_fileOf.mp (mem_headersOf.mp here)
  have empty := stored.executions exec (mem_headersOf.mpr known)
  refine ⟨exec, one, guid, empty, ?_⟩
  simp only [Frontend.assembled, one, empty, List.nil_append]

theorem Stored.returns_iff (stored : Stored events) :
    (∃ answer, consolidate_payloads events = .ok answer) ↔ OrdinaryNames events := by
  constructor
  · rintro ⟨answer, returned⟩
    obtain ⟨⟨guids, shas⟩, -⟩ := consolidate_payloads_perm returned
    exact ⟨guids, ordinaryShas_iff.mpr shas⟩
  · rintro ⟨guids, shas⟩
    apply consolidate_payloads_returns guids (ordinaryShas_iff.mp shas)
    intro e inside
    obtain ⟨exec, -, -, -, made⟩ := stored.assembled inside
    exact ⟨_, made⟩

section Content
variable (stored : Stored events) {answer : List ExecutionPayload}
  (returned : consolidate_payloads events = .ok answer)
include stored

def filled (file : List UnknownPayload) : List ProfilePayload :=
  (profilesOf file).map (withControls (controlsOf file))

theorem bare_filled {p : ProfilePayload} (g : JsString) (inside : p ∈ profilesOf (fileOf events g)) :
    (withControls (controlsOf (fileOf events g)) p).bare = p := by
  have known := (mem_fileOf.mp (mem_profilesOf.mp inside)).1
  have empty := stored.profiles p (mem_profilesOf.mpr known)
  cases p
  cases empty
  rfl

/-- The controls that are put in the profiles of a file are a join of the two kinds of events. -/
theorem controls_filled (g : JsString) : (filled (fileOf events g)).flatMap (·.controls) =
    (profilesOf (fileOf events g)).flatMap fun p => (controlsOf (fileOf events g)).filter fun c =>
      decide (c.profile_sha256 = p.profile_sha256) := by
  rw [filled, List.flatMap_map]
  apply List.flatMap_congr
  intro p inside
  have known := (mem_fileOf.mp (mem_profilesOf.mp inside)).1
  have empty := stored.profiles p (mem_profilesOf.mpr known)
  simp only [withControls, empty, List.nil_append, group]

include returned

/-- Every event has its execution in the answer. -/
theorem exists_execution {e : UnknownPayload} (inside : e ∈ events) :
    ∃ exec ∈ answer, exec.guid = e.guid ∧ exec.profiles = filled (fileOf events e.guid) := by
  obtain ⟨header, -, guid, -, made⟩ := stored.assembled inside
  refine ⟨{ header with profiles := filled (fileOf events e.guid) },
    (consolidate_payloads_perm returned).2.mem_iff.mpr ?_, guid, rfl⟩
  exact List.mem_filterMap.mpr ⟨e.guid, mem_distinct.mpr (List.mem_map_of_mem inside), made⟩

/-- Every execution of the answer is made of the events of one guid. -/
theorem of_mem_answer {exec : ExecutionPayload} (inside : exec ∈ answer) :
    ∃ e ∈ events, exec.guid = e.guid ∧ headersOf (fileOf events e.guid) = [exec.bare] ∧
      exec.profiles = filled (fileOf events e.guid) := by
  obtain ⟨g, known, made⟩ := List.mem_filterMap.mp
    ((consolidate_payloads_perm returned).2.mem_iff.mp inside)
  obtain ⟨e, here, rfl⟩ := List.mem_map.mp (mem_distinct.mp known)
  obtain ⟨header, one, guid, empty, made'⟩ := stored.assembled here
  obtain rfl := Option.some.inj (made.symm.trans made')
  refine ⟨e, here, guid, one.trans ?_, rfl⟩
  simp only [ExecutionPayload.bare, ← empty]

theorem answer_guids :
    (answer.map (·.guid)).Perm (distinct (events.map (·.guid))) := by
  refine ((consolidate_payloads_perm returned).2.map _).trans (List.Perm.of_eq ?_)
  rw [List.map_filterMap]
  refine (List.filterMap_congr fun g known => ?_).trans (List.filterMap_some)
  obtain ⟨e, here, rfl⟩ := List.mem_map.mp (mem_distinct.mp known)
  obtain ⟨header, -, guid, -, made⟩ := stored.assembled here
  rw [made, Option.map_some, guid]

theorem answer_headers : (answer.map (·.bare)).Perm (headersOf events) := by
  have regrouped := (groups_perm UnknownPayload.guid events).filterMap (·.asExecution)
  refine ((consolidate_payloads_perm returned).2.map _).trans (List.Perm.trans ?_ regrouped)
  apply List.Perm.of_eq
  rw [List.map_filterMap, List.filterMap_flatMap, List.filterMap_eq_flatMap_toList]
  apply List.flatMap_congr
  intro g known
  obtain ⟨e, here, rfl⟩ := List.mem_map.mp (mem_distinct.mp known)
  obtain ⟨header, one, -, empty, made⟩ := stored.assembled here
  have bare : ExecutionPayload.mk header.guid [] header.body = header := by rw [← empty]
  rw [made]
  exact (congrArg (fun exec => [exec]) bare).trans one.symm

/-- An answer is faithful exactly when no control finds two profiles of its file. -/
theorem reassembled_iff : Reassembled events answer ↔ SingleProfiles events := by
  constructor
  · intro faithful c inside
    have here := mem_controlsOf.mp inside
    obtain ⟨exec, made, guid, profiles⟩ := exists_execution stored returned here
    have join := faithful.controls exec made
    rw [profiles, guid, controls_filled stored] at join
    exact (join_perm_iff _ _ _).mp join c (mem_controlsOf.mpr (mem_fileOf.mpr ⟨here, rfl⟩))
  · intro single
    refine ⟨answer_guids stored returned, answer_headers stored returned, ?_, ?_, ?_⟩
    · intro exec made
      obtain ⟨e, here, guid, -, profiles⟩ := of_mem_answer stored returned made
      rw [profiles, guid, filled, List.map_map]
      refine List.Perm.of_eq ((List.map_congr_left fun p inside => ?_).trans (List.map_id _))
      exact bare_filled stored e.guid inside
    · intro exec made
      obtain ⟨e, here, guid, -, profiles⟩ := of_mem_answer stored returned made
      rw [profiles, guid, controls_filled stored]
      apply (join_perm_iff _ _ _).mpr
      intro c inside
      obtain ⟨known, same⟩ := mem_fileOf.mp (mem_controlsOf.mp inside)
      have few := single c (mem_controlsOf.mpr known)
      rw [show c.guid = e.guid from same] at few
      exact few
    · intro exec made p inside c held
      obtain ⟨e, here, guid, -, profiles⟩ := of_mem_answer stored returned made
      rw [profiles] at inside
      obtain ⟨q, stored_profile, rfl⟩ := List.mem_map.mp inside
      have known := (mem_fileOf.mp (mem_profilesOf.mp stored_profile)).1
      have empty := stored.profiles q (mem_profilesOf.mpr known)
      simp only [withControls, empty, List.nil_append] at held
      exact (mem_group.mp held).2

end Content

/-- The events of a file give the same execution in any order. -/
theorem sameExecution_assembled (stored : Stored events) (perm : events'.Perm events)
    {e : UnknownPayload} (inside : e ∈ events) : ∃ a b,
      assembled (fileOf events e.guid) = some a ∧
        assembled (fileOf events' e.guid) = some b ∧ SameExecution a b := by
  have file : (fileOf events' e.guid).Perm (fileOf events e.guid) := perm.filter _
  obtain ⟨header, one, guid, empty, made⟩ := stored.assembled inside
  obtain ⟨header', one', -, -, made'⟩ := (stored.perm perm).assembled (perm.mem_iff.mpr inside)
  have same : header' = header := by
    have headers : (headersOf (fileOf events' e.guid)).Perm (headersOf (fileOf events e.guid)) :=
      file.filterMap _
    rw [one, one'] at headers
    exact List.singleton_perm_singleton.mp headers
  subst same
  refine ⟨_, _, made, made', rfl, (profilesOf (fileOf events' e.guid)).map
    (withControls (controlsOf (fileOf events e.guid))), ((file.filterMap _).map _).symm, ?_⟩
  refine List.forall₂_map_left_iff.mpr (List.forall₂_map_right_iff.mpr ?_)
  refine List.forall₂_same.mpr fun p _ => ⟨rfl, ?_⟩
  exact List.Perm.append_left _ ((file.filterMap _).symm.filter _)

/-- Another order of the events gives the same answer, up to the orders inside it. -/
theorem sameContent_of_perm (stored : Stored events) {answer answer' : List ExecutionPayload}
    (perm : events'.Perm events) (returned : consolidate_payloads events = .ok answer)
    (returned' : consolidate_payloads events' = .ok answer') : SameContent answer answer' := by
  set keys := distinct (events'.map (·.guid))
  have regrouped : answer.Perm (keys.filterMap fun g => assembled (fileOf events g)) :=
    (consolidate_payloads_perm returned).2.trans
      ((distinct_perm (perm.map _)).symm.filterMap _)
  have pairs : List.Forall₂ SameExecution (keys.filterMap fun g => assembled (fileOf events g))
      (keys.filterMap fun g => assembled (fileOf events' g)) := by
    apply forall₂_filterMap
    intro g known
    obtain ⟨e, inside, rfl⟩ := List.mem_map.mp (mem_distinct.mp known)
    exact sameExecution_assembled stored perm (perm.mem_iff.mp inside)
  have swapped : Relation.Comp (List.Forall₂ SameExecution) List.Perm
      (keys.filterMap fun g => assembled (fileOf events g)) answer' :=
    ⟨_, pairs, (consolidate_payloads_perm returned').2.symm⟩
  rw [List.forall₂_comp_perm_eq_perm_comp_forall₂] at swapped
  obtain ⟨es, reordered, same⟩ := swapped
  exact ⟨es, regrouped.trans reordered, same⟩

/-- The reassembly is lossless exactly when no name is that of an inherited member and no
control finds two profile events of its file. -/
theorem lossless_iff (stored : Stored events) :
    Lossless events ↔ OrdinaryNames events ∧ SingleProfiles events := by
  constructor
  · rintro ⟨answer, returned, faithful, -⟩
    exact ⟨stored.returns_iff.mp ⟨answer, returned⟩,
      (reassembled_iff stored returned).mp faithful⟩
  · rintro ⟨ordinary, single⟩
    obtain ⟨answer, returned⟩ := stored.returns_iff.mpr ordinary
    refine ⟨answer, returned, (reassembled_iff stored returned).mpr single, ?_⟩
    intro events' perm
    obtain ⟨answer', returned'⟩ := (stored.perm perm).returns_iff.mpr (ordinary.perm perm)
    exact ⟨answer', returned', sameContent_of_perm stored perm returned returned'⟩

end Stored

end Lossless

section Samples

def sampleHeader (guid : String) : UnknownPayload := .header ⟨js guid, [], .null⟩

def sampleProfileEvent (guid sha name : String) : UnknownPayload :=
  .profile ⟨js guid, js sha, [], .str (js name)⟩

def sampleControlEvent (guid sha name : String) : UnknownPayload :=
  .control ⟨js guid, js sha, .str (js name)⟩

/-- Two files, a profile each, and a control without a profile. -/
def twoFiles : List UnknownPayload :=
  [sampleControlEvent "g" "s" "C-1", sampleHeader "g", sampleProfileEvent "h" "t" "other",
   sampleProfileEvent "g" "s" "base", sampleControlEvent "g" "none" "C-2", sampleHeader "h"]

theorem twoFiles_stored : Stored twoFiles where
  headers := by
    intro e inside
    simp only [twoFiles, List.mem_cons, List.not_mem_nil, or_false] at inside
    rcases inside with rfl | rfl | rfl | rfl | rfl | rfl <;> exact ⟨_, rfl⟩
  executions := by
    intro exec inside
    simp only [mem_headersOf, twoFiles, sampleHeader, sampleControlEvent, sampleProfileEvent,
      List.mem_cons, List.not_mem_nil, or_false, reduceCtorEq, UnknownPayload.header.injEq,
      false_or] at inside
    rcases inside with rfl | rfl <;> rfl
  profiles := by
    intro p inside
    simp only [mem_profilesOf, twoFiles, sampleHeader, sampleControlEvent, sampleProfileEvent,
      List.mem_cons, List.not_mem_nil, or_false, reduceCtorEq, UnknownPayload.profile.injEq,
      false_or] at inside
    rcases inside with rfl | rfl <;> rfl

/-- Both files come back, the first one with its profile and control. -/
theorem lossless_iff_sample : Lossless twoFiles := by
  refine (lossless_iff twoFiles_stored).mpr ⟨⟨?_, ?_, ?_⟩, ?_⟩
  · exact (by decide +kernel : ∀ e ∈ twoFiles, e.guid ∉ objectPrototype)
  · exact (by decide +kernel : ∀ c ∈ controlsOf twoFiles, c.profile_sha256 ∉ objectPrototype)
  · exact (by decide +kernel : ∀ p ∈ profilesOf twoFiles, p.profile_sha256 ∉ objectPrototype)
  · exact (by decide +kernel : ∀ c ∈ controlsOf twoFiles,
      ((profilesOf (fileOf twoFiles c.guid)).filter fun p =>
        c.profile_sha256 = p.profile_sha256).length ≤ 1)

/-- A profile that was stored twice, and its control. -/
def storedTwice : List UnknownPayload :=
  [sampleHeader "g", sampleProfileEvent "g" "s" "base", sampleProfileEvent "g" "s" "base",
   sampleControlEvent "g" "s" "C-1"]

theorem storedTwice_stored : Stored storedTwice where
  headers := by
    intro e inside
    simp only [storedTwice, List.mem_cons, List.not_mem_nil, or_false] at inside
    rcases inside with rfl | rfl | rfl | rfl <;> exact ⟨_, rfl⟩
  executions := by
    intro exec inside
    simp only [mem_headersOf, storedTwice, sampleHeader, sampleControlEvent, sampleProfileEvent,
      List.mem_cons, List.not_mem_nil, or_false, reduceCtorEq,
      UnknownPayload.header.injEq] at inside
    exact inside ▸ rfl
  profiles := by
    intro p inside
    simp only [mem_profilesOf, storedTwice, sampleHeader, sampleControlEvent, sampleProfileEvent,
      List.mem_cons, List.not_mem_nil, or_false, reduceCtorEq, UnknownPayload.profile.injEq,
      false_or, or_self] at inside
    exact inside ▸ rfl

/-- The control event is put in both profiles, and a file whose guid is the name of an
inherited member is not put together at all. -/
theorem controls_repeated :
    ¬ (∀ events, Stored events → Lossless events) ∧
    ((consolidate_payloads storedTwice).toOption.map fun answer => answer.map fun exec =>
      exec.profiles.map fun p => p.controls.length) = some [[1, 1]] ∧
    (consolidate_payloads [sampleHeader "constructor"]).toOption.isNone := by
  have twice : ((consolidate_payloads storedTwice).toOption.map fun answer => answer.map fun exec =>
      exec.profiles.map fun p => p.controls.length) = some [[1, 1]] := by decide +kernel
  refine ⟨fun always => ?_, twice, by decide +kernel⟩
  obtain ⟨answer, returned, faithful, -⟩ := always storedTwice storedTwice_stored
  have single := (reassembled_iff storedTwice_stored returned).mp faithful
  have few : ((profilesOf (fileOf storedTwice (js "g"))).filter fun p =>
      decide (js "s" = p.profile_sha256)).length ≤ 1 :=
    single ⟨js "g", js "s", .str (js "C-1")⟩
      (mem_controlsOf.mpr (by simp [storedTwice, sampleControlEvent]))
  revert few
  decide +kernel

end Samples

end Frontend
