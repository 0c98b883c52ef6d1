import Heimdall.Lib.Interleaving
import Heimdall.Backend.Ownership

/-!
# Concurrent removals from a group

Between reading the owners and removing its user, a removal waits for the database, and so
do the steps before. Requests on one group are processes whose atomic actions interleave;
the guard may have been read before another removal took effect.
-/
namespace Backend
open Js Casl

structure RemoveRequest where
  requester : User
  userId : ℕ

/-- What a request does next. -/
inductive Phase where
  | received
  | authorized
  | located
  | passed
  | finished
  deriving DecidableEq

abbrev Process := RemoveRequest × Phase

/-- May the requester update the group as it is stored now? -/
def mayManage (db : Tables) (g : ℕ) (requester : User) : Bool :=
  match db.loadGroup g with
  | some group => (createForUser requester).allows .update group.target
  | none => false

/-- One awaited step of `removeUserFromGroup`; a request that throws is finished. -/
def removeStep (g : ℕ) (db : Tables) (p : Process) : Tables × Process :=
  match p.2 with
  | .received => (db, p.1, if mayManage db g p.1.requester then .authorized else .finished)
  | .authorized => (db, p.1, if (db.findUser p.1.userId).isSome then .located else .finished)
  | .located => (db, p.1, if GroupsService.mayRemove db g p.1.userId then .passed else .finished)
  | .passed => (db.removeUser g p.1.userId, p.1, .finished)
  | .finished => (db, p)

def receive (requests : List RemoveRequest) : List Process := requests.map fun r => (r, .received)

def Phase.active : Phase → Bool
  | .authorized | .located | .passed => true
  | _ => false

theorem mayManage_iff {db : Tables} {g : ℕ} {requester : User} :
    mayManage db g requester = true ↔ (∃ group, db.loadGroup g = some group) ∧
      (requester.isAdmin = true ∨
        ∃ m ∈ GroupsService.owners db g, m.user.id = requester.id) := by
  unfold mayManage
  cases loaded : db.loadGroup g with
  | none => simp
  | some group =>
      have owner : group.hasOwner requester.id = true ↔
          ∃ m ∈ GroupsService.owners db g, m.user.id = requester.id := by
        rw [LoadedGroup.hasOwner_iff, (loadGroup_id loaded).2.2]
        simp only [GroupsService.mem_owners]
        exact ⟨fun ⟨m, hm, id, role⟩ => ⟨m, ⟨hm, role⟩, id⟩,
          fun ⟨m, ⟨hm, role⟩, id⟩ => ⟨m, hm, id, role⟩⟩
      simp [LoadedGroup.target, allows_group, owner]

theorem owners_removeUser (db : Tables) (g u : ℕ) :
    GroupsService.owners (db.removeUser g u) g =
      (GroupsService.owners db g).filter fun m => decide (m.user.id ≠ u) := by
  have users : (db.removeUser g u).usersOf g =
      (db.usersOf g).filter fun m => decide (m.user.id ≠ u) := by
    change (db.groupUsers.filter _).filterMap (fun row => db.joinUser g row) = _
    rw [Tables.usersOf, List.filterMap_filter, List.filter_filterMap]
    apply List.filterMap_congr
    intro row _
    cases joined : db.joinUser g row with
    | none => simp
    | some m =>
        by_cases gone : m.user.id = u <;>
          simp [Tables.joins_of_joinUser joined, gone, Option.filter]
  rw [GroupsService.owners, users, GroupsService.owners, List.filter_filter, List.filter_filter]
  simp only [Bool.and_comm]

/-- A removal gives nobody the right to manage the group. -/
theorem mayManage_removeUser {db : Tables} {g u : ℕ} {requester : User}
    (h : mayManage (db.removeUser g u) g requester = true) : mayManage db g requester = true := by
  obtain ⟨⟨group, loaded⟩, source⟩ := mayManage_iff.mp h
  have found := (loadGroup_id loaded).2.1
  refine mayManage_iff.mpr ⟨⟨⟨group.group, db.usersOf group.group.id⟩, ?_⟩, source.imp_right ?_⟩
  · change db.findGroup g = some group.group at found
    rw [Tables.loadGroup, found]
    rfl
  · rintro ⟨m, hm, same⟩
    rw [owners_removeUser] at hm
    exact ⟨m, List.mem_of_mem_filter hm, same⟩

/-- A single owner is never removed: the guard sees it in every state. -/
theorem single_owner_stays {db : Tables} {g : ℕ} {requests : List RemoveRequest}
    (single : (GroupsService.owners db g).length = 1) (schedule : List ℕ) :
    GroupsService.owners (Lib.interleave (removeStep g) (db, receive requests) schedule).1 g =
      GroupsService.owners db g := by
  refine (Lib.interleave_invariant
    (I := fun now => GroupsService.owners now g = GroupsService.owners db g)
    (L := fun _ p => p.2 = .passed → ∀ m ∈ GroupsService.owners db g, m.user.id ≠ p.1.userId)
    ?_ ?_ rfl ?_ schedule).1
  · rintro now ⟨r, phase⟩ same mine
    cases phase with
    | received =>
        refine ⟨same, fun passed => ?_⟩
        simp only [removeStep] at passed
        split at passed <;> cases passed
    | authorized =>
        refine ⟨same, fun passed => ?_⟩
        simp only [removeStep] at passed
        split at passed <;> cases passed
    | located =>
        refine ⟨same, fun passed => ?_⟩
        simp only [removeStep] at passed
        split at passed
        · rename_i guard
          rcases GroupsService.mayRemove_iff.mp guard with two | absent
          · rw [same, single] at two
            omega
          · rwa [same] at absent
        · cases passed
    | passed =>
        refine ⟨?_, fun h => by cases h⟩
        rw [← same]
        change GroupsService.owners (now.removeUser g r.userId) g = _
        rw [owners_removeUser, List.filter_eq_self]
        intro m hm
        exact decide_eq_true (mine rfl m (same ▸ hm))
    | finished => exact ⟨same, mine⟩
  · exact fun _ _ _ _ _ other => other
  · intro p hp
    obtain ⟨r, -, rfl⟩ := List.mem_map.mp hp
    exact fun h => by cases h

/-- An owner whom no authorized request names stays. -/
theorem untargeted_owner_stays {db : Tables} {g o : ℕ} {requests : List RemoveRequest}
    (owner : ∃ m ∈ GroupsService.owners db g, m.user.id = o)
    (untargeted : ∀ r ∈ requests, mayManage db g r.requester = true → r.userId ≠ o)
    (schedule : List ℕ) :
    ∃ m ∈ GroupsService.owners (Lib.interleave (removeStep g) (db, receive requests) schedule).1 g,
      m.user.id = o := by
  refine (Lib.interleave_invariant
    (I := fun now => (∀ requester, mayManage now g requester = true →
      mayManage db g requester = true) ∧ ∃ m ∈ GroupsService.owners now g, m.user.id = o)
    (L := fun _ p => p.1 ∈ requests ∧
      (p.2.active = true → mayManage db g p.1.requester = true))
    ?_ ?_ ⟨fun _ h => h, owner⟩ ?_ schedule).1.2
  · rintro now ⟨r, phase⟩ ⟨shrinks, stays⟩ ⟨known, allowed⟩
    cases phase with
    | received =>
        refine ⟨⟨shrinks, stays⟩, known, fun active => ?_⟩
        simp only [removeStep] at active
        split at active
        · rename_i manages
          exact shrinks _ manages
        · cases active
    | authorized => exact ⟨⟨shrinks, stays⟩, known, fun _ => allowed rfl⟩
    | located => exact ⟨⟨shrinks, stays⟩, known, fun _ => allowed rfl⟩
    | passed =>
        refine ⟨⟨fun requester h => shrinks requester (mayManage_removeUser h), ?_⟩, known,
          fun active => by cases active⟩
        obtain ⟨m, hm, same⟩ := stays
        refine ⟨m, ?_, same⟩
        change m ∈ GroupsService.owners (now.removeUser g r.userId) g
        rw [owners_removeUser, List.mem_filter]
        exact ⟨hm, decide_eq_true (by rw [same]; exact (untargeted r known (allowed rfl)).symm)⟩
    | finished => exact ⟨⟨shrinks, stays⟩, known, allowed⟩
  · exact fun _ _ _ _ _ other => other
  · intro p hp
    obtain ⟨r, known, rfl⟩ := List.mem_map.mp hp
    exact ⟨known, fun active => by cases active⟩

/-! All requests do each step before any does the next: the guards see the same owners. -/

/-- What a request that has read its guard against `db` does next. -/
def verdict (db : Tables) (g : ℕ) (r : RemoveRequest) : Phase :=
  if mayManage db g r.requester && (db.findUser r.userId).isSome &&
    GroupsService.mayRemove db g r.userId then .passed else .finished

def rounds (n : ℕ) : List ℕ := List.range n ++ List.range n ++ List.range n ++ List.range n

theorem removeStep_reads {g : ℕ} {db : Tables} {p : Process} (h : p.2 ≠ .passed) :
    removeStep g db p = (db, (removeStep g db p).2) := by
  obtain ⟨r, phase⟩ := p
  cases phase with
  | passed => exact absurd rfl h
  | _ => rfl

theorem removeStep_three (g : ℕ) (db : Tables) (r : RemoveRequest) :
    (removeStep g db (removeStep g db (removeStep g db (r, .received)).2).2).2 =
      (r, verdict db g r) := by
  unfold verdict
  cases manages : mayManage db g r.requester with
  | false => simp [removeStep, manages]
  | true =>
      cases found : (db.findUser r.userId).isSome with
      | false => simp [removeStep, manages, found]
      | true => cases guard : GroupsService.mayRemove db g r.userId <;>
          simp [removeStep, manages, found, guard]

theorem sweep_reads {g : ℕ} {db : Tables} {ps : List Process} (h : ∀ p ∈ ps, p.2 ≠ .passed) :
    Lib.sweep (removeStep g) db ps = (db, ps.map fun p => (removeStep g db p).2) :=
  Lib.sweep_of_reads fun p hp => removeStep_reads (h p hp)

/-- The last sweep carries out the removals that passed. -/
theorem sweep_removals (g : ℕ) (db : Tables) (rs : List RemoveRequest)
    (next : RemoveRequest → Phase) (done : ∀ r, next r = .passed ∨ next r = .finished) :
    GroupsService.owners (Lib.sweep (removeStep g) db (rs.map fun r => (r, next r))).1 g =
      (GroupsService.owners db g).filter (fun m =>
        rs.all fun r => decide (next r = .passed → m.user.id ≠ r.userId)) ∧
    ∀ p ∈ (Lib.sweep (removeStep g) db (rs.map fun r => (r, next r))).2, p.2 = .finished := by
  induction rs generalizing db with
  | nil => exact ⟨(List.filter_eq_self.mpr fun _ _ => rfl).symm, by simp [Lib.sweep]⟩
  | cons r rs ih =>
      rcases done r with passes | ends
      · have first : removeStep g db (r, next r) = (db.removeUser g r.userId, r, .finished) := by
          simp [removeStep, passes]
        obtain ⟨owners, phases⟩ := ih (db.removeUser g r.userId)
        simp only [List.map_cons, Lib.sweep, first]
        refine ⟨?_, ?_⟩
        · rw [owners, owners_removeUser, List.filter_filter]
          apply List.filter_congr
          intro m _
          simp [passes, Bool.and_comm]
        · simpa using phases
      · have first : removeStep g db (r, next r) = (db, r, .finished) := by
          simp [removeStep, ends]
        obtain ⟨owners, phases⟩ := ih db
        simp only [List.map_cons, Lib.sweep, first]
        refine ⟨?_, ?_⟩
        · rw [owners]
          apply List.filter_congr
          intro m _
          simp [ends]
        · simpa using phases

theorem verdict_done (db : Tables) (g : ℕ) (r : RemoveRequest) :
    verdict db g r = .passed ∨ verdict db g r = .finished := by
  unfold verdict
  split
  · exact .inl rfl
  · exact .inr rfl

theorem interleave_rounds (g : ℕ) (db : Tables) (requests : List RemoveRequest) :
    Lib.interleave (removeStep g) (db, receive requests) (rounds requests.length) =
      Lib.sweep (removeStep g) db (requests.map fun r => (r, verdict db g r)) := by
  have sweepAll : ∀ ps : List Process, ps.length = requests.length →
      Lib.interleave (removeStep g) (db, ps) (List.range requests.length) =
        Lib.sweep (removeStep g) db ps := by
    intro ps length
    rw [← length, Lib.interleave_range]
  have first : ∀ p ∈ receive requests, p.2 ≠ .passed := by
    intro p hp
    obtain ⟨r, -, rfl⟩ := List.mem_map.mp hp
    exact fun h => by cases h
  have second : ∀ p ∈ (receive requests).map fun p => (removeStep g db p).2, p.2 ≠ .passed := by
    intro p hp
    obtain ⟨q, hq, rfl⟩ := List.mem_map.mp hp
    obtain ⟨r, -, rfl⟩ := List.mem_map.mp hq
    simp only [removeStep]
    split <;> exact fun h => by cases h
  have third : ∀ p ∈ ((receive requests).map fun p => (removeStep g db p).2).map
      fun p => (removeStep g db p).2, p.2 ≠ .passed := by
    intro p hp
    obtain ⟨q, hq, rfl⟩ := List.mem_map.mp hp
    obtain ⟨q', hq', rfl⟩ := List.mem_map.mp hq
    obtain ⟨r, -, rfl⟩ := List.mem_map.mp hq'
    by_cases manages : mayManage db g r.requester = true <;>
      by_cases found : (db.findUser r.userId).isSome = true <;>
        simp [removeStep, manages, found]
  have verdicts : (((receive requests).map fun p => (removeStep g db p).2).map
      fun p => (removeStep g db p).2).map (fun p => (removeStep g db p).2) =
        requests.map fun r => (r, verdict db g r) := by
    simp only [receive, List.map_map]
    exact List.map_congr_left fun r _ => removeStep_three g db r
  rw [rounds, Lib.interleave_append, Lib.interleave_append, Lib.interleave_append,
    sweepAll _ (by simp [receive]), sweep_reads first,
    sweepAll _ (by simp [receive]), sweep_reads second,
    sweepAll _ (by simp [receive]), sweep_reads third, verdicts, sweepAll _ (by simp)]

/-- Alone, a request does what the sequential handler does. -/
theorem removeStep_alone (db : Tables) (g : ℕ) (r : RemoveRequest) :
    Lib.interleave (removeStep g) (db, receive [r]) (rounds 1) =
      ((match GroupsController.removeUserFromGroup db r.requester g ⟨r.userId⟩ with
        | .ok db' => db'
        | .error _ => db), [(r, .finished)]) := by
  rw [show rounds 1 = rounds [r].length from rfl, interleave_rounds]
  simp only [List.map_cons, List.map_nil, Lib.sweep]
  unfold verdict mayManage GroupsController.removeUserFromGroup GroupsService.removeUserFromGroup
    GroupsService.findByPkBang findByPkBang throwUnlessCan Lib.orThrow Lib.ensure
  cases loaded : db.loadGroup g with
  | none => simp [removeStep, bind, Except.bind]
  | some group =>
      cases manages : (createForUser r.requester).allows .update group.target with
      | false => simp [removeStep, bind, Except.bind, manages]
      | true =>
          cases found : db.findUser r.userId with
          | none => simp [removeStep, bind, Except.bind, manages]
          | some user =>
              have here := (loadGroup_id loaded).1
              have same := (Tables.findUser_some found).2
              cases guard : GroupsService.mayRemove db g r.userId <;>
                simp [removeStep, bind, Except.bind, pure, Except.pure, manages, here, same, guard]

/-- After all removals of a group complete it has an owner in every interleaving, exactly if
it started with one owner, or some owner is named by no request that is authorized. -/
theorem owners_left_iff {db : Tables} {g : ℕ} {group : LoadedGroup}
    (loaded : db.loadGroup g = some group) (owned : GroupsService.owners db g ≠ [])
    (requests : List RemoveRequest) :
    (∀ schedule,
      (∀ p ∈ (Lib.interleave (removeStep g) (db, receive requests) schedule).2,
        p.2 = .finished) →
      GroupsService.owners (Lib.interleave (removeStep g) (db, receive requests) schedule).1 g ≠
        []) ↔
    (GroupsService.owners db g).length = 1 ∨ ∃ m ∈ GroupsService.owners db g, ∀ r ∈ requests,
      (createForUser r.requester).allows .update group.target = true →
        r.userId ≠ m.user.id := by
  have manages : ∀ requester, mayManage db g requester =
      (createForUser requester).allows .update group.target := by
    intro requester
    simp [mayManage, loaded]
  simp only [← manages]
  constructor
  · intro safe
    by_contra contrary
    obtain ⟨many, targeted⟩ := not_or.mp contrary
    have two : 2 ≤ (GroupsService.owners db g).length := by
      have some := List.length_pos_iff.mpr owned
      omega
    have bad := safe (rounds requests.length)
    rw [interleave_rounds] at bad
    obtain ⟨owners, phases⟩ := sweep_removals g db requests (verdict db g) (verdict_done db g)
    apply bad phases
    rw [owners, List.filter_eq_nil_iff]
    intro m hm kept
    simp only [not_exists, not_and, not_forall, not_not] at targeted
    obtain ⟨r, hr, authorized, same⟩ := targeted m hm
    obtain ⟨-, -, u, -, found⟩ := Tables.mem_usersOf.mp (GroupsService.mem_owners.mp hm).1
    have located : (db.findUser r.userId).isSome = true := by
      rw [same, (Tables.findUser_some found).2, found]
      rfl
    have passes : verdict db g r = .passed := by
      simp [verdict, authorized, located, GroupsService.mayRemove_iff.mpr (.inl two)]
    have stays := of_decide_eq_true (List.all_eq_true.mp kept r hr)
    exact stays passes same.symm
  · rintro (single | ⟨m, hm, untargeted⟩) schedule -
    · rw [single_owner_stays single]
      exact owned
    · obtain ⟨left, here, -⟩ := untargeted_owner_stays ⟨m, hm, rfl⟩ untargeted schedule
      exact List.ne_nil_of_mem here

/-! Two owners, each of whom removes the other. -/

def sampleTeam : Tables :=
  (Lib.run (Database.step sampleConfig) Database.empty
    [sampleRegistration "a@example.com", sampleRegistration "b@example.com",
     sampleCall 1 (.createGroup sampleGroup),
     sampleCall 1 (.addUserToGroup 1 (sampleOwnership 2))]).tables

def sampleRemovals : List RemoveRequest := sampleTeam.users.map fun user => ⟨user, 3 - user.id⟩

theorem owners_left_iff_sample : ∃ group, sampleTeam.loadGroup 1 = some group ∧
    ((∀ schedule,
      (∀ p ∈ (Lib.interleave (removeStep 1) (sampleTeam, receive sampleRemovals) schedule).2,
        p.2 = .finished) →
      GroupsService.owners
        (Lib.interleave (removeStep 1) (sampleTeam, receive sampleRemovals) schedule).1 1 ≠ []) ↔
    (GroupsService.owners sampleTeam 1).length = 1 ∨ ∃ m ∈ GroupsService.owners sampleTeam 1,
      ∀ r ∈ sampleRemovals, (createForUser r.requester).allows .update group.target = true →
        r.userId ≠ m.user.id) := by
  have there : (sampleTeam.loadGroup 1).isSome = true := by decide +kernel
  have owned : (GroupsService.owners sampleTeam 1).isEmpty = false := by decide +kernel
  obtain ⟨group, loaded⟩ := Option.isSome_iff_exists.mp there
  exact ⟨group, loaded, owners_left_iff loaded (List.isEmpty_eq_false_iff.mp owned) sampleRemovals⟩

theorem owners_lost_sample :
    GroupsService.owners sampleTeam 1 ≠ [] ∧
    (∀ p ∈ (Lib.interleave (removeStep 1) (sampleTeam, receive sampleRemovals)
      [0, 1, 0, 1, 0, 1, 0, 1]).2, p.2 = .finished) ∧
    GroupsService.owners (Lib.interleave (removeStep 1) (sampleTeam, receive sampleRemovals)
      [0, 1, 0, 1, 0, 1, 0, 1]).1 1 = [] := by
  have owned : (GroupsService.owners sampleTeam 1).isEmpty = false := by decide +kernel
  have lost : (GroupsService.owners (Lib.interleave (removeStep 1)
      (sampleTeam, receive sampleRemovals) [0, 1, 0, 1, 0, 1, 0, 1]).1 1).isEmpty = true := by
    decide +kernel
  exact ⟨List.isEmpty_eq_false_iff.mp owned, by decide +kernel, List.isEmpty_iff.mp lost⟩

end Backend
