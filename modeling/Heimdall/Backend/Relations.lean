import Mathlib.Data.List.Pairwise
import Heimdall.Backend.Integrity

/-!
# Memberships and contents as relations

`HasRole g u role` and `Contains g e` forget the rows and their order. Each statement is
described by its effect on the two relations and on the rows found by key, which is all
that the permissions of a user depend on.
-/
namespace Backend
open Js

namespace Tables
variable {db : Tables}

def HasRole (db : Tables) (g u : ℕ) (role : JsString) : Prop :=
  ∃ row ∈ db.groupUsers, row.groupId = some g ∧ row.userId = some u ∧ row.role = role

def Contains (db : Tables) (g e : ℕ) : Prop :=
  ∃ row ∈ db.groupEvaluations, row.groupId = some g ∧ row.evaluationId = some e

theorem findUser_some {id : ℕ} {user : User} (h : db.findUser id = some user) :
    user ∈ db.users ∧ user.id = id := Lib.pick_some h

theorem findGroup_some {id : ℕ} {group : Group} (h : db.findGroup id = some group) :
    group ∈ db.groups ∧ group.id = id := Lib.pick_some h

theorem findEvaluation_some {id : ℕ} {evaluation : Evaluation}
    (h : db.findEvaluation id = some evaluation) :
    evaluation ∈ db.evaluations ∧ evaluation.id = id := Lib.pick_some h

theorem joinUser_eq_some {g : ℕ} {row : GroupUser} {m : Member} :
    db.joinUser g row = some m ↔ m.groupUser = row ∧ row.groupId = some g ∧
      ∃ u, row.userId = some u ∧ db.findUser u = some m.user := by
  unfold joinUser
  constructor
  · intro h
    split at h
    · rename_i mine
      obtain ⟨user, found, rfl⟩ := Option.map_eq_some_iff.mp h
      exact ⟨rfl, mine, Option.bind_eq_some_iff.mp found⟩
    · cases h
  · rintro ⟨rfl, mine, u, hu, found⟩
    rw [if_pos mine, hu, Option.bind_some, found]
    rfl

theorem joins_of_joinUser {g : ℕ} {row : GroupUser} {m : Member}
    (h : db.joinUser g row = some m) (u : ℕ) : row.joins g u = decide (m.user.id = u) := by
  obtain ⟨-, mine, v, hv, found⟩ := joinUser_eq_some.mp h
  simp [GroupUser.joins, mine, hv, (findUser_some found).2]

theorem mem_usersOf {g : ℕ} {m : Member} :
    m ∈ db.usersOf g ↔ m.groupUser ∈ db.groupUsers ∧ m.groupUser.groupId = some g ∧
      ∃ u, m.groupUser.userId = some u ∧ db.findUser u = some m.user := by
  simp only [usersOf, List.mem_filterMap, joinUser_eq_some]
  exact ⟨fun ⟨_, here, rfl, joined⟩ => ⟨here, joined⟩, fun ⟨here, joined⟩ => ⟨_, here, rfl, joined⟩⟩

theorem mem_groupsOf {e : ℕ} {g : LoadedGroup} :
    g ∈ db.groupsOf e ↔ ∃ id, db.Contains id e ∧ db.loadGroup id = some g := by
  simp only [groupsOf, List.mem_filterMap, Contains]
  constructor
  · rintro ⟨row, here, h⟩
    by_cases mine : row.evaluationId = some e
    · rw [if_pos mine] at h
      obtain ⟨id, hid, loaded⟩ := Option.bind_eq_some_iff.mp h
      exact ⟨id, ⟨row, here, hid, mine⟩, loaded⟩
    · rw [if_neg mine] at h
      cases h
  · rintro ⟨id, ⟨row, here, hid, mine⟩, loaded⟩
    exact ⟨row, here, by rw [if_pos mine, hid]; exact loaded⟩

/-- Under integrity every membership row is joined to its user. -/
theorem Consistent.hasRole_iff (h : db.Consistent) {g u : ℕ} {role : JsString} :
    db.HasRole g u role ↔
      ∃ m ∈ db.usersOf g, m.user.id = u ∧ m.groupUser.role = role := by
  constructor
  · rintro ⟨row, here, hg, hu, hr⟩
    obtain ⟨user, found⟩ := Lib.mem_key_iff.mp (h.memberUsers row here u hu)
    exact ⟨⟨user, row⟩, mem_usersOf.mpr ⟨here, hg, u, hu, found⟩,
      (findUser_some found).2, hr⟩
  · rintro ⟨m, hm, rfl, rfl⟩
    obtain ⟨here, hg, u, hu, found⟩ := mem_usersOf.mp hm
    exact ⟨m.groupUser, here, hg, by rw [hu, (findUser_some found).2], rfl⟩

theorem Consistent.hasRole_keys (h : db.Consistent) {g u : ℕ} {role : JsString}
    (has : db.HasRole g u role) :
    (∃ group, db.findGroup g = some group) ∧ ∃ user, db.findUser u = some user := by
  obtain ⟨row, here, hg, hu, -⟩ := has
  exact ⟨Lib.mem_key_iff.mp (h.memberGroups row here g hg),
    Lib.mem_key_iff.mp (h.memberUsers row here u hu)⟩

theorem Consistent.contains_keys (h : db.Consistent) {g e : ℕ} (has : db.Contains g e) :
    (∃ group, db.findGroup g = some group) ∧ ∃ eval, db.findEvaluation e = some eval := by
  obtain ⟨row, here, hg, he⟩ := has
  exact ⟨Lib.mem_key_iff.mp (h.contentGroups row here g hg),
    Lib.mem_key_iff.mp (h.contentEvaluations row here e he)⟩

theorem Consistent.findUser_next (h : db.Consistent) : db.findUser db.nextUser = none :=
  Lib.pick_none_of_fresh h.userKeys.fresh

theorem Consistent.findGroup_next (h : db.Consistent) : db.findGroup db.nextGroup = none :=
  Lib.pick_none_of_fresh h.groupKeys.fresh

theorem Consistent.findEvaluation_next (h : db.Consistent) :
    db.findEvaluation db.nextEvaluation = none :=
  Lib.pick_none_of_fresh h.evaluationKeys.fresh

/-- A user has at most one role in a group. -/
theorem Consistent.role_unique (h : db.Consistent) {g u : ℕ} {role role' : JsString}
    (has : db.HasRole g u role) (has' : db.HasRole g u role') : role = role' := by
  obtain ⟨a, ha, hag, hau, rfl⟩ := has
  obtain ⟨b, hb, hbg, hbu, rfl⟩ := has'
  have joinA : a.joins g u = true := GroupUser.joins_iff.mpr ⟨hag, hau⟩
  have joinB : b.joins g u = true := GroupUser.joins_iff.mpr ⟨hbg, hbu⟩
  by_contra differ
  have distinct : a ≠ b := fun same => differ (same ▸ rfl)
  have sym : Std.Symm fun a b : GroupUser => a.joins g u = true → b.joins g u = false := by
    refine ⟨fun x y apart hy => ?_⟩
    by_contra hx
    have hx : x.joins g u = true := by simpa using hx
    rw [apart hx] at hy
    cases hy
  have apart := (h.once.imp fun hxy => hxy g u).forall ha hb distinct joinA
  rw [joinB] at apart
  cases apart

theorem findUser_insertUser (h : db.Consistent) (user : User) (id : ℕ) :
    (db.insertUser user).findUser id =
      if id = db.nextUser then some { user with id := db.nextUser } else db.findUser id :=
  Lib.pick_append_fresh h.userKeys.fresh

theorem findUser_saveUser (user : User) (id : ℕ) :
    (db.saveUser user).findUser id =
      if id = user.id then (db.findUser id).map fun _ => user else db.findUser id :=
  Lib.pick_save

theorem findUser_destroyUser (d id : ℕ) :
    (db.destroyUser d).findUser id = if id = d then none else db.findUser id :=
  Lib.pick_discard

theorem findGroup_insertGroup (h : db.Consistent) (name : JsString) (isPublic : Bool) (id : ℕ) :
    (db.insertGroup name isPublic).findGroup id =
      if id = db.nextGroup then some ⟨db.nextGroup, name, isPublic⟩ else db.findGroup id :=
  Lib.pick_append_fresh h.groupKeys.fresh

theorem findGroup_saveGroup (group : Group) (id : ℕ) :
    (db.saveGroup group).findGroup id =
      if id = group.id then (db.findGroup id).map fun _ => group else db.findGroup id :=
  Lib.pick_save

theorem findGroup_destroyGroup (d id : ℕ) :
    (db.destroyGroup d).findGroup id = if id = d then none else db.findGroup id :=
  Lib.pick_discard

theorem findEvaluation_insertEvaluation (h : db.Consistent) (filename : JsString) (data : JsVal)
    (isPublic : Bool) (u id : ℕ) :
    (db.insertEvaluation filename data isPublic u).findEvaluation id =
      if id = db.nextEvaluation then
        some ⟨db.nextEvaluation, filename, data, isPublic, some u⟩
      else db.findEvaluation id :=
  Lib.pick_append_fresh h.evaluationKeys.fresh

theorem findEvaluation_saveEvaluation (evaluation : Evaluation) (id : ℕ) :
    (db.saveEvaluation evaluation).findEvaluation id =
      if id = evaluation.id then (db.findEvaluation id).map fun _ => evaluation
      else db.findEvaluation id :=
  Lib.pick_save

theorem findEvaluation_destroyEvaluation (d id : ℕ) :
    (db.destroyEvaluation d).findEvaluation id = if id = d then none else db.findEvaluation id :=
  Lib.pick_discard

/-- Deleting a user empties the uploader column of its evaluations. -/
theorem findEvaluation_destroyUser (d id : ℕ) :
    (db.destroyUser d).findEvaluation id =
      (db.findEvaluation id).map fun row => { row with userId := Lib.clear d row.userId } := by
  simp only [findEvaluation, Lib.pick, destroyUser, List.find?_map]
  rfl

theorem hasRole_destroyUser {d g u : ℕ} {role : JsString} :
    (db.destroyUser d).HasRole g u role ↔ u ≠ d ∧ db.HasRole g u role := by
  simp only [HasRole, destroyUser, List.mem_map]
  constructor
  · rintro ⟨_, ⟨row, here, rfl⟩, hg, hu, hr⟩
    obtain ⟨kept, hu⟩ := Lib.clear_eq_some.mp hu
    exact ⟨kept, row, here, hg, hu, hr⟩
  · rintro ⟨kept, row, here, hg, hu, hr⟩
    exact ⟨_, ⟨row, here, rfl⟩, hg, Lib.clear_eq_some.mpr ⟨kept, hu⟩, hr⟩

theorem hasRole_destroyGroup {d g u : ℕ} {role : JsString} :
    (db.destroyGroup d).HasRole g u role ↔ g ≠ d ∧ db.HasRole g u role := by
  simp only [HasRole, destroyGroup, List.mem_map]
  constructor
  · rintro ⟨_, ⟨row, here, rfl⟩, hg, hu, hr⟩
    obtain ⟨kept, hg⟩ := Lib.clear_eq_some.mp hg
    exact ⟨kept, row, here, hg, hu, hr⟩
  · rintro ⟨kept, row, here, hg, hu, hr⟩
    exact ⟨_, ⟨row, here, rfl⟩, Lib.clear_eq_some.mpr ⟨kept, hg⟩, hu, hr⟩

theorem hasRole_addUser {g u g' u' : ℕ} {role role' : JsString} :
    (db.addUser g u role).HasRole g' u' role' ↔
      (g' = g ∧ u' = u ∧ role' = role) ∨ (¬ (g' = g ∧ u' = u) ∧ db.HasRole g' u' role') := by
  simp only [HasRole, addUser]
  split
  · rename_i present
    constructor
    · rintro ⟨_, here, hg, hu, rfl⟩
      obtain ⟨row, old, rfl⟩ := List.mem_map.mp here
      by_cases mine : row.joins g u = true
      · obtain ⟨rg, ru⟩ := GroupUser.joins_iff.mp mine
        simp only [mine, if_true, rg, ru, Option.some.injEq] at hg hu ⊢
        exact .inl ⟨hg.symm, hu.symm, trivial⟩
      · simp only [mine] at hg hu ⊢
        refine .inr ⟨?_, row, old, hg, hu, rfl⟩
        rintro ⟨rfl, rfl⟩
        exact mine (GroupUser.joins_iff.mpr ⟨hg, hu⟩)
    · rintro (⟨rfl, rfl, rfl⟩ | ⟨other, row, old, hg, hu, rfl⟩)
      · obtain ⟨row, old, mine⟩ := List.any_eq_true.mp present
        obtain ⟨rg, ru⟩ := GroupUser.joins_iff.mp mine
        exact ⟨_, List.mem_map_of_mem old, by simp [mine, rg, ru]⟩
      · have skip : ¬ row.joins g u = true := by
          intro mine
          obtain ⟨rg, ru⟩ := GroupUser.joins_iff.mp mine
          exact other ⟨Option.some.inj (hg.symm.trans rg), Option.some.inj (hu.symm.trans ru)⟩
        exact ⟨_, List.mem_map_of_mem old, by simp [skip, hg, hu]⟩
  · rename_i absent
    constructor
    · rintro ⟨row, here, hg, hu, rfl⟩
      rcases List.mem_append.mp here with old | last
      · refine .inr ⟨?_, row, old, hg, hu, rfl⟩
        rintro ⟨rfl, rfl⟩
        exact absent (List.any_eq_true.mpr ⟨row, old, GroupUser.joins_iff.mpr ⟨hg, hu⟩⟩)
      · rw [List.mem_singleton.mp last] at hg hu ⊢
        exact .inl ⟨(Option.some.inj hg).symm, (Option.some.inj hu).symm, rfl⟩
    · rintro (⟨rfl, rfl, rfl⟩ | ⟨-, row, old, h⟩)
      · exact ⟨_, List.mem_append_right _ (List.mem_singleton_self _), rfl, rfl, rfl⟩
      · exact ⟨row, List.mem_append_left _ old, h⟩

theorem hasRole_removeUser {g u g' u' : ℕ} {role : JsString} :
    (db.removeUser g u).HasRole g' u' role ↔
      ¬ (g' = g ∧ u' = u) ∧ db.HasRole g' u' role := by
  simp only [HasRole, removeUser, List.mem_filter]
  constructor
  · rintro ⟨row, ⟨here, kept⟩, hg, hu, hr⟩
    refine ⟨?_, row, here, hg, hu, hr⟩
    rintro ⟨rfl, rfl⟩
    have joined := GroupUser.joins_iff.mpr ⟨hg, hu⟩
    simp [joined] at kept
  · rintro ⟨other, row, here, hg, hu, hr⟩
    refine ⟨row, ⟨here, ?_⟩, hg, hu, hr⟩
    by_contra mine
    obtain ⟨rg, ru⟩ := GroupUser.joins_iff.mp (by simpa using mine)
    exact other ⟨Option.some.inj (hg.symm.trans rg), Option.some.inj (hu.symm.trans ru)⟩

theorem contains_destroyGroup {d g e : ℕ} :
    (db.destroyGroup d).Contains g e ↔ g ≠ d ∧ db.Contains g e := by
  simp only [Contains, destroyGroup, List.mem_map]
  constructor
  · rintro ⟨_, ⟨row, here, rfl⟩, hg, he⟩
    obtain ⟨kept, hg⟩ := Lib.clear_eq_some.mp hg
    exact ⟨kept, row, here, hg, he⟩
  · rintro ⟨kept, row, here, hg, he⟩
    exact ⟨_, ⟨row, here, rfl⟩, Lib.clear_eq_some.mpr ⟨kept, hg⟩, he⟩

theorem contains_destroyEvaluation {d g e : ℕ} :
    (db.destroyEvaluation d).Contains g e ↔ e ≠ d ∧ db.Contains g e := by
  simp only [Contains, destroyEvaluation, List.mem_map]
  constructor
  · rintro ⟨_, ⟨row, here, rfl⟩, hg, he⟩
    obtain ⟨kept, he⟩ := Lib.clear_eq_some.mp he
    exact ⟨kept, row, here, hg, he⟩
  · rintro ⟨kept, row, here, hg, he⟩
    exact ⟨_, ⟨row, here, rfl⟩, hg, Lib.clear_eq_some.mpr ⟨kept, he⟩⟩

theorem contains_addEvaluation {g e g' e' : ℕ} :
    (db.addEvaluation g e).Contains g' e' ↔ (g' = g ∧ e' = e) ∨ db.Contains g' e' := by
  simp only [Contains, addEvaluation]
  split
  · rename_i present
    obtain ⟨row, here, mine⟩ := List.any_eq_true.mp present
    obtain ⟨hg, he⟩ := GroupEvaluation.joins_iff.mp mine
    constructor
    · exact .inr
    · rintro (⟨rfl, rfl⟩ | old)
      · exact ⟨row, here, hg, he⟩
      · exact old
  · simp only [List.mem_append, List.mem_singleton, or_and_right, exists_or, exists_eq_left,
      Option.some.injEq]
    constructor
    · rintro (old | ⟨rfl, rfl⟩)
      · exact .inr old
      · exact .inl ⟨rfl, rfl⟩
    · rintro (⟨rfl, rfl⟩ | old)
      · exact .inr ⟨rfl, rfl⟩
      · exact .inl old

theorem contains_removeEvaluation {g e g' e' : ℕ} :
    (db.removeEvaluation g e).Contains g' e' ↔ ¬ (g' = g ∧ e' = e) ∧ db.Contains g' e' := by
  simp only [Contains, removeEvaluation, List.mem_filter]
  constructor
  · rintro ⟨row, ⟨here, kept⟩, hg, he⟩
    refine ⟨?_, row, here, hg, he⟩
    rintro ⟨rfl, rfl⟩
    have joined := GroupEvaluation.joins_iff.mpr ⟨hg, he⟩
    simp [joined] at kept
  · rintro ⟨other, row, here, hg, he⟩
    refine ⟨row, ⟨here, ?_⟩, hg, he⟩
    by_contra mine
    obtain ⟨rg, re⟩ := GroupEvaluation.joins_iff.mp (by simpa using mine)
    exact other ⟨Option.some.inj (hg.symm.trans rg), Option.some.inj (he.symm.trans re)⟩

end Tables
end Backend
