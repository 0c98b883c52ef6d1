import Heimdall.Backend.Tables

/-!
# Integrity of the tables

Keys are distinct, references point at existing rows, and a user has one row per group.
Every statement keeps this, so a `Database` is a set of tables for which it holds. The
tables are then read through four relations, and each statement is described by what it
does to them.
-/
namespace Backend
open Js

structure Tables.Consistent (db : Tables) : Prop where
  userKeys : Lib.Keyed User.id db.nextUser db.users
  groupKeys : Lib.Keyed Group.id db.nextGroup db.groups
  evaluationKeys : Lib.Keyed Evaluation.id db.nextEvaluation db.evaluations
  memberGroups : ∀ row ∈ db.groupUsers, Lib.Refers row.groupId (db.groups.map Group.id)
  memberUsers : ∀ row ∈ db.groupUsers, Lib.Refers row.userId (db.users.map User.id)
  contentGroups : ∀ row ∈ db.groupEvaluations, Lib.Refers row.groupId (db.groups.map Group.id)
  contentEvaluations : ∀ row ∈ db.groupEvaluations,
    Lib.Refers row.evaluationId (db.evaluations.map Evaluation.id)
  uploaders : ∀ row ∈ db.evaluations, Lib.Refers row.userId (db.users.map User.id)
  once : db.groupUsers.Pairwise fun a b => ∀ g u, a.joins g u = true → b.joins g u = false

structure Database where
  tables : Tables
  consistent : tables.Consistent

@[simp] theorem GroupUser.joins_iff {row : GroupUser} {g u : ℕ} :
    row.joins g u = true ↔ row.groupId = some g ∧ row.userId = some u := by
  simp [GroupUser.joins]

@[simp] theorem GroupEvaluation.joins_iff {row : GroupEvaluation} {g e : ℕ} :
    row.joins g e = true ↔ row.groupId = some g ∧ row.evaluationId = some e := by
  simp [GroupEvaluation.joins]

/-- Rows that join no more than they did still join no pair twice. -/
theorem once_map {rows : List GroupUser} {f : GroupUser → GroupUser}
    (once : rows.Pairwise fun a b => ∀ g u, a.joins g u = true → b.joins g u = false)
    (fewer : ∀ row g u, (f row).joins g u = true → row.joins g u = true) :
    (rows.map f).Pairwise fun a b => ∀ g u, a.joins g u = true → b.joins g u = false := by
  refine List.pairwise_map.mpr (once.imp fun {a b} apart g u joined => ?_)
  have far := apart g u (fewer a g u joined)
  rw [Bool.eq_false_iff] at far ⊢
  exact fun again => far (fewer b g u again)

theorem Tables.empty_consistent : Tables.empty.Consistent where
  userKeys := ⟨List.nodup_nil, by simp [Tables.empty]⟩
  groupKeys := ⟨List.nodup_nil, by simp [Tables.empty]⟩
  evaluationKeys := ⟨List.nodup_nil, by simp [Tables.empty]⟩
  memberGroups := by simp [Tables.empty]
  memberUsers := by simp [Tables.empty]
  contentGroups := by simp [Tables.empty]
  contentEvaluations := by simp [Tables.empty]
  uploaders := by simp [Tables.empty]
  once := List.Pairwise.nil

namespace Tables.Consistent
variable {db : Tables} (h : db.Consistent)
include h

theorem insertUser (user : User) : (db.insertUser user).Consistent := by
  have more : ∀ k ∈ db.users.map User.id, k ∈ (db.insertUser user).users.map User.id := by
    intro k hk
    rw [Tables.insertUser, List.map_append]
    exact List.mem_append_left _ hk
  exact { h with
    userKeys := h.userKeys.append rfl
    memberUsers := fun row here => (h.memberUsers row here).mono more
    uploaders := fun row here => (h.uploaders row here).mono more }

theorem saveUser (user : User) : (db.saveUser user).Consistent := by
  have same : (db.saveUser user).users.map User.id = db.users.map User.id := Lib.map_key_save
  exact { h with
    userKeys := h.userKeys.save user
    memberUsers := fun row here => same ▸ h.memberUsers row here
    uploaders := fun row here => same ▸ h.uploaders row here }

theorem destroyUser (id : ℕ) : (db.destroyUser id).Consistent := by
  have fewer : (db.destroyUser id).users.map User.id =
      (db.users.map User.id).filter fun k => k ≠ id := Lib.map_key_discard
  refine { h with
    userKeys := h.userKeys.discard id
    evaluationKeys := ?_, memberGroups := ?_, memberUsers := ?_, contentEvaluations := ?_
    uploaders := ?_, once := ?_ }
  · have keys : (db.destroyUser id).evaluations.map Evaluation.id =
        db.evaluations.map Evaluation.id := by simp [Tables.destroyUser, Function.comp_def]
    exact ⟨keys ▸ h.evaluationKeys.nodup, keys ▸ h.evaluationKeys.below⟩
  · intro row here
    obtain ⟨old, hold, rfl⟩ := List.mem_map.mp here
    exact h.memberGroups old hold
  · intro row here
    obtain ⟨old, hold, rfl⟩ := List.mem_map.mp here
    exact fewer ▸ (h.memberUsers old hold).clear id
  · intro row here
    have keys : (db.destroyUser id).evaluations.map Evaluation.id =
        db.evaluations.map Evaluation.id := by simp [Tables.destroyUser, Function.comp_def]
    exact keys ▸ h.contentEvaluations row here
  · intro row here
    obtain ⟨old, hold, rfl⟩ := List.mem_map.mp here
    exact fewer ▸ (h.uploaders old hold).clear id
  · apply once_map h.once
    intro row g u joined
    simp only [GroupUser.joins_iff, Lib.clear_eq_some] at joined ⊢
    tauto

theorem insertGroup (name : JsString) (isPublic : Bool) :
    (db.insertGroup name isPublic).Consistent := by
  have more : ∀ k ∈ db.groups.map Group.id,
      k ∈ (db.insertGroup name isPublic).groups.map Group.id := by
    intro k hk
    rw [Tables.insertGroup, List.map_append]
    exact List.mem_append_left _ hk
  exact { h with
    groupKeys := h.groupKeys.append rfl
    memberGroups := fun row here => (h.memberGroups row here).mono more
    contentGroups := fun row here => (h.contentGroups row here).mono more }

theorem saveGroup (group : Group) : (db.saveGroup group).Consistent := by
  have same : (db.saveGroup group).groups.map Group.id = db.groups.map Group.id :=
    Lib.map_key_save
  exact { h with
    groupKeys := h.groupKeys.save group
    memberGroups := fun row here => same ▸ h.memberGroups row here
    contentGroups := fun row here => same ▸ h.contentGroups row here }

theorem destroyGroup (id : ℕ) : (db.destroyGroup id).Consistent := by
  have fewer : (db.destroyGroup id).groups.map Group.id =
      (db.groups.map Group.id).filter fun k => k ≠ id := Lib.map_key_discard
  refine { h with
    groupKeys := h.groupKeys.discard id
    memberGroups := ?_, memberUsers := ?_, contentGroups := ?_, contentEvaluations := ?_
    once := ?_ }
  · intro row here
    obtain ⟨old, hold, rfl⟩ := List.mem_map.mp here
    exact fewer ▸ (h.memberGroups old hold).clear id
  · intro row here
    obtain ⟨old, hold, rfl⟩ := List.mem_map.mp here
    exact h.memberUsers old hold
  · intro row here
    obtain ⟨old, hold, rfl⟩ := List.mem_map.mp here
    exact fewer ▸ (h.contentGroups old hold).clear id
  · intro row here
    obtain ⟨old, hold, rfl⟩ := List.mem_map.mp here
    exact h.contentEvaluations old hold
  · apply once_map h.once
    intro row g u joined
    simp only [GroupUser.joins_iff, Lib.clear_eq_some] at joined ⊢
    tauto

theorem addUser {g u : ℕ} (group : g ∈ db.groups.map Group.id) (user : u ∈ db.users.map User.id)
    (role : JsString) : (db.addUser g u role).Consistent := by
  by_cases present : (db.groupUsers.any fun row => row.joins g u) = true
  · have rows : (db.addUser g u role).groupUsers =
        db.groupUsers.map fun row => if row.joins g u then { row with role := role } else row :=
      if_pos present
    refine { h with memberGroups := ?_, memberUsers := ?_, once := ?_ }
    · intro row here
      rw [rows] at here
      obtain ⟨old, hold, rfl⟩ := List.mem_map.mp here
      have refers := h.memberGroups old hold
      split <;> exact refers
    · intro row here
      rw [rows] at here
      obtain ⟨old, hold, rfl⟩ := List.mem_map.mp here
      have refers := h.memberUsers old hold
      split <;> exact refers
    · rw [rows]
      apply once_map h.once
      intro row g' u' joined
      split at joined <;> exact joined
  · have rows : (db.addUser g u role).groupUsers =
        db.groupUsers ++ [⟨some g, some u, role⟩] := if_neg present
    refine { h with memberGroups := ?_, memberUsers := ?_, once := ?_ }
    · intro row here
      rw [rows, List.mem_append, List.mem_singleton] at here
      rcases here with old | rfl
      · exact h.memberGroups row old
      · exact fun k hk => Option.some.inj hk ▸ group
    · intro row here
      rw [rows, List.mem_append, List.mem_singleton] at here
      rcases here with old | rfl
      · exact h.memberUsers row old
      · exact fun k hk => Option.some.inj hk ▸ user
    · rw [rows, List.pairwise_append]
      refine ⟨h.once, List.pairwise_singleton _ _, ?_⟩
      intro a ha b hb g' u' joined
      rw [List.mem_singleton.mp hb]
      by_contra clash
      have clash : (⟨some g, some u, role⟩ : GroupUser).joins g' u' = true := by simpa using clash
      obtain ⟨hg, hu⟩ := GroupUser.joins_iff.mp clash
      obtain rfl := Option.some.inj hg
      obtain rfl := Option.some.inj hu
      exact present (List.any_eq_true.mpr ⟨a, ha, joined⟩)

theorem removeUser (g u : ℕ) : (db.removeUser g u).Consistent :=
  { h with
    memberGroups := fun row here => h.memberGroups row (List.mem_of_mem_filter here)
    memberUsers := fun row here => h.memberUsers row (List.mem_of_mem_filter here)
    once := h.once.filter _ }

theorem addEvaluation {g e : ℕ} (group : g ∈ db.groups.map Group.id)
    (evaluation : e ∈ db.evaluations.map Evaluation.id) : (db.addEvaluation g e).Consistent := by
  have rows : ∀ row ∈ (db.addEvaluation g e).groupEvaluations,
      row ∈ db.groupEvaluations ∨ row = ⟨some g, some e⟩ := by
    intro row here
    simp only [Tables.addEvaluation] at here
    split at here
    · exact .inl here
    · simpa using here
  refine { h with contentGroups := ?_, contentEvaluations := ?_ }
  · intro row here
    rcases rows row here with old | rfl
    · exact h.contentGroups row old
    · exact fun k hk => Option.some.inj hk ▸ group
  · intro row here
    rcases rows row here with old | rfl
    · exact h.contentEvaluations row old
    · exact fun k hk => Option.some.inj hk ▸ evaluation

theorem removeEvaluation (g e : ℕ) : (db.removeEvaluation g e).Consistent :=
  { h with
    contentGroups := fun row here => h.contentGroups row (List.mem_of_mem_filter here)
    contentEvaluations := fun row here =>
      h.contentEvaluations row (List.mem_of_mem_filter here) }

theorem insertEvaluation (filename : JsString) (data : JsVal) (isPublic : Bool) {u : ℕ}
    (user : u ∈ db.users.map User.id) :
    (db.insertEvaluation filename data isPublic u).Consistent := by
  refine { h with
    evaluationKeys := h.evaluationKeys.append rfl
    contentEvaluations := ?_, uploaders := ?_ }
  · intro row here
    apply (h.contentEvaluations row here).mono
    intro k hk
    rw [Tables.insertEvaluation, List.map_append]
    exact List.mem_append_left _ hk
  · intro row here
    rcases List.mem_append.mp here with old | last
    · exact h.uploaders row old
    · rw [List.mem_singleton.mp last]
      exact fun k hk => Option.some.inj hk ▸ user

theorem saveEvaluation {evaluation : Evaluation}
    (uploader : Lib.Refers evaluation.userId (db.users.map User.id)) :
    (db.saveEvaluation evaluation).Consistent := by
  have same : (db.saveEvaluation evaluation).evaluations.map Evaluation.id =
      db.evaluations.map Evaluation.id := Lib.map_key_save
  refine { h with
    evaluationKeys := h.evaluationKeys.save evaluation
    contentEvaluations := fun row here => same ▸ h.contentEvaluations row here
    uploaders := ?_ }
  intro row here
  obtain ⟨old, hold, rfl⟩ := List.mem_map.mp here
  have refers := h.uploaders old hold
  split
  · exact uploader
  · exact refers

theorem destroyEvaluation (id : ℕ) : (db.destroyEvaluation id).Consistent := by
  have fewer : (db.destroyEvaluation id).evaluations.map Evaluation.id =
      (db.evaluations.map Evaluation.id).filter fun k => k ≠ id := Lib.map_key_discard
  refine { h with
    evaluationKeys := h.evaluationKeys.discard id
    contentGroups := ?_, contentEvaluations := ?_, uploaders := ?_ }
  · intro row here
    obtain ⟨old, hold, rfl⟩ := List.mem_map.mp here
    exact h.contentGroups old hold
  · intro row here
    obtain ⟨old, hold, rfl⟩ := List.mem_map.mp here
    exact fewer ▸ (h.contentEvaluations old hold).clear id
  · exact fun row here => h.uploaders row (List.mem_of_mem_filter here)

end Tables.Consistent
end Backend
