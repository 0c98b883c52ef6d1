import Mathlib.Data.List.Induction
import Mathlib.Data.List.Nodup
import Mathlib.Data.List.Perm.Subperm

/-!
# Selections

A holding keeps keys and remembers some of them as selected. The selection is sound when it
has no duplicates and holds loaded keys only; each operation is described by the exact
condition under which it keeps a sound selection sound.
-/
namespace Lib

section Distinct
variable {κ : Type*} [DecidableEq κ]

/-- The keys without repetitions, each at its first place. -/
def distinct (ks : List κ) : List κ := ks.eraseDups

theorem mem_distinct {ks : List κ} {k : κ} : k ∈ distinct ks ↔ k ∈ ks := List.mem_eraseDups

theorem nodup_distinct (ks : List κ) : (distinct ks).Nodup := by
  unfold distinct
  induction ks using List.reverseRecOn with
  | nil => simp
  | append_singleton ks k ih =>
      rw [List.eraseDups_append, List.nodup_append]
      refine ⟨ih, ?_, ?_⟩
      · by_cases known : k ∈ ks
        · simp [List.removeAll, known]
        · simp [List.removeAll, known, List.eraseDups_cons]
      · rintro a old b new rfl
        rw [List.mem_eraseDups] at old new
        simp [List.removeAll, old] at new

omit [DecidableEq κ] in
theorem singleton_subset {k : κ} {ks : List κ} : [k] ⊆ ks ↔ k ∈ ks := by simp

end Distinct

structure Holding (κ : Type*) where
  loaded : List κ
  selected : List κ

namespace Holding
variable {κ : Type*}

/-- The selection is a part of what is loaded, without duplicates. -/
structure Sound (sh : Holding κ) : Prop where
  nodup : sh.selected.Nodup
  loaded : sh.selected ⊆ sh.loaded

/-- Everything is selected, as the numbers of keys tell. -/
def Full (sh : Holding κ) : Prop :=
  sh.selected.length ≠ 0 ∧ sh.selected.length = sh.loaded.length

instance (sh : Holding κ) : Decidable sh.Full := inferInstanceAs (Decidable (_ ∧ _))

/-- For a sound selection the numbers tell the truth. -/
theorem Sound.full_iff {sh : Holding κ} (sound : sh.Sound) (distinct : sh.loaded.Nodup) :
    sh.Full ↔ sh.loaded ≠ [] ∧ ∀ k ∈ sh.loaded, k ∈ sh.selected := by
  have below := List.subperm_of_subset sound.nodup sound.loaded
  constructor
  · rintro ⟨some_key, same⟩
    have perm := below.perm_of_length_le (Nat.le_of_eq same.symm)
    refine ⟨fun none => some_key (by rw [same, none, List.length_nil]), fun k inside => ?_⟩
    exact perm.mem_iff.mpr inside
  · rintro ⟨some_key, all⟩
    have perm := below.antisymm (List.subperm_of_subset distinct all)
    refine ⟨fun none => some_key ?_, perm.length_eq⟩
    exact List.length_eq_zero_iff.mp (perm.length_eq.symm.trans none)

inductive Act (κ : Type*) where
  /-- A key comes in. -/
  | add (k : κ)
  /-- A key comes in and is toggled. -/
  | load (k : κ)
  | remove (k : κ)
  /-- All keys leave; the selection is not touched. -/
  | empty
  | select (ks : List κ)
  | clear (k : κ)
  | clearAll
  | toggle (k : κ)
  | exclusive (k : κ)
  | toggleAll
  | idle

variable [DecidableEq κ]

def select (sh : Holding κ) (ks : List κ) : Holding κ :=
  { sh with selected := distinct (ks ++ sh.selected) }

def clear (sh : Holding κ) (k : κ) : Holding κ :=
  { sh with selected := sh.selected.filter fun l => l ≠ k }

def toggle (sh : Holding κ) (k : κ) : Holding κ :=
  if k ∈ sh.selected then sh.clear k else sh.select [k]

def act (sh : Holding κ) : Act κ → Holding κ
  | .add k => { sh with loaded := sh.loaded ++ [k] }
  | .load k => ({ sh with loaded := sh.loaded ++ [k] } : Holding κ).toggle k
  | .remove k => { sh.clear k with loaded := sh.loaded.filter fun l => l ≠ k }
  | .empty => { sh with loaded := [] }
  | .select ks => sh.select ks
  | .clear k => sh.clear k
  | .clearAll => { sh with selected := [] }
  | .toggle k => sh.toggle k
  | .exclusive k => ({ sh with selected := [] } : Holding κ).select [k]
  | .toggleAll => if sh.Full then { sh with selected := [] } else sh.select sh.loaded
  | .idle => sh

/-- Only loaded keys are selected, and the keys leave only when none is selected. -/
def Within (sh : Holding κ) : Act κ → Prop
  | .select ks => ks ⊆ sh.loaded
  | .toggle k | .exclusive k => k ∈ sh.loaded
  | .empty => sh.selected = []
  | _ => True

/-- A key that comes in is not there yet. -/
def New (sh : Holding κ) : Act κ → Prop
  | .add k | .load k => k ∉ sh.loaded
  | _ => True

section Steps
variable {sh : Holding κ} (sound : sh.Sound)
include sound

theorem Sound.select_iff {ks : List κ} : (sh.select ks).Sound ↔ ks ⊆ sh.loaded := by
  constructor
  · intro kept k inside
    exact kept.loaded (mem_distinct.mpr (List.mem_append_left _ inside))
  · intro within
    refine ⟨nodup_distinct _, fun k inside => ?_⟩
    rcases List.mem_append.mp (mem_distinct.mp inside) with new | old
    · exact within new
    · exact sound.loaded old

theorem Sound.clear (k : κ) : (sh.clear k).Sound :=
  ⟨sound.nodup.filter _, fun _ inside => sound.loaded (List.mem_filter.mp inside).1⟩

theorem Sound.toggle_iff {k : κ} : (sh.toggle k).Sound ↔ k ∈ sh.loaded := by
  unfold toggle
  by_cases chosen : k ∈ sh.selected
  · rw [if_pos chosen]
    exact iff_of_true (sound.clear k) (sound.loaded chosen)
  · rw [if_neg chosen, sound.select_iff, singleton_subset]

omit sound [DecidableEq κ] in
theorem sound_nil (loaded : List κ) : (⟨loaded, []⟩ : Holding κ).Sound :=
  ⟨List.nodup_nil, List.nil_subset _⟩

omit [DecidableEq κ] in
theorem Sound.add (k : κ) : ({ sh with loaded := sh.loaded ++ [k] } : Holding κ).Sound :=
  ⟨sound.nodup, fun _ inside => List.mem_append_left _ (sound.loaded inside)⟩

/-- Exactly the operations within the holding keep a sound selection sound. -/
theorem Sound.act_iff (a : Act κ) : (sh.act a).Sound ↔ sh.Within a := by
  cases a with
  | add k => exact iff_of_true (sound.add k) trivial
  | load k =>
      exact iff_of_true ((sound.add k).toggle_iff.mpr List.mem_concat_self) trivial
  | remove k =>
      refine iff_of_true ⟨(sound.clear k).nodup, fun l inside => ?_⟩ trivial
      obtain ⟨chosen, other⟩ := List.mem_filter.mp inside
      exact List.mem_filter.mpr ⟨sound.loaded chosen, other⟩
  | empty =>
      constructor
      · intro kept
        exact List.eq_nil_iff_forall_not_mem.mpr fun k inside => by cases kept.loaded inside
      · intro none
        have empty : sh.selected ⊆ [] := none ▸ List.Subset.refl _
        exact ⟨sound.nodup, empty⟩
  | select ks => exact sound.select_iff
  | clear k => exact iff_of_true (sound.clear k) trivial
  | clearAll => exact iff_of_true (sound_nil _) trivial
  | toggle k => exact sound.toggle_iff
  | exclusive k => exact (sound_nil sh.loaded).select_iff.trans singleton_subset
  | toggleAll =>
      refine iff_of_true ?_ trivial
      rw [act]
      split
      · exact sound_nil _
      · exact sound.select_iff.mpr (List.Subset.refl _)
  | idle => exact iff_of_true sound trivial

omit sound in
theorem nodup_act (distinct : sh.loaded.Nodup) {a : Act κ} (new : sh.New a) :
    (sh.act a).loaded.Nodup := by
  have joined : ∀ k ∉ sh.loaded, (sh.loaded ++ [k]).Nodup := fun k absent =>
    List.nodup_append.mpr ⟨distinct, List.nodup_singleton k, by
      rintro a inside b last rfl
      exact absent (List.mem_singleton.mp last ▸ inside)⟩
  cases a with
  | add k => exact joined k new
  | load k =>
      rw [act, toggle]
      split
      · exact joined k new
      · exact joined k new
  | remove k => exact distinct.filter _
  | empty => exact List.nodup_nil
  | toggle k =>
      rw [act, toggle]
      split <;> exact distinct
  | toggleAll =>
      rw [act]
      split <;> exact distinct
  | select | clear | clearAll | exclusive | idle => exact distinct

end Steps
end Holding
end Lib
