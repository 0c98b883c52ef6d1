import Mathlib.Data.List.Nodup
import Mathlib.Data.List.Perm.Subperm
import Heimdall.Js.Arrays
import Heimdall.Js.Text
import Heimdall.Lib.Run

/-!
# The expanded rows of the control table

The table keeps the keys of its expanded rows. A filter replaces the rows and leaves the keys as
they are, and the switch for all rows compares nothing but two lengths.
-/
namespace Frontend
open Js Lib

/-- The keys of the listed items, those that are expanded, and the switch for single rows. -/
structure Expansion where
  items : List JsString
  expanded : List JsString
  singleExpand : Bool

namespace Expansion

/-- What the switch for all rows shows. -/
def expandAll (s : Expansion) : Bool := s.expanded.length == s.items.length

def setExpandAll (s : Expansion) (value : Bool) : Expansion :=
  if value then { s with singleExpand := false, expanded := s.items }
  else { s with expanded := [] }

/-- Closes all open controls when single-expand is re-enabled -/
def handleToggleSingleExpand (s : Expansion) (singleExpand : Bool) : Expansion :=
  if singleExpand then s.setExpandAll false else s

/-- Toggles the given expansion of a control details panel -/
def toggle (s : Expansion) (key : JsString) : Expansion :=
  if s.singleExpand then
    { s with expanded := if key ∈ s.expanded then [] else [key] }
  else if indexOf s.expanded key < 0 then { s with expanded := s.expanded ++ [key] }
  else { s with expanded := splice s.expanded (indexOf s.expanded key) 1 [] }

inductive Action where
  /-- A click on the header of a row. -/
  | toggle (row : ℕ)
  | expandAll (value : Bool)
  | singleExpand (value : Bool)
  /-- The filter has changed, and these are the items now. -/
  | filter (items : List JsString)

def step (s : Expansion) : Action → Expansion
  | .toggle row =>
      match s.items[row]? with
      | some key => s.toggle key
      | none => s
  | .expandAll value => s.setExpandAll value
  | .singleExpand value => { s with singleExpand := value }.handleToggleSingleExpand value
  | .filter items => { s with items }

def created : Expansion := ⟨[], [], true⟩

/-- The switch for all rows shows whether every row is expanded, and the one for single rows
keeps the others closed. -/
structure Shows (s : Expansion) : Prop where
  all : s.items ≠ [] → (s.expandAll = true ↔ ∀ key ∈ s.items, key ∈ s.expanded)
  single : s.singleExpand = true → s.expanded.length ≤ 1

/-- The expanded keys are those of different rows of the table, unless it has none. -/
structure Listed (s : Expansion) : Prop where
  distinct : s.expanded.Nodup
  rows : s.items = [] ∨ s.items.Nodup ∧ s.expanded ⊆ s.items
  single : s.singleExpand = true → s.expanded.length ≤ 1

/-- A filter leaves no row, or rows with different keys, those that are expanded among them. -/
def Keeps (s : Expansion) : Action → Prop
  | .filter items => items = [] ∨ items.Nodup ∧ s.expanded ⊆ items
  | _ => True

section Step
variable {s : Expansion} {key : JsString}

theorem toggle_cases (s : Expansion) (key : JsString) :
    (s.toggle key = { s with expanded := [] } ∨ s.toggle key = { s with expanded := [key] }) ∨
      s.singleExpand = false ∧
        ((∃ before after, s.expanded = before ++ key :: after ∧
            s.toggle key = { s with expanded := before ++ after }) ∨
          key ∉ s.expanded ∧ s.toggle key = { s with expanded := s.expanded ++ [key] }) := by
  unfold toggle
  by_cases single : s.singleExpand = true
  · rw [if_pos single]
    left
    by_cases inside : key ∈ s.expanded
    · exact .inl (by rw [if_pos inside])
    · exact .inr (by rw [if_neg inside])
  · rw [if_neg single]
    refine .inr ⟨Bool.eq_false_iff.mpr single, ?_⟩
    by_cases inside : key ∈ s.expanded
    · have found : ¬ indexOf s.expanded key < 0 := fun neg => indexOf_neg_iff.mp neg inside
      obtain ⟨before, after, shape, -, left⟩ := splice_indexOf_of_mem inside
      rw [if_neg found, left]
      exact .inl ⟨before, after, shape, rfl⟩
    · rw [if_pos (indexOf_neg_iff.mpr inside)]
      exact .inr ⟨inside, rfl⟩

/-- At most one row is expanded while the switch for single rows is on. -/
def Single (s : Expansion) : Prop := s.singleExpand = true → s.expanded.length ≤ 1

theorem single_toggle (s : Expansion) (key : JsString) : (s.toggle key).Single := by
  rcases toggle_cases s key with (toggled | toggled) |
    ⟨many, ⟨before, after, -, toggled⟩ | ⟨-, toggled⟩⟩
  · rw [toggled]
    exact fun _ => Nat.zero_le 1
  · rw [toggled]
    exact fun _ => Nat.le_refl 1
  · rw [toggled]
    exact fun single => absurd (many.symm.trans single) (by decide)
  · rw [toggled]
    exact fun single => absurd (many.symm.trans single) (by decide)

theorem Single.step (single : s.Single) (action : Action) : (s.step action).Single := by
  cases action with
  | toggle row =>
      cases found : s.items[row]? with
      | none => simpa only [Expansion.step, found] using single
      | some key => simpa only [Expansion.step, found] using single_toggle s key
  | expandAll value =>
      cases value with
      | true => exact fun on => absurd on Bool.false_ne_true
      | false => exact fun _ => Nat.zero_le 1
  | singleExpand value =>
      cases value with
      | true => exact fun _ => Nat.zero_le 1
      | false => exact fun on => absurd on Bool.false_ne_true
  | filter items => exact single

theorem Listed.closed {items : List JsString} {singleExpand : Bool}
    (rows : items = [] ∨ items.Nodup) : Listed ⟨items, [], singleExpand⟩ :=
  ⟨List.nodup_nil, rows.imp_right fun distinct => ⟨distinct, List.nil_subset _⟩,
    fun _ => Nat.zero_le 1⟩

theorem Listed.items (listed : s.Listed) : s.items = [] ∨ s.items.Nodup :=
  listed.rows.imp_right And.left

theorem Listed.toggle (listed : s.Listed) (row : key ∈ s.items) : (s.toggle key).Listed := by
  obtain none | ⟨distinct, inside⟩ := listed.rows
  · rw [none] at row
    cases row
  have single := single_toggle s key
  rcases toggle_cases s key with (toggled | toggled) |
    ⟨-, ⟨before, after, shape, toggled⟩ | ⟨missing, toggled⟩⟩
  · rw [toggled]
    exact Listed.closed (.inr distinct)
  · rw [toggled] at single ⊢
    exact ⟨List.nodup_singleton key, .inr ⟨distinct, by simpa using row⟩, single⟩
  · rw [toggled] at single ⊢
    have less : (before ++ after).Sublist s.expanded := by
      rw [shape]
      exact (List.Sublist.refl before).append (List.sublist_cons_self key after)
    exact ⟨less.nodup listed.distinct,
      .inr ⟨distinct, List.Subset.trans less.subset inside⟩, single⟩
  · rw [toggled] at single ⊢
    exact ⟨List.concat_eq_append ▸ listed.distinct.concat missing,
      .inr ⟨distinct, List.append_subset.mpr ⟨inside, by simpa using row⟩⟩, single⟩

theorem Listed.setExpandAll (listed : s.Listed) (value : Bool) : (s.setExpandAll value).Listed := by
  cases value with
  | true =>
      obtain none | distinct := listed.items
      · exact ⟨by simp [Expansion.setExpandAll, none], .inl none, nofun⟩
      · exact ⟨distinct, .inr ⟨distinct, List.Subset.refl _⟩, nofun⟩
  | false => exact Listed.closed listed.items

theorem listed_step {action : Action} (listed : s.Listed) (keeps : s.Keeps action) :
    (s.step action).Listed := by
  cases action with
  | toggle row =>
      cases found : s.items[row]? with
      | none => simpa only [step, found] using listed
      | some key =>
          have toggled := listed.toggle (List.mem_of_getElem? found)
          simpa only [step, found] using toggled
  | expandAll value => exact listed.setExpandAll value
  | singleExpand value =>
      cases value with
      | true => exact Listed.closed listed.items
      | false => exact ⟨listed.distinct, listed.rows, nofun⟩
  | filter items => exact ⟨listed.distinct, keeps, listed.single⟩

theorem Listed.shows (listed : s.Listed) : s.Shows := by
  refine ⟨fun some => ?_, listed.single⟩
  obtain none | ⟨distinct, inside⟩ := listed.rows
  · exact absurd none some
  have fewer : s.expanded.Subperm s.items := List.subperm_of_subset listed.distinct inside
  rw [expandAll, beq_iff_eq]
  constructor
  · intro same key row
    exact (fewer.perm_of_length_le (Nat.le_of_eq same.symm)).mem_iff.mpr row
  · intro every
    exact Nat.le_antisymm fewer.length_le (List.subperm_of_subset distinct every).length_le

end Step

/-- In every run, whatever the filters leave, at most one row is expanded while the switch for
single rows is on. -/
theorem single_throughout (actions : List Action) :
    Lib.Throughout step Single created actions :=
  Throughout.of_invariant (D := fun _ _ => True) (fun _ action single _ => single.step action)
    (fun _ => id) (fun _ => Nat.zero_le 1) (along_of_step (fun _ _ => trivial) created actions)

/-- In every run, the table shows what is expanded in every state, when each filter leaves rows
with different keys and drops none that is expanded. -/
theorem shows_throughout (actions : List Action) (keeps : Lib.Along step Keeps created actions) :
    Lib.Throughout step Shows created actions :=
  Throughout.of_invariant (A := Listed) (fun _ _ => listed_step) (fun _ => Listed.shows)
    (Listed.closed (.inl rfl)) keeps

section Exact
variable {s : Expansion}

def Action.OfUser : Action → Prop
  | .filter _ => False
  | _ => True

/-- What the user does, the table shows what is expanded. -/
def ShowsUser (s : Expansion) : Prop :=
  ∀ actions : List Action, (∀ action ∈ actions, action.OfUser) → Lib.Throughout step Shows s actions

theorem Listed.showsUser (listed : s.Listed) : s.ShowsUser := by
  intro actions user
  have keeps : Lib.Along step Keeps s actions := by
    refine Along.imp (along_of_step (fun t action => ?_) s actions)
      ((along_const (P := Action.OfUser) s actions).mpr user)
    cases action with
    | toggle | expandAll | singleExpand => exact fun _ => trivial
    | filter => exact False.elim
  exact Throughout.of_invariant (A := Listed) (fun _ _ => listed_step) (fun _ => Listed.shows)
    listed keeps

theorem exists_open (keys : List JsString) (rows : keys ⊆ s.items) (many : s.singleExpand = false)
    (distinct : s.expanded.Nodup) : ∃ actions more, (∀ action ∈ actions, action.OfUser) ∧
      Lib.run step s actions = { s with expanded := s.expanded ++ more } ∧
      (s.expanded ++ more).Nodup ∧ more ⊆ s.items ∧ keys ⊆ s.expanded ++ more := by
  induction keys generalizing s with
  | nil =>
      refine ⟨[], [], nofun, ?_, ?_, List.nil_subset _, List.nil_subset _⟩
      · rw [List.append_nil]
        rfl
      · simpa using distinct
  | cons key keys ih =>
      obtain ⟨row, others⟩ := List.cons_subset.mp rows
      by_cases inside : key ∈ s.expanded
      · obtain ⟨actions, more, user, last, nodup, listed, opened⟩ := ih others many distinct
        exact ⟨actions, more, user, last, nodup, listed,
          List.cons_subset.mpr ⟨List.mem_append_left _ inside, opened⟩⟩
      · obtain ⟨place, found⟩ := List.mem_iff_getElem?.mp row
        have toggled : s.step (.toggle place) = { s with expanded := s.expanded ++ [key] } := by
          simp only [step, found]
          rw [toggle, many, if_neg (by decide), if_pos (indexOf_neg_iff.mpr inside)]
        have nodup : (s.expanded ++ [key]).Nodup :=
          List.concat_eq_append ▸ distinct.concat inside
        obtain ⟨actions, more, user, last, nodup, listed, opened⟩ :=
          ih (s := { s with expanded := s.expanded ++ [key] }) others many nodup
        simp only [List.append_assoc, List.singleton_append] at last nodup opened
        refine ⟨.toggle place :: actions, key :: more, ?_, ?_, nodup,
          List.cons_subset.mpr ⟨row, listed⟩, List.cons_subset.mpr ⟨by simp, opened⟩⟩
        · exact List.forall_mem_cons.mpr ⟨trivial, user⟩
        · rw [Lib.run, List.foldl_cons, toggled]
          exact last

theorem ShowsUser.length_eq (shows : s.ShowsUser) (some : s.items ≠ [])
    (many : s.singleExpand = false) (distinct : s.expanded.Nodup) : ∃ more,
      (s.expanded ++ more).Nodup ∧ more ⊆ s.items ∧ s.items ⊆ s.expanded ++ more ∧
        (s.expanded ++ more).length = s.items.length := by
  obtain ⟨actions, more, user, last, nodup, listed, opened⟩ :=
    exists_open s.items (List.Subset.refl _) many distinct
  have shown := (shows actions user).last
  rw [last] at shown
  have every := (shown.all some).mpr fun key row => opened row
  rw [expandAll, beq_iff_eq] at every
  exact ⟨more, nodup, listed, opened, every⟩

/-- The condition on a filter is exact: where it fails, the user can bring the table to show what
is not so. -/
theorem showsUser_filter_iff (listed : s.Listed) (items : List JsString) :
    (s.step (.filter items)).ShowsUser ↔ s.Keeps (.filter items) := by
  constructor
  · intro shows
    by_cases some : items = []
    · exact .inl some
    have closed : Expansion.ShowsUser ⟨items, [], false⟩ := fun actions user =>
      (shows (.expandAll false :: .singleExpand false :: actions)
        (List.forall_mem_cons.mpr ⟨trivial, List.forall_mem_cons.mpr ⟨trivial, user⟩⟩)).2.2
    obtain ⟨rows, nodup, inside, -, same⟩ := closed.length_eq some rfl List.nodup_nil
    have fewer := List.subperm_of_subset nodup inside
    have distinct : items.Nodup :=
      (fewer.perm_of_length_le (Nat.le_of_eq same.symm)).nodup_iff.mp nodup
    have kept : Expansion.ShowsUser ⟨items, s.expanded, false⟩ := fun actions user =>
      (shows (.singleExpand false :: actions) (List.forall_mem_cons.mpr ⟨trivial, user⟩)).2
    obtain ⟨more, -, -, opened, same⟩ := kept.length_eq some rfl listed.distinct
    have order := (List.subperm_of_subset distinct opened).perm_of_length_le (Nat.le_of_eq same)
    exact .inr ⟨distinct, fun key expanded =>
      order.mem_iff.mpr (List.mem_append_left _ expanded)⟩
  · exact fun keeps => (listed_step listed keeps).showsUser

end Exact

section Samples

/-- Both rows are opened, one by one, and the filter leaves them. -/
theorem shows_throughout_sample : Lib.Throughout step Shows created
    [.filter [js "a", js "b"], .singleExpand false, .toggle 0, .toggle 1,
     .filter [js "b", js "a"]] := by
  refine shows_throughout _ ⟨.inr ⟨by decide, ?_⟩, trivial, trivial, trivial, .inr ⟨by decide, ?_⟩,
    trivial⟩
  · exact List.nil_subset _
  · decide

/-- The expanded row is filtered out, and the switch for all rows goes on for the one that is
listed now, which is closed. -/
theorem not_shows_throughout : ¬ Lib.Throughout step Shows created
    [.filter [js "a"], .toggle 0, .filter [js "b"]] := by
  intro throughout
  have shown := throughout.last.all (by decide)
  exact absurd (shown.mp (by decide)) (by decide)

end Samples
end Expansion
end Frontend
