import Heimdall.Js.Arrays
import Heimdall.Js.Text
import Heimdall.Lib.Run
import Heimdall.Inspec.Context

/-!
# The lists of groups

The store keeps all groups and those of the user in two lists, which two requests fill. A group
of the user is two objects then, one for each list.
-/
namespace Frontend
open Js Inspec

/-- What the store and the dialogs read of a group. -/
structure IGroup where
  id : JsString
  name : JsString

/-- The groups that exist as objects, by their identity, and those in the two lists. -/
structure GroupStore where
  objects : List IGroup
  allGroups : List Ref
  myGroups : List Ref

namespace GroupStore

def idOf (s : GroupStore) (group : Ref) : Option JsString := s.objects[group]?.map (·.id)

/-- The object is in neither list, be it an answer or a copy that a dialog works on. -/
def object (s : GroupStore) (group : IGroup) : GroupStore :=
  { s with objects := s.objects ++ [group] }

/-- `Object.assign(target, source)` -/
def assign (s : GroupStore) (target source : Ref) : GroupStore :=
  match s.objects[source]? with
  | some group => { s with objects := s.objects.set target group }
  | none => s

def SET_ALL_GROUPS (s : GroupStore) (groups : List Ref) : GroupStore :=
  { s with allGroups := groups }

def SET_MY_GROUPS (s : GroupStore) (groups : List Ref) : GroupStore :=
  { s with myGroups := groups }

def ADD_TO_MY_GROUPS (s : GroupStore) (added : Ref) : GroupStore :=
  { s with myGroups := s.myGroups ++ [added] }

def UPDATE_MY_GROUPS (s : GroupStore) (idx : ℕ) (updated : Ref) : GroupStore :=
  match s.myGroups[idx]? with
  | some group => s.assign group updated
  | none => s

def DELETE_FROM_MY_GROUPS (s : GroupStore) (group : Ref) : GroupStore :=
  { s with myGroups := splice s.myGroups (indexOf s.myGroups group) 1 [] }

def ADD_TO_ALL_GROUPS (s : GroupStore) (added : Ref) : GroupStore :=
  { s with allGroups := s.allGroups ++ [added] }

def UPDATE_ALL_GROUPS (s : GroupStore) (idx : ℕ) (updated : Ref) : GroupStore :=
  match s.allGroups[idx]? with
  | some group => s.assign group updated
  | none => s

def DELETE_FROM_ALL_GROUPS (s : GroupStore) (group : Ref) : GroupStore :=
  { s with allGroups := splice s.allGroups (indexOf s.allGroups group) 1 [] }

def updateMyGroups (s : GroupStore) (group : Ref) : GroupStore :=
  match s.myGroups.findIdx? fun g => s.idOf g = s.idOf group with
  | some myGroupId => s.UPDATE_MY_GROUPS myGroupId group
  | none => s.ADD_TO_MY_GROUPS group

def updateAllGroups (s : GroupStore) (group : Ref) : GroupStore :=
  match s.allGroups.findIdx? fun g => s.idOf g = s.idOf group with
  | some allGroupsId => s.UPDATE_ALL_GROUPS allGroupsId group
  | none => s.ADD_TO_ALL_GROUPS group

def UpdateGroup (s : GroupStore) (group : Ref) : GroupStore :=
  (s.updateMyGroups group).updateAllGroups group

/-- The part of `DeleteGroup` that runs once the server has deleted the group. -/
def DeleteGroup (s : GroupStore) (group : Ref) : GroupStore :=
  (s.DELETE_FROM_ALL_GROUPS group).DELETE_FROM_MY_GROUPS group

inductive Action where
  /-- A component makes an object of its own. -/
  | object (group : IGroup)
  | fetchAllGroups (data : List IGroup)
  | fetchMyGroups (data : List IGroup)
  | getGroupById (data : IGroup)
  | updateGroup (group : Ref)
  | deleteGroup (group : Ref) (ok : Bool)

/-- What an answer of the server does to the store. -/
def step (s : GroupStore) : Action → GroupStore
  | .object group => s.object group
  | .fetchAllGroups data =>
      { s with objects := s.objects ++ data }.SET_ALL_GROUPS
        (List.range' s.objects.length data.length)
  | .fetchMyGroups data =>
      { s with objects := s.objects ++ data }.SET_MY_GROUPS
        (List.range' s.objects.length data.length)
  | .getGroupById data => (s.object data).UpdateGroup s.objects.length
  | .updateGroup group => s.UpdateGroup group
  | .deleteGroup group ok => if ok then s.DeleteGroup group else s

/-- The lists as the application starts. -/
def empty : GroupStore := ⟨[], [], []⟩

/-- The deletion takes the entries with the id of the group from both lists, where the server
has accepted it. -/
def Deletes (s : GroupStore) : Action → Prop
  | .deleteGroup group true =>
      (s.step (.deleteGroup group true)).allGroups =
          Lib.without s.idOf (s.idOf group) s.allGroups ∧
        (s.step (.deleteGroup group true)).myGroups =
          Lib.without s.idOf (s.idOf group) s.myGroups
  | _ => True

/-- In each list the group has one entry, found by identity or the last, or the list is empty. -/
def Deletable (s : GroupStore) : Action → Prop
  | .deleteGroup group true =>
      Removable s.idOf s.allGroups group ∧ Removable s.idOf s.myGroups group
  | _ => True

theorem deletes_iff (s : GroupStore) (action : Action) :
    s.Deletes action ↔ s.Deletable action := by
  cases action with
  | object | fetchAllGroups | fetchMyGroups | getGroupById | updateGroup => exact Iff.rfl
  | deleteGroup group ok =>
      cases ok with
      | true =>
          exact and_congr (splice_indexOf_eq_without_iff s.idOf)
            (splice_indexOf_eq_without_iff s.idOf)
      | false => exact Iff.rfl

/-- In every run, the deletions do what they should exactly when each finds its group in both
lists. -/
theorem group_deletions_iff (s : GroupStore) (actions : List Action) :
    Lib.Along step Deletes s actions ↔ Lib.Along step Deletable s actions :=
  Lib.along_congr deletes_iff s actions

section Samples

def sampleGroup (id : String) : IGroup := ⟨js id, js "group"⟩

/-- The group is deleted from the table of the user's groups, and the list of all groups loses
its last one. -/
theorem group_deletions_fail :
    ¬ Lib.Along step Deletes empty
      [.fetchAllGroups [sampleGroup "1", sampleGroup "2"], .fetchMyGroups [sampleGroup "1"],
       .deleteGroup 2 true] := by
  rintro ⟨-, -, ⟨removed, -⟩, -⟩
  have lists : ([0] : List Ref) = [1] := removed
  exact absurd lists (by decide)

end Samples
end GroupStore
end Frontend
