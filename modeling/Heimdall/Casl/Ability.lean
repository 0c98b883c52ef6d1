import Mathlib.Data.List.Induction
import Heimdall.Js.Value

/-!
# Abilities: ordered permission rules with queries on documents

The rule semantics of the `@casl/ability` package with its Mongo-style conditions. A
rule covers actions on a subject type and may carry a query on the subject's fields; of
the rules that cover a request and match its subject the last one defined decides. A
path through an array collects the values of its items, so a plain comparison holds if
some item satisfies it, while `elemMatch` asks one item to satisfy a whole query.
-/
namespace Casl
open Js

/-- What one item adds to the values collected over an array. -/
def spread : JsVal → List JsVal
  | .undefined => []
  | .arr vs => vs
  | w => [w]

/-- One step of a path; on an array it is taken on every item, and lists are flattened. -/
def getField (v : JsVal) (field : JsString) : JsVal :=
  match v with
  | .arr items => .arr (items.flatMap fun item => spread (item.get field))
  | w => w.get field

def walk : JsVal → List JsString → JsVal
  | v, [] => v
  | v, field :: path => match getField v field with
      | .arr items => walk (.arr items) path
      | .obj props proto => walk (.obj props proto) path
      | w => w

/-- The value at a dotted path such as `groups.users.id`; field names are no numerals. -/
def getObjectField (doc : JsVal) (field : JsString) : JsVal := walk doc (field.splitOn 46)

/-- Conditions of a rule. -/
inductive Query where
  | eq (field : JsString) (value : JsVal)
  | elemMatch (field : JsString) (query : Query)
  | and (left right : Query)

def Query.matches : Query → JsVal → Bool
  | .eq field value, doc => match getObjectField doc field with
      | .arr items => items.any fun v => v.strictEq value
      | v => v.strictEq value
  | .elemMatch field query, doc => match getObjectField doc field with
      | .arr items => items.any fun v => query.matches v
      | _ => false
  | .and left right, doc => left.matches doc && right.matches doc

theorem getField_map {α : Type} (doc : α → JsVal) (value : α → List JsVal) (field : JsString)
    (h : ∀ a, spread ((doc a).get field) = value a) (as : List α) :
    getField (.arr (as.map doc)) field = .arr (as.flatMap value) := by
  simp only [getField, List.flatMap_map, h]

/-- The action that stands for any action and the type that stands for any subject. -/
class Keywords (Act Sub : Type) where
  manage : Act
  all : Sub

variable {Act Sub : Type}

structure Rule (Act Sub : Type) where
  actions : List Act
  subject : Sub
  conditions : Option Query
  inverted : Bool

/-- What is asked about: a type of subjects, or one subject with its fields. -/
inductive Target (Sub : Type) where
  | type (t : Sub)
  | instance (t : Sub) (doc : JsVal)

def Target.subjectType : Target Sub → Sub
  | .type t => t
  | .instance t _ => t

abbrev Ability (Act Sub : Type) := List (Rule Act Sub)

def can (actions : List Act) (subject : Sub) (conditions : Option Query) : Rule Act Sub :=
  ⟨actions, subject, conditions, false⟩

def cannot (actions : List Act) (subject : Sub) (conditions : Option Query) : Rule Act Sub :=
  ⟨actions, subject, conditions, true⟩

/-- Conditions cannot be tested on a type: a permission may apply, a prohibition need not. -/
def Rule.matchesConditions (rule : Rule Act Sub) : Target Sub → Bool
  | .type _ => rule.conditions.isNone || !rule.inverted
  | .instance _ doc => rule.conditions.all fun query => query.matches doc

section Rules
variable [DecidableEq Act] [DecidableEq Sub] [Keywords Act Sub]

def Rule.covers (rule : Rule Act Sub) (action : Act) (t : Sub) : Bool :=
  (action ∈ rule.actions || Keywords.manage Sub ∈ rule.actions) &&
    (rule.subject = t || rule.subject = Keywords.all Act)

def Rule.relevant (rule : Rule Act Sub) (action : Act) (target : Target Sub) : Bool :=
  rule.covers action target.subjectType && rule.matchesConditions target

def relevantRuleFor (ability : Ability Act Sub) (action : Act) (target : Target Sub) :
    Option (Rule Act Sub) := ability.reverse.find? fun rule => rule.relevant action target

/-- The answer of `ability.can(action, subject)`. -/
def Ability.allows (ability : Ability Act Sub) (action : Act) (target : Target Sub) : Bool :=
  match relevantRuleFor ability action target with
  | none => false
  | some rule => !rule.inverted

/-- The rule defined last decides when it is relevant, and is passed over when it is not. -/
theorem allows_concat (ability : Ability Act Sub) (rule : Rule Act Sub) (action : Act)
    (target : Target Sub) :
    Ability.allows (ability ++ [rule]) action target =
      if rule.relevant action target then !rule.inverted
      else Ability.allows ability action target := by
  simp only [Ability.allows, relevantRuleFor, List.reverse_append, List.reverse_singleton,
    List.singleton_append, List.find?_cons]
  cases rule.relevant action target <;> simp

/-- Where no relevant rule is a prohibition, one relevant rule is enough. -/
theorem allows_iff_exists (ability : Ability Act Sub) (action : Act) (target : Target Sub)
    (permissive : ∀ rule ∈ ability, rule.relevant action target → rule.inverted = false) :
    Ability.allows ability action target = true ↔
      ∃ rule ∈ ability, rule.relevant action target := by
  induction ability using List.reverseRecOn with
  | nil => simp [Ability.allows, relevantRuleFor]
  | append_singleton ability rule ih =>
      have before := ih fun r hr => permissive r (List.mem_append_left _ hr)
      rw [allows_concat]
      by_cases here : rule.relevant action target = true
      · have allowed := permissive rule (by simp) here
        rw [if_pos here]
        constructor
        · intro _
          exact ⟨rule, by simp, here⟩
        · intro _
          simp [allowed]
      · rw [if_neg here, before]
        constructor
        · rintro ⟨r, hr, hrel⟩
          exact ⟨r, List.mem_append_left _ hr, hrel⟩
        · rintro ⟨r, hr, hrel⟩
          rcases List.mem_append.mp hr with old | last
          · exact ⟨r, old, hrel⟩
          · exact absurd (List.mem_singleton.mp last ▸ hrel) here

end Rules
end Casl
