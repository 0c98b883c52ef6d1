import Mathlib.Data.Rat.Defs
import Mathlib.Algebra.Group.Nat.Defs
import Heimdall.Js.Text

/-!
# JavaScript values

The values that `JSON.parse` builds, with `undefined` and with the prototype that an
assignment to `__proto__` installs. A finite number is the exact rational value of its
double; a literal that is too large becomes an infinity.
-/
namespace Js

inductive JsNumber where
  | finite (q : ℚ)
  | infinity (negative : Bool)
  deriving DecidableEq

/-- `n < q` for a finite `q`. -/
def JsNumber.lt : JsNumber → ℚ → Bool
  | .finite n, q => decide (n < q)
  | .infinity negative, _ => negative

def JsNumber.isZero (n : JsNumber) : Bool := decide (n = .finite 0)

/-- The double nearest to a natural number, of two the one with the even significand. -/
def JsNumber.nearest (n : ℕ) : JsNumber :=
  let unit := 2 ^ (n.log2 - 52)
  let below := n / unit
  let above := unit < 2 * (n % unit) ∨ (unit = 2 * (n % unit) ∧ below % 2 = 1)
  let rounded := (if above then below + 1 else below) * unit
  if rounded < 2 ^ 1024 then .finite rounded else .infinity false

theorem JsNumber.nearest_of_small {n : ℕ} (small : n < 2 ^ 53) : nearest n = .finite n := by
  have place : n.log2 - 52 = 0 := by
    by_cases zero : n = 0
    · rw [zero]
      rfl
    · have digits := (Nat.log2_lt zero).mpr small
      omega
  have below : ∀ k, 53 ≤ k → n < 2 ^ k := fun k more =>
    Nat.lt_of_lt_of_le small (Nat.pow_le_pow_right Nat.two_pos more)
  have bound := below 1024 (by decide)
  simp [-Nat.reducePow, nearest, place, bound, Nat.mod_one]

example : JsNumber.nearest (2 ^ 53 + 1) = .finite (2 ^ 53) := by decide +kernel

inductive JsVal where
  | undefined
  | null
  | bool (b : Bool)
  | num (n : JsNumber)
  | str (s : JsString)
  | arr (items : List JsVal)
  | obj (props : List (JsString × JsVal)) (proto : List (JsString × JsVal))

/-- An object as `JSON.parse` builds it. -/
def JsVal.object (props : List (JsString × JsVal)) : JsVal := .obj props []

/-- A field of type `T | null | undefined`. -/
inductive Opt (α : Type) where
  | undefined
  | null
  | val (a : α)
  deriving DecidableEq, Repr

inductive JsError where
  | typeError (message : String)
  | rangeError (message : String)
  | error (message : String)
  deriving DecidableEq, Repr

namespace Opt
variable {α β : Type}

def isNil : Opt α → Bool
  | .val _ => false
  | _ => true

def toOption : Opt α → Option α
  | .val a => some a
  | _ => none

def map (f : α → β) : Opt α → Opt β
  | .undefined => .undefined
  | .null => .null
  | .val a => .val (f a)

/-- `!!x` for a string. -/
def truthy : Opt JsString → Bool
  | .val s => !s.isEmpty
  | _ => false

/-- `!!x` for a boolean. -/
def isTrue : Opt Bool → Bool
  | .val b => b
  | _ => false

/-- `x || y` where `x` is a string. -/
def orElse (x : Opt JsString) (y : Option JsString) : Option JsString :=
  match x with
  | .val s => if s.isEmpty then y else some s
  | _ => y

def inTemplate : Opt JsString → JsString
  | .undefined => js "undefined"
  | .null => js "null"
  | .val s => s

end Opt

namespace JsVal

def truthy : JsVal → Bool
  | .undefined | .null => false
  | .bool b => b
  | .num n => !n.isZero
  | .str s => !s.isEmpty
  | .arr _ | .obj _ _ => true

def isNil : JsVal → Bool
  | .undefined | .null => true
  | _ => false

inductive TypeOf where
  | undefined | object | boolean | number | string
  deriving DecidableEq, Repr

def typeOf : JsVal → TypeOf
  | .undefined => .undefined
  | .null | .arr _ | .obj _ _ => .object
  | .bool _ => .boolean
  | .num _ => .number
  | .str _ => .string

/-- `===`. Two arrays or objects of a parsed value are distinct objects. -/
def strictEq : JsVal → JsVal → Bool
  | .undefined, .undefined => true
  | .null, .null => true
  | .bool a, .bool b => a == b
  | .num a, .num b => decide (a = b)
  | .str a, .str b => a == b
  | _, _ => false

/-- `v[key]` for a key that no built-in prototype defines. -/
def get : JsVal → JsString → JsVal
  | .obj props proto, key => (props.lookup key).getD ((proto.lookup key).getD .undefined)
  | _, _ => .undefined

/-- The own property, whatever the prototype holds. -/
def getOwn : JsVal → JsString → JsVal
  | .obj props _, key => (props.lookup key).getD .undefined
  | _, _ => .undefined

/-- Set an own property, keeping the place it had. -/
def setProp : List (JsString × JsVal) → JsString → JsVal → List (JsString × JsVal)
  | [], key, v => [(key, v)]
  | p :: props, key, v => if p.1 = key then (key, v) :: props else p :: setProp props key v

/-- `result[key] = v`. The key `__proto__` sets the prototype and takes objects only. -/
def assign : JsVal → JsString → JsVal → JsVal
  | .obj props proto, key, v =>
      if key = js "__proto__" then match v with
        | .obj ps _ => .obj props ps
        | .null | .arr _ => .obj props []
        | _ => .obj props proto
      else .obj (setProp props key v) proto
  | r, _, _ => r

theorem lookup_setProp (props : List (JsString × JsVal)) (key other : JsString) (v : JsVal) :
    (setProp props key v).lookup other = if other = key then some v else props.lookup other := by
  induction props with
  | nil =>
      by_cases same : other = key
      · simp [setProp, same]
      · have skip : (other == key) = false := by simp [same]
        simp [setProp, List.lookup_cons, skip, same]
  | cons p props ih =>
      obtain ⟨name, value⟩ := p
      by_cases here : name = key
      · by_cases same : other = key
        · simp [setProp, here, same]
        · have skip : (other == key) = false := by simp [same]
          simp [setProp, List.lookup_cons, here, skip, same]
      · simp only [setProp, here, if_false, List.lookup_cons, ih]
        by_cases first : other = name
        · have differ : name ≠ key := here
          simp [first, differ]
        · have skip : (other == name) = false := by simp [first]
          simp [skip]

end JsVal
end Js
