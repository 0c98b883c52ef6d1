import Heimdall.Js.Value

/-!
# Request bodies

The global `ValidationPipe` with `transform` and `whitelist`: a body becomes an entity
with the declared properties only, and every declared property must meet its decorators.
The entities of the user endpoints are then read into records, which loses nothing
because the decorators fix the types.
-/
namespace Backend
open Js

/-- An exception that becomes a response, with its message. -/
inductive HttpError where
  | badRequest (message : String)
  | unauthorized
  | forbidden (message : String)
  | notFound (message : String)
  | uniqueConstraint
  deriving DecidableEq, Repr

/-- Decorators of class-validator. -/
inductive Constraint where
  | isString
  | isBoolean
  | isNotEmpty
  | isEmail
  | isIn (values : List JsString)
  | minLength (n : ℕ)

structure Property where
  name : JsString
  optional : Bool
  constraints : List Constraint

/-- The length that `@MinLength` counts: a surrogate pair is one character. -/
def characters : JsString → ℕ
  | [] => 0
  | [_] => 1
  | c :: d :: rest =>
      if isHighSurrogate c && isLowSurrogate d then characters rest + 1
      else characters (d :: rest) + 1

section Validation
variable (isEmail : JsString → Bool)

def Constraint.holds : Constraint → JsVal → Bool
  | .isString, v => v.typeOf = .string
  | .isBoolean, v => v.typeOf = .boolean
  | .isNotEmpty, .undefined => false
  | .isNotEmpty, .null => false
  | .isNotEmpty, .str s => !s.isEmpty
  | .isNotEmpty, _ => true
  | .isEmail, .str s => isEmail s
  | .isEmail, _ => false
  | .isIn values, .str s => decide (s ∈ values)
  | .isIn _, _ => false
  | .minLength n, .str s => decide (n ≤ characters s)
  | .minLength _, _ => false

def Property.valid (p : Property) (v : JsVal) : Bool :=
  (p.optional && v.isNil) || p.constraints.all fun c => c.holds isEmail v

/-- The entity: the declared properties that the body has. -/
def whitelist (properties : List Property) (body : JsVal) : JsVal :=
  .object (properties.map fun p => (p.name, body.getOwn p.name))

def validationPipe (properties : List Property) (body : JsVal) : Except HttpError JsVal :=
  if properties.all fun p => p.valid isEmail (body.getOwn p.name) then
    .ok (whitelist properties body)
  else .error (.badRequest "Bad Request")

end Validation

/-- `@IsOptional() @IsString()` -/
def optionalString (name : JsString) : Property := ⟨name, true, [.isString]⟩

def createUserProperties : List Property :=
  [⟨js "email", false, [.isEmail, .isNotEmpty]⟩,
   ⟨js "password", false, [.isNotEmpty, .isString]⟩,
   ⟨js "passwordConfirmation", false, [.isNotEmpty, .isString]⟩,
   optionalString (js "firstName"),
   optionalString (js "lastName"),
   optionalString (js "organization"),
   optionalString (js "title"),
   ⟨js "role", false, [.isNotEmpty, .isString, .isIn [js "user"]]⟩,
   ⟨js "creationMethod", false, [.isNotEmpty, .isString,
     .isIn [js "local", js "ldap", js "github", js "gitlab", js "google", js "okta", js "ldap"]]⟩]

def updateUserProperties : List Property :=
  [⟨js "email", true, [.isEmail]⟩,
   optionalString (js "firstName"),
   optionalString (js "lastName"),
   optionalString (js "organization"),
   optionalString (js "title"),
   ⟨js "role", true, [.isString, .isIn [js "user", js "admin"]]⟩,
   optionalString (js "password"),
   optionalString (js "passwordConfirmation"),
   ⟨js "forcePasswordChange", true, [.isBoolean]⟩,
   optionalString (js "currentPassword")]

def deleteUserProperties : List Property :=
  [⟨js "password", true, [.isString, .minLength 15]⟩]

def readString : JsVal → Opt JsString
  | .str s => .val s
  | .null => .null
  | _ => .undefined

def readBoolean : JsVal → Opt Bool
  | .bool b => .val b
  | .null => .null
  | _ => .undefined

structure CreateUserDto where
  email : JsString
  password : JsString
  firstName : Opt JsString
  lastName : Opt JsString
  organization : Opt JsString
  title : Opt JsString
  role : JsString
  creationMethod : JsString

structure UpdateUserDto where
  email : Opt JsString
  firstName : Opt JsString
  lastName : Opt JsString
  organization : Opt JsString
  title : Opt JsString
  role : Opt JsString
  password : Opt JsString
  passwordConfirmation : Opt JsString
  forcePasswordChange : Opt Bool
  currentPassword : Opt JsString

structure DeleteUserDto where
  password : Opt JsString

/-- A required string, present in an entity that passed validation. -/
def requireString (v : JsVal) : JsString := (readString v).toOption.getD []

def CreateUserDto.of (entity : JsVal) : CreateUserDto where
  email := requireString (entity.get (js "email"))
  password := requireString (entity.get (js "password"))
  firstName := readString (entity.get (js "firstName"))
  lastName := readString (entity.get (js "lastName"))
  organization := readString (entity.get (js "organization"))
  title := readString (entity.get (js "title"))
  role := requireString (entity.get (js "role"))
  creationMethod := requireString (entity.get (js "creationMethod"))

def UpdateUserDto.of (entity : JsVal) : UpdateUserDto where
  email := readString (entity.get (js "email"))
  firstName := readString (entity.get (js "firstName"))
  lastName := readString (entity.get (js "lastName"))
  organization := readString (entity.get (js "organization"))
  title := readString (entity.get (js "title"))
  role := readString (entity.get (js "role"))
  password := readString (entity.get (js "password"))
  passwordConfirmation := readString (entity.get (js "passwordConfirmation"))
  forcePasswordChange := readBoolean (entity.get (js "forcePasswordChange"))
  currentPassword := readString (entity.get (js "currentPassword"))

def DeleteUserDto.of (entity : JsVal) : DeleteUserDto where
  password := readString (entity.get (js "password"))

/-! The decorators hold for the entity, so the records lose nothing. -/

variable {isEmail : JsString → Bool}

theorem validationPipe_ok {properties : List Property} {body entity : JsVal} :
    validationPipe isEmail properties body = .ok entity ↔
      (∀ p ∈ properties, p.valid isEmail (body.getOwn p.name) = true) ∧
        entity = whitelist properties body := by
  unfold validationPipe
  split
  · rename_i valid
    simp only [Except.ok.injEq]
    exact ⟨fun h => ⟨List.all_eq_true.mp valid, h.symm⟩, fun h => h.2.symm⟩
  · rename_i invalid
    simp only [reduceCtorEq, false_iff]
    exact fun h => invalid (List.all_eq_true.mpr h.1)

theorem whitelist_get {properties : List Property} {body : JsVal} {name : JsString}
    (declared : ∃ p ∈ properties, p.name = name) :
    (whitelist properties body).get name = body.getOwn name := by
  have found : (properties.map fun p => (p.name, body.getOwn p.name)).lookup name =
      some (body.getOwn name) := by
    induction properties with
    | nil => simp at declared
    | cons p properties ih =>
        rw [List.map_cons, List.lookup_cons]
        by_cases here : name = p.name
        · simp [here]
        · have skip : (name == p.name) = false := by simp [here]
          rw [skip]
          apply ih
          obtain ⟨q, hq, rfl⟩ := declared
          rcases List.mem_cons.mp hq with rfl | later
          · exact absurd rfl here
          · exact ⟨q, later, rfl⟩
  simp [whitelist, JsVal.object, JsVal.get, found]

/-- Reading a string property is faithful: nothing is mistaken for an absent one. -/
theorem readString_val {v : JsVal} {s : JsString} : readString v = .val s ↔ v = .str s := by
  cases v <;> simp [readString]

end Backend
