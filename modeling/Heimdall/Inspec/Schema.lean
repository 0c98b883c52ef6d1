import Heimdall.Lib.Throws
import Heimdall.Js.Value

/-!
# Checking a value against a type map

The `transform` of the generated parsers: a value is rebuilt along a type, absent
properties are stored as `undefined`, and properties that the type does not name are
copied. What is accepted has the type, whatever the unnamed properties are called.
-/
namespace Inspec
open Js Lib

/-- An entry of the type map, with its references resolved. -/
inductive Typ where
  | any
  | null
  | undefined
  | string
  | number
  | boolean
  | enum (cases : List JsString)
  | union (members : List Typ)
  | array (items : Typ)
  | object (props : List (JsString × Typ)) (additional : Typ)

def invalidValue : Except JsError JsVal := .error (.error "Invalid value")

/-- `result[key] = value` for a list of assignments. -/
def assignAll (result : JsVal) (entries : List (JsString × JsVal)) : JsVal :=
  entries.foldl (fun result entry => result.assign entry.1 entry.2) result

mutual

def transform : Typ → JsVal → Except JsError JsVal
  | .any, v => .ok v
  | .null, v => match v with
      | .null => .ok .null
      | _ => invalidValue
  | .undefined, v => match v with
      | .undefined => .ok .undefined
      | _ => invalidValue
  | .string, v => match v with
      | .str s => .ok (.str s)
      | _ => invalidValue
  | .number, v => match v with
      | .num n => .ok (.num n)
      | _ => invalidValue
  | .boolean, v => match v with
      | .bool b => .ok (.bool b)
      | _ => invalidValue
  | .enum cases, v => match v with
      | .str s => if s ∈ cases then .ok (.str s) else invalidValue
      | _ => invalidValue
  | .union members, v => transformUnion members v
  | .array typ, v => match v with
      | .arr items => do
          let items ← items.mapM fun item => transform typ item
          return .arr items
      | _ => invalidValue
  | .object props additional, v => match v with
      | .obj own _ => do
          let declared ← transformProps props v
          let others ← (own.filter fun entry => !decide (entry.1 ∈ props.map Prod.fst)).mapM
            fun entry => do
              let w ← transform additional entry.2
              return (entry.1, w)
          return assignAll (.object []) (declared ++ others)
      | _ => invalidValue

/-- The value must validate against one type; the first that accepts it decides. -/
def transformUnion : List Typ → JsVal → Except JsError JsVal
  | [], _ => invalidValue
  | typ :: typs, v => match transform typ v with
      | .ok w => .ok w
      | .error _ => transformUnion typs v

def transformProps : List (JsString × Typ) → JsVal → Except JsError (List (JsString × JsVal))
  | [], _ => .ok []
  | (key, typ) :: props, v => do
      let w ← transform typ (v.getOwn key)
      let rest ← transformProps props v
      return (key, w) :: rest

end

/-- The shape that a type promises; properties that it does not name are free. -/
inductive Typed : Typ → JsVal → Prop where
  | any (v : JsVal) : Typed .any v
  | null : Typed .null .null
  | undefined : Typed .undefined .undefined
  | string (s : JsString) : Typed .string (.str s)
  | number (n : JsNumber) : Typed .number (.num n)
  | boolean (b : Bool) : Typed .boolean (.bool b)
  | enum {cases : List JsString} {s : JsString} : s ∈ cases → Typed (.enum cases) (.str s)
  | union {members : List Typ} {typ : Typ} {v : JsVal} :
      typ ∈ members → Typed typ v → Typed (.union members) v
  | array {typ : Typ} {items : List JsVal} :
      (∀ item ∈ items, Typed typ item) → Typed (.array typ) (.arr items)
  | object {props : List (JsString × Typ)} {additional : Typ} {own proto : List (JsString × JsVal)} :
      (∀ p ∈ props, Typed p.2 ((JsVal.obj own proto).get p.1)) →
      Typed (.object props additional) (.obj own proto)

mutual

/-- Property names are distinct and none of them is `__proto__`. -/
def plain : Typ → Bool
  | .union members => plainAll members
  | .array typ => plain typ
  | .object props additional =>
      decide ((props.map Prod.fst).Nodup) && decide (js "__proto__" ∉ props.map Prod.fst) &&
        plainProps props && plain additional
  | _ => true

def plainAll : List Typ → Bool
  | [] => true
  | typ :: typs => plain typ && plainAll typs

def plainProps : List (JsString × Typ) → Bool
  | [] => true
  | (_, typ) :: props => plain typ && plainProps props

end

theorem assign_obj {own proto : List (JsString × JsVal)} {key : JsString} {v : JsVal}
    (plain : key ≠ js "__proto__") :
    (JsVal.obj own proto).assign key v = .obj (JsVal.setProp own key v) proto := by
  simp [JsVal.assign, plain]

/-- An assignment keeps the other own properties, and `__proto__` keeps them all. -/
theorem assign_shape (own proto : List (JsString × JsVal)) (key : JsString) (v : JsVal) :
    ∃ own' proto', (JsVal.obj own proto).assign key v = .obj own' proto' ∧
      ∀ other, other ≠ key → own'.lookup other = own.lookup other := by
  by_cases special : key = js "__proto__"
  · cases v <;> simp [JsVal.assign, special]
  · refine ⟨JsVal.setProp own key v, proto, assign_obj special, ?_⟩
    intro other differ
    rw [JsVal.lookup_setProp, if_neg differ]

theorem assignAll_shape (own proto entries : List (JsString × JsVal)) :
    ∃ own' proto', assignAll (.obj own proto) entries = .obj own' proto' ∧
      ∀ key, (∀ entry ∈ entries, key ≠ entry.1) → own'.lookup key = own.lookup key := by
  induction entries generalizing own proto with
  | nil => exact ⟨own, proto, rfl, fun _ _ => rfl⟩
  | cons entry entries ih =>
      obtain ⟨own₁, proto₁, first, kept₁⟩ := assign_shape own proto entry.1 entry.2
      obtain ⟨own', proto', rest, kept⟩ := ih own₁ proto₁
      refine ⟨own', proto', ?_, ?_⟩
      · change assignAll ((JsVal.obj own proto).assign entry.1 entry.2) entries = _
        rw [first, rest]
      · intro key others
        rw [kept key fun e he => others e (List.mem_cons_of_mem _ he)]
        exact kept₁ key (others entry List.mem_cons_self)

/-- What the type declares is stored as it was transformed, whatever follows. -/
theorem assignAll_declared (own proto : List (JsString × JsVal))
    {declared others : List (JsString × JsVal)} (distinct : (declared.map Prod.fst).Nodup)
    (plain : js "__proto__" ∉ declared.map Prod.fst)
    (apart : ∀ entry ∈ others, entry.1 ∉ declared.map Prod.fst) :
    ∃ own' proto', assignAll (.obj own proto) (declared ++ others) = .obj own' proto' ∧
      ∀ entry ∈ declared, own'.lookup entry.1 = some entry.2 := by
  induction declared generalizing own proto with
  | nil =>
      obtain ⟨own', proto', h, -⟩ := assignAll_shape own proto others
      exact ⟨own', proto', h, by simp⟩
  | cons entry declared ih =>
      simp only [List.map_cons, List.nodup_cons, List.mem_cons, not_or] at distinct plain apart
      have start : assignAll (.obj own proto) (entry :: declared ++ others) =
          assignAll (.obj (JsVal.setProp own entry.1 entry.2) proto) (declared ++ others) := by
        rw [← assign_obj (Ne.symm plain.1)]
        rfl
      rw [start]
      obtain ⟨own', proto', result, found⟩ := ih (JsVal.setProp own entry.1 entry.2) proto
        distinct.2 plain.2 fun e he => (apart e he).2
      refine ⟨own', proto', result, ?_⟩
      intro e he
      rcases List.mem_cons.mp he with rfl | later
      · obtain ⟨own'', proto'', result', kept⟩ := assignAll_shape
          (JsVal.setProp own e.1 e.2) proto (declared ++ others)
        rw [result] at result'
        cases result'
        rw [kept e.1, JsVal.lookup_setProp, if_pos rfl]
        intro f hf same
        rcases List.mem_append.mp hf with inside | outside
        · exact distinct.1 (same ▸ List.mem_map_of_mem inside)
        · exact (apart f outside).1 same.symm
      · exact found e later

mutual

/-- A value that a plain type accepts has that type. -/
theorem transform_typed : ∀ {typ : Typ} {v w : JsVal}, plain typ = true →
    transform typ v = .ok w → Typed typ w
  | .any, _, w, _, _ => .any w
  | .null, v, w, _, accepted => by
      cases v <;> simp only [transform, invalidValue] at accepted <;> cases accepted
      exact .null
  | .undefined, v, w, _, accepted => by
      cases v <;> simp only [transform, invalidValue] at accepted <;> cases accepted
      exact .undefined
  | .string, v, w, _, accepted => by
      cases v <;> simp only [transform, invalidValue] at accepted <;> cases accepted
      exact .string _
  | .number, v, w, _, accepted => by
      cases v <;> simp only [transform, invalidValue] at accepted <;> cases accepted
      exact .number _
  | .boolean, v, w, _, accepted => by
      cases v <;> simp only [transform, invalidValue] at accepted <;> cases accepted
      exact .boolean _
  | .enum cases, v, w, _, accepted => by
      cases v with
      | str s =>
          simp only [transform] at accepted
          split at accepted
          · cases accepted
            exact .enum ‹_›
          · cases accepted
      | _ => simp only [transform, invalidValue] at accepted; cases accepted
  | .union members, v, w, simple, accepted => by
      obtain ⟨typ, member, typed⟩ := transformUnion_typed simple accepted
      exact .union member typed
  | .array typ, v, w, simple, accepted => by
      cases v with
      | arr items =>
          simp only [transform, do_eq_ok] at accepted
          obtain ⟨results, mapped, h⟩ := accepted
          cases h
          refine .array fun item inside => ?_
          obtain ⟨source, -, made⟩ := mem_of_mapM_eq_ok mapped inside
          exact transform_typed simple made
      | _ => simp only [transform, invalidValue] at accepted; cases accepted
  | .object props additional, v, w, simple, accepted => by
      cases v with
      | obj own proto =>
          simp only [transform, do_eq_ok] at accepted
          obtain ⟨declared, named, others, unnamed, h⟩ := accepted
          cases h
          simp only [plain, Bool.and_eq_true, decide_eq_true_eq] at simple
          obtain ⟨keys, typed⟩ := transformProps_typed simple.1.2 named
          have apart : ∀ entry ∈ others, entry.1 ∉ declared.map Prod.fst := by
            intro entry inside
            obtain ⟨source, kept, made⟩ := mem_of_mapM_eq_ok unnamed inside
            obtain ⟨w, -, made⟩ := do_eq_ok.mp made
            cases made
            simpa [keys] using (List.mem_filter.mp kept).2
          obtain ⟨own', proto', result, found⟩ := assignAll_declared [] []
            (keys ▸ simple.1.1.1) (keys ▸ simple.1.1.2) apart
          rw [JsVal.object, result]
          refine .object fun p inside => ?_
          obtain ⟨w, here, shape⟩ := typed p inside
          simpa [JsVal.get, found (p.1, w) here] using shape
      | _ => simp only [transform, invalidValue] at accepted; cases accepted

theorem transformUnion_typed : ∀ {typs : List Typ} {v w : JsVal}, plainAll typs = true →
    transformUnion typs v = .ok w → ∃ typ ∈ typs, Typed typ w
  | [], _, _, _, accepted => by cases accepted
  | typ :: typs, v, w, simple, accepted => by
      simp only [plainAll, Bool.and_eq_true] at simple
      rw [transformUnion] at accepted
      split at accepted
      next first =>
          cases accepted
          exact ⟨typ, List.mem_cons_self, transform_typed simple.1 first⟩
      next =>
          obtain ⟨other, member, typed⟩ := transformUnion_typed simple.2 accepted
          exact ⟨other, List.mem_cons_of_mem _ member, typed⟩

theorem transformProps_typed : ∀ {props : List (JsString × Typ)} {v : JsVal}
    {declared : List (JsString × JsVal)}, plainProps props = true →
    transformProps props v = .ok declared →
    declared.map Prod.fst = props.map Prod.fst ∧
      ∀ p ∈ props, ∃ w, (p.1, w) ∈ declared ∧ Typed p.2 w
  | [], _, _, _, accepted => by cases accepted; simp
  | (key, typ) :: props, v, declared, simple, accepted => by
      simp only [plainProps, Bool.and_eq_true] at simple
      simp only [transformProps, do_eq_ok] at accepted
      obtain ⟨w, made, rest, others, h⟩ := accepted
      cases h
      obtain ⟨keys, typed⟩ := transformProps_typed simple.2 others
      refine ⟨by simp [keys], ?_⟩
      intro p inside
      rcases List.mem_cons.mp inside with rfl | later
      · exact ⟨w, List.mem_cons_self, transform_typed simple.1 made⟩
      · obtain ⟨w', here, shape⟩ := typed p later
        exact ⟨w', List.mem_cons_of_mem _ here, shape⟩

end

end Inspec
