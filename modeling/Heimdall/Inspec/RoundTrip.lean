import Heimdall.Js.Persist
import Heimdall.Inspec.FileParse

/-!
# Files that were written by the program

What the parser returned is written out and read again. The parser accepts it as the same
type and returns the same value, and a type that rejected the original rejects it still. So
a file that was loaded and exported loads as the same evaluation or profile.
-/
namespace Inspec
open Js Lib

/-- Induction over types, with the members of unions and objects by membership. -/
theorem Typ.members_induction {P : Typ → Prop} (any : P .any) (null : P .null)
    (undefined : P .undefined) (string : P .string) (number : P .number) (boolean : P .boolean)
    (enum : ∀ cases, P (.enum cases))
    (union : ∀ members, (∀ typ ∈ members, P typ) → P (.union members))
    (array : ∀ typ, P typ → P (.array typ))
    (object : ∀ props additional, (∀ p ∈ props, P p.2) → P additional →
      P (.object props additional)) (typ : Typ) : P typ := by
  refine Typ.rec (motive_1 := P) (motive_2 := fun members => ∀ typ ∈ members, P typ)
    (motive_3 := fun props => ∀ p ∈ props, P p.2) (motive_4 := fun p => P p.2)
    any null undefined string number boolean enum union array object ?_ ?_ ?_ ?_ ?_ typ
  · simp
  · intro typ members first rest
    exact List.forall_mem_cons.mpr ⟨first, rest⟩
  · simp
  · intro p props first rest
    exact List.forall_mem_cons.mpr ⟨first, rest⟩
  · exact fun _ _ second => second

/-- The type accepts the value. -/
def Accepts (typ : Typ) (v : JsVal) : Prop := ∃ w, transform typ v = .ok w

theorem transformUnion_accepts {members : List Typ} {v : JsVal} :
    (∃ w, transformUnion members v = .ok w) ↔ ∃ typ ∈ members, Accepts typ v := by
  induction members with
  | nil => simp [transformUnion, invalidValue]
  | cons typ members ih =>
      rw [transformUnion]
      cases first : transform typ v with
      | ok w => simp [Accepts, first]
      | error e => simp [Accepts, first, ih]

theorem transformProps_accepts {props : List (JsString × Typ)} {v : JsVal} :
    (∃ declared, transformProps props v = .ok declared) ↔
      ∀ p ∈ props, Accepts p.2 (v.getOwn p.1) := by
  induction props with
  | nil => simp [transformProps]
  | cons p props ih =>
      rw [List.forall_mem_cons, ← ih]
      simp only [transformProps, do_eq_ok, pure_eq_ok]
      constructor
      · rintro ⟨_, w, first, declared, rest, rfl⟩
        exact ⟨⟨w, first⟩, declared, rest⟩
      · rintro ⟨⟨w, first⟩, declared, rest⟩
        exact ⟨_, w, first, declared, rest, rfl⟩

theorem accepts_array {typ : Typ} {items : List JsVal} :
    Accepts (.array typ) (.arr items) ↔ ∀ item ∈ items, Accepts typ item := by
  simp only [Accepts, transform]
  rw [returns_bind_pure (x := items.mapM fun item => transform typ item), mapM_returns_iff]

/-- The assignments that an accepted object leads to. -/
theorem transform_object {props : List (JsString × Typ)} {additional : Typ}
    {own proto : List (JsString × JsVal)} {w : JsVal} :
    transform (.object props additional) (.obj own proto) = .ok w ↔
      ∃ declared others, transformProps props (.obj own proto) = .ok declared ∧
        List.Forall₂ (fun entry made => made.1 = entry.1 ∧
            transform additional entry.2 = .ok made.2)
          (own.filter fun entry => !decide (entry.1 ∈ props.map Prod.fst)) others ∧
        w = assignAll (.object []) (declared ++ others) := by
  simp only [transform, do_eq_ok, pure_eq_ok, mapM_eq_ok]
  constructor
  · rintro ⟨declared, named, others, unnamed, rfl⟩
    refine ⟨declared, others, named, unnamed.imp fun entry made h => ?_, rfl⟩
    obtain ⟨w, here, rfl⟩ := h
    exact ⟨rfl, here⟩
  · rintro ⟨declared, others, named, unnamed, rfl⟩
    refine ⟨declared, named, others, unnamed.imp fun entry made h => ?_, rfl⟩
    exact ⟨made.2, h.2, Prod.ext h.1 rfl⟩

theorem accepts_object {props : List (JsString × Typ)} {additional : Typ}
    {own proto : List (JsString × JsVal)} :
    Accepts (.object props additional) (.obj own proto) ↔
      (∀ p ∈ props, Accepts p.2 ((JsVal.obj own proto).getOwn p.1)) ∧
        ∀ entry ∈ own, entry.1 ∉ props.map Prod.fst → Accepts additional entry.2 := by
  rw [← transformProps_accepts]
  constructor
  · rintro ⟨w, accepted⟩
    obtain ⟨declared, others, named, unnamed, -⟩ := transform_object.mp accepted
    refine ⟨⟨declared, named⟩, fun entry here other => ?_⟩
    have kept : entry ∈ own.filter fun entry => !decide (entry.1 ∈ props.map Prod.fst) :=
      List.mem_filter.mpr ⟨here, by simpa using other⟩
    obtain ⟨made, -, -, result⟩ := exists_of_forall₂ unnamed.flip kept
    exact ⟨made.2, result⟩
  · rintro ⟨⟨declared, named⟩, rest⟩
    have each : ∀ entry ∈ own.filter fun entry => !decide (entry.1 ∈ props.map Prod.fst),
        ∃ made : JsString × JsVal, (do
          let w ← transform additional entry.2
          return (entry.1, w)) = .ok made := by
      intro entry kept
      obtain ⟨here, other⟩ := List.mem_filter.mp kept
      obtain ⟨w, made⟩ := rest entry here (by simpa using other)
      exact ⟨(entry.1, w), do_eq_ok.mpr ⟨w, made, rfl⟩⟩
    obtain ⟨others, unnamed⟩ := mapM_returns each
    refine ⟨assignAll (.object []) (declared ++ others), ?_⟩
    simp only [transform, do_eq_ok]
    exact ⟨declared, named, others, unnamed, rfl⟩

/-- A type that accepts no array and no object sees no order of properties. -/
theorem accepts_atom_of_same {typ : Typ} (array : ∀ items, ¬ Accepts typ (.arr items))
    (object : ∀ own, ¬ Accepts typ (.obj own [])) {v v' : JsVal} (same : Same v v')
    (accepted : Accepts typ v) : Accepts typ v' := by
  cases same with
  | refl => exact accepted
  | arr => exact absurd accepted (array _)
  | obj => exact absurd accepted (object _)

/-- What a type accepts does not depend on the order of properties. -/
theorem accepts_of_same {typ : Typ} {v v' : JsVal} (same : Same v v') (accepted : Accepts typ v) :
    Accepts typ v' := by
  induction typ using Typ.members_induction generalizing v v' with
  | any => exact ⟨v', rfl⟩
  | null | undefined | string | number | boolean | enum =>
      exact accepts_atom_of_same (by rintro items ⟨w, ⟨⟩⟩) (by rintro own ⟨w, ⟨⟩⟩) same accepted
  | union members ih =>
      obtain ⟨typ, member, here⟩ := transformUnion_accepts.mp accepted
      exact transformUnion_accepts.mpr ⟨typ, member, ih typ member same here⟩
  | array typ ih =>
      cases same with
      | refl => exact accepted
      | arr lengths each =>
          rw [accepts_array] at accepted ⊢
          intro item here
          obtain ⟨i, bound, rfl⟩ := List.mem_iff_getElem.mp here
          have there := lengths ▸ bound
          exact ih (each i _ _ (List.getElem?_eq_getElem there) (List.getElem?_eq_getElem bound))
            (accepted _ (List.getElem_mem there))
      | obj => obtain ⟨w, ⟨⟩⟩ := accepted
  | object props additional ihProps ihAdditional =>
      cases same with
      | refl => exact accepted
      | arr => obtain ⟨w, ⟨⟩⟩ := accepted
      | obj distinct distinct' keys each =>
          rw [accepts_object] at accepted ⊢
          refine ⟨fun p here => ?_, fun entry here other => ?_⟩
          · exact ihProps p here (same_getOwn distinct distinct' keys each p.1)
              (accepted.1 p here)
          · obtain ⟨old, inside, same⟩ :=
              List.mem_map.mp ((keys entry.1).mpr (List.mem_map_of_mem here))
            refine ihAdditional (each entry.1 old.2 entry.2 (same ▸ inside) here)
              (accepted.2 old inside ?_)
            rwa [same]

theorem accepts_iff_of_same {typ : Typ} {v v' : JsVal} (same : Same v v') :
    Accepts typ v ↔ Accepts typ v' := ⟨accepts_of_same same, accepts_of_same same.symm⟩

/-- Assignments to distinct properties that are new append them. -/
theorem assignAll_append {own entries : List (JsString × JsVal)}
    (distinct : ((own ++ entries).map Prod.fst).Nodup)
    (ordinary : js "__proto__" ∉ entries.map Prod.fst) :
    assignAll (.obj own []) entries = .obj (own ++ entries) [] := by
  induction entries generalizing own with
  | nil => rw [List.append_nil]; rfl
  | cons entry entries ih =>
      obtain ⟨key, v⟩ := entry
      rw [List.map_cons, List.mem_cons, not_or] at ordinary
      have fresh : key ∉ own.map Prod.fst := by
        rw [List.map_append, List.nodup_append] at distinct
        exact fun here => distinct.2.2 key here key (by simp) rfl
      have added : JsVal.setProp own key v = own ++ [(key, v)] := by
        clear ih distinct
        induction own with
        | nil => rfl
        | cons p own ih =>
            rw [List.map_cons, List.mem_cons, not_or] at fresh
            rw [JsVal.setProp, if_neg (Ne.symm fresh.1), ih fresh.2]
            rfl
      have split : own ++ (key, v) :: entries = own ++ [(key, v)] ++ entries := by simp
      rw [split] at distinct ⊢
      rw [← ih distinct ordinary.2, ← added, ← assign_obj (Ne.symm ordinary.1)]
      rfl

theorem transformProps_forall₂ {props : List (JsString × Typ)} {v : JsVal}
    {declared : List (JsString × JsVal)} :
    transformProps props v = .ok declared ↔
      List.Forall₂ (fun p made => made.1 = p.1 ∧ transform p.2 (v.getOwn p.1) = .ok made.2) props
        declared := by
  induction props generalizing declared with
  | nil =>
      rw [List.forall₂_nil_left_iff, transformProps, Except.ok.injEq]
      exact eq_comm
  | cons p props ih =>
      simp only [transformProps, do_eq_ok, pure_eq_ok, List.forall₂_cons_left_iff, ih]
      constructor
      · rintro ⟨w, first, rest, others, rfl⟩
        exact ⟨(p.1, w), rest, ⟨rfl, first⟩, others, rfl⟩
      · rintro ⟨⟨name, w⟩, rest, ⟨named, first⟩, others, rfl⟩
        obtain rfl : name = p.1 := named
        exact ⟨w, first, rest, others, rfl⟩

/-- What was made of a value is made again of its text. -/
structure Persists (typ : Typ) (v w : JsVal) : Prop where
  defined : w.isUndefined = v.isUndefined
  same : Same v w.persist
  again : transform typ w.persist = .ok w

theorem transformUnion_persists {members : List Typ} {v w : JsVal}
    (each : ∀ typ ∈ members, ∀ w, transform typ v = .ok w → Persists typ v w)
    (accepted : transformUnion members v = .ok w) :
    w.isUndefined = v.isUndefined ∧ Same v w.persist ∧
      transformUnion members w.persist = .ok w := by
  induction members with
  | nil => cases accepted
  | cons typ members ih =>
      rw [transformUnion] at accepted
      cases first : transform typ v with
      | ok made =>
          rw [first] at accepted
          cases accepted
          obtain ⟨defined, same, again⟩ := each typ List.mem_cons_self w first
          exact ⟨defined, same, by rw [transformUnion, again]⟩
      | error e =>
          rw [first] at accepted
          obtain ⟨defined, same, again⟩ :=
            ih (fun t here => each t (List.mem_cons_of_mem _ here)) accepted
          refine ⟨defined, same, ?_⟩
          rw [transformUnion]
          cases second : transform typ w.persist with
          | error e' => exact again
          | ok made =>
              obtain ⟨made', accepts⟩ := (accepts_iff_of_same same).mpr ⟨made, second⟩
              rw [first] at accepts
              cases accepts

theorem transformArray_persists {typ : Typ} {items results : List JsVal}
    (defined : ∀ item ∈ items, item.isUndefined = false)
    (each : List.Forall₂ (Persists typ) items results) :
    Same (.arr items) (JsVal.arr results).persist ∧
      transform (.array typ) (JsVal.arr results).persist = .ok (.arr results) := by
  have shown : ∀ result ∈ results, result.isUndefined = false := by
    intro result here
    obtain ⟨item, inside, persists⟩ := exists_of_forall₂ each here
    rw [persists.defined, defined item inside]
  rw [JsVal.persist, persistItems_defined shown]
  refine ⟨.arr (by rw [List.length_map, each.length_eq]) fun i a b ha hb => ?_, ?_⟩
  · rw [List.getElem?_map, Option.map_eq_some_iff] at hb
    obtain ⟨result, there, rfl⟩ := hb
    obtain ⟨left, rfl⟩ := List.getElem?_eq_some_iff.mp ha
    obtain ⟨right, rfl⟩ := List.getElem?_eq_some_iff.mp there
    exact (each.get left right).same
  · simp only [transform, do_eq_ok, pure_eq_ok]
    refine ⟨results, mapM_eq_ok.mpr ?_, rfl⟩
    rw [List.forall₂_map_left_iff, List.forall₂_same]
    intro result here
    obtain ⟨item, -, persists⟩ := exists_of_forall₂ each here
    exact persists.again

section Object
variable {props : List (JsString × Typ)} {additional : Typ} {own : List (JsString × JsVal)}
  {declared others : List (JsString × JsVal)}

/-- The properties of the result: those that the type names, then the others. -/
theorem object_keys (distinct : (own.map Prod.fst).Nodup)
    (ordinary : js "__proto__" ∉ own.map Prod.fst)
    (names : (props.map Prod.fst).Nodup) (named : js "__proto__" ∉ props.map Prod.fst)
    (first : declared.map Prod.fst = props.map Prod.fst)
    (second : others.map Prod.fst =
      (own.filter fun entry => !decide (entry.1 ∈ props.map Prod.fst)).map Prod.fst) :
    ((declared ++ others).map Prod.fst).Nodup ∧
      js "__proto__" ∉ (declared ++ others).map Prod.fst := by
  rw [List.map_append, first, second]
  have sub : ∀ key ∈ (own.filter fun entry => !decide (entry.1 ∈ props.map Prod.fst)).map Prod.fst,
      key ∉ props.map Prod.fst ∧ key ∈ own.map Prod.fst := by
    intro key here
    obtain ⟨entry, kept, rfl⟩ := List.mem_map.mp here
    obtain ⟨inside, other⟩ := List.mem_filter.mp kept
    exact ⟨by simpa using other, List.mem_map_of_mem inside⟩
  refine ⟨List.nodup_append.mpr ⟨names, distinct.sublist (List.filter_sublist.map _), ?_⟩, ?_⟩
  · rintro a ha b hb rfl
    exact (sub a hb).1 ha
  · rw [List.mem_append]
    rintro (here | here)
    · exact named here
    · exact ordinary (sub _ here).2

/-- The properties that the type does not name are read back in their order. -/
theorem undeclared_persistProps (first : declared.map Prod.fst = props.map Prod.fst)
    (unnamed : ∀ x ∈ others, x.1 ∉ props.map Prod.fst)
    (shown : ∀ x ∈ others, x.2.isUndefined = false) :
    (persistProps (declared ++ others)).filter
        (fun entry => !decide (entry.1 ∈ props.map Prod.fst)) =
      others.map fun x => (x.1, x.2.persist) := by
  rw [persistProps_eq, List.filter_map, List.filter_filter, List.filter_append]
  have none : declared.filter (fun x => (!decide (x.1 ∈ props.map Prod.fst)) &&
      !x.2.isUndefined) = [] := by
    rw [List.filter_eq_nil_iff]
    intro x here
    have inside : x.1 ∈ props.map Prod.fst := first ▸ List.mem_map_of_mem here
    simp [inside]
  have all : others.filter (fun x => (!decide (x.1 ∈ props.map Prod.fst)) &&
      !x.2.isUndefined) = others := by
    rw [List.filter_eq_self]
    intro x here
    simp [unnamed x here, shown x here]
  exact congrArg (List.map _) ((congrArg₂ _ none all).trans (List.nil_append _))

theorem transformObject_persists (clean : Clean (.obj own []))
    (names : (props.map Prod.fst).Nodup) (named : js "__proto__" ∉ props.map Prod.fst)
    (each : ∀ p ∈ props, ∀ w, transform p.2 ((JsVal.obj own []).getOwn p.1) = .ok w →
      Persists p.2 ((JsVal.obj own []).getOwn p.1) w)
    (rest : ∀ entry ∈ own, ∀ w, transform additional entry.2 = .ok w →
      Persists additional entry.2 w) {w : JsVal}
    (accepted : transform (.object props additional) (.obj own []) = .ok w) :
    Persists (.object props additional) (.obj own []) w := by
  cases clean with
  | obj distinct ordinary cleans =>
  obtain ⟨declared, others, first, second, rfl⟩ := transform_object.mp accepted
  rw [transformProps_forall₂] at first
  have firstKeys : declared.map Prod.fst = props.map Prod.fst :=
    map_eq_map_of_forall₂ (first.imp fun _ _ h => h.1)
  have secondKeys : others.map Prod.fst =
      (own.filter fun entry => !decide (entry.1 ∈ props.map Prod.fst)).map Prod.fst :=
    map_eq_map_of_forall₂ (second.imp fun _ _ h => h.1)
  obtain ⟨keys, plain⟩ := object_keys distinct ordinary names named firstKeys secondKeys
  have result : assignAll (.object []) (declared ++ others) = .obj (declared ++ others) [] :=
    @assignAll_append [] _ keys plain
  rw [result]
  -- every property of the result was made of the property of the same name
  have made : ∀ key w, (key, w) ∈ declared ++ others →
      w.isUndefined = ((JsVal.obj own []).getOwn key).isUndefined ∧
        Same ((JsVal.obj own []).getOwn key) w.persist := by
    intro key w here
    rcases List.mem_append.mp here with here | here
    · obtain ⟨p, inside, same, made⟩ := exists_of_forall₂ first here
      obtain rfl : key = p.1 := same
      have persists := each p inside w made
      exact ⟨persists.defined, persists.same⟩
    · obtain ⟨entry, kept, same, made⟩ := exists_of_forall₂ second here
      obtain rfl : key = entry.1 := same
      have inside := (List.mem_filter.mp kept).1
      have persists := rest entry inside w made
      rw [getOwn_of_mem distinct [] inside]
      exact ⟨persists.defined, persists.same⟩
  have covered : ∀ key ∈ own.map Prod.fst, key ∈ (declared ++ others).map Prod.fst := by
    intro key here
    rw [List.map_append, List.mem_append, firstKeys, secondKeys]
    by_cases listed : key ∈ props.map Prod.fst
    · exact .inl listed
    · obtain ⟨entry, inside, rfl⟩ := List.mem_map.mp here
      exact .inr (List.mem_map_of_mem (List.mem_filter.mpr ⟨inside, by simpa using listed⟩))
  have unnamed : ∀ x ∈ others, x.1 ∉ props.map Prod.fst := by
    intro x here
    obtain ⟨entry, kept, same, -⟩ := exists_of_forall₂ second here
    rw [same]
    simpa using (List.mem_filter.mp kept).2
  have shown : ∀ x ∈ others, x.2.isUndefined = false := by
    intro x here
    obtain ⟨entry, kept, -, made⟩ := exists_of_forall₂ second here
    have inside := (List.mem_filter.mp kept).1
    rw [(rest entry inside x.2 made).defined]
    exact (cleans entry inside).defined
  refine ⟨rfl, .obj distinct (keys.sublist (keys_persistProps_sublist _)) (fun key => ?_)
    (fun key a b ha hb => ?_), ?_⟩
  · constructor
    · intro here
      obtain ⟨⟨name, w⟩, there, same⟩ := List.mem_map.mp (covered key here)
      obtain rfl : name = key := same
      obtain ⟨old, inside, same⟩ := List.mem_map.mp here
      have value := getOwn_of_mem distinct [] (same ▸ inside : (name, old.2) ∈ own)
      have defined : w.isUndefined = false := by
        rw [(made name w there).1, value]
        exact (cleans old inside).defined
      exact List.mem_map_of_mem (mem_persistProps.mpr ⟨w, there, defined, rfl⟩)
    · intro here
      obtain ⟨⟨name, x⟩, there, same⟩ := List.mem_map.mp here
      obtain rfl : name = key := same
      obtain ⟨w, inside, defined, -⟩ := mem_persistProps.mp there
      by_contra absent
      rw [(made name w inside).1, getOwn_of_not_mem [] absent] at defined
      cases defined
  · obtain ⟨w, inside, -, rfl⟩ := mem_persistProps.mp hb
    have same := (made key w inside).2
    rwa [getOwn_of_mem distinct [] ha] at same
  · rw [JsVal.persist, transform_object]
    refine ⟨declared, others, transformProps_forall₂.mpr ?_, ?_, result.symm⟩
    · refine List.forall₂_iff_zip.mpr ⟨first.length_eq, fun {p x} pair => ?_⟩
      obtain ⟨same, made⟩ := List.forall₂_zip first pair
      obtain ⟨inside, here⟩ := List.of_mem_zip pair
      have entry : (p.1, x.2) ∈ declared ++ others := by
        rw [← same]
        exact List.mem_append_left _ here
      rw [getOwn_persistProps keys entry]
      exact ⟨same, (each p inside x.2 made).again⟩
    · rw [undeclared_persistProps firstKeys unnamed shown, List.forall₂_map_left_iff,
        List.forall₂_same]
      intro x here
      obtain ⟨entry, kept, -, made⟩ := exists_of_forall₂ second here
      exact ⟨rfl, (rest entry (List.mem_filter.mp kept).1 x.2 made).again⟩

end Object

theorem plainAll_mem {members : List Typ} (simple : plainAll members = true) :
    ∀ typ ∈ members, plain typ = true := by
  induction members with
  | nil => simp
  | cons typ members ih =>
      rw [plainAll, Bool.and_eq_true] at simple
      exact List.forall_mem_cons.mpr ⟨simple.1, ih simple.2⟩

theorem plainProps_mem {props : List (JsString × Typ)} (simple : plainProps props = true) :
    ∀ p ∈ props, plain p.2 = true := by
  induction props with
  | nil => simp
  | cons p props ih =>
      rw [plainProps, Bool.and_eq_true] at simple
      exact List.forall_mem_cons.mpr ⟨simple.1, ih simple.2⟩

/-- What the parser made of a clean document it makes again of its own output. -/
theorem transform_persists {typ : Typ} {v w : JsVal} (simple : plain typ = true)
    (clean : v = .undefined ∨ Clean v) (accepted : transform typ v = .ok w) :
    Persists typ v w := by
  induction typ using Typ.members_induction generalizing v w with
  | any =>
      cases accepted
      have same : v.persist = v := clean.elim (fun none => none ▸ rfl) Clean.persist
      exact ⟨rfl, by rw [same]; exact .refl v, by rw [same]; rfl⟩
  | null =>
      cases v <;> cases accepted
      exact ⟨rfl, .refl _, rfl⟩
  | undefined =>
      cases v <;> cases accepted
      exact ⟨rfl, .refl _, rfl⟩
  | string =>
      cases v <;> cases accepted
      exact ⟨rfl, .refl _, rfl⟩
  | number =>
      cases v with
      | num n =>
          cases accepted
          rcases clean with ⟨⟨⟩⟩ | ⟨⟨⟩⟩
          exact ⟨rfl, .refl _, rfl⟩
      | _ => cases accepted
  | boolean =>
      cases v <;> cases accepted
      exact ⟨rfl, .refl _, rfl⟩
  | enum cases' =>
      cases v with
      | str s =>
          simp only [transform] at accepted
          split at accepted
          · rename_i listed
            cases accepted
            exact ⟨rfl, .refl _, if_pos listed⟩
          · cases accepted
      | _ => cases accepted
  | union members ih =>
      obtain ⟨defined, same, again⟩ := transformUnion_persists
        (fun typ here w made => ih typ here (plainAll_mem simple typ here) clean made) accepted
      exact ⟨defined, same, again⟩
  | array typ ih =>
      cases v with
      | arr items =>
          rcases clean with ⟨⟨⟩⟩ | ⟨⟨⟩⟩
          rename_i cleans
          simp only [transform, do_eq_ok, pure_eq_ok] at accepted
          obtain ⟨results, made, rfl⟩ := accepted
          have each : List.Forall₂ (Persists typ) items results := by
            rw [List.forall₂_iff_zip]
            refine ⟨(mapM_eq_ok.mp made).length_eq, fun {item result} pair => ?_⟩
            exact ih simple (.inr (cleans item (List.of_mem_zip pair).1))
              (List.forall₂_zip (mapM_eq_ok.mp made) pair)
          obtain ⟨same, again⟩ :=
            transformArray_persists (fun item here => (cleans item here).defined) each
          exact ⟨rfl, same, again⟩
      | _ => cases accepted
  | object props additional ihProps ihAdditional =>
      simp only [plain, Bool.and_eq_true, decide_eq_true_eq] at simple
      obtain ⟨⟨⟨names, named⟩, simpleProps⟩, simpleAdditional⟩ := simple
      cases v with
      | obj own proto =>
          rcases clean with ⟨⟨⟩⟩ | document
          cases document with
          | obj distinct ordinary cleans =>
          refine transformObject_persists (.obj distinct ordinary cleans) names named
            (fun p here w made => ?_) (fun entry here w made => ?_) accepted
          · refine ihProps p here (plainProps_mem simpleProps p here) ?_ made
            rcases getOwn_cases distinct [] p.1 with ⟨-, none⟩ | inside
            · exact .inl none
            · exact .inr (cleans _ inside)
          · exact ihAdditional simpleAdditional (.inr (cleans entry here)) made
      | _ => cases accepted

/-- What a file is kept as: the result of the first parser that accepts it. -/
def loadedData (json : JsVal) : Option JsVal :=
  match transform TypeMap.execJSON json with
  | .ok data => some data
  | .error _ =>
      match transform TypeMap.execJsonmin json with
      | .ok data => some data
      | .error _ =>
          match transform TypeMap.profileJSON json with
          | .ok data => some data
          | .error _ => none

theorem plain_execJsonmin : plain TypeMap.execJsonmin = true := by decide +kernel

/-- The parsers see of a document what the type map makes of it. -/
theorem toExecJSON_congr {a b : JsVal}
    (same : transform TypeMap.execJSON a = transform TypeMap.execJSON b) :
    toExecJSON a = toExecJSON b := by
  unfold toExecJSON
  split <;> split
  all_goals rename_i left _ right
  all_goals rw [left, right] at same
  all_goals cases same
  all_goals rfl

theorem toProfileJSON_congr {a b : JsVal}
    (same : transform TypeMap.profileJSON a = transform TypeMap.profileJSON b) :
    toProfileJSON a = toProfileJSON b := by
  unfold toProfileJSON
  split <;> split
  all_goals rename_i left _ right
  all_goals rw [left, right] at same
  all_goals cases same
  all_goals rfl

theorem rejects_of_error {typ : Typ} {v : JsVal} {e : JsError}
    (rejected : transform typ v = .error e) : ¬ Accepts typ v := by
  rintro ⟨w, accepted⟩
  rw [rejected] at accepted
  cases accepted

theorem error_of_rejects {typ : Typ} {v : JsVal} (rejects : ¬ Accepts typ v) :
    ∃ e, transform typ v = .error e := by
  cases result : transform typ v with
  | error e => exact ⟨e, rfl⟩
  | ok w => exact absurd ⟨w, result⟩ rejects

/-- A type that rejects a document rejects what another type makes of it. -/
theorem Persists.rejects {typ other : Typ} {v w : JsVal} {e : JsError}
    (persists : Persists typ v w) (rejected : transform other v = .error e) :
    ∃ e', transform other w.persist = .error e' :=
  error_of_rejects fun accepts =>
    rejects_of_error rejected ((accepts_iff_of_same persists.same).mpr accepts)

theorem toExecJSON_rejected {json : JsVal} {e : JsError}
    (rejected : transform TypeMap.execJSON json = .error e) : toExecJSON json = .error e := by
  unfold toExecJSON
  split
  all_goals rename_i result
  all_goals rw [rejected] at result
  all_goals cases result
  rfl

theorem toExecJsonmin_rejected {json : JsVal} {e : JsError}
    (rejected : transform TypeMap.execJsonmin json = .error e) :
    toExecJsonmin json = .error e := by
  rw [toExecJsonmin, rejected]
  rfl

/-- A loaded file that was written out loads as the same data and the same conversion. -/
theorem convertFile_persist {json data : JsVal} (clean : Clean json)
    (loaded : loadedData json = some data) :
    loadedData data.persist = some data ∧
      convertFile (some data.persist) = convertFile (some json) := by
  unfold loadedData at loaded
  cases exec : transform TypeMap.execJSON json with
  | ok w =>
      rw [exec] at loaded
      cases loaded
      have again := (transform_persists plain_execJSON (.inr clean) exec).again
      obtain ⟨evaluation, read⟩ := reads_execJSON data (transform_typed plain_execJSON exec)
      have accepted := toExecJSON_eq_ok.mpr ⟨data, exec, read⟩
      have same := toExecJSON_congr (again.trans exec.symm)
      exact ⟨by rw [loadedData, again], by simp only [convertFile, same, accepted]⟩
  | error e =>
      rw [exec] at loaded
      have before := toExecJSON_rejected exec
      cases min : transform TypeMap.execJsonmin json with
      | ok w =>
          rw [min] at loaded
          cases loaded
          have persists := transform_persists plain_execJsonmin (.inr clean) min
          obtain ⟨e₁, rejected⟩ := persists.rejects exec
          have after := toExecJSON_rejected rejected
          refine ⟨by rw [loadedData, rejected, persists.again], ?_⟩
          simp only [convertFile, before, after, toExecJsonmin, min, persists.again]
          rfl
      | error e' =>
          rw [min] at loaded
          have beforeMin := toExecJsonmin_rejected min
          cases profile : transform TypeMap.profileJSON json with
          | error e'' =>
              rw [profile] at loaded
              cases loaded
          | ok w =>
              rw [profile] at loaded
              cases loaded
              have persists := transform_persists plain_profileJSON (.inr clean) profile
              obtain ⟨e₁, rejected⟩ := persists.rejects exec
              obtain ⟨e₂, rejectedMin⟩ := persists.rejects min
              have after := toExecJSON_rejected rejected
              have afterMin := toExecJsonmin_rejected rejectedMin
              have same := toProfileJSON_congr (persists.again.trans profile.symm)
              refine ⟨by rw [loadedData, rejected, rejectedMin, persists.again], ?_⟩
              simp only [convertFile, before, after, beforeMin, afterMin, same]

theorem clean_sampleObject {entries : List (String × JsVal)}
    (keys : ((entries.map fun entry => js entry.1).Nodup ∧
      js "__proto__" ∉ entries.map fun entry => js entry.1))
    (values : ∀ entry ∈ entries, Clean entry.2) : Clean (sampleObject entries) := by
  obtain ⟨distinct, ordinary⟩ := keys
  refine .obj ?_ ?_ ?_
  · rwa [List.map_map]
  · rwa [List.map_map]
  · intro entry here
    obtain ⟨e, mem, rfl⟩ := List.mem_map.mp here
    exact values e mem

theorem clean_sampleControl (id : String) : Clean (sampleControl id []) := by
  refine clean_sampleObject (by simp only [List.map_cons, List.map_nil]; decide +kernel) ?_
  simp only [List.forall_mem_cons]
  refine ⟨.str _, .num _, .arr (by simp), .arr (by simp), ?_, ?_, by simp⟩
  · exact clean_sampleObject (by decide) (by simp)
  · exact clean_sampleObject (by decide) (by simp)

theorem clean_wrappedJson : Clean wrappedJson := by
  have none : Clean (sampleObject []) := clean_sampleObject (by decide) (by simp)
  have controls : Clean (.arr [sampleControl "C-1" []]) :=
    .arr (by simpa using clean_sampleControl "C-1")
  have empty : Clean (.arr []) := .arr (by simp)
  refine clean_sampleObject (by decide +kernel) ?_
  simp only [List.forall_mem_cons]
  refine ⟨?_, .arr ?_, none, .str _, by simp⟩
  · exact clean_sampleObject (by decide +kernel) (by simp [Clean.str])
  · simp only [List.forall_mem_cons]
    refine ⟨?_, ?_, by simp⟩
    all_goals refine clean_sampleObject (by decide +kernel) ?_
    all_goals simp [Clean.str, empty, controls]

/-- The wrapper and its base are written out and loaded again. -/
theorem convertFile_persist_wrapped : ∃ data, loadedData wrappedJson = some data ∧
    loadedData data.persist = some data ∧
      convertFile (some data.persist) = convertFile (some wrappedJson) := by
  obtain ⟨data, accepted, -⟩ := toExecJSON_eq_ok.mp wrapped_accepted
  have loaded : loadedData wrappedJson = some data := by rw [loadedData, accepted]
  exact ⟨data, loaded, convertFile_persist clean_wrappedJson loaded⟩

end Inspec
