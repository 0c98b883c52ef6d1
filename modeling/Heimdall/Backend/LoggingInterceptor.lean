import Heimdall.Lib.Regex
import Heimdall.Js.Heap

/-!
# Redaction of logged request bodies

`LoggingInterceptor` logs a deep copy of the body in which it overwrites the values at
sensitive keys, and hands the body on to the handler. The copy is made and changed in
memory, so that a write to a shared cell would show in the body.
-/
namespace Backend
open Js Lib

/-- A regular expression, tested at the start of a key only or anywhere in it. -/
structure KeyPattern where
  anchored : Bool
  regex : Regex CodeUnit

def KeyPattern.test (pattern : KeyPattern) (key : JsString) : Bool :=
  if pattern.anchored then pattern.regex.matchesStart key else pattern.regex.test key

/-- Letters of either case, given in lower case. -/
def ignoreCase (s : String) : Regex CodeUnit :=
  .word ((js s).map fun d c => (if isUpper c then c + 32 else c) == d)

namespace LoggingInterceptor

def sensitiveKeys : List KeyPattern :=
  [⟨false, ignoreCase "cookie"⟩,
   ⟨false, .seq (ignoreCase "passw") (.seq (.opt (.group 1 (ignoreCase "or"))) (ignoreCase "d"))⟩,
   ⟨true, .seq (.literal (js "pw")) .done⟩,
   ⟨true, .seq (ignoreCase "pass") .done⟩,
   ⟨false, ignoreCase "secret"⟩,
   ⟨false, ignoreCase "token"⟩,
   ⟨false, .seq (ignoreCase "api")
     (.seq (.opt (.word [fun c => (js "-._").contains c])) (ignoreCase "key"))⟩,
   ⟨false, ignoreCase "data"⟩]

def isSensitive (key : JsString) : Bool := sensitiveKeys.any fun regex => regex.test key

example : ["newPasswd", "API-Key", "pw", "metadata"].all fun key => isSensitive (js key) := by
  decide +kernel

example : ["pwd", "username", "compass", "PW"].all fun key => !isSensitive (js key) := by
  decide +kernel

def marker : JsString := js "[REDACTED]"

/-- Overwrite one property of the object at `obj`. -/
def redactKey (obj : ℕ) (h : Heap) (key : JsString) : Heap :=
  if isSensitive key then h.modify obj fun cell => cell.assign key (.atom (.str marker)) else h

def redactObject (h : Heap) (obj : ℕ) : Heap :=
  match h[obj]? with
  | some cell => cell.keys.foldl (redactKey obj) h
  | none => h

/-- The memory after the call, and the object that is logged. -/
def redact (cloneDeep : Heap → ℕ → Heap × ℕ) (h : Heap) (obj : ℕ) : Heap × ℕ :=
  (redactObject (cloneDeep h obj).1 (cloneDeep h obj).2, (cloneDeep h obj).2)

/-! What a redacted body is, and what the code makes of it. -/

mutual

/-- The value with the marker at every sensitive key. -/
def redacted : JsVal → JsVal
  | .undefined => .undefined
  | .null => .null
  | .bool b => .bool b
  | .num n => .num n
  | .str s => .str s
  | .arr items => .arr (redactedItems items)
  | .obj props proto => .obj (redactedProps props) proto

def redactedItems : List JsVal → List JsVal
  | [] => []
  | v :: items => redacted v :: redactedItems items

def redactedProps : List (JsString × JsVal) → List (JsString × JsVal)
  | [] => []
  | (key, v) :: props =>
      (key, if isSensitive key then .str marker else redacted v) :: redactedProps props

end

def isMarker : JsVal → Bool
  | .str s => s == marker
  | _ => false

mutual

/-- Every sensitive key holds the marker already. -/
def clean : JsVal → Bool
  | .arr items => cleanItems items
  | .obj props _ => cleanProps props
  | .undefined | .null | .bool _ | .num _ | .str _ => true

def cleanItems : List JsVal → Bool
  | [] => true
  | v :: items => clean v && cleanItems items

def cleanProps : List (JsString × JsVal) → Bool
  | [] => true
  | (key, v) :: props => (if isSensitive key then isMarker v else clean v) && cleanProps props

end

/-- The same below the top level, the values of sensitive keys aside. -/
def cleanBelow : JsVal → Bool
  | .arr items => cleanItems items
  | .obj props _ => props.all fun p => isSensitive p.1 || clean p.2
  | .undefined | .null | .bool _ | .num _ | .str _ => true

def redactEntry (p : JsString × JsVal) : JsString × JsVal :=
  (p.1, if isSensitive p.1 then .str marker else p.2)

/-- The value with the marker at the sensitive keys of the top level. -/
def redactedTop : JsVal → JsVal
  | .obj props proto => .obj (props.map redactEntry) proto
  | v => v

theorem isMarker_iff {v : JsVal} : .str marker = v ↔ isMarker v = true := by
  cases v with
  | str s =>
      rw [JsVal.str.injEq, isMarker, beq_iff_eq]
      exact eq_comm
  | _ => simp [isMarker]

mutual

/-- Exactly the clean values need no redaction. -/
theorem redacted_eq_self : (v : JsVal) → (redacted v = v ↔ clean v = true)
  | .undefined | .null | .bool _ | .num _ | .str _ => iff_of_true rfl rfl
  | .arr items => by simp [redacted, clean, redactedItems_eq_self items]
  | .obj props proto => by simp [redacted, clean, redactedProps_eq_self props]

theorem redactedItems_eq_self : (items : List JsVal) →
    (redactedItems items = items ↔ cleanItems items = true)
  | [] => iff_of_true rfl rfl
  | v :: items => by
      simp [redactedItems, cleanItems, redacted_eq_self v, redactedItems_eq_self items]

theorem redactedProps_eq_self : (props : List (JsString × JsVal)) →
    (redactedProps props = props ↔ cleanProps props = true)
  | [] => iff_of_true rfl rfl
  | (key, v) :: props => by
      cases sensitive : isSensitive key <;>
        simp [redactedProps, cleanProps, sensitive, isMarker_iff, redacted_eq_self v,
          redactedProps_eq_self props]

end

theorem self_eq_redacted (v : JsVal) : v = redacted v ↔ clean v = true :=
  eq_comm.trans (redacted_eq_self v)

theorem redactedTop_props (props : List (JsString × JsVal)) :
    props.map redactEntry = redactedProps props ↔
      props.all (fun p => isSensitive p.1 || clean p.2) = true := by
  induction props with
  | nil => exact iff_of_true rfl rfl
  | cons p props ih =>
      obtain ⟨key, v⟩ := p
      rw [List.map_cons, redactedProps, List.cons_eq_cons, ih, List.all_cons, Bool.and_eq_true]
      refine and_congr_left fun _ => ?_
      cases sensitive : isSensitive key <;> simp [redactEntry, sensitive, self_eq_redacted]

/-- The top level is all there is to redact exactly if it is clean below. -/
theorem redactedTop_eq_redacted (v : JsVal) : redactedTop v = redacted v ↔ cleanBelow v = true := by
  cases v with
  | arr items =>
      rw [redactedTop, redacted, JsVal.arr.injEq, cleanBelow, ← redactedItems_eq_self]
      · exact eq_comm
      · rintro _ _ ⟨⟩
  | obj props proto =>
      rw [redactedTop, redacted, JsVal.obj.injEq, and_iff_left rfl, cleanBelow, redactedTop_props]
  | undefined | null | bool b | num n | str s => exact iff_of_true rfl rfl

/-! The keys. -/

theorem not_isDigit_of_fold {c d : CodeUnit} (lower : isLower d = true)
    (same : ((if isUpper c then c + 32 else c) == d) = true) : (!isDigit c) = true := by
  have folded := beq_iff_eq.mp same
  split at folded
  · rename_i upper
    simp only [isUpper, isDigit, inRange, Bool.and_eq_true, decide_eq_true_eq, Bool.not_eq_true',
      Bool.and_eq_false_iff, decide_eq_false_iff_not] at upper ⊢
    omega
  · subst folded
    simp only [isLower, isDigit, inRange, Bool.and_eq_true, decide_eq_true_eq, Bool.not_eq_true',
      Bool.and_eq_false_iff, decide_eq_false_iff_not] at lower ⊢
    omega

/-- A sensitive key has a symbol other than a digit. -/
theorem isSensitive_needs {key : JsString} (sensitive : isSensitive key = true) :
    ∃ c ∈ key, (!isDigit c) = true := by
  obtain ⟨pattern, listed, found⟩ := List.any_eq_true.mp sensitive
  have needs : pattern.regex.Needs fun c => !isDigit c := by
    simp only [sensitiveKeys, List.mem_cons, List.not_mem_nil, or_false] at listed
    have fold {d : CodeUnit} (lower : isLower d = true) (c : CodeUnit) :=
      @not_isDigit_of_fold c d lower
    rcases listed with rfl | rfl | rfl | rfl | rfl | rfl | rfl | rfl
    · exact Regex.needs_word (fold rfl)
    · exact (Regex.needs_word (fold rfl)).seq _
    · exact (Regex.needs_word fun c same => by rw [beq_iff_eq.mp same]; rfl).seq _
    · exact (Regex.needs_word (fold rfl)).seq _
    · exact Regex.needs_word (fold rfl)
    · exact Regex.needs_word (fold rfl)
    · exact (Regex.needs_word (fold rfl)).seq _
    · exact Regex.needs_word (fold rfl)
  unfold KeyPattern.test at found
  split at found
  · exact needs.matchesStart found
  · exact needs.test found

theorem isSensitive_decimal (n : ℕ) : isSensitive (decimal n) = false := by
  by_contra sensitive
  obtain ⟨c, hc, other⟩ := isSensitive_needs (Bool.not_eq_false _ ▸ sensitive)
  simp [isDigit_of_mem_decimal hc] at other

/-! The writes. -/

/-- The cell with the marker at those of the keys that are sensitive. -/
def redactCell (keys : List JsString) (cell : Cell) : Cell :=
  keys.foldl (fun cell key =>
    if isSensitive key then cell.assign key (.atom (.str marker)) else cell) cell

theorem foldl_redactKey (obj : ℕ) (h : Heap) (keys : List JsString) :
    keys.foldl (redactKey obj) h = h.modify obj (redactCell keys) := by
  induction keys generalizing h with
  | nil => exact (List.modify_id obj h).symm
  | cons key keys ih =>
      rw [List.foldl_cons, ih, redactKey]
      cases sensitive : isSensitive key
      · have step : redactCell (key :: keys) = redactCell keys := by
          funext cell
          simp [redactCell, sensitive]
        rw [if_neg Bool.false_ne_true, step]
      · have step : redactCell (key :: keys) =
            redactCell keys ∘ fun cell => cell.assign key (.atom (.str marker)) := by
          funext cell
          simp [redactCell, sensitive]
        rw [if_pos rfl, List.modify_modify_eq, step]

/-- What a property becomes. -/
def redactSlot (keys : List JsString) (p : JsString × Slot) : JsString × Slot :=
  (p.1, if isSensitive p.1 ∧ p.1 ∈ keys then .atom (.str marker) else p.2)

theorem redactCell_props (keys : List JsString) (cell : Cell) :
    (redactCell keys cell).isArray = cell.isArray ∧
      (redactCell keys cell).props = cell.props.map (redactSlot keys) := by
  induction keys generalizing cell with
  | nil =>
      have same : redactSlot [] = id := by
        funext p
        simp [redactSlot]
      exact ⟨rfl, by simp [redactCell, same]⟩
  | cons key keys ih =>
      cases sensitive : isSensitive key
      · have step : redactCell (key :: keys) cell = redactCell keys cell := by
          simp [redactCell, sensitive]
        have same : redactSlot (key :: keys) = redactSlot keys := by
          funext p
          by_cases here : p.1 = key <;> simp [redactSlot, here, sensitive]
        rw [step, same]
        exact ih cell
      · have step : redactCell (key :: keys) cell =
            redactCell keys (cell.assign key (.atom (.str marker))) := by
          simp [redactCell, sensitive]
        obtain ⟨array, props⟩ := ih (cell.assign key (.atom (.str marker)))
        rw [step, array, props]
        refine ⟨rfl, ?_⟩
        simp only [Cell.assign, save, List.map_map]
        refine List.map_congr_left fun p _ => ?_
        by_cases here : p.1 = key <;> simp [redactSlot, here, sensitive]

theorem mem_keys {cell : Cell} {p : JsString × Slot} (hp : p ∈ cell.props) : p.1 ∈ cell.keys :=
  List.mem_map_of_mem (cell.props.entries_perm.mem_iff.mpr hp)

theorem build_redactCell {cell : Cell} {values : List (JsString × JsVal)}
    (keys : cell.props.map Prod.fst = values.map Prod.fst) :
    (redactCell cell.keys cell).build (values.map redactEntry) =
      redactedTop (cell.build values) := by
  unfold Cell.build
  rw [(redactCell_props cell.keys cell).1]
  cases array : cell.isArray
  · rfl
  · have plain : values.map redactEntry = values := by
      refine (List.map_congr_left fun q hq => ?_).trans (List.map_id values)
      have index : q.1 ∈ values.map Prod.fst := List.mem_map_of_mem hq
      rw [← keys, cell.indexed array] at index
      obtain ⟨i, -, same⟩ := List.mem_map.mp index
      have other : isSensitive q.1 = false := same ▸ isSensitive_decimal i
      simp [redactEntry, other]
    rw [plain]
    rfl

theorem redactObject_eq {h : Heap} {r : ℕ} {cell : Cell} (here : h[r]? = some cell) :
    redactObject h r = h.set r (redactCell cell.keys cell) := by
  obtain ⟨bound, found⟩ := List.getElem?_eq_some_iff.mp here
  simp only [redactObject, here, foldl_redactKey]
  refine List.ext_getElem? fun i => ?_
  rw [List.getElem?_modify, List.getElem?_set]
  by_cases same : r = i
  · subst same
    simp [bound, found]
  · simp [same]

/-- The object itself is redacted, and what lies below it is kept. -/
theorem redactObject_holds {h : Heap} {r : ℕ} {v : JsVal} (holds : Holds h (.ref r) v) :
    Holds (redactObject h r) (.ref r) (redactedTop v) := by
  obtain ⟨cell, values, here, entries, rfl⟩ := Holds.ref_iff.mp holds
  obtain ⟨keys, -⟩ := forall₂_entry.mp entries
  obtain ⟨bound, -⟩ := List.getElem?_eq_some_iff.mp here
  rw [redactObject_eq here]
  refine Holds.ref_iff.mpr ⟨redactCell cell.keys cell, values.map redactEntry,
    List.getElem?_set_self bound, ?_, (build_redactCell keys).symm⟩
  rw [(redactCell_props cell.keys cell).2, List.forall₂_map_left_iff, List.forall₂_map_right_iff]
  refine (forall₂_mem entries).imp fun p q e => ?_
  obtain ⟨hq, same, part⟩ := e
  have own : p.1 ∈ cell.keys := by
    have index : q.1 ∈ values.map Prod.fst := List.mem_map_of_mem hq
    rw [← keys] at index
    obtain ⟨p', hp', same'⟩ := List.mem_map.mp index
    rw [same, ← same']
    exact mem_keys hp'
  refine ⟨same, ?_⟩
  cases sensitive : isSensitive p.1
  · have kept := @Holds.set_part h r (redactCell cell.keys cell) _ _ _ holds part
      (Holds.sizeOf_build_lt hq)
    simpa [redactSlot, redactEntry, sensitive, ← same] using kept
  · have marked := @Holds.atom (h.set r (redactCell cell.keys cell)) (.str marker)
    simpa [redactSlot, redactEntry, sensitive, ← same, own, Atom.value] using marked

/-- A clone is a new object that holds the same value; what was there before is kept. -/
structure ClonesDeep (cloneDeep : Heap → ℕ → Heap × ℕ) : Prop where
  kept : ∀ h r, ∀ q < h.length, (cloneDeep h r).1[q]? = h[q]?
  fresh : ∀ h r v, Holds h (.ref r) v → h.length ≤ (cloneDeep h r).2
  same : ∀ h r v, Holds h (.ref r) v → Holds (cloneDeep h r).1 (.ref (cloneDeep h r).2) v

variable {cloneDeep : Heap → ℕ → Heap × ℕ}

theorem redact_logged (clones : ClonesDeep cloneDeep) {h : Heap} {body : ℕ} {v : JsVal}
    (holds : Holds h (.ref body) v) :
    Holds (redact cloneDeep h body).1 (.ref (redact cloneDeep h body).2) (redactedTop v) :=
  redactObject_holds (clones.same h body v holds)

/-- Only the copy is written to. -/
theorem redact_body (clones : ClonesDeep cloneDeep) {h : Heap} {body : ℕ} {v : JsVal}
    (holds : Holds h (.ref body) v) : Holds (redact cloneDeep h body).1 (.ref body) v := by
  refine holds.extend fun q hq => ?_
  obtain ⟨cell, values, here, -, -⟩ := Holds.ref_iff.mp (clones.same h body v holds)
  have other : (cloneDeep h body).2 ≠ q := by
    have new := clones.fresh h body v holds
    omega
  rw [redact, redactObject_eq here, List.getElem?_set_ne other]
  exact clones.kept h body q hq

/-- The log entry is the redacted body exactly if the body is clean below its top level; the
body itself is never changed. -/
theorem redact_iff (clones : ClonesDeep cloneDeep) {h : Heap} {body : ℕ} {v : JsVal}
    (holds : Holds h (.ref body) v) :
    Holds (redact cloneDeep h body).1 (.ref (redact cloneDeep h body).2) (redacted v) ∧
      Holds (redact cloneDeep h body).1 (.ref body) v ↔ cleanBelow v = true := by
  rw [and_iff_left (redact_body clones holds), ← redactedTop_eq_redacted]
  have logged := redact_logged clones holds
  constructor
  · exact logged.unique
  · intro same
    rwa [← same]

/-- Bodies that differ in sensitive values only, and are clean below, are logged alike. -/
theorem redact_alike (clones : ClonesDeep cloneDeep) {h h' : Heap} {body body' : ℕ}
    {v w logged : JsVal} (holds : Holds h (.ref body) v) (holds' : Holds h' (.ref body') w)
    (cleanV : cleanBelow v = true) (cleanW : cleanBelow w = true) (alike : redacted v = redacted w)
    (log : Holds (redact cloneDeep h body).1 (.ref (redact cloneDeep h body).2) logged) :
    Holds (redact cloneDeep h' body').1 (.ref (redact cloneDeep h' body').2) logged := by
  have entry := log.unique (redact_logged clones holds)
  rw [(redactedTop_eq_redacted v).mpr cleanV, alike, ← (redactedTop_eq_redacted w).mpr cleanW]
    at entry
  rw [entry]
  exact redact_logged clones holds'

/-! A clone that copies every cell, the unreachable ones too. -/

def shiftSlot (k : ℕ) : Slot → Slot
  | .atom a => .atom a
  | .ref r => .ref (k + r)

def shiftCell (k : ℕ) (cell : Cell) : Cell where
  isArray := cell.isArray
  props := cell.props.map fun p => (p.1, shiftSlot k p.2)
  indexed array := by
    rw [List.map_map, List.length_map, ← cell.indexed array]
    rfl

def cloneAll (h : Heap) (r : ℕ) : Heap × ℕ := (h ++ h.map (shiftCell h.length), h.length + r)

theorem holds_shift {h : Heap} {s : Slot} {v : JsVal} (holds : Holds h s v) :
    Holds (h ++ h.map (shiftCell h.length)) (shiftSlot h.length s) v := by
  refine Holds.induct (P := fun s v => Holds (h ++ h.map (shiftCell h.length))
    (shiftSlot h.length s) v) Holds.atom ?_ holds
  intro r cell values here entries
  refine Holds.ref_iff.mpr ⟨shiftCell h.length cell, values, ?_, ?_, rfl⟩
  · rw [List.getElem?_append_right (Nat.le_add_right _ _), Nat.add_sub_cancel_left,
      List.getElem?_map, here]
    rfl
  · refine List.forall₂_map_left_iff.mpr (entries.imp fun p q e => ?_)
    exact ⟨e.1, e.2.2⟩

theorem cloneAll_clonesDeep : ClonesDeep cloneAll where
  kept _ _ _ hq := List.getElem?_append_left hq
  fresh _ _ _ _ := Nat.le_add_right _ _
  same _ _ _ holds := holds_shift holds

/-- `{"username": "alice", "password": "x"}` -/
def flatBody : Cell where
  isArray := false
  props := [(js "username", .atom (.str (js "alice"))), (js "password", .atom (.str (js "x")))]
  indexed := by rintro ⟨⟩

theorem flatBody_holds : Holds [flatBody] (.ref 0) (.object
    [(js "username", .str (js "alice")), (js "password", .str (js "x"))]) :=
  .ref 0 flatBody [(js "username", .str (js "alice")), (js "password", .str (js "x"))] rfl rfl
    (.cons (.atom _) (.cons (.atom _) .nil))

theorem redact_iff_flat :
    Holds (redact cloneAll [flatBody] 0).1 (.ref 1)
      (redacted (.object [(js "username", .str (js "alice")), (js "password", .str (js "x"))])) :=
  ((redact_iff cloneAll_clonesDeep flatBody_holds).mpr (by decide +kernel)).1

/-- `{"user": {"password": "x"}}`, the inner object in the second cell. -/
def nestedBody : Heap :=
  [⟨false, [(js "user", .ref 1)], by rintro ⟨⟩⟩,
   ⟨false, [(js "password", .atom (.str (js "x")))], by rintro ⟨⟩⟩]

def nestedValue : JsVal := .object [(js "user", .object [(js "password", .str (js "x"))])]

theorem nestedBody_holds : Holds nestedBody (.ref 0) nestedValue :=
  .ref 0 ⟨false, [(js "user", .ref 1)], by rintro ⟨⟩⟩
    [(js "user", .object [(js "password", .str (js "x"))])] rfl rfl
    (.cons (.ref 1 ⟨false, [(js "password", .atom (.str (js "x")))], by rintro ⟨⟩⟩
      [(js "password", .str (js "x"))] rfl rfl (.cons (.atom _) .nil)) .nil)

/-- The password is logged as it was sent. -/
theorem nested_password_logged :
    Holds (redact cloneAll nestedBody 0).1 (.ref 2) nestedValue ∧
      ¬ Holds (redact cloneAll nestedBody 0).1 (.ref 2) (redacted nestedValue) := by
  have untouched : redactedTop nestedValue = nestedValue := by
    have other : isSensitive (js "user") = false := by decide +kernel
    simp [redactedTop, nestedValue, JsVal.object, redactEntry, other]
  have logged := redact_logged cloneAll_clonesDeep nestedBody_holds
  rw [untouched] at logged
  refine ⟨logged, fun complete => ?_⟩
  have unclean : clean nestedValue = false := by decide +kernel
  have same := (redacted_eq_self nestedValue).mp (complete.unique logged)
  rw [unclean] at same
  cases same

end LoggingInterceptor

end Backend
