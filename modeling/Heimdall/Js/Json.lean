import Heimdall.Lib.Encoding
import Heimdall.Js.Pattern

/-!
# JSON texts

`JSON.stringify` for an object whose properties are booleans, strings and arrays of strings.
Nothing is lost: the text determines the properties and their order.
-/
namespace Js
open Lib

section Stringify

inductive JsonValue where
  | bool (b : Bool)
  | str (s : JsString)
  | strs (items : List JsString)
  deriving DecidableEq

def JsonValue.text : JsonValue → JsString
  | .bool true => js "true"
  | .bool false => js "false"
  | .str s => quote s
  | .strs items => stringifyArray (items.map quote)

/-- `JSON.stringify` of an object, without the properties that are undefined. -/
def stringify (props : List (JsString × JsonValue)) : JsString :=
  js "\x7b" ++ join (js ",") (props.map fun p => quote p.1 ++ js ":" ++ p.2.text) ++ js "\x7d"

end Stringify

section Read

def unhex (d : CodeUnit) : ℕ := if d.toNat < 58 then d.toNat - 48 else d.toNat - 87

/-- The unit that a short escape stands for. -/
def shortEscape (c : CodeUnit) : CodeUnit :=
  if c = 98 then 8 else if c = 116 then 9 else if c = 110 then 10 else if c = 102 then 12
  else if c = 114 then 13 else c

/-- Reads up to the closing quote. -/
def readQuoted : JsString → Option (JsString × JsString)
  | [] => none
  | 34 :: rest => some ([], rest)
  | 92 :: 117 :: a :: b :: c :: d :: rest =>
      (readQuoted rest).map fun p =>
        ((4096 * unhex a + 256 * unhex b + 16 * unhex c + unhex d).toUInt16 :: p.1, p.2)
  | 92 :: c :: rest => (readQuoted rest).map fun p => (shortEscape c :: p.1, p.2)
  | c :: rest => (readQuoted rest).map fun p => (c :: p.1, p.2)

theorem unhex_hexDigit : ∀ n < 16, unhex (hexDigit n) = n := by decide

theorem unicodeEscape_read (c : CodeUnit) (rest : JsString) :
    readQuoted (unicodeEscape c ++ rest) = (readQuoted rest).map fun p => (c :: p.1, p.2) := by
  have bound : c.toNat < 65536 := c.toNat_lt
  have digits : (4096 * unhex (hexDigit (c.toNat / 4096)) +
      256 * unhex (hexDigit (c.toNat / 256 % 16)) + 16 * unhex (hexDigit (c.toNat / 16 % 16)) +
      unhex (hexDigit (c.toNat % 16))).toUInt16 = c := by
    rw [unhex_hexDigit _ (by omega), unhex_hexDigit _ (by omega), unhex_hexDigit _ (by omega),
      unhex_hexDigit _ (by omega)]
    rw [show 4096 * (c.toNat / 4096) + 256 * (c.toNat / 256 % 16) + 16 * (c.toNat / 16 % 16) +
      c.toNat % 16 = c.toNat by omega]
    exact UInt16.ofNat_toNat
  show (readQuoted rest).map _ = _
  rw [digits]

/-- A unit that stands for itself. -/
theorem plain_read {c : CodeUnit} (rest : JsString) (quote : c ≠ 34) (slash : c ≠ 92) :
    readQuoted (c :: rest) = (readQuoted rest).map fun p => (c :: p.1, p.2) := by
  rw [readQuoted]
  · exact quote
  · rintro a b d e later same -
    exact slash same
  · rintro d later same -
    exact slash same

theorem escapeUnit_read (c : CodeUnit) (rest : JsString) :
    readQuoted (escapeUnit c ++ rest) = (readQuoted rest).map fun p => (c :: p.1, p.2) := by
  unfold escapeUnit
  split
  · subst_vars; rfl
  split
  · subst_vars; rfl
  split
  · subst_vars; rfl
  split
  · subst_vars; rfl
  split
  · subst_vars; rfl
  split
  · subst_vars; rfl
  split
  · subst_vars; rfl
  split
  · exact unicodeEscape_read c rest
  · exact plain_read rest (by assumption) (by assumption)

theorem surrogate_ne {c : CodeUnit} (surrogate : (isHighSurrogate c || isLowSurrogate c) = true) :
    c ≠ 34 ∧ c ≠ 92 := by
  refine ⟨?_, ?_⟩
  · rintro rfl
    exact absurd surrogate (by decide)
  · rintro rfl
    exact absurd surrogate (by decide)

theorem unit_read (c : CodeUnit) (rest : JsString) :
    readQuoted ((if isHighSurrogate c || isLowSurrogate c then unicodeEscape c
      else escapeUnit c) ++ rest) = (readQuoted rest).map fun p => (c :: p.1, p.2) := by
  split
  · exact unicodeEscape_read c rest
  · exact escapeUnit_read c rest

/-- What was quoted is read back. -/
theorem escapeUnits_read (s rest : JsString) :
    readQuoted (escapeUnits s ++ 34 :: rest) = some (s, rest) := by
  induction s using escapeUnits.induct with
  | case1 => rfl
  | case2 c surrogate =>
      have here := unit_read c (34 :: rest)
      rw [if_pos surrogate] at here
      rw [escapeUnits, if_pos surrogate, here]
      rfl
  | case3 c plain =>
      have here := unit_read c (34 :: rest)
      rw [if_neg plain] at here
      rw [escapeUnits, if_neg plain, here]
      rfl
  | case4 c d s pair ih =>
      obtain ⟨high, low⟩ := (Bool.and_eq_true _ _).mp pair
      obtain ⟨quote, slash⟩ := surrogate_ne (c := c) (by rw [high, Bool.true_or])
      obtain ⟨quote', slash'⟩ := surrogate_ne (c := d) (by rw [low, Bool.or_true])
      rw [escapeUnits, if_pos pair, List.cons_append, List.cons_append, plain_read _ quote slash,
        plain_read _ quote' slash', ih]
      rfl
  | case5 c d s apart ih =>
      rw [escapeUnits, if_neg apart, List.append_assoc, unit_read, ih]
      rfl

theorem delimits_quote : Delimits quote := by
  intro a b s t same
  have inside : escapeUnits a ++ 34 :: s = escapeUnits b ++ 34 :: t := by
    simpa [quote] using same
  have read := escapeUnits_read a s
  rw [inside, escapeUnits_read b t] at read
  obtain ⟨rfl, rfl⟩ := Prod.mk.inj (Option.some.inj read)
  exact ⟨rfl, rfl⟩

end Read

section Injective

theorem join_close {α : Type} (code : α → JsString) (separator close : CodeUnit)
    (items : List α) : join [separator] (items.map code) ++ [close] =
      listCode code separator close items := by
  have later : ∀ (a : α) (rest : List α), join [separator] ((a :: rest).map code) ++ [close] =
      code a ++ tailCode code separator close rest := by
    intro a rest
    induction rest generalizing a with
    | nil => rfl
    | cons b rest ih =>
        rw [List.map_cons, List.map_cons, join, ← List.map_cons, List.append_assoc, ih b,
          List.append_assoc]
        rfl
  cases items with
  | nil => rfl
  | cons a rest => exact later a rest

/-- The letter that a value begins with. -/
def JsonValue.lead : JsonValue → CodeUnit
  | .bool true => 116
  | .bool false => 102
  | .str _ => 34
  | .strs _ => 91

theorem text_lead (v : JsonValue) : ∃ w, v.text = v.lead :: w := by
  cases v with
  | bool b => cases b <;> exact ⟨_, rfl⟩
  | str s => exact ⟨_, rfl⟩
  | strs items => exact ⟨_, rfl⟩

theorem delimits_strs : Delimits (listCode quote 44 93) := by
  refine delimits_quote.list (by decide) fun a => ⟨34, _, rfl, by decide⟩

theorem text_strs (items : List JsString) :
    (JsonValue.strs items).text = 91 :: listCode quote 44 93 items := by
  rw [← join_close quote 44 93 items]
  rfl

theorem delimits_text : Delimits JsonValue.text := by
  intro v w s t same
  have lead : v.lead = w.lead := by
    obtain ⟨x, left⟩ := text_lead v
    obtain ⟨y, right⟩ := text_lead w
    rw [left, right] at same
    exact (List.cons.inj same).1
  cases v with
  | bool b =>
      cases w with
      | bool b' =>
          cases b <;> cases b'
          · exact ⟨rfl, List.append_cancel_left same⟩
          · cases lead
          · cases lead
          · exact ⟨rfl, List.append_cancel_left same⟩
      | str a => cases b <;> cases lead
      | strs items => cases b <;> cases lead
  | str a =>
      cases w with
      | str b =>
          obtain ⟨rfl, rest⟩ := delimits_quote a b s t same
          exact ⟨rfl, rest⟩
      | bool b => cases b <;> cases lead
      | strs items => cases lead
  | strs items =>
      cases w with
      | strs items' =>
          rw [text_strs, text_strs] at same
          obtain ⟨rfl, rest⟩ := delimits_strs items items' s t (List.cons.inj same).2
          exact ⟨rfl, rest⟩
      | bool b => cases b <;> cases lead
      | str a => cases lead

/-- The text of an object determines its properties and their order. -/
theorem stringify_injective : Function.Injective stringify := by
  have delimits : Delimits fun p : JsString × JsonValue => quote p.1 ++ js ":" ++ p.2.text :=
    delimits_quote.pair delimits_text (js ":")
  have lists : Delimits (listCode
      (fun p : JsString × JsonValue => quote p.1 ++ js ":" ++ p.2.text) 44 125) :=
    delimits.list (by decide) fun p => ⟨34, _, rfl, by decide⟩
  intro props props' same
  apply lists.injective
  rw [← join_close, ← join_close]
  exact (List.cons.inj same).2

end Injective
end Js
