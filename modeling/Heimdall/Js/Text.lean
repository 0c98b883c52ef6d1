import Mathlib.Data.List.Basic

/-!
# JavaScript strings

A string is a sequence of UTF-16 code units, lone surrogates included. The character
classes are those of the regular expressions without the `u` flag, which look at one
code unit at a time.
-/
namespace Js

abbrev CodeUnit := UInt16

abbrev JsString := List CodeUnit

instance : LawfulBEq JsString := inferInstance

/-- The code units of one Unicode scalar value. -/
def utf16 (c : Char) : JsString :=
  if c.toNat < 0x10000 then [c.toNat.toUInt16]
  else [(0xD800 + (c.toNat - 0x10000) / 0x400).toUInt16,
    (0xDC00 + (c.toNat - 0x10000) % 0x400).toUInt16]

/-- A string literal of the source. -/
def js (s : String) : JsString := s.toList.flatMap utf16

def inRange (lo hi : ℕ) (c : CodeUnit) : Bool := decide (lo ≤ c.toNat) && decide (c.toNat ≤ hi)

def isLower : CodeUnit → Bool := inRange 97 122

def isUpper : CodeUnit → Bool := inRange 65 90

def isDigit : CodeUnit → Bool := inRange 48 57

/-- `\w` -/
def isWord (c : CodeUnit) : Bool := isLower c || isUpper c || isDigit c || c == 95

/-- `\n`, `\r`, U+2028 and U+2029, the only code units that `.` does not match. -/
def isLineTerminator (c : CodeUnit) : Bool := c == 10 || c == 13 || inRange 0x2028 0x2029 c

/-- `\s`: white space and line terminators. -/
def isSpace (c : CodeUnit) : Bool :=
  inRange 9 13 c || c == 32 || c == 0xA0 || c == 0x1680 || inRange 0x2000 0x200A c ||
    inRange 0x2028 0x2029 c || c == 0x202F || c == 0x205F || c == 0x3000 || c == 0xFEFF

/-- `[^\w\s]` -/
def isSpecial (c : CodeUnit) : Bool := !isWord c && !isSpace c

def isHighSurrogate : CodeUnit → Bool := inRange 0xD800 0xDBFF

def isLowSurrogate : CodeUnit → Bool := inRange 0xDC00 0xDFFF

def trim (s : JsString) : JsString :=
  ((s.dropWhile isSpace).reverse.dropWhile isSpace).reverse

def join (sep : JsString) : List JsString → JsString
  | [] => []
  | [s] => s
  | s :: t :: rest => s ++ sep ++ join sep (t :: rest)

/-- The value of a run of decimal digits, as `Number.parseInt` reads it. -/
def parseDigits (s : JsString) : ℕ := s.foldl (fun n c => 10 * n + (c.toNat - 48)) 0

/-- Functions of the string library that are driven by Unicode tables. -/
class UnicodeTables where
  /-- `localeCompare(other, 'en', {numeric: true})` -/
  localeCompare : JsString → JsString → Int
  toLowerCase : JsString → JsString

@[reducible] def asciiTables : UnicodeTables where
  localeCompare a b :=
    if a.map UInt16.toNat < b.map UInt16.toNat then -1 else if a = b then 0 else 1
  toLowerCase s := s.map fun c => if isUpper c then c + 32 else c

end Js
