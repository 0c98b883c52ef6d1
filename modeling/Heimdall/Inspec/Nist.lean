import Mathlib.Data.List.Sort
import Heimdall.Js.Value

/-!
# NIST tags

Parsing a raw tag, comparing parsed controls, and the list of parsed tags of a control.
-/
namespace Inspec
open Js

structure NistControl where
  subSpecifiers : List JsString
  rawText : Option JsString
  deriving DecidableEq

structure NistRevision where
  revNum : JsNumber
  deriving DecidableEq

inductive ParseNist where
  | control (c : NistControl)
  | revision (r : NistRevision)
  deriving DecidableEq

section Parse

/-- `/^rev[\s_.]+(\d+)$/i`, with the digits that it captures. -/
def revMatch (rawNist : JsString) : Option JsString :=
  match rawNist with
  | r :: e :: v :: rest =>
      let digits := rest.dropWhile fun c => isSpace c || c == 95 || c == 46
      if (r == 82 || r == 114) && (e == 69 || e == 101) && (v == 86 || v == 118) &&
          decide (digits.length < rest.length) && !digits.isEmpty && digits.all isDigit
      then some digits else none
  | _ => none

def famMatch (rawNist : JsString) : Bool := rawNist.length == 2 && rawNist.all isUpper

/-- `/^([A-Z]{2})-([0-9]+)(.{0,60})$/`, with its three captures. -/
def fullMatch (rawNist : JsString) : Option (JsString × JsString × JsString) :=
  match rawNist with
  | a :: b :: dash :: rest =>
      let controlNum := rest.takeWhile isDigit
      let subspecs := rest.dropWhile isDigit
      if isUpper a && isUpper b && dash == 45 && !controlNum.isEmpty &&
          decide (subspecs.length ≤ 60) && subspecs.all fun c => !isLineTerminator c
      then some ([a, b], controlNum, subspecs) else none
  | _ => none

/-- `[\s\(\)\.]` -/
def isSpecSplitter (c : CodeUnit) : Bool := isSpace c || c == 40 || c == 41 || c == 46

/-- `split` at every run of separators. -/
def splitRuns (separator : CodeUnit → Bool) : JsString → List JsString
  | [] => [[]]
  | c :: s =>
      if separator c then
        if s.head?.any separator then splitRuns separator s else [] :: splitRuns separator s
      else (splitRuns separator s).modifyHead (c :: ·)

def parse_nist (rawNist : JsString) : Option ParseNist :=
  match revMatch rawNist with
  | some digits => some (.revision ⟨.nearest (parseDigits digits)⟩)
  | none =>
      if famMatch rawNist then some (.control ⟨[rawNist], some rawNist⟩)
      else match fullMatch rawNist with
        | none => none
        | some (family, controlNum, subspecsRaw) =>
            let subspecsSplit := (splitRuns isSpecSplitter (trim subspecsRaw)).filter (· ≠ [])
            some (.control ⟨[family, controlNum] ++ subspecsSplit, some rawNist⟩)

end Parse

namespace NistControl

/-- The loop of `compare_lineage`, from the place `i` on, with that many turns left. -/
def lineageFrom (aChain bChain : List JsString) (i : ℕ) : ℕ → ℤ
  | 0 => (bChain.length : ℤ) - aChain.length
  | turns + 1 =>
      if aChain[i]? ≠ bChain[i]? then -1 else lineageFrom aChain bChain (i + 1) turns

/-- How many enhancements `other` adds to this control; -1 if it is not below it. -/
def compare_lineage (this other : NistControl) : ℤ :=
  if this.subSpecifiers.length > other.subSpecifiers.length then -1
  else lineageFrom this.subSpecifiers other.subSpecifiers 0 this.subSpecifiers.length

def contains (this other : NistControl) : Bool := decide (this.compare_lineage other ≠ -1)

variable [UnicodeTables]

def compareChains : List JsString → List JsString → ℤ
  | a :: as, b :: bs =>
      let lc := UnicodeTables.localeCompare a b
      if lc ≠ 0 then lc else compareChains as bs
  | as, bs => (as.length : ℤ) - bs.length

def localCompare (this other : NistControl) : ℤ :=
  compareChains this.subSpecifiers other.subSpecifiers

end NistControl

section Tags

def unmapped : JsString := js "UM-1"

/-- Keep the first control of every chain of specifiers; remember the last revision. -/
def collectTags : List (Option ParseNist) → List JsString → List NistControl × Option NistRevision
  | [], _ => ([], none)
  | none :: rest, seenSpecs => collectTags rest seenSpecs
  | some (.control x) :: rest, seenSpecs =>
      let specChain := join (js "-") x.subSpecifiers
      if specChain ∈ seenSpecs then collectTags rest seenSpecs
      else
        let tags := collectTags rest (specChain :: seenSpecs)
        (x :: tags.1, tags.2)
  | some (.revision x) :: rest, seenSpecs =>
      let tags := collectTags rest seenSpecs
      (tags.1, tags.2.or (some x))

def stub : List NistControl :=
  match parse_nist unmapped with
  | some (.control c) => [c]
  | _ => []

variable [UnicodeTables]

/-- What is kept of the parsed tags: sorted, and never empty. -/
def properTags (parsed : List (Option ParseNist)) : List NistControl × Option NistRevision :=
  let collected := collectTags parsed []
  let sorted := collected.1.insertionSort fun a b => a.localCompare b ≤ 0
  (if sorted.isEmpty then stub else sorted, collected.2)

end Tags

end Inspec
