import Mathlib.Data.List.Basic

/-!
# Command lines of the shell

A command line without quotes: its words are cut at blanks, parameters are replaced by the
values of the environment, the results are split into fields, and each field is replaced by
the names of the files it matches.
-/
namespace Lib.Shell

abbrev Environment := List Char → Option (List Char)

def isBlank (c : Char) : Bool := c == ' ' || c == '\t' || c == '\n'

def isNameChar (c : Char) : Bool := c.isAlphanum || c == '_'

inductive Piece where
  | char (c : Char)
  | param (name : List Char)
deriving DecidableEq

/-- The pieces of a word; the first argument is the name that is being read after `$`. -/
def pieces : Option (List Char) → List Char → List Piece
  | none, [] => []
  | none, c :: cs => if c = '$' then pieces (some []) cs else .char c :: pieces none cs
  | some name, [] => [.param name]
  | some name, c :: cs =>
      if isNameChar c then pieces (some (name ++ [c])) cs
      else .param name :: if c = '$' then pieces (some []) cs else .char c :: pieces none cs

/-- The parts between blanks, without the empty ones. -/
def fields (s : List Char) : List (List Char) :=
  (s.splitOnP isBlank).filter fun field => !field.isEmpty

def parse (command : List Char) : List (List Piece) := (fields command).map (pieces none)

def substitute (env : Environment) (word : List Piece) : List Char :=
  word.flatMap fun
    | .char c => [c]
    | .param name => (env name).getD []

/-- A character that stands for itself in a pattern. -/
def isOrdinary (c : Char) : Bool := !(['*', '?', '[', ']', '\\', '/'].contains c)

/-- The names of the files that match a pattern, at one moment. -/
structure Pathnames where
  names : List Char → List (List Char)
  ends {pattern tail name : List Char} : tail <:+ pattern → tail.all isOrdinary →
    name ∈ names pattern → tail <:+ name

/-- No file matches anything. -/
def Pathnames.none : Pathnames := ⟨fun _ => [], fun _ _ inside => nomatch inside⟩

def Pathnames.matching (files : Pathnames) (field : List Char) : List (List Char) :=
  if (files.names field).isEmpty then [field] else files.names field

def expand (files : Pathnames) (env : Environment) (word : List Piece) : List (List Char) :=
  (fields (substitute env word)).flatMap files.matching

theorem substitute_append (env : Environment) (v w : List Piece) :
    substitute env (v ++ w) = substitute env v ++ substitute env w := List.flatMap_append

theorem substitute_char (env : Environment) (s : List Char) :
    substitute env (s.map Piece.char) = s := by
  unfold substitute
  rw [List.flatMap_map]
  exact List.flatMap_singleton' s

theorem substitute_param (env : Environment) (name : List Char) :
    substitute env [.param name] = (env name).getD [] := List.append_nil _

theorem splitOnP_ends {tail : List Char} (solid : tail.all fun c => !isBlank c)
    (s : List Char) :
    ∃ before last, (s ++ tail).splitOnP isBlank = before ++ [last ++ tail] := by
  have no_blank : ∀ c ∈ tail, isBlank c = false := by
    simpa using solid
  induction s with
  | nil => exact ⟨[], [], List.splitOnP_eq_singleton no_blank⟩
  | cons c s ih =>
      obtain ⟨before, last, split⟩ := ih
      rw [List.cons_append, List.splitOnP_cons_eq_if_modifyHead, split]
      by_cases blank : isBlank c = true
      · rw [if_pos blank]
        exact ⟨[] :: before, last, rfl⟩
      · rw [if_neg blank]
        cases before with
        | nil => exact ⟨[], c :: last, rfl⟩
        | cons first before => exact ⟨(c :: first) :: before, last, rfl⟩

theorem fields_ends {tail : List Char} (solid : tail.all fun c => !isBlank c)
    (some_char : tail ≠ []) (s : List Char) :
    ∃ before last, fields (s ++ tail) = before ++ [last ++ tail] := by
  obtain ⟨before, last, split⟩ := splitOnP_ends solid s
  refine ⟨before.filter fun field => !field.isEmpty, last, ?_⟩
  unfold fields
  rw [split, List.filter_append, List.filter_cons_of_pos, List.filter_nil]
  simp [some_char]

theorem Pathnames.matching_ends (files : Pathnames) {tail : List Char}
    (ordinary : tail.all isOrdinary) (start : List Char) :
    files.matching (start ++ tail) ≠ [] ∧
      ∀ name ∈ files.matching (start ++ tail), tail <:+ name := by
  have ends : tail <:+ start ++ tail := List.suffix_append start tail
  unfold matching
  split
  · exact ⟨List.cons_ne_nil _ _, fun name inside => List.mem_singleton.mp inside ▸ ends⟩
  · next found =>
      refine ⟨fun none => found (by rw [none, List.isEmpty_nil]), fun name inside => ?_⟩
      exact files.ends ends ordinary inside

/-- However a word expands, its last field keeps the characters the word ends in. -/
theorem expand_ends (files : Pathnames) (env : Environment) (word : List Piece)
    {tail : List Char} (solid : tail.all fun c => !isBlank c) (some_char : tail ≠ [])
    (ordinary : tail.all isOrdinary) :
    ∃ before last, expand files env (word ++ tail.map Piece.char) = before ++ [last] ∧
      tail <:+ last := by
  obtain ⟨before, last, split⟩ := fields_ends solid some_char (substitute env word)
  obtain ⟨some_name, ends⟩ := files.matching_ends ordinary last
  refine ⟨before.flatMap files.matching ++ (files.matching (last ++ tail)).dropLast,
    (files.matching (last ++ tail)).getLast some_name, ?_, ?_⟩
  · unfold expand
    rw [substitute_append, substitute_char, split, List.flatMap_append, List.append_assoc,
      List.dropLast_append_getLast, List.flatMap_singleton]
  · exact ends _ (List.getLast_mem some_name)

/-- Words that end differently never expand alike. -/
theorem expand_ne_of_ends (files : Pathnames) (env env' : Environment) (word word' : List Piece)
    {tail tail' : List Char} (solid : tail.all fun c => !isBlank c)
    (solid' : tail'.all fun c => !isBlank c) (some_char : tail ≠ [])
    (ordinary : tail.all isOrdinary) (ordinary' : tail'.all isOrdinary)
    (length : tail.length = tail'.length) (differ : tail ≠ tail') :
    expand files env (word ++ tail.map Piece.char) ≠
      expand files env' (word' ++ tail'.map Piece.char) := by
  have some_char' : tail' ≠ [] := by
    rintro rfl
    exact some_char (List.length_eq_zero_iff.mp length)
  obtain ⟨before, last, here, ends⟩ := expand_ends files env word solid some_char ordinary
  obtain ⟨before', last', here', ends'⟩ :=
    expand_ends files env' word' solid' some_char' ordinary'
  rw [here, here']
  intro same
  obtain ⟨-, same_last⟩ := List.append_inj' same rfl
  obtain rfl := List.singleton_injective same_last
  exact differ ((List.suffix_of_suffix_length_le ends ends' (Nat.le_of_eq length)).eq_of_length length)

end Lib.Shell
