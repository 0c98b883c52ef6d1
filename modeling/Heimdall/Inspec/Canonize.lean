import Heimdall.Lib.Words
import Heimdall.Inspec.NistTags

/-!
# Canonical texts

The text that `canonize` writes of a control, and what is parsed of it. With spaces and
letters nothing is lost of the chain, as long as the text is short enough for the parser.
-/
namespace Inspec
open Js Lib

section Canonize

/-- An optional setting: an own property that is undefined hides the default. -/
abbrev Setting := Option (Option Bool)

/-- `max_specifiers` is `none` for `NaN`. -/
structure CanonizationConfig where
  max_specifiers : Option JsNumber
  pad_zeros : Setting := none
  allow_letters : Setting := none
  add_spaces : Setting := none
  add_parens : Setting := none
  add_periods : Setting := none

def Setting.isTrue (setting : Setting) : Bool := decide (setting = some (some true))

def default_partial_config (c : CanonizationConfig) : CanonizationConfig where
  max_specifiers := c.max_specifiers
  pad_zeros := c.pad_zeros.or (some (some false))
  allow_letters := c.allow_letters.or (some (some true))
  add_spaces := c.add_spaces.or (some (some true))
  add_parens := c.add_parens.or (some (some true))
  add_periods := c.add_periods.or (some (some true))

/-- `i < max_specifiers` -/
def CanonizationConfig.shows (config : CanonizationConfig) (i : ℕ) : Bool :=
  match config.max_specifiers with
  | none => false
  | some (.finite q) => decide ((i : ℚ) < q)
  | some (.infinity negative) => !negative

def isHexDigit (c : CodeUnit) : Bool := isDigit c || inRange 97 102 c || inRange 65 70 c

/-- `!Number.isNaN(Number.parseInt(spec))`: a digit after white space, a sign and `0x`. -/
def isNumber (spec : JsString) : Bool :=
  let unsigned := match spec.dropWhile isSpace with
    | 43 :: rest | 45 :: rest => rest
    | rest => rest
  match unsigned with
  | 48 :: 120 :: rest | 48 :: 88 :: rest => rest.head?.any isHexDigit
  | rest => rest.head?.any isDigit

/-- What is written of the specifier at place `i`. -/
def specText (config : CanonizationConfig) (i : ℕ) (spec : JsString) : JsString :=
  if isNumber spec then
    let spec := if config.pad_zeros.isTrue && decide (spec.length < 2) then js "0" ++ spec else spec
    if i > 1 then
      let spec := if config.add_parens.isTrue then js "(" ++ spec ++ js ")" else spec
      if config.add_spaces.isTrue then js " " ++ spec else spec
    else spec
  else if config.allow_letters.isTrue then
    (if config.add_spaces.isTrue then js " " else []) ++ spec ++
      if config.add_periods.isTrue then js "." else []
  else []

def specTexts (config : CanonizationConfig) : ℕ → List JsString → JsString
  | _, [] => []
  | i, spec :: rest =>
      if config.shows i then specText config i spec ++ specTexts config (i + 1) rest else []

namespace NistControl

def canonize (this : NistControl) (config : CanonizationConfig) : JsString :=
  let config := default_partial_config config
  match this.subSpecifiers with
  | [] => []
  | [family] => family
  | family :: rest => family ++ js "-" ++ specTexts config 1 rest

end NistControl

/-- The canonical texts of the tags, each once. -/
def canonized_nist (parsedNistTags : List NistControl) (config : CanonizationConfig) :
    List JsString :=
  parsedNistTags.foldl (fun result v =>
    let s := v.canonize config
    if s ∈ result then result else result ++ [s]) []

end Canonize

section Split

/-- Both splits cut at the same places, and begin with the same part. -/
theorem splitRuns_splitOnP (separator : CodeUnit → Bool) (s : JsString) :
    ∃ h t t', splitRuns separator s = h :: t ∧ s.splitOnP separator = h :: t' ∧
      t.filter (· ≠ []) = t'.filter (· ≠ []) := by
  induction s with
  | nil => exact ⟨[], [], [], rfl, rfl, rfl⟩
  | cons c s ih =>
      obtain ⟨h, t, t', runs, parts, same⟩ := ih
      rw [splitRuns, List.splitOnP_cons_eq_if_modifyHead, runs, parts]
      by_cases here : separator c = true
      · rw [if_pos here, if_pos here]
        by_cases again : s.head?.any separator = true
        · rw [if_pos again]
          cases s with
          | nil => cases again
          | cons d s =>
              have next : separator d = true := again
              rw [List.splitOnP_cons_eq_if_modifyHead, if_pos next] at parts
              obtain ⟨rfl, -⟩ := List.cons.inj parts
              exact ⟨[], t, [] :: t', rfl, rfl, same⟩
        · rw [if_neg again]
          refine ⟨[], h :: t, h :: t', rfl, rfl, ?_⟩
          rw [List.filter_cons, List.filter_cons, same]
      · rw [if_neg here, if_neg here]
        exact ⟨c :: h, t, t', rfl, rfl, same⟩

theorem splitRuns_words (separator : CodeUnit → Bool) (s : JsString) :
    (splitRuns separator s).filter (· ≠ []) = words separator s := by
  obtain ⟨h, t, t', runs, parts, same⟩ := splitRuns_splitOnP separator s
  have filled : ∀ parts : List JsString,
      (parts.filter fun w => !w.isEmpty) = parts.filter (· ≠ []) := fun parts =>
    List.filter_congr fun w _ => by cases w <;> rfl
  unfold words
  rw [runs, parts, filled, List.filter_cons, List.filter_cons, same]

theorem isSpecSplitter_of_isSpace {c : CodeUnit} (space : isSpace c = true) :
    isSpecSplitter c = true := by
  unfold isSpecSplitter
  rw [space]
  rfl

/-- The space around a text holds no specifier. -/
theorem words_trim (s : JsString) : words isSpecSplitter (trim s) = words isSpecSplitter s := by
  have spaces : ∀ {t : JsString}, ∀ c ∈ t.takeWhile isSpace, isSpecSplitter c = true :=
    fun c inside => isSpecSplitter_of_isSpace (List.all_eq_true.mp List.all_takeWhile c inside)
  have front : words isSpecSplitter (s.dropWhile isSpace) = words isSpecSplitter s := by
    rw [← words_seps_append spaces (s.dropWhile isSpace), List.takeWhile_append_dropWhile]
  have back : ∀ t : JsString,
      words isSpecSplitter (t.reverse.dropWhile isSpace).reverse = words isSpecSplitter t := by
    intro t
    have cut : t = (t.reverse.dropWhile isSpace).reverse ++ (t.reverse.takeWhile isSpace).reverse := by
      rw [← List.reverse_append, List.takeWhile_append_dropWhile, List.reverse_reverse]
    conv_rhs => rw [cut]
    refine (words_append_seps _ fun c inside => ?_).symm
    exact spaces c (List.mem_reverse.mp inside)
  unfold trim
  rw [back, front]

end Split

section Shape

/-- Two capitals, a number and words after it, the chain of a parsed control. -/
structure Shape (a b : CodeUnit) (num : JsString) (specs : List JsString) : Prop where
  upper : isUpper a = true ∧ isUpper b = true
  filled : num ≠ []
  digits : ∀ c ∈ num, isDigit c = true
  words : ∀ w ∈ specs, IsWord isSpecSplitter w

theorem fullMatch_shape {s family num rest : JsString}
    (matched : fullMatch s = some (family, num, rest)) :
    ∃ a b, family = [a, b] ∧ Shape a b num (words isSpecSplitter rest) := by
  unfold fullMatch at matched
  split at matched
  · dsimp only at matched
    split at matched
    · rename_i a b dash tail accepted
      cases matched
      simp only [Bool.and_eq_true, Bool.not_eq_true', List.isEmpty_eq_false_iff] at accepted
      refine ⟨a, b, rfl, accepted.1.1.1.1, accepted.1.1.2, ?_, fun w inside => isWord_of_mem inside⟩
      exact fun c inside => List.all_eq_true.mp List.all_takeWhile c inside
    · cases matched
  · cases matched

theorem parse_nist_shape {s : JsString} {c : NistControl}
    (parsed : parse_nist s = some (.control c)) :
    (∃ a b, (isUpper a = true ∧ isUpper b = true) ∧ c.subSpecifiers = [[a, b]]) ∨
      ∃ a b num specs, Shape a b num specs ∧ c.subSpecifiers = [a, b] :: num :: specs := by
  unfold parse_nist at parsed
  split at parsed
  · cases parsed
  · split at parsed
    · rename_i family
      cases parsed
      obtain ⟨length, upper⟩ := (Bool.and_eq_true _ _).mp family
      obtain ⟨a, b, rfl⟩ := List.length_eq_two.mp (beq_iff_eq.mp length)
      exact .inl ⟨a, b, by simpa using upper, rfl⟩
    · split at parsed
      · cases parsed
      · rename_i matched
        cases parsed
        obtain ⟨a, b, rfl, shape⟩ := fullMatch_shape matched
        rw [← words_trim, ← splitRuns_words] at shape
        exact .inr ⟨a, b, _, _, shape, rfl⟩

variable {a b : CodeUnit} {num : JsString} {specs : List JsString}

theorem parse_nist_family (upper : isUpper a = true ∧ isUpper b = true) :
    parse_nist [a, b] = some (.control ⟨[[a, b]], some [a, b]⟩) := by
  have family : famMatch [a, b] = true := by
    unfold famMatch
    simp [upper.1, upper.2]
  unfold parse_nist
  rw [show revMatch [a, b] = none from rfl]
  dsimp only
  rw [if_pos family]

theorem fullMatch_text (shape : Shape a b num specs) {rest : JsString}
    (ends : rest.head?.any isDigit = false) (plain : ∀ c ∈ rest, isLineTerminator c = false) :
    fullMatch (a :: b :: 45 :: (num ++ rest)) =
      if rest.length ≤ 60 then some ([a, b], num, rest) else none := by
  have front : (num ++ rest).takeWhile isDigit = num ∧
      (num ++ rest).dropWhile isDigit = rest := by
    rw [List.takeWhile_append_of_pos shape.digits, List.dropWhile_append_of_pos shape.digits]
    cases rest with
    | nil => exact ⟨List.append_nil _, rfl⟩
    | cons c rest =>
        have stops : ¬ isDigit c = true := Bool.eq_false_iff.mp ends
        rw [List.takeWhile_cons_of_neg stops, List.dropWhile_cons_of_neg stops, List.append_nil]
        exact ⟨rfl, rfl⟩
  have text : (rest.all fun c => !isLineTerminator c) = true :=
    List.all_eq_true.mpr fun c inside => by rw [plain c inside]; rfl
  unfold fullMatch
  dsimp only
  rw [front.1, front.2, shape.upper.1, shape.upper.2, text,
    List.isEmpty_eq_false_iff.mpr shape.filled]
  by_cases short : rest.length ≤ 60
  · simp [short]
  · simp [short]

/-- What follows the number is accepted up to sixty code units. -/
theorem parse_nist_text (shape : Shape a b num specs) {rest : JsString}
    (ends : rest.head?.any isDigit = false) (plain : ∀ c ∈ rest, isLineTerminator c = false) :
    parse_nist (a :: b :: 45 :: (num ++ rest)) =
      if rest.length ≤ 60 then
        some (.control ⟨[a, b] :: num :: words isSpecSplitter rest,
          some (a :: b :: 45 :: (num ++ rest))⟩)
      else none := by
  have unrevised : revMatch (a :: b :: 45 :: (num ++ rest)) = none := by
    unfold revMatch
    simp
  have long : famMatch (a :: b :: 45 :: (num ++ rest)) = false := by
    unfold famMatch
    simp
  unfold parse_nist
  rw [unrevised, long, fullMatch_text shape ends plain]
  by_cases short : rest.length ≤ 60
  · rw [if_pos short, if_pos short]
    dsimp only
    rw [splitRuns_words, words_trim, if_neg Bool.false_ne_true]
    rfl
  · rw [if_neg short, if_neg short]
    rfl

end Shape

section Written
variable {config : CanonizationConfig}

/-- The settings under which a text can be read back. -/
structure Readable (config : CanonizationConfig) : Prop where
  pad_zeros : config.pad_zeros.isTrue = false
  allow_letters : config.allow_letters.isTrue = true
  add_spaces : config.add_spaces.isTrue = true

def CanonizationConfig.AtLeast (config : CanonizationConfig) (n : ℕ) : Prop :=
  match config.max_specifiers with
  | none => False
  | some (.finite q) => (n : ℚ) ≤ q
  | some (.infinity negative) => negative = false

theorem CanonizationConfig.AtLeast.shows {n i : ℕ} (reaches : config.AtLeast n) (inside : i < n) :
    config.shows i = true := by
  unfold AtLeast at reaches
  unfold CanonizationConfig.shows
  cases limit : config.max_specifiers with
  | none => rw [limit] at reaches; exact reaches.elim
  | some m =>
      rw [limit] at reaches
      cases m with
      | finite q =>
          have below : (i : ℚ) < (n : ℚ) := by exact_mod_cast inside
          have reached : (i : ℚ) < q := Std.lt_of_lt_of_le below reaches
          exact decide_eq_true reached
      | infinity negative =>
          dsimp only at reaches ⊢
          rw [reaches]
          rfl

/-- Behind the number every specifier stands after a space, between parentheses or before a
period. -/
theorem specText_shape (readable : Readable config) {i : ℕ} (later : i > 1) (spec : JsString) :
    ∃ before after, specText config i spec = 32 :: (before ++ (spec ++ after)) ∧
      ∀ c ∈ before ++ after, c ∈ [40, 41, 46] := by
  unfold specText
  rw [readable.pad_zeros, readable.allow_letters, readable.add_spaces]
  by_cases number : isNumber spec = true
  · rw [if_pos number]
    simp only [Bool.false_and, Bool.false_eq_true, if_false, if_pos later, if_true]
    by_cases parens : config.add_parens.isTrue = true
    · rw [if_pos parens]
      exact ⟨[40], [41], by simp [js, utf16], by simp⟩
    · rw [if_neg parens]
      exact ⟨[], [], by simp [js, utf16], by simp⟩
  · rw [if_neg number, if_pos rfl, if_pos rfl]
    by_cases periods : config.add_periods.isTrue = true
    · rw [if_pos periods]
      exact ⟨[], [46], by simp [js, utf16], by simp⟩
    · rw [if_neg periods]
      exact ⟨[], [], by simp [js, utf16], by simp⟩

theorem mark_splits {c : CodeUnit} (mark : c ∈ [40, 41, 46]) :
    isSpecSplitter c = true ∧ isLineTerminator c = false := by
  simp only [List.mem_cons, List.not_mem_nil, or_false] at mark
  rcases mark with rfl | rfl | rfl
  · decide
  · decide
  · decide

theorem words_specText (readable : Readable config) {i : ℕ} (later : i > 1) {spec : JsString}
    (word : IsWord isSpecSplitter spec) {rest : JsString}
    (ends : rest.head?.all isSpecSplitter = true) :
    words isSpecSplitter (specText config i spec ++ rest) = spec :: words isSpecSplitter rest := by
  obtain ⟨before, after, text, marks⟩ := specText_shape readable later spec
  have separates : ∀ c ∈ before ++ after, isSpecSplitter c = true := fun c inside =>
    (mark_splits (marks c inside)).1
  have ended : (after ++ rest).head?.all isSpecSplitter = true := by
    cases after with
    | nil => exact ends
    | cons c after => exact separates c (List.mem_append_right before List.mem_cons_self)
  calc words isSpecSplitter (specText config i spec ++ rest)
      = words isSpecSplitter (32 :: (before ++ (spec ++ (after ++ rest)))) := by
        rw [text, List.cons_append, List.append_assoc, List.append_assoc]
    _ = words isSpecSplitter (spec ++ (after ++ rest)) := by
        rw [words_cons _ (by decide),
          words_seps_append fun c inside => separates c (List.mem_append_left after inside)]
    _ = spec :: words isSpecSplitter rest := by
        rw [word.words_append ended,
          words_seps_append fun c inside => separates c (List.mem_append_right before inside)]

theorem specTexts_head (readable : Readable config) {i : ℕ} (later : i > 1)
    (specs : List JsString) :
    specTexts config i specs = [] ∨ ∃ rest, specTexts config i specs = 32 :: rest := by
  cases specs with
  | nil => exact .inl rfl
  | cons spec specs =>
      obtain ⟨before, after, text, -⟩ := specText_shape readable later spec
      unfold specTexts
      split
      · rw [text]
        exact .inr ⟨_, rfl⟩
      · exact .inl rfl

/-- The specifiers behind the number are read back, whatever the parentheses and periods. -/
theorem words_specTexts (readable : Readable config) {specs : List JsString}
    (clean : ∀ w ∈ specs, IsWord isSpecSplitter w) {i : ℕ} (later : i > 1)
    (reaches : config.AtLeast (i + specs.length)) :
    words isSpecSplitter (specTexts config i specs) = specs := by
  induction specs generalizing i with
  | nil => rfl
  | cons spec specs ih =>
      obtain ⟨word, clean⟩ := List.forall_mem_cons.mp clean
      have shown : config.shows i = true := reaches.shows (by rw [List.length_cons]; omega)
      have further : config.AtLeast (i + 1 + specs.length) := by
        rw [List.length_cons, Nat.add_comm specs.length 1, ← Nat.add_assoc] at reaches
        exact reaches
      have ends : (specTexts config (i + 1) specs).head?.all isSpecSplitter = true := by
        rcases specTexts_head readable (Nat.lt_succ_of_lt later) specs with none | ⟨rest, space⟩
        · rw [none]
          rfl
        · rw [space]
          exact (by decide : isSpecSplitter 32 = true)
      unfold specTexts
      rw [if_pos shown, words_specText readable later word ends,
        ih clean (Nat.lt_succ_of_lt later) further]

theorem isSpecSplitter_of_isLineTerminator {c : CodeUnit} (ends : isLineTerminator c = true) :
    isSpecSplitter c = true := by
  unfold isLineTerminator at ends
  simp only [Bool.or_eq_true, beq_iff_eq] at ends
  rcases ends with (rfl | rfl) | separator
  · decide
  · decide
  · unfold isSpecSplitter isSpace
    simp only [separator, Bool.or_true, Bool.true_or]

theorem specText_plain (readable : Readable config) {i : ℕ} (later : i > 1) {spec : JsString}
    (word : IsWord isSpecSplitter spec) :
    ∀ c ∈ specText config i spec, isLineTerminator c = false := by
  obtain ⟨before, after, text, marks⟩ := specText_shape readable later spec
  have plain : ∀ c ∈ before ++ after, isLineTerminator c = false := fun c inside =>
    (mark_splits (marks c inside)).2
  have inner : ∀ c ∈ spec, isLineTerminator c = false := by
    intro c inside
    apply Bool.eq_false_iff.mpr
    intro ends
    exact Bool.eq_false_iff.mp (word.2 c inside) (isSpecSplitter_of_isLineTerminator ends)
  obtain ⟨front, back⟩ := List.forall_mem_append.mp plain
  rw [text]
  refine List.forall_mem_cons.mpr ⟨by decide, ?_⟩
  exact List.forall_mem_append.mpr ⟨front, List.forall_mem_append.mpr ⟨inner, back⟩⟩

/-- No line ends are written. -/
theorem specTexts_plain (readable : Readable config) {specs : List JsString}
    (clean : ∀ w ∈ specs, IsWord isSpecSplitter w) {i : ℕ} (later : i > 1) :
    ∀ c ∈ specTexts config i specs, isLineTerminator c = false := by
  induction specs generalizing i with
  | nil => exact List.forall_mem_nil _
  | cons spec specs ih =>
      obtain ⟨word, clean⟩ := List.forall_mem_cons.mp clean
      unfold specTexts
      split
      · exact List.forall_mem_append.mpr
          ⟨specText_plain readable later word, ih clean (Nat.lt_succ_of_lt later)⟩
      · exact List.forall_mem_nil _

theorem isSpace_of_isDigit {c : CodeUnit} (digit : isDigit c = true) : isSpace c = false := by
  unfold isDigit inRange at digit
  unfold isSpace inRange
  simp only [Bool.and_eq_true, decide_eq_true_eq] at digit
  simp only [Bool.or_eq_false_iff, Bool.and_eq_false_iff, decide_eq_false_iff_not,
    beq_eq_false_iff_ne, ne_eq, ← UInt16.toNat_inj]
  grind

/-- Digits alone have neither a sign nor a base. -/
theorem isNumber_digits {num : JsString} (filled : num ≠ [])
    (digits : ∀ c ∈ num, isDigit c = true) : isNumber num = true := by
  obtain ⟨c, s, rfl⟩ := List.exists_cons_of_ne_nil filled
  have first : isDigit c = true := digits c List.mem_cons_self
  have second : ∀ {d rest}, c :: s = 48 :: d :: rest → isDigit d = true := fun text =>
    digits _ (by rw [text]; exact List.mem_cons_of_mem _ List.mem_cons_self)
  have unsigned : (match c :: s with | 43 :: rest | 45 :: rest => rest | rest => rest) = c :: s := by
    split
    · rename_i text
      rw [(List.cons.inj text).1] at first
      cases first
    · rename_i text
      rw [(List.cons.inj text).1] at first
      cases first
    · rfl
  unfold isNumber
  rw [List.dropWhile_cons_of_neg (by rw [isSpace_of_isDigit first]; exact Bool.false_ne_true)]
  dsimp only
  rw [unsigned]
  split
  · rename_i text
    cases second text
  · rename_i text
    cases second text
  · exact first

theorem specText_number {num : JsString} (readable : Readable config) (filled : num ≠ [])
    (digits : ∀ c ∈ num, isDigit c = true) : specText config 1 num = num := by
  unfold specText
  rw [if_pos (isNumber_digits filled digits), readable.pad_zeros]
  rfl

variable {a b : CodeUnit} {num : JsString} {specs : List JsString}

theorem canonize_text {c : NistControl} (chain : c.subSpecifiers = [a, b] :: num :: specs)
    (shape : Shape a b num specs) (readable : Readable (default_partial_config config))
    (reaches : config.AtLeast c.subSpecifiers.length) :
    c.canonize config =
      a :: b :: 45 :: (num ++ specTexts (default_partial_config config) 2 specs) := by
  have shown : (default_partial_config config).shows 1 = true := by
    apply CanonizationConfig.AtLeast.shows (n := c.subSpecifiers.length) reaches
    rw [chain, List.length_cons, List.length_cons]
    omega
  unfold NistControl.canonize
  rw [chain]
  dsimp only
  rw [specTexts, if_pos shown, specText_number readable shape.filled shape.digits]
  rfl

end Written

section RoundTrip

/-- The canonical text behind the family and the number. -/
def NistControl.followingNumber (c : NistControl) (config : CanonizationConfig) : JsString :=
  (c.canonize config).drop (join (js "-") (c.subSpecifiers.take 2)).length

/-- The canonical text is parsed as a control with the same chain. -/
def RoundTrips (config : CanonizationConfig) (c : NistControl) : Prop :=
  ∃ d, parse_nist (c.canonize config) = some (.control d) ∧ d.subSpecifiers = c.subSpecifiers

theorem RoundTrips.injective {config : CanonizationConfig} {c d : NistControl}
    (first : RoundTrips config c) (second : RoundTrips config d)
    (same : c.canonize config = d.canonize config) : c.subSpecifiers = d.subSpecifiers := by
  obtain ⟨c', parsed, chain⟩ := first
  obtain ⟨d', parsed', chain'⟩ := second
  rw [same, parsed'] at parsed
  cases parsed
  rw [← chain, chain']

section Kinds
variable {config : CanonizationConfig} {c : NistControl} {a b : CodeUnit} {num : JsString}
  {specs : List JsString}

/-- A family is its own text. -/
theorem round_trip_family (upper : isUpper a = true ∧ isUpper b = true)
    (chain : c.subSpecifiers = [[a, b]]) :
    RoundTrips config c ∧ c.followingNumber config = [] := by
  have text : c.canonize config = [a, b] := by
    unfold NistControl.canonize
    rw [chain]
  constructor
  · refine ⟨⟨[[a, b]], some [a, b]⟩, ?_, chain.symm⟩
    rw [text, parse_nist_family upper]
  · unfold NistControl.followingNumber
    rw [text, chain]
    rfl

variable (chain : c.subSpecifiers = [a, b] :: num :: specs) (shape : Shape a b num specs)
  (readable : Readable (default_partial_config config))
  (reaches : config.AtLeast c.subSpecifiers.length)
include chain shape readable reaches

theorem followingNumber_text :
    c.followingNumber config = specTexts (default_partial_config config) 2 specs := by
  unfold NistControl.followingNumber
  rw [canonize_text chain shape readable reaches, chain,
    show join (js "-") (([a, b] :: num :: specs).take 2) = a :: b :: 45 :: num from rfl]
  exact @List.drop_left _ (a :: b :: 45 :: num) _

/-- The text of a control with a number is parsed if what follows the number is short. -/
theorem parse_nist_canonize :
    parse_nist (c.canonize config) =
      if (c.followingNumber config).length ≤ 60 then
        some (.control ⟨c.subSpecifiers, some (c.canonize config)⟩)
      else none := by
  have ends : (specTexts (default_partial_config config) 2 specs).head?.any isDigit = false := by
    rcases specTexts_head readable (by decide : 2 > 1) specs with none | ⟨rest, space⟩
    · rw [none]
      rfl
    · rw [space]
      exact (by decide : isDigit 32 = false)
  have enough : (default_partial_config config).AtLeast (2 + specs.length) := by
    rw [Nat.add_comm]
    rw [chain] at reaches
    exact reaches
  have back := words_specTexts readable shape.words (by decide : 2 > 1) enough
  have parse := parse_nist_text shape ends (specTexts_plain readable shape.words (by decide))
  rw [back] at parse
  rw [followingNumber_text chain shape readable reaches,
    canonize_text chain shape readable reaches, parse, chain]

end Kinds

theorem canonize_round_trip (config : CanonizationConfig)
    (readable : Readable (default_partial_config config)) :
    (∀ s c, parse_nist s = some (.control c) → config.AtLeast c.subSpecifiers.length →
      ((c.followingNumber config).length ≤ 60 → RoundTrips config c) ∧
        ((c.followingNumber config).length > 60 → parse_nist (c.canonize config) = none)) ∧
      ∀ c d, RoundTrips config c → RoundTrips config d →
        c.canonize config = d.canonize config → c.subSpecifiers = d.subSpecifiers := by
  refine ⟨fun s c parsed reaches => ?_, fun c d first second => first.injective second⟩
  rcases parse_nist_shape parsed with ⟨a, b, upper, chain⟩ | ⟨a, b, num, specs, shape, chain⟩
  · obtain ⟨back, following⟩ := @round_trip_family config c a b upper chain
    rw [following]
    exact ⟨fun _ => back, fun long => by cases long⟩
  · have parse := parse_nist_canonize chain shape readable reaches
    constructor
    · intro short
      rw [if_pos short] at parse
      exact ⟨_, parse, rfl⟩
    · intro long
      rwa [if_neg (by omega)] at parse

/-- `AC-2 (1)a.3` is written as `AC-2 1 a 3` and read back. -/
theorem canonize_round_trip_sample :
    RoundTrips ⟨some (.finite 5), none, none, none, some (some false), some (some false)⟩
      ⟨[js "AC", js "2", js "1", js "a", js "3"], some (js "AC-2 (1)a.3")⟩ := by
  have readable : Readable (default_partial_config
      ⟨some (.finite 5), none, none, none, some (some false), some (some false)⟩) :=
    ⟨rfl, rfl, rfl⟩
  have parsed : parse_nist (js "AC-2 (1)a.3") = some (.control
      ⟨[js "AC", js "2", js "1", js "a", js "3"], some (js "AC-2 (1)a.3")⟩) := by
    decide +kernel
  refine ((canonize_round_trip _ readable).1 _ _ parsed ?_).1 (by decide +kernel)
  exact Rat.le_refl

end RoundTrip
end Inspec
