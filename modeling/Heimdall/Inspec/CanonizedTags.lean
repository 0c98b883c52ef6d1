import Heimdall.Inspec.Canonize

/-!
# The canonical texts of the tags

The tags are sorted by their chains and then written. A text shows the specifiers up to the
limit, without the letters where these are left out, and the texts are in order of what they
show unless a letter that is left out decided the order.
-/
namespace Inspec
open Js Lib

section Shown

/-- The specifier is written where the limit allows it. -/
def CanonizationConfig.writes (config : CanonizationConfig) (spec : JsString) : Bool :=
  isNumber spec || config.allow_letters.isTrue

/-- The specifiers that the turns from place `i` on write. -/
def shownSpecs (config : CanonizationConfig) : ℕ → List JsString → List JsString
  | _, [] => []
  | i, spec :: rest =>
      if config.shows i then
        if config.writes spec then spec :: shownSpecs config (i + 1) rest
        else shownSpecs config (i + 1) rest
      else []

theorem shownSpecs_cons {config : CanonizationConfig} {i : ℕ} (shown : config.shows i = true)
    (spec : JsString) (rest : List JsString) :
    shownSpecs config i (spec :: rest) = if config.writes spec then
      spec :: shownSpecs config (i + 1) rest else shownSpecs config (i + 1) rest := by
  rw [shownSpecs, if_pos shown]

theorem shownSpecs_of_hidden {config : CanonizationConfig} {i : ℕ}
    (hidden : config.shows i = false) (specs : List JsString) :
    shownSpecs config i specs = [] := by
  cases specs with
  | nil => rfl
  | cons spec rest => rw [shownSpecs, hidden, if_neg Bool.false_ne_true]

/-- The chain that the canonical text shows. -/
def NistControl.shownChain (c : NistControl) (config : CanonizationConfig) : List JsString :=
  match c.subSpecifiers with
  | [] => []
  | family :: rest => family :: shownSpecs (default_partial_config config) 1 rest

/-- The chain that a text shows: that of the first control with this text. -/
def shownBy (tags : List NistControl) (config : CanonizationConfig) (text : JsString) :
    List JsString :=
  ((tags.find? fun c => decide (c.canonize config = text)).map (·.shownChain config)).getD []

/-- The texts are distinct, complete and in order. -/
structure Canonized [UnicodeTables] (tags : List NistControl) (config : CanonizationConfig)
    (texts : List JsString) : Prop where
  once : texts.Nodup
  complete : ∀ c ∈ tags, c.canonize config ∈ texts
  sorted : (texts.map (shownBy tags config)).Pairwise fun a b => NistControl.compareChains a b ≤ 0

variable [UnicodeTables] {config : CanonizationConfig}

/-- Past specifiers that are as good as each other, one of two specifiers is left out, and
what is shown of the first chain from there on comes after what is shown of the second. -/
def displacedFrom (config : CanonizationConfig) : ℕ → List JsString → List JsString → Bool
  | i, x :: xs, y :: ys =>
      config.shows i &&
        if UnicodeTables.localeCompare x y = 0 ∧ config.writes x = config.writes y then
          displacedFrom config (i + 1) xs ys
        else
          (!config.writes x || !config.writes y) && decide (NistControl.compareChains
            (shownSpecs config i (x :: xs)) (shownSpecs config i (y :: ys)) > 0)
  | _, _, _ => false

/-- A specifier that is left out of the first or the second control decided their order. -/
def displaced (config : CanonizationConfig) (c d : NistControl) : Bool :=
  match c.subSpecifiers, d.subSpecifiers with
  | family :: rest, family' :: rest' =>
      decide (UnicodeTables.localeCompare family family' = 0) &&
        displacedFrom (default_partial_config config) 1 rest rest'
  | _, _ => false

/-- Chains in order show chains in order, unless something left out decided their order. -/
theorem shownSpecs_nonpos_iff (xs : List JsString) {i : ℕ} {ys : List JsString}
    (ordered : NistControl.compareChains xs ys ≤ 0) :
    NistControl.compareChains (shownSpecs config i xs) (shownSpecs config i ys) ≤ 0 ↔
      displacedFrom config i xs ys = false := by
  simp only [NistControl.compareChains_eq] at ordered ⊢
  induction xs generalizing i ys with
  | nil =>
      rw [shownSpecs, lexCompare_nil]
      exact iff_of_true (by omega) rfl
  | cons x xs ih =>
      cases ys with
      | nil =>
          rw [lexCompare_nil_right, List.length_cons] at ordered
          omega
      | cons y ys =>
          rw [lexCompare_cons_nonpos] at ordered
          rw [displacedFrom]
          by_cases shown : config.shows i = true
          · rw [shown, Bool.true_and]
            by_cases alike : UnicodeTables.localeCompare x y = 0 ∧ config.writes x = config.writes y
            · rw [if_pos alike, ← ih (by omega), shownSpecs_cons shown, shownSpecs_cons shown,
                alike.2]
              split
              · rw [lexCompare_of_same alike.1]
              · rfl
            · rw [if_neg alike]
              by_cases left : config.writes x = false ∨ config.writes y = false
              · have out : (!config.writes x || !config.writes y) = true := by simpa using left
                rw [out, Bool.true_and, decide_eq_false_iff_not, NistControl.compareChains_eq]
                omega
              · have both : config.writes x = true ∧ config.writes y = true := by
                  simpa [not_or] using left
                have before : UnicodeTables.localeCompare x y ≠ 0 := fun same =>
                  alike ⟨same, by rw [both.1, both.2]⟩
                rw [shownSpecs_cons shown, shownSpecs_cons shown, both.1, both.2, if_pos rfl,
                  if_pos rfl, lexCompare_of_differ before]
                exact iff_of_true (by omega) rfl
          · rw [Bool.not_eq_true] at shown
            rw [shownSpecs_of_hidden shown, shownSpecs_of_hidden shown, shown]
            exact iff_of_true (Int.le_refl 0) rfl

theorem shownChain_nonpos_iff {c d : NistControl} (ordered : c.localCompare d ≤ 0) :
    NistControl.compareChains (c.shownChain config) (d.shownChain config) ≤ 0 ↔
      displaced config c d = false := by
  rw [NistControl.localCompare_eq] at ordered
  rw [NistControl.compareChains_eq]
  unfold NistControl.shownChain displaced
  cases first : c.subSpecifiers with
  | nil =>
      rw [lexCompare_nil]
      exact iff_of_true (by omega) rfl
  | cons family rest =>
      cases second : d.subSpecifiers with
      | nil =>
          rw [first, second, lexCompare_nil_right, List.length_cons] at ordered
          omega
      | cons family' rest' =>
          rw [first, second, lexCompare_cons_nonpos] at ordered
          dsimp only
          by_cases same : UnicodeTables.localeCompare family family' = 0
          · rw [lexCompare_of_same same, decide_eq_true same, Bool.true_and,
              ← NistControl.compareChains_eq]
            apply shownSpecs_nonpos_iff rest
            rw [NistControl.compareChains_eq]
            omega
          · rw [lexCompare_of_differ same, decide_eq_false same]
            exact iff_of_true (by omega) rfl

end Shown

section Contract
variable {config : CanonizationConfig}

theorem canonized_nist_eq (tags : List NistControl) (config : CanonizationConfig) :
    canonized_nist tags config =
      (firsts (·.canonize config) tags []).map (·.canonize config) := by
  have collected := @foldl_keys NistControl JsString _ (·.canonize config) tags [] [] fun _ => Iff.rfl
  rw [List.nil_append] at collected
  rw [← collected]
  unfold canonized_nist
  congr!

theorem nodup_canonized_nist (tags : List NistControl) : (canonized_nist tags config).Nodup := by
  rw [canonized_nist_eq]
  exact nodup_keys_firsts _ _

theorem mem_canonized_nist {tags : List NistControl} {s : JsString} :
    s ∈ canonized_nist tags config ↔ ∃ c ∈ tags, c.canonize config = s := by
  rw [canonized_nist_eq, mem_keys_firsts, List.mem_map]
  exact and_iff_left List.not_mem_nil

theorem map_shownBy (tags : List NistControl) :
    (canonized_nist tags config).map (shownBy tags config) =
      (firsts (·.canonize config) tags []).map (·.shownChain config) := by
  rw [canonized_nist_eq, List.map_map]
  apply List.map_congr_left
  intro c inside
  show shownBy tags config (c.canonize config) = _
  unfold shownBy
  rw [find?_of_mem_firsts inside]
  rfl

variable [UnicodeTables]

theorem canonized_iff_of_sorted {tags : List NistControl}
    (sorted : tags.Pairwise fun c d => c.localCompare d ≤ 0) (config : CanonizationConfig) :
    Canonized tags config (canonized_nist tags config) ↔
      (firsts (·.canonize config) tags []).Pairwise fun c d => displaced config c d = false := by
  have origins : (firsts (·.canonize config) tags []).Pairwise fun c d => c.localCompare d ≤ 0 :=
    sorted.sublist (firsts_sublist tags [])
  have shown : ((canonized_nist tags config).map (shownBy tags config)).Pairwise
      (fun a b => NistControl.compareChains a b ≤ 0) ↔
        (firsts (·.canonize config) tags []).Pairwise fun c d => displaced config c d = false := by
    rw [map_shownBy, List.pairwise_map]
    constructor
    · intro before
      exact (origins.and before).imp fun ⟨ordered, shown⟩ => (shownChain_nonpos_iff ordered).mp shown
    · intro placed
      exact (origins.and placed).imp fun ⟨ordered, kept⟩ => (shownChain_nonpos_iff ordered).mpr kept
  refine ⟨fun canonized => shown.mp canonized.sorted, fun placed => ?_⟩
  exact ⟨nodup_canonized_nist tags, fun c inside => mem_canonized_nist.mpr ⟨c, inside, rfl⟩, shown.mpr placed⟩

theorem sorted_of_computed (collates : Collates) {raw : List JsString} {tags : List NistControl}
    {revision : Option NistRevision}
    (computed : compute_proper_nist_tags (.arr (raw.map .str)) = .ok (tags, revision)) :
    tags.Pairwise fun c d => c.localCompare d ≤ 0 := by
  rw [compute_proper_nist_tags_strings] at computed
  have sorted := sorted_properTags collates raw
  rw [Except.ok.inj computed] at sorted
  exact sorted

/-- The texts are in order exactly when no specifier that is left out decided the order of two
controls with different texts. -/
theorem canonized_nist_iff (collates : Collates) {raw : List JsString} {tags : List NistControl}
    {revision : Option NistRevision}
    (computed : compute_proper_nist_tags (.arr (raw.map .str)) = .ok (tags, revision))
    (config : CanonizationConfig) :
    Canonized tags config (canonized_nist tags config) ↔
      (firsts (·.canonize config) tags []).Pairwise fun c d => displaced config c d = false :=
  canonized_iff_of_sorted (sorted_of_computed collates computed) config

omit [UnicodeTables] in
theorem canonized_nist_iff_sample :
    @Canonized asciiTables [⟨[js "AC", js "2"], some (js "AC-2")⟩,
        ⟨[js "AC", js "3", js "1"], some (js "AC-3 (1)")⟩]
      ⟨some (.finite 3), some (some true), some (some false), some (some false), none, none⟩
      [js "AC-02", js "AC-03(01)"] := by
  have computed := @compute_proper_nist_tags_strings asciiTables [js "AC-3 (1)", js "AC-2"]
  have tags : @properTags asciiTables ([js "AC-3 (1)", js "AC-2"].map parse_nist) =
      ([⟨[js "AC", js "2"], some (js "AC-2")⟩, ⟨[js "AC", js "3", js "1"], some (js "AC-3 (1)")⟩],
        none) := by
    decide +kernel
  rw [tags] at computed
  have iff := @canonized_nist_iff asciiTables asciiTables_collates _ _ _ computed
    ⟨some (.finite 3), some (some true), some (some false), some (some false), none, none⟩
  have texts : canonized_nist [⟨[js "AC", js "2"], some (js "AC-2")⟩,
        ⟨[js "AC", js "3", js "1"], some (js "AC-3 (1)")⟩]
      ⟨some (.finite 3), some (some true), some (some false), some (some false), none, none⟩ =
        [js "AC-02", js "AC-03(01)"] := by
    decide +kernel
  rw [texts] at iff
  exact iff.mpr (by decide +kernel)

omit [UnicodeTables] in
/-- The text of the second control is `AC-03`, which comes before the text of the first. -/
theorem canonized_nist_unsorted :
    ¬ ∀ [UnicodeTables], Collates → ∀ (raw : List JsString) tags revision config,
      compute_proper_nist_tags (.arr (raw.map .str)) = .ok (tags, revision) →
        Canonized tags config (canonized_nist tags config) := by
  intro always
  have canonized := @always asciiTables asciiTables_collates [js "AC-3 (1)", js "AC-3 a"] _ _
    ⟨some (.finite 3), some (some true), some (some false), some (some false), none, none⟩
    (@compute_proper_nist_tags_strings asciiTables _)
  have sorted := @Canonized.sorted asciiTables _ _ _ canonized
  revert sorted
  decide +kernel

section Letters

theorem displacedFrom_of_letters (letters : config.allow_letters.isTrue = true)
    (xs : List JsString) (i : ℕ) (ys : List JsString) : displacedFrom config i xs ys = false := by
  have all : ∀ spec, config.writes spec = true := fun spec => by
    unfold CanonizationConfig.writes
    rw [letters, Bool.or_true]
  induction xs generalizing i ys with
  | nil => rfl
  | cons x xs ih =>
      cases ys with
      | nil => rfl
      | cons y ys =>
          rw [displacedFrom, all, all, ih]
          simp

theorem canonized_nist_of_letters (collates : Collates) {raw : List JsString}
    {tags : List NistControl} {revision : Option NistRevision}
    (computed : compute_proper_nist_tags (.arr (raw.map .str)) = .ok (tags, revision))
    (letters : (default_partial_config config).allow_letters.isTrue = true) :
    Canonized tags config (canonized_nist tags config) := by
  rw [canonized_iff_of_sorted (sorted_of_computed collates computed)]
  apply List.pairwise_of_forall
  intro c d
  unfold displaced
  split
  · rw [displacedFrom_of_letters letters, Bool.and_false]
  · rfl

end Letters

end Contract
end Inspec
