import Heimdall.Lib.Firsts
import Heimdall.Inspec.Hdf
import Heimdall.Inspec.NistOrder

/-!
# The parsed tags of a control

Which controls and which revision `compute_proper_nist_tags` makes of a list of raw tags. The
chains are told apart by their joined text, so that a chain is lost where two distinct chains
have one text.
-/
namespace Inspec
open Js Lib

section Obtained

def controlParsed : Option ParseNist → Option NistControl
  | some (.control c) => some c
  | _ => none

def revisionParsed : Option ParseNist → Option NistRevision
  | some (.revision r) => some r
  | _ => none

/-- The text by which a chain is remembered. -/
def specChain (c : NistControl) : JsString := join (js "-") c.subSpecifiers

/-- Some raw tag is parsed to a control with this chain. -/
def Obtained (raw : List JsString) (chain : List JsString) : Prop :=
  ∃ s ∈ raw, ∃ c, parse_nist s = some (.control c) ∧ c.subSpecifiers = chain

/-- The tags lose nothing and repeat nothing: one control for every chain that is obtained, in
order, no other control unless there is none, and the last revision. -/
structure ProperTags [UnicodeTables] (raw : List JsString) (tags : List NistControl)
    (revision : Option NistRevision) : Prop where
  once : ∀ chain, Obtained raw chain → (tags.map (·.subSpecifiers)).count chain = 1
  parsed : (∃ chain, Obtained raw chain) →
    ∀ c ∈ tags, ∃ s ∈ raw, parse_nist s = some (.control c)
  stubbed : (¬ ∃ chain, Obtained raw chain) → tags = stub
  sorted : tags.Pairwise fun a b => a.localCompare b ≤ 0
  revision : revision = ((raw.map parse_nist).filterMap revisionParsed).getLast?

/-- Chains that are obtained from the raw tags and joined to one text are one chain. -/
def KeysApart (raw : List JsString) : Prop :=
  ∀ s ∈ raw, ∀ t ∈ raw, ∀ c d, parse_nist s = some (.control c) →
    parse_nist t = some (.control d) → specChain c = specChain d →
      c.subSpecifiers = d.subSpecifiers

theorem mem_controlParsed {raw : List JsString} {c : NistControl} :
    c ∈ (raw.map parse_nist).filterMap controlParsed ↔
      ∃ s ∈ raw, parse_nist s = some (.control c) := by
  rw [List.filterMap_map, List.mem_filterMap]
  refine exists_congr fun s => and_congr_right fun _ => ?_
  show controlParsed (parse_nist s) = some c ↔ _
  rcases parse_nist s with _ | ⟨d⟩ | ⟨r⟩
  · simp [controlParsed]
  · simp [controlParsed]
  · simp [controlParsed]

end Obtained

section Collect

/-- The controls that are kept are the first ones of every text. -/
theorem collectTags_fst (parsed : List (Option ParseNist)) (seen : List JsString) :
    (collectTags parsed seen).1 = firsts specChain (parsed.filterMap controlParsed) seen := by
  induction parsed generalizing seen with
  | nil => rfl
  | cons x parsed ih =>
      rcases x with _ | ⟨c⟩ | ⟨r⟩
      · exact ih seen
      · rw [List.filterMap_cons_some (show controlParsed (some (.control c)) = some c from rfl)]
        by_cases known : specChain c ∈ seen
        · rw [firsts_cons_of_seen known, ← ih]
          exact congrArg Prod.fst (if_pos known)
        · rw [firsts_cons_of_new known, ← ih]
          exact congrArg Prod.fst (if_neg known)
      · exact ih seen

theorem collectTags_snd (parsed : List (Option ParseNist)) (seen : List JsString) :
    (collectTags parsed seen).2 = (parsed.filterMap revisionParsed).getLast? := by
  induction parsed generalizing seen with
  | nil => rfl
  | cons x parsed ih =>
      rcases x with _ | ⟨c⟩ | ⟨r⟩
      · exact ih seen
      · have skipped : (collectTags (some (.control c) :: parsed) seen).2 =
            (parsed.filterMap revisionParsed).getLast? := by
          rw [collectTags]
          split
          · exact ih seen
          · exact ih _
        exact skipped
      · rw [List.filterMap_cons_some (show revisionParsed (some (.revision r)) = some r from rfl)]
        show (collectTags parsed seen).2.or (some r) = _
        rw [ih, List.getLast?_cons]
        cases (parsed.filterMap revisionParsed).getLast? <;> rfl

end Collect

section Proper
variable (raw : List JsString)

/-- The controls that are kept, as they are read. -/
def keptTags : List NistControl :=
  firsts specChain ((raw.map parse_nist).filterMap controlParsed) []

variable {raw}

theorem mem_keptTags {c : NistControl} (inside : c ∈ keptTags raw) :
    ∃ s ∈ raw, parse_nist s = some (.control c) :=
  mem_controlParsed.mp ((firsts_sublist _ _).subset inside)

/-- The text of every parsed control is that of a control that is kept. -/
theorem exists_keptTags {s : JsString} {c : NistControl} (inside : s ∈ raw)
    (parsed : parse_nist s = some (.control c)) : ∃ d ∈ keptTags raw, specChain d = specChain c := by
  have known : specChain c ∈ ((raw.map parse_nist).filterMap controlParsed).map specChain :=
    List.mem_map_of_mem (mem_controlParsed.mpr ⟨s, inside, parsed⟩)
  exact List.mem_map.mp (mem_keys_firsts.mpr ⟨known, List.not_mem_nil⟩)

theorem specChain_keptTags_injective {c d : NistControl} (hc : c ∈ keptTags raw)
    (hd : d ∈ keptTags raw) (same : specChain c = specChain d) : c = d :=
  List.inj_on_of_nodup_map (nodup_keys_firsts _ _) hc hd same

theorem nodup_keptTags : ((keptTags raw).map (·.subSpecifiers)).Nodup := by
  have texts : ((keptTags raw).map specChain).Nodup := nodup_keys_firsts _ _
  apply List.Nodup.of_map (join (js "-"))
  rw [List.map_map]
  exact texts

theorem keptTags_eq_nil : keptTags raw = [] ↔ ¬ ∃ chain, Obtained raw chain := by
  constructor
  · rintro none ⟨chain, s, inside, c, parsed, -⟩
    obtain ⟨d, kept, -⟩ := exists_keptTags inside parsed
    rw [none] at kept
    cases kept
  · intro nothing
    refine List.eq_nil_iff_forall_not_mem.mpr fun c inside => nothing ?_
    obtain ⟨s, listed, parsed⟩ := mem_keptTags inside
    exact ⟨_, s, listed, c, parsed, rfl⟩

theorem keysApart_of_controls (apart : ∀ c ∈ (raw.map parse_nist).filterMap controlParsed,
    ∀ d ∈ (raw.map parse_nist).filterMap controlParsed, specChain c = specChain d →
      c.subSpecifiers = d.subSpecifiers) : KeysApart raw := by
  intro s hs t ht c d parsed parsed'
  exact apart c (mem_controlParsed.mpr ⟨s, hs, parsed⟩) d (mem_controlParsed.mpr ⟨t, ht, parsed'⟩)

/-- A parsed control keeps the text that it was parsed from, which is not empty. -/
theorem parse_nist_rawText {s : JsString} {c : NistControl}
    (parsed : parse_nist s = some (.control c)) : c.rawText = some s ∧ s ≠ [] := by
  have filled : s ≠ [] := by
    rintro rfl
    cases parsed
  unfold parse_nist at parsed
  split at parsed
  · cases parsed
  · split at parsed
    · cases parsed
      exact ⟨rfl, filled⟩
    · split at parsed
      · cases parsed
      · cases parsed
        exact ⟨rfl, filled⟩

theorem stub_eq : stub = [⟨[js "UM", js "1"], some unmapped⟩] := by decide +kernel

variable [UnicodeTables]

theorem properTags_fst : (properTags (raw.map parse_nist)).1 =
    if keptTags raw = [] then stub
    else (keptTags raw).insertionSort fun a b => a.localCompare b ≤ 0 := by
  unfold properTags keptTags
  dsimp only
  rw [collectTags_fst]
  by_cases none : firsts specChain ((raw.map parse_nist).filterMap controlParsed) [] = []
  · rw [if_pos none, none]
    rfl
  · rw [if_neg none, if_neg]
    intro empty
    have sorted := List.perm_insertionSort (fun a b : NistControl => a.localCompare b ≤ 0)
      (firsts specChain ((raw.map parse_nist).filterMap controlParsed) [])
    rw [List.isEmpty_iff.mp empty] at sorted
    exact none (List.nil_perm.mp sorted)

theorem compute_proper_nist_tags_strings (raw : List JsString) :
    compute_proper_nist_tags (.arr (raw.map .str)) = .ok (properTags (raw.map parse_nist)) := by
  have parsed : (raw.map JsVal.str).mapM parse_nist_value = .ok (raw.map parse_nist) := by
    rw [mapM_eq_ok, List.forall₂_map_left_iff, List.forall₂_map_right_iff]
    exact List.forall₂_same.mpr fun s _ => rfl
  unfold compute_proper_nist_tags
  exact do_eq_ok.mpr ⟨_, parsed, rfl⟩

/-- The tags are in order. -/
theorem sorted_properTags (collates : Collates) (raw : List JsString) :
    (properTags (raw.map parse_nist)).1.Pairwise fun a b => a.localCompare b ≤ 0 := by
  have preorder := NistControl.localCompare_preorder collates
  have total : Std.Total fun a b : NistControl => a.localCompare b ≤ 0 := ⟨preorder.total⟩
  have trans : IsTrans NistControl fun a b => a.localCompare b ≤ 0 := ⟨preorder.trans⟩
  rw [properTags_fst]
  split
  · rw [stub_eq]
    exact List.pairwise_singleton _ _
  · exact List.pairwise_insertionSort _ _

theorem properTags_perm (some_kept : keptTags raw ≠ []) :
    (properTags (raw.map parse_nist)).1.Perm (keptTags raw) := by
  rw [properTags_fst, if_neg some_kept]
  exact List.perm_insertionSort _ _

/-- The parsed tags lose nothing exactly when no two chains that are obtained have one text. -/
theorem proper_nist_tags_iff (collates : Collates) (raw : List JsString) :
    ∃ tags revision, compute_proper_nist_tags (.arr (raw.map .str)) = .ok (tags, revision) ∧
      (ProperTags raw tags revision ↔ KeysApart raw) := by
  refine ⟨(properTags (raw.map parse_nist)).1, (properTags (raw.map parse_nist)).2,
    compute_proper_nist_tags_strings raw, ?_⟩
  constructor
  · intro proper s hs t ht c d parsed parsed' same
    have chains : ∃ chain, Obtained raw chain := ⟨_, s, hs, c, parsed, rfl⟩
    have perm := (properTags_perm fun none => keptTags_eq_nil.mp none chains).map (·.subSpecifiers)
    have listed : ∀ {chain}, Obtained raw chain → ∃ e ∈ keptTags raw, e.subSpecifiers = chain := by
      intro chain obtained
      have once := proper.once chain obtained
      rw [perm.count_eq] at once
      exact List.mem_map.mp (List.count_pos_iff.mp (once ▸ Nat.one_pos))
    obtain ⟨e, he, first⟩ := listed ⟨s, hs, c, parsed, rfl⟩
    obtain ⟨e', he', second⟩ := listed ⟨t, ht, d, parsed', rfl⟩
    have texts : specChain e = specChain e' := by
      unfold specChain at same ⊢
      rw [first, second, same]
    rw [← first, ← second, specChain_keptTags_injective he he' texts]
  · intro apart
    refine ⟨?_, ?_, ?_, sorted_properTags collates raw, collectTags_snd _ _⟩
    · rintro chain ⟨s, inside, c, parsed, rfl⟩
      obtain ⟨d, kept, same⟩ := exists_keptTags inside parsed
      obtain ⟨t, inside', parsed'⟩ := mem_keptTags kept
      have chain := apart t inside' s inside d c parsed' parsed same
      rw [((properTags_perm (List.ne_nil_of_mem kept)).map _).count_eq]
      exact List.count_eq_one_of_mem nodup_keptTags (chain ▸ List.mem_map_of_mem kept)
    · rintro chains c inside
      have perm := properTags_perm fun none => keptTags_eq_nil.mp none chains
      exact mem_keptTags (perm.mem_iff.mp inside)
    · intro nothing
      rw [properTags_fst, if_pos (keptTags_eq_nil.mpr nothing)]

end Proper

theorem proper_nist_tags_iff_sample : ∃ tags revision,
    @compute_proper_nist_tags asciiTables (.arr ([js "AC-3", js "Rev_4", js "AC-3"].map .str)) =
      .ok (tags, revision) ∧
      @ProperTags asciiTables [js "AC-3", js "Rev_4", js "AC-3"] tags revision := by
  obtain ⟨tags, revision, returned, iff⟩ := @proper_nist_tags_iff asciiTables asciiTables_collates
    [js "AC-3", js "Rev_4", js "AC-3"]
  exact ⟨tags, revision, returned, iff.mpr (keysApart_of_controls (by decide +kernel))⟩

/-- The second of two chains is lost when a specifier of the first holds a dash. -/
theorem proper_nist_tags_lost :
    ¬ ∀ [UnicodeTables], Collates → ∀ (raw : List JsString) tags revision,
      compute_proper_nist_tags (.arr (raw.map .str)) = .ok (tags, revision) →
        ProperTags raw tags revision := by
  intro always
  have proper := @always asciiTables asciiTables_collates [js "AC-1 a-b", js "AC-1 a b"] _ _
    (@compute_proper_nist_tags_strings asciiTables _)
  have obtained : Obtained [js "AC-1 a-b", js "AC-1 a b"] [js "AC", js "1", js "a", js "b"] :=
    ⟨js "AC-1 a b", by decide, ⟨_, some (js "AC-1 a b")⟩, by decide +kernel, rfl⟩
  have once := @ProperTags.once asciiTables _ _ _ proper _ obtained
  revert once
  decide +kernel

end Inspec
