import Heimdall.Frontend.LoadedData

/-!
# Searching a control

What a search finds in the fields of a control. Fields that are null are passed over, but an
absent field is not: the search throws when it comes to one, and only what it finds before
that saves it.
-/
namespace Frontend
open Js Lib Inspec

section Fields

/-- The fields that are searched, in their order. -/
def searched (hdf : HDFControl) : List (Opt JsString) :=
  [.val hdf.wraps.id, hdf.wraps.title, hdf.wraps.code, .val hdf.severity.text,
    .val hdf.status.text, .val hdf.finding_details]

theorem includes_iff {s term : JsString} : includes s term = true ↔ term <:+: s := by
  unfold includes
  rw [List.any_eq_true, List.infix_iff_prefix_suffix]
  apply exists_congr
  intro rest
  rw [List.mem_tails, List.isPrefixOf_iff_prefix]
  exact and_comm

variable [UnicodeTables] (term : JsString)

/-- The field is present and holds the term, in whatever case. -/
def Holds (field : Opt JsString) : Prop :=
  ∃ s, field = .val s ∧ UnicodeTables.toLowerCase term <:+: UnicodeTables.toLowerCase s

/-- No absent field stands before the first one that holds the term. -/
def Clear : List (Opt JsString) → Prop
  | [] => True
  | field :: rest => Holds term field ∨ field ≠ .undefined ∧ Clear rest

variable {term}

theorem holds_val {s : JsString} : Holds term (.val s) ↔
    includes (UnicodeTables.toLowerCase s) (UnicodeTables.toLowerCase term) = true := by
  rw [includes_iff]
  constructor
  · rintro ⟨t, ⟨⟩, inside⟩
    exact inside
  · exact fun inside => ⟨s, rfl, inside⟩

theorem not_holds_null : ¬ Holds term .null := by
  rintro ⟨s, here, -⟩
  cases here

theorem not_holds_undefined : ¬ Holds term .undefined := by
  rintro ⟨s, here, -⟩
  cases here

/-- The search comes back with the right answer exactly where it finds the term before it
comes to an absent field. -/
theorem someIncludes_exact_iff (fields : List (Opt JsString)) :
    (∃ found, someIncludes (UnicodeTables.toLowerCase term)
        (fields.filter fun s => decide (s ≠ .null)) = .ok found ∧
      (found = true ↔ ∃ field ∈ fields, Holds term field)) ↔ Clear term fields := by
  induction fields with
  | nil => exact iff_of_true ⟨false, rfl, by simp⟩ trivial
  | cons field fields ih =>
      rw [Clear, List.exists_mem_cons_iff]
      cases field with
      | undefined =>
          refine iff_of_false ?_ ?_
          · rintro ⟨found, searched, -⟩
            cases searched
          · rintro (here | ⟨present, -⟩)
            · exact not_holds_undefined here
            · exact present rfl
      | null =>
          rw [List.filter_cons_of_neg (by simp), ← ih]
          simp only [not_holds_null, false_or, ne_eq, reduceCtorEq, not_false_eq_true, true_and]
      | val s =>
          rw [List.filter_cons_of_pos (by simp), someIncludes, holds_val]
          by_cases here : includes (UnicodeTables.toLowerCase s) (UnicodeTables.toLowerCase term) = true
          · rw [if_pos here]
            exact iff_of_true ⟨true, rfl, iff_of_true rfl (.inl here)⟩ (.inl here)
          · rw [if_neg here, ← ih]
            simp only [here, false_or, ne_eq, reduceCtorEq, not_false_eq_true, true_and]

end Fields

section Controls
variable [UnicodeTables] {data : InspecData} {files : List FileID} {c : StoredControl}

theorem contains_term_of_root {hdf : HDFControl} (root : c.rootHdf = .ok (some hdf))
    (term : JsString) : contains_term c term =
      someIncludes term ((searched hdf).filter fun s => decide (s ≠ .null)) := by
  unfold contains_term
  rw [root]
  rfl

/-- The answer is yes where a field that is present holds the term, and only there. -/
def Exact (c : StoredControl) (term : JsString) (answer : Except JsError Bool) : Prop :=
  ∃ found, answer = .ok found ∧ (found = true ↔
    ∃ hdf, c.rootHdf = .ok (some hdf) ∧ ∃ field ∈ searched hdf, Holds term field)

/-- A search is exact where the walk to the root ends and no absent field of the root stands
before the first one that holds the term, and nowhere else. -/
theorem contains_term_exact_iff (loaded : data.Loaded) (inside : c ∈ allControls data files)
    (term : JsString) :
    Exact c term (contains_term c (UnicodeTables.toLowerCase term)) ↔
      ∃ hdf, c.rootHdf = .ok (some hdf) ∧ Clear term (searched hdf) := by
  by_cases rooted : c.Rooted
  · obtain ⟨hdf, root, -⟩ := loaded.tagged inside rooted
    have same : ∀ {P : HDFControl → Prop}, (∃ hdf', c.rootHdf = .ok (some hdf') ∧ P hdf') ↔ P hdf := by
      intro P
      constructor
      · rintro ⟨hdf', root', here⟩
        cases root.symm.trans root'
        exact here
      · exact fun here => ⟨hdf, root, here⟩
    unfold Exact
    simp only [same]
    rw [contains_term_of_root root]
    exact someIncludes_exact_iff (searched hdf)
  · refine iff_of_false ?_ fun ⟨hdf, root, _⟩ => rooted ⟨_, root⟩
    rintro ⟨found, answered, -⟩
    obtain ⟨hdf, root, -⟩ := do_eq_ok.mp answered
    exact rooted ⟨hdf, root⟩

def foundInId (term : JsString) (c : StoredControl) : Bool :=
  match c.rootHdf with
  | .ok (some hdf) =>
      includes (UnicodeTables.toLowerCase hdf.wraps.id) (UnicodeTables.toLowerCase term)
  | _ => false

theorem clear_of_foundInId {term : JsString} (found : foundInId term c = true) :
    ∃ hdf, c.rootHdf = .ok (some hdf) ∧ Clear term (searched hdf) := by
  unfold foundInId at found
  split at found
  · rename_i hdf root
    exact ⟨hdf, root, .inl (holds_val.mpr found)⟩
  · cases found

end Controls

section Samples

theorem contains_term_exact_iff_sample : ∃ c ∈ allControls waivedStore [js "f"],
    @Exact asciiTables c (js "C-") (@contains_term asciiTables c (js "c-")) := by
  have found : ((allControls waivedStore [js "f"]).all (@foundInId asciiTables (js "C-"))) = true := by
    decide +kernel
  have some_control : (allControls waivedStore [js "f"]).isEmpty = false := by decide +kernel
  obtain ⟨c, rest, listed⟩ := List.exists_cons_of_ne_nil
    (List.isEmpty_eq_false_iff.mp some_control)
  have inside : c ∈ allControls waivedStore [js "f"] := listed ▸ List.mem_cons_self
  refine ⟨c, inside, ?_⟩
  have clear := @clear_of_foundInId asciiTables c _ (List.all_eq_true.mp found c inside)
  have exact := (@contains_term_exact_iff asciiTables waivedStore [js "f"] c
    (sampleStore_loaded _) inside (js "C-")).mpr clear
  have lower : @UnicodeTables.toLowerCase asciiTables (js "C-") = js "c-" := by decide +kernel
  rwa [lower] at exact

/-- A control of an accepted file without a title; the search throws when it comes to it. -/
theorem contains_term_throws :
    ¬ ∀ [UnicodeTables] json evaluation evalContext context, toExecJSON json = .ok evaluation →
      contextualizeEvaluation evalContext evaluation = .ok context →
      ∀ c ∈ allControls ⟨[⟨js "f", context⟩], []⟩ [js "f"], ∀ term,
        Exact c term (contains_term c (UnicodeTables.toLowerCase term)) := by
  intro always
  have throws : ((allControls (sampleStore [("f", wrapped)]) [js "f"]).all fun c =>
      (@contains_term asciiTables c (@UnicodeTables.toLowerCase asciiTables (js "z"))).isOk) =
        false := by
    decide +kernel
  have accepted : (@contextualizeEvaluation asciiTables 0 wrapped).isOk = true := rfl
  cases returned : @contextualizeEvaluation asciiTables 0 wrapped with
  | error e => rw [returned] at accepted; cases accepted
  | ok context =>
      rw [sampleStore_eq returned] at throws
      refine Bool.false_ne_true (throws.symm.trans (List.all_eq_true.mpr fun c inside => ?_))
      obtain ⟨found, answered, -⟩ := @always asciiTables wrappedJson wrapped 0 context
        wrapped_accepted returned c inside (js "z")
      rw [answered]
      rfl

end Samples
end Frontend
