import Heimdall.Inspec.Overlays

/-!
# The full code of a control

What `full_code` shows of an overlay chain: the blocks of the controls that change the code,
from the top down to the root. The block of the root is written whether or not the root has
code.
-/
namespace Inspec
open Js Lib

section Trim

/-- The text begins with something that is not trimmed. -/
def Starts (s : JsString) : Prop := ∃ c t, s = c :: t ∧ isSpace c = false

theorem Starts.append {s : JsString} (starts : Starts s) (t : JsString) : Starts (s ++ t) := by
  obtain ⟨c, rest, rfl, filled⟩ := starts
  exact ⟨c, rest ++ t, rfl, filled⟩

theorem Starts.trim_eq {s : JsString} (starts : Starts s) :
    trim s = (s.reverse.dropWhile isSpace).reverse := by
  obtain ⟨c, t, rfl, filled⟩ := starts
  unfold trim
  rw [List.dropWhile_cons_of_neg (Bool.eq_false_iff.mp filled)]

/-- Spaces at the end are trimmed. -/
theorem Starts.trim_append {s t : JsString} (starts : Starts s)
    (spaces : ∀ c ∈ t, isSpace c = true) : trim (s ++ t) = trim s := by
  rw [(starts.append t).trim_eq, starts.trim_eq, List.reverse_append,
    List.dropWhile_append_of_pos fun c inside => spaces c (List.mem_reverse.mp inside)]

theorem Starts.exists_spaces {s : JsString} (starts : Starts s) :
    ∃ t, s = trim s ++ t ∧ ∀ c ∈ t, isSpace c = true := by
  refine ⟨(s.reverse.takeWhile isSpace).reverse, ?_, fun c inside => ?_⟩
  · rw [starts.trim_eq, ← List.reverse_append, List.takeWhile_append_dropWhile,
      List.reverse_reverse]
  · exact List.all_eq_true.mp List.all_takeWhile c (List.mem_reverse.mp inside)

/-- What was trimmed inside would have been trimmed outside. -/
theorem trim_append_trim {s t : JsString} (first : Starts s) (second : Starts t) :
    trim (s ++ trim t) = trim (s ++ t) := by
  obtain ⟨rest, whole, spaces⟩ := second.exists_spaces
  conv_rhs => rw [whole, ← List.append_assoc]
  exact ((first.append _).trim_append spaces).symm

/-- Nothing is trimmed of a text that ends with something else than a space. -/
theorem Starts.trim_concat {s : JsString} (starts : Starts s) {c : CodeUnit}
    (filled : isSpace c = false) : trim (s ++ [c]) = s ++ [c] := by
  rw [(starts.append [c]).trim_eq, List.reverse_concat,
    List.dropWhile_cons_of_neg (Bool.eq_false_iff.mp filled), ← List.reverse_concat,
    List.reverse_reverse]

theorem Starts.length_trim_le {s : JsString} (starts : Starts s) :
    (trim s).length ≤ s.length := by
  obtain ⟨rest, whole, -⟩ := starts.exists_spaces
  have lengths := congrArg List.length whole
  rw [List.length_append] at lengths
  omega

theorem join_cons {separator s : JsString} {rest : List JsString} (more : rest ≠ []) :
    join separator (s :: rest) = s ++ separator ++ join separator rest := by
  cases rest with
  | nil => exact absurd rfl more
  | cons t rest => rfl

theorem join_concat_append (separator : JsString) (parts : List JsString) (s t : JsString) :
    join separator (parts ++ [s ++ t]) = join separator (parts ++ [s]) ++ t := by
  induction parts with
  | nil => rfl
  | cons part parts ih =>
      rw [List.cons_append, List.cons_append, join_cons (List.concat_ne_nil _ _),
        join_cons (List.concat_ne_nil _ _), ih, List.append_assoc _ _ t]

theorem starts_join {separator : JsString} {parts : List JsString} (some_part : parts ≠ [])
    (starts : ∀ s ∈ parts, Starts s) : Starts (join separator parts) := by
  obtain ⟨s, rest, rfl⟩ := List.exists_cons_of_ne_nil some_part
  have first := starts s List.mem_cons_self
  cases rest with
  | nil => exact first
  | cons t rest => exact (first.append separator).append _

theorem starts_join_concat (separator : JsString) {t : JsString} {parts : List JsString}
    (starts : ∀ s ∈ parts, Starts s) (last : Starts t) :
    Starts (join separator (parts ++ [t])) :=
  starts_join (List.concat_ne_nil _ _)
    (List.forall_mem_append.mpr ⟨starts, List.forall_mem_singleton.mpr last⟩)

end Trim

section Blocks
variable (g : Graph)

/-- Nothing is shown of a control without code, and of one with the code of the root. -/
def Graph.redundant (r c : ℕ) : Bool :=
  !(g.code c).truthy || (trim (g.code c).inTemplate).isEmpty || decide (g.code c = g.code r)

def Graph.blockLabel (c : ℕ) : JsString :=
  Graph.rule ++ js "\n# Profile name: " ++ g.profileName c ++ js "\n" ++ Graph.rule ++ js "\n\n"

def Graph.codeText (c : ℕ) : JsString :=
  match g.code c with
  | .val code => code
  | .null | .undefined => []

def Graph.labelledBlock (c : ℕ) : JsString := g.blockLabel c ++ g.codeText c

/-- The labelled blocks of the controls of a chain, from the top to the root `r`. -/
def Graph.chainBlocks (above : List ℕ) (r : ℕ) : List JsString :=
  (above.filter fun c => !g.redundant r c).map g.labelledBlock ++ [g.labelledBlock r]

variable {g}

theorem codeBlock_eq (c : ℕ) : g.codeBlock c = g.blockLabel c ++ (g.code c).inTemplate := rfl

theorem starts_blockLabel (c : ℕ) : Starts (g.blockLabel c) := ⟨61, _, rfl, by decide⟩

theorem starts_codeBlock (c : ℕ) : Starts (g.codeBlock c) := (starts_blockLabel c).append _

/-- A control that is not redundant has code. -/
theorem codeBlock_of_not_redundant {r c : ℕ} (shown : g.redundant r c = false) :
    g.codeBlock c = g.labelledBlock c := by
  unfold Graph.redundant at shown
  unfold Graph.labelledBlock Graph.codeText
  rw [codeBlock_eq]
  cases code : g.code c with
  | undefined => rw [code] at shown; cases shown
  | null => rw [code] at shown; cases shown
  | val text => rfl

theorem is_redundant_eq {fuel c d r : ℕ} (next : g.extended c = some d)
    (root : g.root fuel c = some r) : g.is_redundant fuel c = some (g.redundant r c) := by
  unfold Graph.is_redundant Graph.redundant
  dsimp only
  cases missing : !(g.code c).truthy || (trim (g.code c).inTemplate).isEmpty with
  | true => rfl
  | false =>
      rw [if_neg Bool.false_ne_true, next, Option.isNone_some, if_neg Bool.false_ne_true, root]
      rfl

/-- What is shown: the blocks of the controls above the root that are not redundant, and the
block of the root. -/
theorem full_code_eq {fuel c r : ℕ} (root : g.root fuel c = some r) :
    ∃ above, trail g.extended fuel c = above ++ [r] ∧
      g.full_code fuel c = some (trim (join (js "\n\n")
        ((above.filter fun d => !g.redundant r d).map g.codeBlock ++ [g.codeBlock r]))) := by
  induction fuel generalizing c with
  | zero => cases root
  | succ fuel ih =>
      cases next : g.extended c with
      | none =>
          have same : c = r := by
            rw [Graph.root, follow_of_end next] at root
            exact Option.some.inj root
          subst same
          refine ⟨[], trail_of_end next fuel, ?_⟩
          rw [Graph.full_code, next]
          rfl
      | some ancestor =>
          have test := is_redundant_eq next root
          rw [Graph.root, follow_of_next next] at root
          obtain ⟨above, chain, below⟩ := ih root
          refine ⟨c :: above, by rw [trail_of_next next, chain]; rfl, ?_⟩
          rw [Graph.full_code, next]
          dsimp only
          rw [test, below, List.filter_cons]
          cases g.redundant r c with
          | true => rfl
          | false =>
              -- The blocks below were trimmed before they are put behind this one.
              have shown : ∀ s ∈ (above.filter fun d => !g.redundant r d).map g.codeBlock,
                  Starts s := List.forall_mem_map.mpr fun d _ => starts_codeBlock d
              have head : Starts (g.codeBlock c ++ js "\n\n") := (starts_codeBlock c).append _
              have last : Starts (g.codeBlock r) := starts_codeBlock r
              have trimmed := trim_append_trim head (starts_join_concat (js "\n\n") shown last)
              rw [← join_cons (List.concat_ne_nil _ _)] at trimmed
              exact congrArg some trimmed

/-- A root without code shows the text of what is missing. -/
theorem trim_block_iff (parts : List JsString) (starts : ∀ s ∈ parts, Starts s) (r : ℕ) :
    trim (join (js "\n\n") (parts ++ [g.codeBlock r])) =
        trim (join (js "\n\n") (parts ++ [g.labelledBlock r])) ↔
      g.code r ≠ .null ∧ g.code r ≠ .undefined := by
  have labelled : Starts (join (js "\n\n") (parts ++ [g.blockLabel r])) :=
    starts_join_concat _ starts (starts_blockLabel r)
  have differs : ∀ (word : JsString) (c : CodeUnit), isSpace c = false →
      trim (join (js "\n\n") (parts ++ [g.blockLabel r]) ++ (word ++ [c])) ≠
        trim (join (js "\n\n") (parts ++ [g.blockLabel r]) ++ []) := by
    intro word c filled same
    have lengths := congrArg List.length same
    rw [← List.append_assoc, (labelled.append word).trim_concat filled, List.append_nil,
      List.length_append, List.length_append] at lengths
    have shorter := labelled.length_trim_le
    rw [List.length_singleton] at lengths
    omega
  unfold Graph.labelledBlock Graph.codeText
  rw [codeBlock_eq, join_concat_append, join_concat_append]
  cases code : g.code r with
  | undefined =>
      exact iff_of_false (differs (js "undefine") 100 (by decide)) fun ⟨_, other⟩ => other rfl
  | null => exact iff_of_false (differs (js "nul") 108 (by decide)) fun ⟨other, _⟩ => other rfl
  | val text => exact iff_of_true rfl ⟨by simp, by simp⟩

/-- The full code is made of the labelled blocks of the chain exactly when the root has code. -/
theorem full_code_exact_iff (g : Graph) {fuel c r : ℕ} (root : g.root fuel c = some r) :
    ∃ above code, trail g.extended fuel c = above ++ [r] ∧ (above ++ [r]).Nodup ∧
      g.full_code fuel c = some code ∧
      (code = trim (join (js "\n\n") (g.chainBlocks above r)) ↔
        g.code r ≠ .null ∧ g.code r ≠ .undefined) := by
  obtain ⟨above, chain, code⟩ := full_code_eq root
  refine ⟨above, _, chain, chain ▸ nodup_trail root, code, ?_⟩
  have blocks : (above.filter fun d => !g.redundant r d).map g.codeBlock =
      (above.filter fun d => !g.redundant r d).map g.labelledBlock := by
    refine List.map_congr_left fun d inside => codeBlock_of_not_redundant (r := r) ?_
    simpa using (List.mem_filter.mp inside).2
  rw [blocks]
  exact trim_block_iff _ (List.forall_mem_map.mpr fun d _ => (starts_blockLabel d).append _) r

end Blocks

section Samples

/-- A control whose code is replaced by a wrapper. -/
def rewritten : ExecJSON := sampleExec
  [⟨js "wrapper", .undefined, [{ bareControl "C-1" [] with code := .val (js "b") }]⟩,
    ⟨js "base", .val (js "wrapper"), [{ bareControl "C-1" [] with code := .val (js "a") }]⟩]

theorem full_code_exact_iff_sample :
    ∃ context, @contextualizeEvaluation asciiTables 0 rewritten = .ok context ∧
      ∃ above code, trail context.graph.extended 2 0 = above ++ [1] ∧ (above ++ [1]).Nodup ∧
        context.graph.full_code 2 0 = some code ∧
        (code = trim (join (js "\n\n") (context.graph.chainBlocks above 1)) ↔
          context.graph.code 1 ≠ .null ∧ context.graph.code 1 ≠ .undefined) :=
  ⟨_, rfl, full_code_exact_iff _ rfl⟩

/-- The block of a root without code ends in `undefined`. -/
theorem full_code_undefined :
    ¬ ∀ [UnicodeTables] json evaluation evalContext context, toExecJSON json = .ok evaluation →
      contextualizeEvaluation evalContext evaluation = .ok context →
      ∀ fuel c r above code, context.graph.root fuel c = some r →
        trail context.graph.extended fuel c = above ++ [r] →
        context.graph.full_code fuel c = some code →
          code = trim (join (js "\n\n") (context.graph.chainBlocks above r)) := by
  intro always
  have exact := @always asciiTables wrappedJson wrapped 0 _ wrapped_accepted rfl 1 1 1 [] _
    (by decide +kernel) (by decide +kernel) rfl
  revert exact
  decide +kernel

end Samples
end Inspec
