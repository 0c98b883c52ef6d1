import Mathlib.Data.List.Infix

/-!
# Regular expressions that backtrack

The ways in which an expression reads a string are listed in the order in which a matcher
tries them, each with the groups that it captured and the rest of the string. Repetition is
greedy. The rules name the first way where no earlier one has to be given up.
-/
namespace Lib

variable {α : Type*}

inductive Regex (α : Type*) where
  /-- One symbol for each class. -/
  | word (classes : List (α → Bool))
  /-- `[p]{least,}` -/
  | run (p : α → Bool) (least : ℕ)
  | seq (a b : Regex α)
  /-- `(?:a)?` -/
  | opt (a : Regex α)
  /-- The capturing group with this number. -/
  | group (n : ℕ) (a : Regex α)
  /-- `$` -/
  | done

namespace Regex

abbrev Captures (α : Type*) := List (ℕ × List α)

/-- The rest after one symbol of each class. -/
def afterWord : List (α → Bool) → List α → Option (List α)
  | [], s => some s
  | _ :: _, [] => none
  | p :: classes, c :: s => if p c then afterWord classes s else none

/-- The lengths that a greedy run tries, the longest first. -/
def runLengths (p : α → Bool) (least : ℕ) (s : List α) : List ℕ :=
  (List.range' least ((s.takeWhile p).length + 1 - least)).reverse

def tries : Regex α → List α → List (Captures α × List α)
  | word classes, s => (afterWord classes s).toList.map fun rest => ([], rest)
  | run p least, s => (runLengths p least s).map fun n => ([], s.drop n)
  | seq a b, s => (a.tries s).flatMap fun (before, rest) =>
      (b.tries rest).map fun (after, rest') => (after ++ before, rest')
  -- an optional part that reads nothing is left out
  | opt a, s => (a.tries s).filter (fun t => decide (t.2.length < s.length)) ++ [([], s)]
  | group n a, s => (a.tries s).map fun (inner, rest) =>
      ((n, s.take (s.length - rest.length)) :: inner, rest)
  | done, s => if s.isEmpty then [([], s)] else []

/-- These symbols, one after the other. -/
def literal [BEq α] (w : List α) : Regex α := .word (w.map fun d c => c == d)

/-- `s.match(/^a/)` -/
def exec (a : Regex α) (s : List α) : Option (Captures α) := (a.tries s).head?.map Prod.fst

/-- `/^a/.test(s)` -/
def matchesStart (a : Regex α) (s : List α) : Bool := !(a.tries s).isEmpty

/-- `/a/.test(s)` -/
def test (a : Regex α) (s : List α) : Bool := s.tails.any a.matchesStart

/-- The first way of reading `s` captures these groups and leaves `rest`. -/
def First (a : Regex α) (s : List α) (captured : Captures α) (rest : List α) : Prop :=
  (a.tries s).head? = some (captured, rest)

attribute [local simp] tries First

theorem First.exec {a : Regex α} {s rest : List α} {captured : Captures α}
    (first : a.First s captured rest) : a.exec s = some captured := by
  rw [Regex.exec, first]
  rfl

theorem afterWord_append (w rest : List α) (classes : List (α → Bool))
    (fits : List.Forall₂ (fun p c => p c = true) classes w) :
    afterWord classes (w ++ rest) = some rest := by
  induction fits with
  | nil => rfl
  | cons here _ ih => simp [afterWord, here, ih]

theorem first_word {w rest : List α} {classes : List (α → Bool)}
    (fits : List.Forall₂ (fun p c => p c = true) classes w) :
    (word classes).First (w ++ rest) [] rest := by
  simp [First, tries, afterWord_append w rest classes fits]

/-- A run ends where the next symbol is not in its class. -/
theorem first_run {p : α → Bool} {least : ℕ} {w rest : List α} (inside : ∀ c ∈ w, p c = true)
    (stops : ∀ c ∈ rest.head?, p c = false) (enough : least ≤ w.length) :
    (run p least).First (w ++ rest) [] rest := by
  have longest : (w ++ rest).takeWhile p = w := by
    rw [List.takeWhile_append_of_pos inside]
    cases rest with
    | nil => simp
    | cons c rest => simp [stops c rfl]
  have lengths : runLengths p least (w ++ rest) =
      w.length :: (List.range' least (w.length - least)).reverse := by
    rw [runLengths, longest, Nat.sub_add_comm enough, List.range'_concat, List.reverse_append]
    simp [enough]
  simp [First, tries, lengths]

theorem first_literal [BEq α] [LawfulBEq α] (w rest : List α) :
    (literal w).First (w ++ rest) [] rest := by
  refine first_word ?_
  induction w with
  | nil => exact .nil
  | cons c w ih => exact .cons (beq_self_eq_true c) ih

theorem First.seq {a b : Regex α} {s rest rest' : List α} {before after : Captures α}
    (first : a.First s before rest) (second : b.First rest after rest') :
    (seq a b).First s (after ++ before) rest' := by
  obtain ⟨more, here⟩ := List.head?_eq_some_iff.mp first
  obtain ⟨others, there⟩ := List.head?_eq_some_iff.mp second
  simp [First, tries, here, there]

theorem First.opt {a : Regex α} {s rest : List α} {captured : Captures α}
    (first : a.First s captured rest) (reads : rest.length < s.length) :
    (opt a).First s captured rest := by
  obtain ⟨more, here⟩ := List.head?_eq_some_iff.mp first
  simp [First, tries, here, reads]

/-- An optional part that cannot be read is left out. -/
theorem first_opt_none {a : Regex α} {s : List α} (none : a.tries s = []) :
    (opt a).First s [] s := by
  simp [First, tries, none]

theorem First.group {a : Regex α} {w rest : List α} {captured : Captures α}
    (first : a.First (w ++ rest) captured rest) (n : ℕ) :
    (group n a).First (w ++ rest) ((n, w) :: captured) rest := by
  obtain ⟨more, here⟩ := List.head?_eq_some_iff.mp first
  simp [First, tries, here]

theorem first_done : (done : Regex α).First [] [] [] := rfl

/-- An expression that starts with a symbol does not read the empty string. -/
theorem tries_seq_word_nil (p : α → Bool) (classes : List (α → Bool)) (b : Regex α) :
    (seq (word (p :: classes)) b).tries [] = [] := rfl

/-- Whatever it reads, some symbol that it looks at is in the class. -/
def Needs (a : Regex α) (p : α → Bool) : Prop := ∀ s, a.tries s ≠ [] → ∃ c ∈ s, p c = true

theorem needs_word {p q : α → Bool} {classes : List (α → Bool)}
    (first : ∀ c, q c = true → p c = true) : (word (q :: classes)).Needs p := by
  intro s reads
  cases s with
  | nil => exact absurd rfl reads
  | cons c s =>
      refine ⟨c, List.mem_cons_self, first c ?_⟩
      by_contra other
      exact reads (by simp [tries, afterWord, other])

theorem Needs.seq {a : Regex α} {p : α → Bool} (needs : a.Needs p) (b : Regex α) :
    (seq a b).Needs p := by
  intro s reads
  refine needs s fun none => reads ?_
  simp [tries, none]

theorem Needs.matchesStart {a : Regex α} {p : α → Bool} {s : List α} (needs : a.Needs p)
    (reads : a.matchesStart s = true) : ∃ c ∈ s, p c = true :=
  needs s fun none => by simp [Regex.matchesStart, none] at reads

theorem Needs.test {a : Regex α} {p : α → Bool} {s : List α} (needs : a.Needs p)
    (found : a.test s = true) : ∃ c ∈ s, p c = true := by
  obtain ⟨rest, suffix, reads⟩ := List.any_eq_true.mp found
  obtain ⟨c, hc, inside⟩ := needs.matchesStart reads
  exact ⟨c, ((List.mem_tails rest s).mp suffix).subset hc, inside⟩

end Regex

/-- `split` at every symbol that separates what follows it. -/
def splitWhere (separates : α → List α → Bool) : List α → List (List α)
  | [] => [[]]
  | c :: s =>
      if separates c s then [] :: splitWhere separates s
      else match splitWhere separates s with
        | [] => [[c]]
        | first :: rest => (c :: first) :: rest

theorem splitWhere_of_none {separates : α → List α → Bool} {s : List α}
    (none : ∀ c ∈ s, ∀ rest, separates c rest = false) : splitWhere separates s = [s] := by
  induction s with
  | nil => rfl
  | cons c s ih =>
      have here := none c List.mem_cons_self s
      have rest := ih fun d hd => none d (List.mem_cons_of_mem c hd)
      simp [splitWhere, here, rest]

theorem splitWhere_append {separates : α → List α → Bool} {s rest : List α} {c : α}
    (none : ∀ d ∈ s, ∀ rest, separates d rest = false) (here : separates c rest = true) :
    splitWhere separates (s ++ c :: rest) = s :: splitWhere separates rest := by
  induction s with
  | nil => simp [splitWhere, here]
  | cons d s ih =>
      have plain := none d List.mem_cons_self (s ++ c :: rest)
      have later := ih fun e he => none e (List.mem_cons_of_mem d he)
      simp [splitWhere, plain, later]

/-- What stands before the first symbol that separates. -/
theorem splitWhere_first (p : α → Bool) (s : List α) :
    (splitWhere (fun c _ => p c) s)[0]? = some (s.takeWhile fun c => !p c) := by
  induction s with
  | nil => rfl
  | cons c s ih =>
      cases here : p c with
      | true => simp [splitWhere, here]
      | false =>
          rw [splitWhere, if_neg (by simp [here]), List.takeWhile_cons_of_pos (by simp [here])]
          cases parts : splitWhere (fun c _ => p c) s with
          | nil => simp [parts] at ih
          | cons first rest =>
              rw [parts] at ih
              simpa using ih

end Lib
