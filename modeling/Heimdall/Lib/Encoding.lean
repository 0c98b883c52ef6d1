import Mathlib.Logic.Function.Basic
import Mathlib.Data.List.Basic

/-!
# Self-delimiting codes

A code whose words can be read off the front of a text, so that the text determines both the
word and what comes after it. Pairs and lists of such words are self-delimiting again.
-/
namespace Lib

variable {α β γ : Type*}

def Delimits (code : α → List γ) : Prop :=
  ∀ a b s t, code a ++ s = code b ++ t → a = b ∧ s = t

theorem Delimits.injective {code : α → List γ} (delimits : Delimits code) :
    Function.Injective code := by
  intro a b same
  exact (delimits a b [] [] (congrArg (· ++ []) same)).1

theorem Delimits.comp {code : β → List γ} (delimits : Delimits code) {f : α → β}
    (injective : Function.Injective f) : Delimits fun a => code (f a) := by
  intro a b s t same
  obtain ⟨here, rest⟩ := delimits (f a) (f b) s t same
  exact ⟨injective here, rest⟩

/-- One word after the other, with a fixed text between them. -/
theorem Delimits.pair {code : α → List γ} {code' : β → List γ} (first : Delimits code)
    (second : Delimits code') (between : List γ) :
    Delimits fun p : α × β => code p.1 ++ between ++ code' p.2 := by
  rintro ⟨a, a'⟩ ⟨b, b'⟩ s t same
  simp only [List.append_assoc] at same
  obtain ⟨rfl, later⟩ := first a b _ _ same
  obtain ⟨rfl, after⟩ := second a' b' s t (List.append_cancel_left later)
  exact ⟨rfl, after⟩

section Lists
variable (code : α → List γ) (separator close : γ)

/-- What follows a word of a list: the next word, or the end. -/
def tailCode : List α → List γ
  | [] => [close]
  | a :: rest => separator :: (code a ++ tailCode rest)

/-- Words with separators between them, and the closing letter. -/
def listCode : List α → List γ
  | [] => [close]
  | a :: rest => code a ++ tailCode code separator close rest

variable {code separator close}

theorem Delimits.tail (delimits : Delimits code) (apart : separator ≠ close) :
    Delimits (tailCode code separator close) := by
  intro as
  induction as with
  | nil =>
      intro bs s t same
      cases bs with
      | nil => exact ⟨rfl, (List.cons.inj same).2⟩
      | cons b bs => exact absurd (List.cons.inj same).1.symm apart
  | cons a as ih =>
      intro bs s t same
      cases bs with
      | nil => exact absurd (List.cons.inj same).1 apart
      | cons b bs =>
          have words : code a ++ tailCode code separator close as ++ s =
              code b ++ tailCode code separator close bs ++ t := (List.cons.inj same).2
          rw [List.append_assoc, List.append_assoc] at words
          obtain ⟨rfl, later⟩ := delimits a b _ _ words
          obtain ⟨rfl, after⟩ := ih bs s t later
          exact ⟨rfl, after⟩

/-- Lists of words are told apart when no word begins with the closing letter. -/
theorem Delimits.list (delimits : Delimits code) (apart : separator ≠ close)
    (opens : ∀ a, ∃ c w, code a = c :: w ∧ c ≠ close) :
    Delimits (listCode code separator close) := by
  intro as bs s t same
  cases as with
  | nil =>
      cases bs with
      | nil => exact ⟨rfl, (List.cons.inj same).2⟩
      | cons b bs =>
          obtain ⟨c, w, word, other⟩ := opens b
          rw [listCode, listCode, word] at same
          exact absurd (List.cons.inj same).1.symm other
  | cons a as =>
      cases bs with
      | nil =>
          obtain ⟨c, w, word, other⟩ := opens a
          rw [listCode, listCode, word] at same
          exact absurd (List.cons.inj same).1 other
      | cons b bs =>
          rw [listCode, listCode, List.append_assoc, List.append_assoc] at same
          obtain ⟨rfl, later⟩ := delimits a b _ _ same
          obtain ⟨rfl, after⟩ := delimits.tail apart as bs s t later
          exact ⟨rfl, after⟩

end Lists
end Lib
