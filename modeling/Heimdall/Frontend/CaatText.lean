import Heimdall.Frontend.ExportCaat

/-!
# The line ends of a cell

Every line end of a cell is a carriage return with a line feed behind it. A text that is cut off
may lose the line feed of its last line end, and gets it back and loses it again.
-/
namespace Frontend
open Js

/-- A line feed has a carriage return before it, and a carriage return that is not the last unit
has a line feed behind it. -/
structure LineEnds (s : JsString) : Prop where
  preceded : ∀ before after, s = before ++ 10 :: after → ∃ line, before = line ++ [13]
  followed : ∀ before after, s = before ++ 13 :: after → after ≠ [] → ∃ rest, after = 10 :: rest

theorem lineEnds_nil : LineEnds [] := by
  constructor
  · intro before after shape
    simp at shape
  · intro before after shape
    simp at shape

theorem LineEnds.pair {s : JsString} (ends : LineEnds s) : LineEnds (13 :: 10 :: s) := by
  constructor
  · intro before after shape
    match before, shape with
    | [_], shape => exact ⟨[], by rw [(List.cons.inj shape).1]; rfl⟩
    | c :: d :: before, shape =>
        obtain ⟨line, rfl⟩ := ends.preceded before after (List.cons.inj (List.cons.inj shape).2).2
        exact ⟨c :: d :: line, rfl⟩
  · intro before after shape more
    match before, shape with
    | [], shape => exact ⟨s, (List.cons.inj shape).2.symm⟩
    | _ :: _ :: before, shape =>
        exact ends.followed before after (List.cons.inj (List.cons.inj shape).2).2 more

theorem LineEnds.cons {s : JsString} (ends : LineEnds s) {c : CodeUnit} (notReturn : c ≠ 13)
    (notFeed : c ≠ 10) : LineEnds (c :: s) := by
  constructor
  · intro before after shape
    cases before with
    | nil => exact absurd (List.cons.inj shape).1 notFeed
    | cons d before =>
        obtain ⟨line, rfl⟩ := ends.preceded before after (List.cons.inj shape).2
        exact ⟨d :: line, rfl⟩
  · intro before after shape more
    cases before with
    | nil => exact absurd (List.cons.inj shape).1 notReturn
    | cons d before => exact ends.followed before after (List.cons.inj shape).2 more

theorem LineEnds.behind {before s : JsString} {c : CodeUnit} (ends : LineEnds (before ++ c :: s))
    (notReturn : c ≠ 13) : LineEnds s := by
  have whole : ∀ {front after : JsString} {d : CodeUnit}, s = front ++ d :: after →
      before ++ c :: s = (before ++ c :: front) ++ d :: after := by
    rintro front after d rfl
    rw [List.append_assoc, List.cons_append]
  constructor
  · intro front after shape
    obtain ⟨line, same⟩ := ends.preceded _ after (whole shape)
    rcases List.eq_nil_or_concat' front with rfl | ⟨front, last, rfl⟩
    · exact absurd (List.append_inj_right' same rfl) (by simpa using notReturn)
    · rw [← List.cons_append, ← List.append_assoc] at same
      exact ⟨front, congrArg _ (List.append_inj_right' same rfl)⟩
  · exact fun front after shape => ends.followed _ after (whole shape)

/-- A text may be cut off anywhere. -/
theorem LineEnds.take {s : JsString} (ends : LineEnds s) (n : ℕ) : LineEnds (s.take n) := by
  have whole : ∀ {before after : JsString} {c : CodeUnit}, s.take n = before ++ c :: after →
      s = before ++ c :: (after ++ s.drop n) := by
    intro before after c shape
    rw [← List.cons_append, ← List.append_assoc, ← shape, List.take_append_drop]
  constructor
  · exact fun before after shape => ends.preceded before _ (whole shape)
  · intro before after shape more
    obtain ⟨rest, same⟩ := ends.followed before _ (whole shape) (by simp [more])
    cases after with
    | nil => exact absurd rfl more
    | cons d after => exact ⟨after, by rw [(List.cons.inj same).1]⟩

theorem lineEnds_windowsLines (x : JsString) : LineEnds (windowsLines x) := by
  fun_induction windowsLines x with
  | case1 rest ih => exact ih.pair
  | case2 rest _ ih => exact ih.pair
  | case3 rest ih => exact ih.pair
  | case4 c rest _ notReturn notFeed ih => exact ih.cons notReturn notFeed
  | case5 => exact lineEnds_nil

/-- Of a text with these line ends, only a carriage return at the end is not a line end. -/
theorem windowsLines_of_lineEnds {s : JsString} (ends : LineEnds s) :
    windowsLines s = s ∨ windowsLines s = s ++ [10] := by
  fun_induction windowsLines s with
  | case1 rest ih =>
      rcases ih (@LineEnds.behind [13] rest 10 ends (by decide)) with same | longer
      · exact .inl (by rw [same])
      · exact .inr (by rw [longer]; rfl)
  | case2 rest single ih =>
      cases rest with
      | nil => exact .inr rfl
      | cons c rest =>
          obtain ⟨rest', same⟩ := ends.followed [] (c :: rest) rfl (List.cons_ne_nil c rest)
          exact (single _ same).elim
  | case3 rest ih =>
      obtain ⟨line, same⟩ := ends.preceded [] rest rfl
      cases line <;> cases same
  | case4 c rest _ notReturn notFeed ih =>
      rcases ih (@LineEnds.behind [] rest c ends notReturn) with same | longer
      · exact .inl (by rw [same])
      · exact .inr (by rw [longer]; rfl)
  | case5 => exact .inl rfl

theorem windowsLines_idempotent (x : JsString) :
    windowsLines (windowsLines x) = windowsLines x := by
  fun_induction windowsLines x with
  | case1 rest ih => rw [windowsLines, ih]
  | case2 rest _ ih => rw [windowsLines, ih]
  | case3 rest ih => rw [windowsLines, ih]
  | case4 c rest _ notReturn notFeed ih =>
      rw [windowsLines.eq_4 _ _ (fun _ same _ => notReturn same) notReturn notFeed, ih]
  | case5 => rfl

/-- A cut through the last line end leaves a carriage return, which is completed and cut again. -/
theorem fixText_idempotent (x : JsString) : fixText (fixText x) = fixText x := by
  have ends : LineEnds (fixText x) := (lineEnds_windowsLines x).take _
  by_cases short : (windowsLines x).length ≤ MAX_CELL_SIZE
  · have whole : fixText x = windowsLines x := List.take_of_length_le short
    rw [whole, fixText, windowsLines_idempotent]
    exact whole
  · have full : (fixText x).length = MAX_CELL_SIZE :=
      List.length_take_of_le (Nat.le_of_not_le short)
    have kept : ∀ last, (fixText x ++ last).take MAX_CELL_SIZE = fixText x := by
      intro last
      rw [← full, List.take_left]
    rw [fixText]
    rcases windowsLines_of_lineEnds ends with same | longer
    · rw [same, ← full, List.take_length]
    · rw [longer, kept]

/-- A cell has a bounded length and Windows line ends, and fixing it again changes nothing. -/
theorem fix_normal_form (x : Opt JsString) :
    (fix x).length ≤ MAX_CELL_SIZE ∧ LineEnds (fix x) ∧ fix (.val (fix x)) = fix x :=
  ⟨List.length_take_le _ _, (lineEnds_windowsLines _).take _, fixText_idempotent _⟩

end Frontend
