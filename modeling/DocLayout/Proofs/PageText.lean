import DocLayout.Page
import DocLayout.Proofs.Typeset

/-
  The text of a page, character by character.

  A page is formatted as its lines with a line feed between two of them. `Canvas.chars` is that text
  for the lines of a canvas. What is put on a canvas behind something else is behind it in the text as
  well, and a line break is a line feed and the spaces that the new line begins with.
-/

namespace DocLayout

namespace Page

theorem toList_text_singleton (s : String) : (text [s]).toList = s.toList := by
  rw [text, writes, List.intersperse_singleton, String.join_cons, String.toList_append]
  exact List.append_nil _

theorem toList_text_cons_cons (s t : String) (lines : List String) :
    (text (s :: t :: lines)).toList = s.toList ++ '\n' :: (text (t :: lines)).toList := by
  rw [text, writes, List.intersperse_cons_cons, String.join_cons, String.join_cons,
    String.toList_append, String.toList_append]
  rfl

/-- Lines that go on in the last line of those before them go on in the text. -/
theorem toList_text_glue (before : List String) (s t : String) (after : List String) :
    (text (before ++ (s ++ t) :: after)).toList =
      (text (before ++ [s])).toList ++ (text (t :: after)).toList := by
  induction before with
  | nil =>
    rw [List.nil_append, List.nil_append, toList_text_singleton]
    cases after with
    | nil => rw [toList_text_singleton, toList_text_singleton, String.toList_append]
    | cons u after =>
      rw [toList_text_cons_cons, toList_text_cons_cons, String.toList_append, List.append_assoc]
  | cons u before ih =>
    -- whatever comes next, `u` is followed by a line feed on both sides
    have next : ∀ (v : String) (lines : List String),
        ∃ first rest, before ++ v :: lines = first :: rest :=
      fun v lines => List.exists_cons_of_ne_nil (by simp)
    obtain ⟨first, rest, hjoined⟩ := next (s ++ t) after
    obtain ⟨other, others, hcut⟩ := next s []
    rw [hjoined, hcut] at ih
    rw [List.cons_append, List.cons_append, hjoined, hcut, toList_text_cons_cons, ih,
      toList_text_cons_cons, List.append_assoc, List.cons_append]

end Page

namespace Canvas

/-- The characters of the text on a canvas. -/
def chars (c : Canvas) : List Char := (Page.text c.lines).toList

theorem chars_write_empty (s : String) : (empty.write s).chars = s.toList := by
  rw [chars, lines_write]
  show (Page.text ["" ++ s]).toList = _
  rw [Page.toList_text_singleton, String.empty_append]

theorem chars_append (c d : Canvas) : (c.append d).chars = c.chars ++ d.chars := by
  obtain ⟨first, rest, h⟩ := d.exists_lines_eq_cons
  rw [chars, lines_append h, Page.toList_text_glue, ← h]
  rfl

theorem chars_breakLine (c : Canvas) (indent : Int) :
    (c.breakLine indent).chars = c.chars ++ '\n' :: List.replicate indent.toNat ' ' := by
  have glue := Page.toList_text_glue c.finished.toList c.current "" [spaces indent]
  rw [String.append_empty, Page.toList_text_cons_cons, Page.toList_text_singleton, toList_spaces]
    at glue
  rw [chars, lines_breakLine, lines, List.append_assoc]
  exact glue

end Canvas

end DocLayout
