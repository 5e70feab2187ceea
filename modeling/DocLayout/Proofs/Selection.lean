import DocLayout.Proofs.Composition
import DocLayout.Proofs.Course
import DocLayout.Proofs.Resolution

/-
  The resolution that a layout picks.

  The width of the page decides which alternative of a choice is laid out, and it decides nothing
  else. `d.picked w` is the document that is left when every choice in `d` is replaced by the
  alternative that its layout takes on a page of `w` columns. It has no choice left, so every page
  lays it out alike; and what it is laid out to is what `d` is laid out to on `w` columns.

  `strokes` is all that reaches the canvas, in order: `work_strokes` says that a layout is nothing
  but its strokes. What it writes are the texts of the picked document from left to right, each as
  often as it stands there, and it breaks a line for every `vert`.

  Proved:
  * `work_strokes`: the canvas after the work comes of the strokes alone.
  * `resolves_picked`, `drawing_picked`: the picked document is a resolution, and it has the same
    drawing on every page.
  * `written_course`, `size_finished_drawing`: the texts that are written and the lines that are
    finished are those of the picked document.
  * `display_picked`: a page shows a resolution, without losing, doubling or moving any text.
-/

namespace DocLayout

variable {α : Type}

/-! ## Strokes -/

/-- The text that a stroke writes. -/
def Stroke.text? : Stroke → Option String
  | .write s => some s
  | .lineBreak _ => none

/-- The stroke of a task. -/
def Task.stroke? (margin : Margin α) (t : Task α × Int) : Option Stroke :=
  match t.1.move margin t.2 with
  | .ok m => m.stroke
  | .error _ => none

/-- All strokes of the work on a stack of tasks, in order. -/
def strokes (margin : Margin α) (stack : List (Task α)) (column : Int) : List Stroke :=
  (trace margin stack column).filterMap (Task.stroke? margin)

theorem foldl_paint (margin : Margin α) (tasks : List (Task α × Int)) (canvas : Canvas) :
    tasks.foldl (Task.paint margin) canvas =
      (tasks.filterMap (Task.stroke? margin)).foldl Canvas.apply canvas := by
  induction tasks generalizing canvas with
  | nil => rfl
  | cons t tasks ih =>
    rw [List.foldl_cons, ih, List.filterMap_cons, Task.paint, Task.stroke?]
    cases t.1.move margin t.2 with
    | error obstacle => rfl
    | ok m =>
      obtain ⟨_ | stroke, column, rest⟩ := m
      · rfl
      · rfl

/-- The canvas after the work comes of its strokes alone. -/
theorem work_strokes (margin : Margin α) (stack : List (Task α)) (column : Int) (canvas : Canvas) :
    (work margin stack column canvas).1 = (strokes margin stack column).foldl Canvas.apply canvas := by
  rw [work_canvas, foldl_paint, strokes]

/-! ## The picked document -/

namespace Doc

/-- The document with every choice replaced by the alternative that is laid out on a page of `w`
columns. -/
def picked (w : Int) : Doc α → Int → Int → Doc α
  | text s, _, _ => text s
  | horzNode _ a b, indent, column =>
    horz (a.picked w indent column)
      (b.picked w (a.endColumn w indent column) (a.endColumn w indent column))
  | concatNode _ a b, indent, column =>
    concat (a.picked w indent column) (b.picked w indent (a.endColumn w indent column))
  | vert a b, indent, column => vert (a.picked w indent column) (b.picked w indent indent)
  | choiceNode _ flat broken, indent, column =>
    if flat.flatWidth.Fits column w then flat.picked w indent column
    else broken.picked w indent column
  | fullLine a, indent, column => fullLine (a.picked w indent column)
  | foreign x v, _, _ => foreign x v

/-- The number of `vert` nodes in a document. -/
def vertCount : Doc α → Nat
  | text _ | foreign _ _ => 0
  | horzNode _ a b | concatNode _ a b | choiceNode _ a b => a.vertCount + b.vertCount
  | vert a b => a.vertCount + b.vertCount + 1
  | fullLine a => a.vertCount

end Doc

theorem resolves_picked (w : Int) (d : Doc α) (indent column : Int) :
    d.Resolves (d.picked w indent column) := by
  induction d generalizing indent column with
  | text s => exact .text s
  | horzNode v a b iha ihb => exact .horz (iha _ _) (ihb _ _)
  | concatNode v a b iha ihb => exact .concat (iha _ _) (ihb _ _)
  | vert a b iha ihb => exact .vert (iha _ _) (ihb _ _)
  | choiceNode v flat broken ihf ihb =>
    rw [Doc.picked]
    split
    · exact .flat (ihf _ _)
    · exact .broken (ihb _ _)
  | fullLine a ih => exact .fullLine (ih _ _)
  | foreign x v => exact .foreign x v

/-- On every page the picked document ends where the document does on `w` columns. -/
theorem endColumn_picked (w w' : Int) (d : Doc α) (indent column : Int) :
    (d.picked w indent column).endColumn w' indent column = d.endColumn w indent column := by
  induction d generalizing indent column with
  | text s => rfl
  | horzNode v a b iha ihb => rw [Doc.picked, Doc.horz, Doc.endColumn, iha, ihb, Doc.endColumn]
  | concatNode v a b iha ihb => rw [Doc.picked, Doc.concat, Doc.endColumn, iha, ihb, Doc.endColumn]
  | vert a b iha ihb => exact ihb indent indent
  | choiceNode v flat broken ihf ihb =>
    rw [Doc.picked, Doc.endColumn]
    split
    · exact ihf indent column
    · exact ihb indent column
  | fullLine a ih => exact ih indent column
  | foreign x v => rfl

/-- On every page the picked document is drawn as the document is on `w` columns. -/
theorem drawing_picked (w w' : Int) (d : Doc α) (indent column : Int) :
    (d.picked w indent column).drawing w' indent column = d.drawing w indent column := by
  induction d generalizing indent column with
  | text s => rfl
  | horzNode v a b iha ihb =>
    rw [Doc.picked, Doc.horz, Doc.drawing, endColumn_picked, iha, ihb, Doc.drawing]
  | concatNode v a b iha ihb =>
    rw [Doc.picked, Doc.concat, Doc.drawing, endColumn_picked, iha, ihb, Doc.drawing]
  | vert a b iha ihb => rw [Doc.picked, Doc.drawing, iha, ihb, Doc.drawing]
  | choiceNode v flat broken ihf ihb =>
    rw [Doc.picked, Doc.drawing]
    split
    · exact ihf indent column
    · exact ihb indent column
  | fullLine a ih => exact ih indent column
  | foreign x v => rfl

/-! ## What is written -/

/-- The text that a task writes. -/
def Task.written? (margin : Margin α) (t : Task α × Int) : Option String :=
  (Task.stroke? margin t).bind Stroke.text?

/-- A choice is decided without a stroke. -/
theorem written_choice (margin : Margin α) (v : FlatWidth α) (flat broken : Doc α)
    (indent column : Int) :
    Task.written? margin (.lay (.choiceNode v flat broken) indent, column) = none := by
  rw [Task.written?, Task.stroke?, Task.move]
  cases margin.admits column flat.flatWidth with
  | error e => rfl
  | ok fits => cases fits <;> rfl

/-- Along the course of a document the texts of the picked one are written, from left to right. -/
theorem written_course (margin : Margin α) (w : Int) (d : Doc α) (indent column : Int) :
    (d.course w indent column).filterMap (Task.written? margin) =
      (d.picked w indent column).texts := by
  induction d generalizing indent column with
  | text s => rfl
  | horzNode v a b iha ihb =>
    rw [Doc.course, List.filterMap_cons_none rfl, List.filterMap_append,
      List.filterMap_cons_none rfl, iha, ihb]
    rfl
  | concatNode v a b iha ihb =>
    rw [Doc.course, List.filterMap_cons_none rfl, List.filterMap_append, iha, ihb]
    rfl
  | vert a b iha ihb =>
    rw [Doc.course, List.filterMap_cons_none rfl, List.filterMap_append,
      List.filterMap_cons_none rfl, iha, ihb]
    rfl
  | choiceNode v flat broken ihf ihb =>
    rw [Doc.course, List.filterMap_cons_none (written_choice margin v flat broken indent column),
      Doc.picked]
    split
    · exact ihf indent column
    · exact ihb indent column
  | fullLine a ih =>
    rw [Doc.course, List.filterMap_cons_none rfl, ih]
    rfl
  | foreign x v => rfl

/-- A drawing finishes a line for every `vert` of the picked document. -/
theorem size_finished_drawing (w : Int) (d : Doc α) (indent column : Int) :
    (d.drawing w indent column).finished.size = (d.picked w indent column).vertCount := by
  induction d generalizing indent column with
  | text s => rfl
  | horzNode v a b iha ihb =>
    rw [Doc.drawing, Canvas.size_finished_append, iha, ihb]
    rfl
  | concatNode v a b iha ihb =>
    rw [Doc.drawing, Canvas.size_finished_append, iha, ihb]
    rfl
  | vert a b iha ihb =>
    rw [Doc.drawing, Canvas.size_finished_append, ihb, Canvas.breakLine, Array.size_push, iha,
      Doc.picked, Doc.vertCount]
    omega
  | choiceNode v flat broken ihf ihb =>
    rw [Doc.drawing, Doc.picked]
    split
    · exact ihf indent column
    · exact ihb indent column
  | fullLine a ih => exact ih indent column
  | foreign x v => rfl

/-! ## On pages -/

variable {κ : Type} {d : Doc (Value κ)} (run : Interpreter κ)

/-- A page of `w` columns shows a document `r` that comes of `d` by replacing every choice by one of
its alternatives, and that looks the same on every page. The texts that are written are those of
`r`, from left to right, and there is one line more than `r` has `vert` nodes. -/
theorem display_picked (hd : d.WellFormed) (w : Int) :
    ∃ (r : Doc (Value κ)) (lines : List String),
      d.Resolves r ∧ r.WellFormed ∧ r.ChoiceFree ∧
      Page.display run (.doc d) (.int w) = pure lines ∧
      (∀ w' : Int, Page.display run (.doc r) (.int w') = pure lines) ∧
      ((strokes (.page w) [.lay d 0] 0).foldl Canvas.apply .empty).lines = lines ∧
      (strokes (.page w) [.lay d 0] 0).filterMap Stroke.text? = r.texts ∧
      lines.length = 1 + r.vertCount := by
  have hr : d.Resolves (d.picked w 0 0) := resolves_picked w d 0 0
  have hrd : (d.picked w 0 0).WellFormed := hr.wellFormed hd
  refine ⟨d.picked w 0 0, (d.drawing w 0 0).lines, hr, hrd, hr.choiceFree, ?_, ?_, ?_, ?_, ?_⟩
  · rw [display_doc, lines_wellFormed hd]
    rfl
  · intro w'
    rw [display_doc, lines_wellFormed hrd, drawing_picked]
    rfl
  · rw [← work_strokes, ← Doc.layOut, layOut_page hd, empty_append_lines]
  · rw [strokes, trace_page hd, List.filterMap_filterMap]
    exact written_course (.page w) w d 0 0
  · rw [Canvas.lines, List.length_append, Array.length_toList, size_finished_drawing,
      List.length_singleton, Nat.add_comm]

/-- A choice that begins in the third column and hangs there, and a text on the line below. -/
def hangingChoice : Doc (Value Empty) :=
  .vert (.horz (.text "ab") (.choice (.text "cd") (.vert (.text "c") (.text "d")))) (.text "e")

theorem display_picked_hangingChoice :
    hangingChoice.WellFormed ∧
    ∃ (r : Doc (Value Empty)) (lines : List String),
      hangingChoice.Resolves r ∧ r.WellFormed ∧ r.ChoiceFree ∧
      Page.display Empty.elim (.doc hangingChoice) (.int 3) = pure lines ∧
      (∀ w' : Int, Page.display Empty.elim (.doc r) (.int w') = pure lines) ∧
      ((strokes (.page 3) [.lay hangingChoice 0] 0).foldl Canvas.apply .empty).lines = lines ∧
      (strokes (.page 3) [.lay hangingChoice 0] 0).filterMap Stroke.text? = r.texts ∧
      lines.length = 1 + r.vertCount := by
  have unbroken : ∀ s ∈ ["ab", "cd", "c", "d", "e"], Text.Unbroken s := by decide
  have hd : hangingChoice.WellFormed :=
    ⟨⟨rfl, unbroken "ab" (by simp), rfl, unbroken "cd" (by simp), unbroken "c" (by simp),
      unbroken "d" (by simp)⟩, unbroken "e" (by simp)⟩
  exact ⟨hd, display_picked Empty.elim hd 3⟩

end DocLayout
