import DocLayout.Proofs.Canvas
import DocLayout.Proofs.Descent

/-
  What stands on a canvas stays there.

  A canvas is written on in three ways: a text is written, a line is broken, or a document is laid out,
  which may stop at an obstacle half way. None of them looks at what the canvas holds. What they do to a
  canvas is what they do to an empty one, put behind it, and the moves of a layout are the same on both.
  So the lines that are finished never change, and the line that is being written only grows.

  This holds of every tree, foreign leaves included, of every margin, and of any series of such actions
  on one canvas.

  Proved:
  * `work_behind`, by induction on the work: the stack is worked off behind a canvas as on an empty one.
  * `exists_performAll`: a series of actions puts something behind the canvas, whatever it is.
  * `layOut_appends`: a layout on a canvas with a history, in terms of the layout on an empty canvas.
-/

namespace DocLayout

section Layouts

variable {α : Type}

theorem paint_behind (m : Move α) (c canvas : Canvas) :
    m.paint (c.append canvas) = c.append (m.paint canvas) := by
  obtain ⟨_ | stroke, column, tasks⟩ := m
  · rfl
  · cases stroke with
    | write s => exact (Canvas.append_write c canvas s).symm
    | lineBreak indent => exact (Canvas.append_breakLine c canvas indent).symm

/-- The work on a stack of tasks puts the same behind every canvas, and it ends in the same column or at
the same obstacle. -/
theorem work_behind (margin : Margin α) (stack : List (Task α)) (column : Int) (c canvas : Canvas) :
    work margin stack column (c.append canvas) =
      (c.append (work margin stack column canvas).1, (work margin stack column canvas).2) := by
  induction stack, column, canvas using work.induct margin with
  | case1 column canvas => rw [work_nil, work_nil]
  | case2 task stack column canvas obstacle hmove =>
    rw [work_cons, work_cons, hmove]
  | case3 task stack column canvas m hmove _ ih =>
    rw [work_cons, work_cons, hmove]
    simp only [paint_behind]
    exact ih

/-- A document is laid out on a canvas as on an empty one, behind what the canvas holds. -/
theorem layOut_behind (d : Doc α) (c : Canvas) (indent column : Int) (margin : Margin α) :
    d.layOut c indent column margin =
      (c.append (d.layOut .empty indent column margin).1,
        (d.layOut .empty indent column margin).2) := by
  have h := work_behind margin [.lay d indent] column c .empty
  rwa [Canvas.append_empty] at h

/-- What a document does behind another canvas is what it does, behind that canvas. -/
theorem descend_behind (margin : Margin α) (d : Doc α) (c canvas : Canvas) (indent column : Int) :
    d.descend margin (c.append canvas) indent column =
      (c.append (d.descend margin canvas indent column).1,
        (d.descend margin canvas indent column).2) := by
  rw [← layOut_descend, ← layOut_descend]
  exact work_behind margin [.lay d indent] column c canvas

end Layouts

/-! ## Series of actions -/

/-- What can be done to a canvas. -/
inductive Canvas.Action (κ : Type) where
  | write (s : String)
  | breakLine (indent : Int)
  /-- A document is laid out, to its end or up to an obstacle. -/
  | layOut (d : Doc (Value κ)) (indent column : Int) (width : Value κ)

namespace Canvas

variable {κ : Type}

/-- The canvas after an action. -/
def perform (c : Canvas) : Action κ → Canvas
  | .write s => c.write s
  | .breakLine indent => c.breakLine indent
  | .layOut d indent column width => (d.layOut c indent column (.ofValue width)).1

/-- The canvas after a series of actions. -/
def performAll (c : Canvas) (actions : List (Action κ)) : Canvas := actions.foldl perform c

theorem exists_perform (c : Canvas) (action : Action κ) : ∃ d, c.perform action = c.append d := by
  cases action with
  | write s => exact ⟨empty.write s, (append_write_empty c s).symm⟩
  | breakLine indent =>
    refine ⟨empty.breakLine indent, ?_⟩
    rw [append_breakLine, append_empty]
    rfl
  | layOut d indent column width =>
    exact ⟨_, congrArg Prod.fst (layOut_behind d c indent column (.ofValue width))⟩

/-- A series of actions puts something behind the canvas. -/
theorem exists_performAll (c : Canvas) (actions : List (Action κ)) :
    ∃ d, c.performAll actions = c.append d := by
  induction actions generalizing c with
  | nil => exact ⟨empty, (append_empty c).symm⟩
  | cons action actions ih =>
    obtain ⟨d, hd⟩ := exists_perform c action
    obtain ⟨e, he⟩ := ih (c.perform action)
    refine ⟨d.append e, ?_⟩
    rw [← append_assoc, ← hd]
    exact he

end Canvas

open Canvas in
/-- A canvas that any series of actions has made of the empty one has lines `earlier` and a last line
`last`. If a document is laid out on an empty canvas to the lines `first` and `rest`, then on that canvas
it is laid out to `earlier`, the line `last` with `first` behind it, and `rest`, with the same column or
the same obstacle. And whatever is done to the canvas afterwards, the lines `earlier` stay in front as
they are, and behind them the line `last` goes on. -/
theorem layOut_appends {κ : Type} (before : List (Action κ)) (d : Doc (Value κ)) (indent column : Int)
    (width : Value κ) :
    ∃ earlier last first rest,
      (empty.performAll before).lines = earlier ++ [last] ∧
      (d.layOut empty indent column (.ofValue width)).1.lines = first :: rest ∧
      (d.layOut (empty.performAll before) indent column (.ofValue width)).1.lines =
        earlier ++ (last ++ first) :: rest ∧
      (d.layOut (empty.performAll before) indent column (.ofValue width)).2 =
        (d.layOut empty indent column (.ofValue width)).2 ∧
      ∀ after : List (Action κ), ∃ growth more,
        ((empty.performAll before).performAll after).lines = earlier ++ (last ++ growth) :: more := by
  generalize empty.performAll before = canvas
  obtain ⟨first, rest, h⟩ :=
    (d.layOut empty indent column (.ofValue width)).1.exists_lines_eq_cons
  refine ⟨canvas.finished.toList, canvas.current, first, rest, rfl, h, ?_, ?_, ?_⟩
  · rw [layOut_behind, lines_append h]
  · rw [layOut_behind]
  · intro after
    obtain ⟨added, hadded⟩ := exists_performAll canvas after
    obtain ⟨growth, more, hlines⟩ := added.exists_lines_eq_cons
    exact ⟨growth, more, by rw [hadded, lines_append hlines]⟩

end DocLayout
