import DocLayout.Proofs.Course
import DocLayout.Proofs.Safety
import DocLayout.Proofs.Shift

/-
  The work on a stack of tasks, moved to the right.

  A task that waits `k` columns further right is the same task with `k` more columns of indentation; an
  `align` task has none of its own, it takes the column where the cursor is. On a page that is `k` columns
  wider the moves of such tasks correspond one to one. A choice decides as before, since the column and
  the width of the page have grown by the same number; all that a move brings forth is `k` columns
  further right, and the text that it writes is the same.

  This is said of one move first, then of the work on any stack of tasks, with no more asked of it than
  that its documents are well formed: indentations and columns may be negative, and `k` too. Only for the
  lines of a canvas it matters that they are not.

  Proved:
  * `move_shifted`: one move.
  * `trace_shifted`: the moves of the work on a stack, each with the column of the cursor.
  * `layOut_shifted`: the layout of a document, with the lines that it begins.
-/

namespace DocLayout

variable {α : Type}

/-! ## What is moved -/

/-- The same stroke `k` columns further right. -/
def Stroke.shifted (k : Int) : Stroke → Stroke
  | write s => write s
  | lineBreak indent => lineBreak (indent + k)

/-- The same task `k` columns further right. -/
def Task.shifted (k : Int) : Task α → Task α
  | lay d indent => lay d (indent + k)
  | align d => align d
  | lineBreak indent => lineBreak (indent + k)

/-- The same move `k` columns further right. -/
def Move.shifted (k : Int) (m : Move α) : Move α :=
  ⟨m.stroke.map (Stroke.shifted k), m.column + k, m.tasks.map (Task.shifted k)⟩

/-! ## Moves -/

variable {margin margin' : Margin α} {w k : Int}

/-- The move of a task on a page of `w` columns is the move of the shifted task on a page that is `k`
columns wider, moved by `k` columns. -/
theorem move_shifted (hw : margin.width = .columns w) (hw' : margin'.width = .columns (w + k))
    {t : Task α} (ht : t.WellFormed) (column : Int) :
    (t.shifted k).move margin' (column + k) = (t.move margin column).map (Move.shifted k) := by
  cases t with
  | align d => rfl
  | lineBreak indent => rfl
  | lay d indent =>
    cases d with
    | text s =>
      show Except.ok (⟨some (.write s), column + k + s.length, []⟩ : Move α) =
        .ok ⟨some (.write s), column + s.length + k, []⟩
      rw [Int.add_right_comm]
    | horzNode v a b => rfl
    | concatNode v a b => rfl
    | vert a b => rfl
    | choiceNode v flat broken =>
      have hsettled := ht.2.1.settled
      rw [Task.shifted, Task.move, Task.move, admits_settled hw hsettled, admits_settled hw' hsettled]
      by_cases h : flat.flatWidth.Fits column w
      · rw [decide_eq_true h, decide_eq_true ((fits_shift _ column w k).mpr h)]
        rfl
      · rw [decide_eq_false h, decide_eq_false (mt (fits_shift _ column w k).mp h)]
        rfl
    | fullLine a => rfl
    | foreign x v => exact ht.elim

/-- The work on shifted tasks makes the moves of the work on the tasks, each `k` columns further
right. -/
theorem trace_shifted (hw : margin.width = .columns w) (hw' : margin'.width = .columns (w + k))
    {stack : List (Task α)} (hs : ∀ t ∈ stack, t.WellFormed) (column : Int) :
    trace margin' (stack.map (Task.shifted k)) (column + k) =
      (trace margin stack column).map fun t => (t.1.shifted k, t.2 + k) := by
  induction stack, column using trace.induct margin with
  | case1 column => rw [List.map_nil, trace_nil, trace_nil, List.map_nil]
  | case2 task stack column ih =>
    rw [List.map_cons, trace_cons, trace_cons, List.map_cons,
      move_shifted hw hw' (hs task List.mem_cons_self)]
    cases h : task.move margin column with
    | error obstacle => rfl
    | ok m =>
      have hrest := ih m h (wellFormed_rest hs h)
      rw [List.map_append] at hrest
      exact congrArg _ hrest

/-! ## Layouts -/

/-- What a layout writes, on any canvas: the text that it writes before the first line break goes to the
current line, and the lines that it begins come below. -/
theorem lines_layOut {κ : Type} {d : Doc (Value κ)} (hd : d.WellFormed) (canvas : Canvas)
    (indent column w : Int) {head : String} {tail : List String}
    (h : (d.drawing w indent column).lines = head :: tail) :
    (d.layOut canvas indent column (.page w)).1.lines =
      canvas.finished.toList ++ (canvas.current ++ head) :: tail := by
  rw [layOut_page hd, Canvas.lines_append h]

/-- A document that is laid out from a column and an indentation which are `k` columns further right, on a
page that is `k` columns wider, takes the same tasks in the same order, and so the same alternative of
every choice, each task with its column and its indentation `k` columns further right. It ends `k` columns
further right. On any canvas, it writes the same text before the first line break, and the lines that it
begins are the same with `k` spaces in front. -/
theorem layOut_shifted {κ : Type} {d : Doc (Value κ)} (hd : d.WellFormed) {indent column k : Int}
    (hi : 0 ≤ indent) (hc : 0 ≤ column) (hk : 0 ≤ k) (w : Int) :
    trace (.page (w + k)) [.lay d (indent + k)] (column + k) =
      ((trace (.page w) [.lay d indent] column).map fun t => (t.1.shifted k, t.2 + k)) ∧
    ∃ (reached : Int) (head : String) (tail : List String), ∀ canvas : Canvas,
      (d.layOut canvas indent column (.page w)).2 = .ok reached ∧
      (d.layOut canvas indent column (.page w)).1.lines =
        canvas.finished.toList ++ (canvas.current ++ head) :: tail ∧
      (d.layOut canvas (indent + k) (column + k) (.page (w + k))).2 = .ok (reached + k) ∧
      (d.layOut canvas (indent + k) (column + k) (.page (w + k))).1.lines =
        canvas.finished.toList ++ (canvas.current ++ head) :: tail.map (Canvas.spaces k ++ ·) := by
  have hs : ∀ t ∈ [Task.lay d indent], t.WellFormed := List.forall_mem_singleton.mpr hd
  obtain ⟨head, tail, h⟩ := (d.drawing w indent column).exists_lines_eq_cons
  have hshifted : (d.drawing (w + k) (indent + k) (column + k)).lines =
      head :: tail.map (Canvas.spaces k ++ ·) := by
    rw [drawing_shift w d hi hc hk, Canvas.lines_shift h]
  refine ⟨trace_shifted rfl rfl hs column, d.endColumn w indent column, head, tail, fun canvas => ?_⟩
  refine ⟨?_, lines_layOut hd canvas indent column w h, ?_, lines_layOut hd canvas _ _ _ hshifted⟩
  · rw [layOut_page hd]
  · rw [layOut_page hd, endColumn_shift]

/-- A choice that has room behind two characters in five columns, but not where they begin in the third
one. -/
def lateChoice : Doc (Value Empty) :=
  .concat (.text "ab") (.choice (.text "cde") (.vert (.text "c") (.text "de")))

theorem layOut_shifted_lateChoice :
    lateChoice.WellFormed ∧ (0 : Int) ≤ 1 ∧ (0 : Int) ≤ 2 ∧ (0 : Int) ≤ 3 ∧
    trace (.page (5 + 3)) [.lay lateChoice (1 + 3)] (2 + 3) =
      ((trace (.page 5) [.lay lateChoice 1] 2).map fun t => (t.1.shifted 3, t.2 + 3)) ∧
    ∃ (reached : Int) (head : String) (tail : List String), ∀ canvas : Canvas,
      (lateChoice.layOut canvas 1 2 (.page 5)).2 = .ok reached ∧
      (lateChoice.layOut canvas 1 2 (.page 5)).1.lines =
        canvas.finished.toList ++ (canvas.current ++ head) :: tail ∧
      (lateChoice.layOut canvas (1 + 3) (2 + 3) (.page (5 + 3))).2 = .ok (reached + 3) ∧
      (lateChoice.layOut canvas (1 + 3) (2 + 3) (.page (5 + 3))).1.lines =
        canvas.finished.toList ++ (canvas.current ++ head) ::
          tail.map (Canvas.spaces 3 ++ ·) := by
  have unbroken : ∀ s ∈ ["ab", "cde", "c", "de"], Text.Unbroken s := by decide
  have hd : lateChoice.WellFormed :=
    ⟨rfl, unbroken "ab" (by simp), rfl, unbroken "cde" (by simp), unbroken "c" (by simp),
      unbroken "de" (by simp)⟩
  have hi : (0 : Int) ≤ 1 := by decide
  have hc : (0 : Int) ≤ 2 := by decide
  have hk : (0 : Int) ≤ 3 := by decide
  exact ⟨hd, hi, hc, hk, layOut_shifted hd hi hc hk 5⟩

end DocLayout
