import DocLayout.Proofs.Typeset

/-
  The course of a layout: which tasks come off the stack, in order, and where the cursor is then.

  `trace` records it for any stack of tasks, until the stack is empty or a task cannot move.
  `Doc.course` says by recursion on the document what is recorded for a well formed document on a
  page of `w` columns: the document itself, then the parts of it that are laid out. Of a choice only
  one alternative appears.

  Proved:
  * `work_canvas`: the trace leaves out nothing that reaches the canvas.
  * `forall_course_horz` and its siblings: what holds all along the course of a node holds of the
    node and all along the courses of the parts that are laid out.
  * `trace_lay`: a document on top of a stack is worked off along its course, and the tasks below
    it come after, from its end column.
  * `trace_wellFormed`: the trace of a layout is the course of its document.
-/

namespace DocLayout

variable {α : Type}

/-! ## The trace of the work -/

/-- The tasks that `work` takes off the stack, each with the column of the cursor at the time. -/
def trace (margin : Margin α) : List (Task α) → Int → List (Task α × Int)
  | [], _ => []
  | task :: stack, column =>
    (task, column) :: match h : task.move margin column with
      | .error _ => []
      | .ok m =>
        have := move_weight h
        trace margin (m.tasks ++ stack) m.column
termination_by stack => stackWeight stack
decreasing_by simp; omega

theorem trace_nil (margin : Margin α) (column : Int) : trace margin [] column = [] := by
  rw [trace]

/-- The first task is recorded, and after its move the rest of the work. -/
theorem trace_cons (margin : Margin α) (task : Task α) (stack : List (Task α)) (column : Int) :
    trace margin (task :: stack) column = (task, column) :: match task.move margin column with
      | .error _ => []
      | .ok m => trace margin (m.tasks ++ stack) m.column := by
  rw [trace]
  split <;> rename_i h <;> simp [h]

/-- The canvas after a task, which stays as it is if the task cannot move. -/
def Task.paint (margin : Margin α) (canvas : Canvas) (t : Task α × Int) : Canvas :=
  match t.1.move margin t.2 with
  | .error _ => canvas
  | .ok m => m.paint canvas

/-- The trace leaves nothing out: the canvas after the work comes of the tasks in it. -/
theorem work_canvas (margin : Margin α) (stack : List (Task α)) (column : Int) (canvas : Canvas) :
    (work margin stack column canvas).1 =
      (trace margin stack column).foldl (Task.paint margin) canvas := by
  induction stack, column using trace.induct margin generalizing canvas with
  | case1 column => rw [work_nil, trace_nil, List.foldl_nil]
  | case2 task stack column ih =>
    rw [work_cons, trace_cons, List.foldl_cons, Task.paint]
    cases h : task.move margin column with
    | error obstacle => rfl
    | ok m => exact ih m h (m.paint canvas)

/-! ## The course of a document -/

/-- The tasks that a document gives rise to on a page of `w` columns, each with the column of the
cursor when its turn comes. -/
def Doc.course (w : Int) : Doc α → Int → Int → List (Task α × Int)
  | text s, indent, column => [(.lay (text s) indent, column)]
  | horzNode v a b, indent, column =>
    (.lay (horzNode v a b) indent, column) :: (a.course w indent column ++
      (.align b, a.endColumn w indent column) ::
        b.course w (a.endColumn w indent column) (a.endColumn w indent column))
  | concatNode v a b, indent, column =>
    (.lay (concatNode v a b) indent, column) :: (a.course w indent column ++
      b.course w indent (a.endColumn w indent column))
  | vert a b, indent, column =>
    (.lay (vert a b) indent, column) :: (a.course w indent column ++
      (.lineBreak indent, a.endColumn w indent column) :: b.course w indent indent)
  | choiceNode v flat broken, indent, column =>
    (.lay (choiceNode v flat broken) indent, column) ::
      if flat.flatWidth.Fits column w then flat.course w indent column
      else broken.course w indent column
  | fullLine a, indent, column => (.lay (fullLine a) indent, column) :: a.course w indent column
  | foreign x v, indent, column => [(.lay (foreign x v) indent, column)]

/-! ### What holds all along a course -/

section Along

variable {w indent column : Int} {a b flat broken : Doc α} {v : FlatWidth α}
  {P : Task α × Int → Prop}

/-- A course begins with its document. -/
theorem mem_course_self (w : Int) (d : Doc α) (indent column : Int) :
    (.lay d indent, column) ∈ d.course w indent column := by
  cases d <;> exact List.mem_cons_self ..

theorem forall_course_text {s : String} :
    (∀ t ∈ (Doc.text s).course w indent column, P t) ↔ P (.lay (.text s) indent, column) := by
  rw [Doc.course, List.forall_mem_singleton]

theorem forall_course_horz :
    (∀ t ∈ (Doc.horzNode v a b).course w indent column, P t) ↔
      P (.lay (.horzNode v a b) indent, column) ∧ (∀ t ∈ a.course w indent column, P t) ∧
      P (.align b, a.endColumn w indent column) ∧
      ∀ t ∈ b.course w (a.endColumn w indent column) (a.endColumn w indent column), P t := by
  rw [Doc.course, List.forall_mem_cons, List.forall_mem_append, List.forall_mem_cons]

theorem forall_course_concat :
    (∀ t ∈ (Doc.concatNode v a b).course w indent column, P t) ↔
      P (.lay (.concatNode v a b) indent, column) ∧ (∀ t ∈ a.course w indent column, P t) ∧
      ∀ t ∈ b.course w indent (a.endColumn w indent column), P t := by
  rw [Doc.course, List.forall_mem_cons, List.forall_mem_append]

theorem forall_course_choice_of_fits (h : flat.flatWidth.Fits column w) :
    (∀ t ∈ (Doc.choiceNode v flat broken).course w indent column, P t) ↔
      P (.lay (.choiceNode v flat broken) indent, column) ∧
      ∀ t ∈ flat.course w indent column, P t := by
  rw [Doc.course, List.forall_mem_cons, if_pos h]

theorem forall_course_choice_of_not_fits (h : ¬ flat.flatWidth.Fits column w) :
    (∀ t ∈ (Doc.choiceNode v flat broken).course w indent column, P t) ↔
      P (.lay (.choiceNode v flat broken) indent, column) ∧
      ∀ t ∈ broken.course w indent column, P t := by
  rw [Doc.course, List.forall_mem_cons, if_neg h]

end Along

/-! ## The trace of a document -/

variable {margin : Margin α} {w : Int}

/-- A well formed document on top of the stack takes its course, and the rest of the stack is worked
off from its end column. -/
theorem trace_lay (hw : margin.width = .columns w) {d : Doc α} (hd : d.WellFormed)
    (indent : Int) (stack : List (Task α)) (column : Int) :
    trace margin (.lay d indent :: stack) column =
      d.course w indent column ++ trace margin stack (d.endColumn w indent column) := by
  induction d generalizing indent stack column with
  | text s =>
    rw [trace_cons]
    rfl
  | horzNode v a b iha ihb =>
    rw [trace_cons, Doc.course]
    simp only [Task.move, List.cons_append, List.nil_append, List.append_assoc]
    rw [iha hd.2.1, trace_cons]
    simp only [Task.move, List.cons_append, List.nil_append]
    rw [ihb hd.2.2]
    rfl
  | concatNode v a b iha ihb =>
    rw [trace_cons, Doc.course]
    simp only [Task.move, List.cons_append, List.nil_append, List.append_assoc]
    rw [iha hd.2.1, ihb hd.2.2]
    rfl
  | vert a b iha ihb =>
    rw [trace_cons, Doc.course]
    simp only [Task.move, List.cons_append, List.nil_append, List.append_assoc]
    rw [iha hd.1, trace_cons]
    simp only [Task.move, List.nil_append]
    rw [ihb hd.2]
    rfl
  | choiceNode v flat broken ihf ihb =>
    rw [trace_cons, Doc.course, Doc.endColumn]
    simp only [Task.move, admits_settled hw hd.2.1.settled]
    by_cases h : flat.flatWidth.Fits column w
    · simp only [h, decide_true, if_true, List.cons_append, List.nil_append]
      rw [ihf hd.2.1]
    · simp only [h, decide_false, if_false, List.cons_append, List.nil_append]
      rw [ihb hd.2.2]
  | fullLine a ih =>
    rw [trace_cons, Doc.course]
    simp only [Task.move, List.cons_append, List.nil_append]
    rw [ih hd]
    rfl
  | foreign x v => exact hd.elim

/-- The trace of the layout of a well formed document is its course. -/
theorem trace_wellFormed (hw : margin.width = .columns w) {d : Doc α} (hd : d.WellFormed)
    (indent column : Int) : trace margin [.lay d indent] column = d.course w indent column := by
  rw [trace_lay hw hd, trace_nil, List.append_nil]

/-- The same on a page that is `w` columns wide. -/
theorem trace_page {κ : Type} {d : Doc (Value κ)} (hd : d.WellFormed) (indent column w : Int) :
    trace (.page w) [.lay d indent] column = d.course w indent column :=
  trace_wellFormed rfl hd indent column

end DocLayout
