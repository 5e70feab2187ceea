import DocLayout.Doc.Basic

/-
  Laying a document out on a canvas, with a stack of tasks.

  A canvas holds the lines that are finished and the line that is being written. Writing extends
  the current line, a break finishes it and starts the next one with spaces. Nothing that is
  finished is ever read or changed again.

  A page is so many columns wide. A width that was given as a number with a fraction, as infinity
  or as no number at all has a place here too: what matters of it is which columns still lie on
  the page. The floor of a fraction decides that, since columns are whole numbers. A margin is what a
  layout asks for the room that is left. It knows the width of the page, and whether the page has
  room for a width that was only claimed.

  The layout of a document is a series of moves. The top task of the stack is taken off, it may
  write on the canvas and move the cursor, and it leaves the tasks that it gives rise to on the
  stack. The second document of a `horz` waits under an `align` task, because the column it hangs
  at is only known when the first is done; the two documents of a `vert` have a `lineBreak`
  between them. `weight` counts the moves that a task can need, and `move_weight` says that every
  move uses some of it up, so the work comes to an end.
-/

namespace DocLayout

/-! ## Canvases -/

/-- Lines of output: the finished ones, and the one being written. -/
structure Canvas where
  finished : Array String
  current : String

namespace Canvas

/-- A canvas with a single empty line. -/
def empty : Canvas := ⟨#[], ""⟩

/-- As many spaces as `n` says, none if it is negative. -/
def spaces (n : Int) : String := "".pushn ' ' n.toNat

/-- The canvas with `s` at the end of its current line. -/
def write (c : Canvas) (s : String) : Canvas := { c with current := c.current ++ s }

/-- The canvas with a new line that begins at column `indent`. -/
def breakLine (c : Canvas) (indent : Int) : Canvas := ⟨c.finished.push c.current, spaces indent⟩

/-- All lines, the one being written last. -/
def lines (c : Canvas) : List String := c.finished.toList ++ [c.current]

@[simp] theorem lines_empty : empty.lines = [""] := rfl

@[simp] theorem lines_write (c : Canvas) (s : String) :
    (c.write s).lines = c.finished.toList ++ [c.current ++ s] := rfl

@[simp] theorem lines_breakLine (c : Canvas) (indent : Int) :
    (c.breakLine indent).lines = c.lines ++ [spaces indent] := by
  simp [breakLine, lines]

theorem lines_ne_nil (c : Canvas) : c.lines ≠ [] := by simp [lines]

end Canvas

/-! ## Widths -/

/-- The width that a layout has to keep to. -/
inductive Width where
  /-- A number of columns; none is left for text if it is negative. -/
  | columns (n : Int)
  /-- Every column is on the page. -/
  | unbounded
  /-- No column is on the page. -/
  | empty
  /-- A value of the named type, which no column can be compared with. -/
  | incomparable (typeName : String)
  deriving Repr, DecidableEq, Inhabited

/-- Whether a line that ends at `column` is still on the page. -/
def Width.admits : Width → Int → Except OperandError Bool
  | columns n, column => .ok (column ≤ n)
  | unbounded, _ => .ok true
  | empty, _ => .ok false
  | incomparable typeName, _ => .error (.unordered "<=" "int" typeName)

/-- The width of a page, and whether something that starts at a column and claims a width has room
on it. -/
structure Margin (α : Type) where
  width : Width
  admitsClaim : Int → α → Except OperandError Bool

/-- Whether something of a flat width has room behind `column`. What never stands on one line has
none, however wide the page is. -/
def Margin.admits {α : Type} (m : Margin α) (column : Int) : FlatWidth α → Except OperandError Bool
  | .never => .ok false
  | .columns n => m.width.admits (column + n)
  | .claimed v => m.admitsClaim column v

/-! ## Moves -/

variable {α : Type}

/-- What a layout can run into. -/
inductive Obstacle (α : Type) where
  /-- A leaf that is no document. -/
  | foreign (value : α)
  /-- A width that the room on the page cannot be told from. -/
  | operand (e : OperandError)

/-- What reaches the canvas in one move. -/
inductive Stroke where
  | write (s : String)
  | lineBreak (indent : Int)

/-- The canvas after a stroke. -/
def Canvas.apply (c : Canvas) : Stroke → Canvas
  | .write s => c.write s
  | .lineBreak indent => c.breakLine indent

/-- Work that is waiting on the stack. -/
inductive Task (α : Type) where
  /-- Lay a document out at an indentation. -/
  | lay (doc : Doc α) (indent : Int)
  /-- Lay a document out with the column of the cursor as its indentation. -/
  | align (doc : Doc α)
  /-- Go on at the indentation on a new line. -/
  | lineBreak (indent : Int)

/-- The effect of one task: a stroke at most, the column of the cursor afterwards, and the tasks
that take its place on the stack. -/
structure Move (α : Type) where
  stroke : Option Stroke
  column : Int
  tasks : List (Task α)

/-- The canvas after a move. -/
def Move.paint {α : Type} (m : Move α) (canvas : Canvas) : Canvas :=
  match m.stroke with
  | none => canvas
  | some stroke => canvas.apply stroke

/-- The move that a task makes when the cursor is at `column`. A choice asks for the room that its
flat alternative needs, whether that one can be laid out or not. -/
def Task.move (margin : Margin α) (column : Int) : Task α → Except (Obstacle α) (Move α)
  | .lay (.text s) _ => .ok ⟨some (.write s), column + s.length, []⟩
  | .lay (.horzNode _ a b) indent => .ok ⟨none, column, [.lay a indent, .align b]⟩
  | .lay (.concatNode _ a b) indent => .ok ⟨none, column, [.lay a indent, .lay b indent]⟩
  | .lay (.vert a b) indent => .ok ⟨none, column, [.lay a indent, .lineBreak indent, .lay b indent]⟩
  | .lay (.choiceNode _ flat broken) indent =>
    match margin.admits column flat.flatWidth with
    | .ok true => .ok ⟨none, column, [.lay flat indent]⟩
    | .ok false => .ok ⟨none, column, [.lay broken indent]⟩
    | .error e => .error (.operand e)
  | .lay (.fullLine a) indent => .ok ⟨none, column, [.lay a indent]⟩
  | .lay (.foreign x _) _ => .error (.foreign x)
  | .align b => .ok ⟨none, column, [.lay b column]⟩
  | .lineBreak indent => .ok ⟨some (.lineBreak indent), indent, []⟩

/-- A bound on the moves that laying a document out can take. -/
def Doc.weight : Doc α → Nat
  | .text _ => 1
  | .horzNode _ a b => a.weight + b.weight + 2
  | .concatNode _ a b => a.weight + b.weight + 1
  | .vert a b => a.weight + b.weight + 2
  | .choiceNode _ a b => a.weight + b.weight + 1
  | .fullLine a => a.weight + 1
  | .foreign _ _ => 1

def Task.weight : Task α → Nat
  | .lay d _ => d.weight
  | .align d => d.weight + 1
  | .lineBreak _ => 1

/-- A bound on the moves that a stack of tasks can take. -/
def stackWeight : List (Task α) → Nat
  | [] => 0
  | task :: stack => task.weight + stackWeight stack

@[simp] theorem stackWeight_cons (t : Task α) (stack : List (Task α)) :
    stackWeight (t :: stack) = t.weight + stackWeight stack := rfl

@[simp] theorem stackWeight_append (s t : List (Task α)) :
    stackWeight (s ++ t) = stackWeight s + stackWeight t := by
  induction s with
  | nil => simp [stackWeight]
  | cons task s ih => simp only [List.cons_append, stackWeight, ih]; omega

/-- A move leaves less work than it takes off the stack. -/
theorem move_weight {margin : Margin α} {column : Int} {t : Task α} {m : Move α}
    (h : t.move margin column = .ok m) : stackWeight m.tasks < t.weight := by
  unfold Task.move at h
  split at h
  case h_5 =>
    split at h <;> cases h <;> simp only [stackWeight, Task.weight, Doc.weight] <;> omega
  all_goals cases h
  all_goals simp only [stackWeight, Task.weight, Doc.weight]
  all_goals omega

/-- What a layout leaves behind: the canvas, and the column of the cursor or the obstacle that
the layout stopped at. -/
abbrev Outcome (α : Type) := Canvas × Except (Obstacle α) Int

/-- Works the stack off. -/
def work (margin : Margin α) : List (Task α) → Int → Canvas → Outcome α
  | [], column, canvas => (canvas, .ok column)
  | task :: stack, column, canvas =>
    match h : task.move margin column with
    | .error obstacle => (canvas, .error obstacle)
    | .ok m =>
      have := move_weight h
      work margin (m.tasks ++ stack) m.column (m.paint canvas)
termination_by stack => stackWeight stack
decreasing_by simp; omega

/-- An empty stack leaves everything as it is. -/
theorem work_nil (margin : Margin α) (column : Int) (canvas : Canvas) :
    work margin [] column canvas = (canvas, .ok column) := by rw [work]

/-- The first task makes its move, and the rest of the work starts from there. -/
theorem work_cons (margin : Margin α) (task : Task α) (stack : List (Task α)) (column : Int)
    (canvas : Canvas) :
    work margin (task :: stack) column canvas = match task.move margin column with
      | .error obstacle => (canvas, .error obstacle)
      | .ok m => work margin (m.tasks ++ stack) m.column (m.paint canvas) := by
  rw [work]
  split <;> rename_i h <;> simp [h]

/-- Lays a document out on a canvas. Its line breaks return to column `indent`, the cursor is at
`column`, and `margin` says what its choices have room for. -/
def Doc.layOut (d : Doc α) (canvas : Canvas) (indent column : Int) (margin : Margin α) : Outcome α :=
  work margin [.lay d indent] column canvas

/-- The lines of a document on a page of its own. -/
def Doc.display (d : Doc α) (margin : Margin α) : Except (Obstacle α) (List String) :=
  let (canvas, result) := d.layOut Canvas.empty 0 0 margin
  result.map fun _ => canvas.lines

end DocLayout
