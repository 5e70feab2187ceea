import DocLayout.Proofs.Canvas
import DocLayout.Proofs.Safety
import DocLayout.Proofs.Stages

/-
  The column that is counted, and the line that is written.

  A layout never measures the line that it writes. It counts a column beside it, and what it is told
  about the column at the start may be off by some number `e`: the canvas may have come from elsewhere.
  The count stays off by just that number up to the first line break. From there on it is the length of
  the line, because a new line begins with as many spaces as the column says. That takes columns which
  are not negative, and the indentations that wait on the stack are either those of the start or columns
  that the cursor has been at.

  Nothing is asked of the tree here; a foreign leaf ends the layout and writes nothing.

  Proved:
  * `move_cases`: all that one move does to the column, to the canvas and to the indentations that wait.
  * `tracks_next`, `tracks_after`: every move keeps the count, and so does any number of them.
  * `layOut_reaches_cursor`: the column that a layout returns, and the column that each choice of a
    document on a page of its own is decided at.
-/

namespace DocLayout

variable {α : Type} {margin : Margin α}

/-! ## One move -/

/-- The indentation that a task waits with. -/
def Task.indent? : Task α → Option Int
  | lay _ indent | lineBreak indent => some indent
  | align _ => none

/-- A move writes a text, or breaks the line, or leaves the canvas and the cursor alone. The tasks that
it leaves on the stack have the indentation of the task or the column of the cursor. -/
theorem move_cases {t : Task α} {column : Int} {m : Move α} (h : t.move margin column = .ok m) :
    (∃ s : String, m = ⟨some (.write s), column + s.length, []⟩) ∨
    (∃ indent, t.indent? = some indent ∧ m = ⟨some (.lineBreak indent), indent, []⟩) ∨
    ∃ tasks, m = ⟨none, column, tasks⟩ ∧
      ∀ u ∈ tasks, ∀ i, u.indent? = some i → i = column ∨ t.indent? = some i := by
  cases t with
  | lineBreak indent =>
    cases h
    exact .inr (.inl ⟨indent, rfl, rfl⟩)
  | align b =>
    cases h
    exact .inr (.inr ⟨_, rfl, by simp [Task.indent?]⟩)
  | lay d indent =>
    cases d with
    | text s =>
      cases h
      exact .inl ⟨s, rfl⟩
    | horzNode v a b | concatNode v a b | vert a b | fullLine a =>
      cases h
      exact .inr (.inr ⟨_, rfl, by simp [Task.indent?]⟩)
    | choiceNode v flat broken =>
      rw [Task.move] at h
      split at h
      · cases h
        exact .inr (.inr ⟨_, rfl, by simp [Task.indent?]⟩)
      · cases h
        exact .inr (.inr ⟨_, rfl, by simp [Task.indent?]⟩)
      · contradiction
    | foreign x v => contradiction

/-! ## Any number of moves -/

/-- The column at the end of a canvas if line `k`, counted from zero, is taken to begin `e` columns further
right than it does. -/
def Canvas.counted (k : Nat) (e : Int) (c : Canvas) : Int :=
  if c.finished.size = k then c.current.length + e else c.current.length

/-- A stage that counts the columns of its canvas, with line `k` off by `e`, and that will go back to
no negative column. -/
structure Stage.Tracks (k : Nat) (e : Int) (s : Stage α) : Prop where
  column_eq : s.column = s.canvas.counted k e
  column_nonneg : 0 ≤ s.column
  indent_nonneg : ∀ t ∈ s.stack, ∀ i, t.indent? = some i → 0 ≤ i
  begun : k ≤ s.canvas.finished.size

variable {k n : Nat} {e : Int} {s t : Stage α}

theorem counted_write (k : Nat) (e : Int) (c : Canvas) (s : String) :
    (c.write s).counted k e = c.counted k e + s.length := by
  rw [Canvas.counted, Canvas.counted, Canvas.write, String.length_append]
  split <;> omega

/-- A line that begins behind line `k` is as long as the column says. -/
theorem counted_breakLine {c : Canvas} (hk : k ≤ c.finished.size) {indent : Int} (hi : 0 ≤ indent)
    (e : Int) : (c.breakLine indent).counted k e = indent := by
  have hsize : (c.breakLine indent).finished.size = c.finished.size + 1 := Array.size_push _
  rw [Canvas.counted, if_neg (by omega)]
  exact Canvas.length_spaces hi

theorem tracks_next (h : s.next? margin = some t) (hs : s.Tracks k e) : t.Tracks k e := by
  obtain ⟨task, stack, m, hstack, hmove, rfl⟩ := next?_eq_some_iff.mp h
  have hindents := hs.indent_nonneg
  rw [hstack, List.forall_mem_cons] at hindents
  obtain ⟨htop, hrest⟩ := hindents
  have hcolumn := hs.column_nonneg
  rcases move_cases hmove with ⟨text, rfl⟩ | ⟨indent, hindent, rfl⟩ | ⟨tasks, rfl, htasks⟩
  · refine ⟨?_, Int.add_nonneg hcolumn (Int.natCast_nonneg _), hrest, hs.begun⟩
    show s.column + text.length = (s.canvas.write text).counted k e
    rw [counted_write, hs.column_eq]
  · refine ⟨?_, htop indent hindent, hrest, ?_⟩
    · exact (counted_breakLine hs.begun (htop indent hindent) e).symm
    · show k ≤ (s.canvas.finished.push s.canvas.current).size
      rw [Array.size_push]
      exact Nat.le_succ_of_le hs.begun
  · refine ⟨hs.column_eq, hcolumn, List.forall_mem_append.mpr ⟨?_, hrest⟩, hs.begun⟩
    intro u hu i hi
    rcases htasks u hu i hi with rfl | htask
    · exact hcolumn
    · exact htop i htask

theorem tracks_after (h : s.after margin n = some t) (hs : s.Tracks k e) : t.Tracks k e :=
  Stage.after_induction tracks_next h hs

/-- A layout begins with a count that is off by `e`. -/
theorem tracks_firstStage (d : Doc α) {canvas : Canvas} {indent column : Int} (hi : 0 ≤ indent)
    (hc : 0 ≤ column) (he : column = canvas.current.length + e) :
    (d.firstStage canvas indent column).Tracks canvas.finished.size e where
  column_eq := he.trans (if_pos rfl).symm
  column_nonneg := hc
  indent_nonneg := by
    intro t ht i h
    cases List.mem_singleton.mp ht
    cases h
    exact hi
  begun := Nat.le_refl _

/-! ## Layouts -/

/-- The column of a layout that starts with a count off by `e` is the length of the line that it ends
in, off by `e` if no line was finished on the way. -/
theorem counted_layOut {d : Doc α} {canvas painted : Canvas} {indent column reached : Int}
    (hi : 0 ≤ indent) (hc : 0 ≤ column) (he : column = canvas.current.length + e)
    (h : d.layOut canvas indent column margin = (painted, .ok reached)) :
    reached = painted.counted canvas.finished.size e := by
  obtain ⟨n, hn⟩ := exists_after_of_work h
  exact (tracks_after hn (tracks_firstStage d hi hc he)).column_eq

/-- On a page of its own a document is laid out with the column at the end of the current line. -/
theorem column_eq_length {d : Doc α} (h : (d.firstStage .empty 0 0).after margin n = some s) :
    s.column = s.canvas.current.length := by
  have hstart : (0 : Int) = Canvas.empty.current.length + 0 := rfl
  have hfirst : (d.firstStage .empty 0 0).Tracks 0 0 :=
    tracks_firstStage d (Int.le_refl 0) (Int.le_refl 0) hstart
  have hcolumn := (tracks_after h hfirst).column_eq
  rwa [Canvas.counted, Int.add_zero, ite_self] at hcolumn

variable {κ : Type}

/-- A well formed document is laid out on a canvas whose last line has some length, from a column that
is off by `e`. On a page whose width is a number the layout returns a column. Whatever the width is, a
column that it returns is the length of the last line plus `e` if no line was finished, and exactly the
length of the last line if one was. On a page of its own, every choice is decided by the room behind
the end of the current line. -/
theorem layOut_reaches_cursor {d : Doc (Value κ)} (hd : d.WellFormed) {canvas : Canvas}
    {indent column e : Int} (hi : 0 ≤ indent) (hc : 0 ≤ column)
    (he : column = canvas.current.length + e) (width : Value κ) :
    ((Width.ofValue width).Comparable → ∃ painted reached,
      d.layOut canvas indent column (.ofValue width) = (painted, .ok reached)) ∧
    (∀ painted reached, d.layOut canvas indent column (.ofValue width) = (painted, .ok reached) →
      (painted.lines.length = canvas.lines.length → reached = painted.current.length + e) ∧
      (painted.lines.length ≠ canvas.lines.length → reached = painted.current.length)) ∧
    ∀ n v flat broken i stack column now,
      (d.firstStage .empty 0 0).after (.ofValue width) n =
        some ⟨.lay (.choiceNode v flat broken) i :: stack, column, now⟩ →
      column = now.current.length ∧
      ∀ fits, (Margin.ofValue width).admits now.current.length flat.flatWidth = .ok fits →
        (d.firstStage .empty 0 0).after (.ofValue width) (n + 1) =
          some ⟨.lay (if fits then flat else broken) i :: stack, column, now⟩ := by
  refine ⟨?_, ?_, ?_⟩
  · intro hw
    obtain ⟨reached, h⟩ : ∃ reached,
        (d.layOut canvas indent column (.ofValue width)).2 = .ok reached := exists_layOut hd hw
    exact ⟨_, reached, Prod.ext rfl h⟩
  · intro painted reached h
    have hcounted := counted_layOut hi hc he h
    have hlines : ∀ c : Canvas, c.lines.length = c.finished.size + 1 := by
      intro c
      rw [Canvas.lines, List.length_append, Array.length_toList, List.length_singleton]
    rw [hlines, hlines, ne_eq, Nat.succ_inj, hcounted, Canvas.counted]
    exact ⟨fun hsame => if_pos hsame, fun hmore => if_neg hmore⟩
  · intro n v flat broken i stack column now h
    obtain rfl : column = now.current.length := column_eq_length h
    refine ⟨rfl, fun fits hfits => ?_⟩
    rw [after_add_one h, next?_choice hfits]

/-- Two texts and a choice that hangs at the column where they end, and a line below. -/
def hangingTail : Doc (Value Empty) :=
  .vert (.concat (.text "ab") (.horz (.text "c") (.choice (.text "def") (.vert (.text "d") (.text "ef")))))
    (.text "g")

/-- Behind three characters, with a column that is two columns further right. -/
theorem layOut_reaches_cursor_hangingTail :
    hangingTail.WellFormed ∧ (0 : Int) ≤ 1 ∧ (0 : Int) ≤ 5 ∧
    (5 : Int) = (Canvas.empty.write ">>>").current.length + 2 ∧
    ((Width.ofValue (.int 10 : Value Empty)).Comparable → ∃ painted reached,
      hangingTail.layOut (Canvas.empty.write ">>>") 1 5 (.page 10) = (painted, .ok reached)) ∧
    (∀ painted reached,
      hangingTail.layOut (Canvas.empty.write ">>>") 1 5 (.page 10) = (painted, .ok reached) →
      (painted.lines.length = (Canvas.empty.write ">>>").lines.length →
        reached = painted.current.length + 2) ∧
      (painted.lines.length ≠ (Canvas.empty.write ">>>").lines.length →
        reached = painted.current.length)) ∧
    ∀ n v flat broken i stack column now,
      (hangingTail.firstStage .empty 0 0).after (.page 10) n =
        some ⟨.lay (.choiceNode v flat broken) i :: stack, column, now⟩ →
      column = now.current.length ∧
      ∀ fits, (Margin.page 10).admits now.current.length flat.flatWidth = .ok fits →
        (hangingTail.firstStage .empty 0 0).after (.page 10) (n + 1) =
          some ⟨.lay (if fits then flat else broken) i :: stack, column, now⟩ := by
  have unbroken : ∀ s ∈ ["ab", "c", "def", "d", "ef", "g"], Text.Unbroken s := by decide
  have hd : hangingTail.WellFormed :=
    ⟨⟨rfl, unbroken "ab" (by simp), rfl, unbroken "c" (by simp), rfl, unbroken "def" (by simp),
      unbroken "d" (by simp), unbroken "ef" (by simp)⟩, unbroken "g" (by simp)⟩
  have hi : (0 : Int) ≤ 1 := by decide
  have hc : (0 : Int) ≤ 5 := by decide
  have he : (5 : Int) = (Canvas.empty.write ">>>").current.length + 2 := rfl
  exact ⟨hd, hi, hc, he, layOut_reaches_cursor hd hi hc he (.int 10)⟩

end DocLayout
