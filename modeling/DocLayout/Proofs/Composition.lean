import DocLayout.Build.Plain
import DocLayout.Page
import DocLayout.Proofs.Shift

/-
  Layouts of two documents from the layouts of each.

  What is laid out after a document never changes its lines. On top of another one it leaves that
  one as it is; before another one its last line is where the other begins. With `horz` the second
  document is laid out in the width that is left and hung at the column where the first ends.

  Both sides are what is displayed on pages: the composed document is built from values, as a
  caller builds it, and the parts are displayed by themselves.

  Proved:
  * `endColumn_zero`: from the start of a line a document ends at the length of its last line.
  * `lines_vert`, `lines_horz`, `lines_concat`: the lines of a composed document.
  * `display_compose`: the same on the level of pages, for all three compositions at once.
-/

namespace DocLayout

/-- From the start of a line a document ends as far right as its last line is long. -/
theorem endColumn_zero {α : Type} (w : Int) (d : Doc α) :
    d.endColumn w 0 0 = (d.drawing w 0 0).current.length := by
  rw [endColumn_eq_cursor w d (Int.le_refl 0) (Int.le_refl 0), Canvas.cursor]
  split <;> omega

/-- The second document of two on top of each other adds its lines to those of the first. -/
theorem lines_drawing_vert {α : Type} (w : Int) (a b : Doc α) :
    ((Doc.vert a b).drawing w 0 0).lines = (a.drawing w 0 0).lines ++ (b.drawing w 0 0).lines := by
  rw [Doc.drawing, Canvas.lines_breakLine_append]

/-- The second document of two side by side is laid out in the width that the first one leaves, and
hung at the column where that one ends. -/
theorem lines_drawing_horz {α : Type} (w : Int) (a b : Doc α) {head : String} {tail : List String}
    (h : (b.drawing (w - (a.drawing w 0 0).current.length) 0 0).lines = head :: tail) :
    ((Doc.horz a b).drawing w 0 0).lines =
      (a.drawing w 0 0).finished.toList ++ ((a.drawing w 0 0).current ++ head) ::
        tail.map (Canvas.spaces (a.drawing w 0 0).current.length ++ ·) := by
  have hn := Int.natCast_nonneg (a.drawing w 0 0).current.length
  have hend := endColumn_zero w a
  generalize ((a.drawing w 0 0).current.length : Int) = n at h hn hend ⊢
  rw [Doc.horz, Doc.drawing, hend, drawing_hanging w b hn,
    Canvas.lines_append (Canvas.lines_shift h n)]

variable {κ : Type} {a b : Doc (Value κ)}

/-! ## The lines of a composed document -/

theorem lines_vert (ha : a.WellFormed) (hb : b.WellFormed) (w : Int) :
    (Doc.vert a b).lines (.int w) =
      .ok ((a.drawing w 0 0).lines ++ (b.drawing w 0 0).lines) := by
  rw [lines_wellFormed (d := Doc.vert a b) ⟨ha, hb⟩, lines_drawing_vert]

/-- The second document has the width that the first one leaves, and hangs where it ends. -/
theorem lines_horz (ha : a.WellFormed) (hb : b.WellFormed) (w : Int) {head : String}
    {tail : List String}
    (h : (b.drawing (w - (a.drawing w 0 0).current.length) 0 0).lines = head :: tail) :
    (Doc.horz a b).lines (.int w) =
      .ok ((a.drawing w 0 0).finished.toList ++ ((a.drawing w 0 0).current ++ head) ::
        tail.map (Canvas.spaces (a.drawing w 0 0).current.length ++ ·)) := by
  rw [lines_wellFormed (d := Doc.horz a b) ⟨rfl, ha, hb⟩, lines_drawing_horz w a b h]

theorem lines_concat (ha : a.WellFormed) (hb : b.WellFormed) (w : Int) :
    ∃ next rest, (Doc.concat a b).lines (.int w) =
      .ok ((a.drawing w 0 0).finished.toList ++ ((a.drawing w 0 0).current ++ next) :: rest) := by
  obtain ⟨next, rest, h⟩ := (b.drawing w 0 (a.endColumn w 0 0)).exists_lines_eq_cons
  refine ⟨next, rest, ?_⟩
  rw [Doc.concat, lines_wellFormed (d := .concatNode _ a b) ⟨rfl, ha, hb⟩, Doc.drawing,
    Canvas.lines_append h]

/-! ## On pages -/

variable (run : Interpreter κ)

/-- What a computation returns can be told from what it does in any session. -/
theorem pure_injective {β : Type} {x y : β} (h : (pure x : Effect κ β) = pure y) : x = y := by
  injection congrArg Prod.fst (congrFun h Session.empty)

theorem display_doc (d : Doc (Value κ)) (width : Value κ) :
    Page.display run (.doc d) width = ofExcept (d.lines width) := by
  rw [Page.display, Build.cast_doc, pure_bind]

/-- A page of `w` columns shows the drawing of the well formed document that a value stands for. -/
theorem display_plain {v : Value κ} {d : Doc (Value κ)} (h : v.plainDoc? = some d)
    (hd : d.WellFormed) (w : Int) :
    Page.display run v (.int w) = pure (d.drawing w 0 0).lines := by
  rw [Page.display, Build.cast_plain run h, pure_bind, lines_wellFormed hd]
  rfl

theorem display_wellFormed {d : Doc (Value κ)} (hd : d.WellFormed) (w : Int) :
    Page.display run (.doc d) (.int w) = pure (d.drawing w 0 0).lines := display_plain run rfl hd w

theorem allSettled_pair (ha : a.WellFormed) (hb : b.WellFormed) : Build.AllSettled [a, b] := by
  intro d hd
  rw [List.mem_cons, List.mem_singleton] at hd
  rcases hd with rfl | rfl
  · exact ha.settled
  · exact hb.settled

theorem vert_docs : Build.vert run [.doc a, .doc b] = pure (.vert a b) :=
  Build.vertList_docs run [a, b]

theorem horz_docs (ha : a.WellFormed) (hb : b.WellFormed) :
    Build.horz run [.doc a, .doc b] = pure (.horz a b) :=
  Build.horzList_docs run (allSettled_pair ha hb)

theorem concat_docs (ha : a.WellFormed) (hb : b.WellFormed) :
    Build.concat run [.doc a, .doc b] = pure (.concat a b) :=
  Build.concatList_docs run (allSettled_pair ha hb)

/-- Displays are composed of displays. With `above ++ [last]` for the lines of `a`: `b` on a new
line adds its own lines; `b` beside `a` is laid out in the width that `last` leaves, and hung behind
it; and `b` right after `a` leaves what stands before it as it is. -/
theorem display_compose (ha : a.WellFormed) (hb : b.WellFormed) (w : Int) :
    ∃ (above : List String) (last : String) (below : List String) (head : String)
      (tail : List String) (next : String) (rest : List String),
      Page.display run (.doc a) (.int w) = pure (above ++ [last]) ∧
      Page.display run (.doc b) (.int w) = pure below ∧
      Page.display run (.doc b) (.int (w - last.length)) = pure (head :: tail) ∧
      (do
        let d ← Build.vert run [.doc a, .doc b]
        Page.display run (.doc d) (.int w)) =
        pure (above ++ [last] ++ below) ∧
      (do
        let d ← Build.horz run [.doc a, .doc b]
        Page.display run (.doc d) (.int w)) =
        pure (above ++ (last ++ head) :: tail.map (Canvas.spaces last.length ++ ·)) ∧
      (do
        let d ← Build.concat run [.doc a, .doc b]
        Page.display run (.doc d) (.int w)) =
        pure (above ++ (last ++ next) :: rest) := by
  obtain ⟨head, tail, h⟩ :=
    (b.drawing (w - (a.drawing w 0 0).current.length) 0 0).exists_lines_eq_cons
  obtain ⟨next, rest, hconcat⟩ := lines_concat ha hb w
  refine ⟨(a.drawing w 0 0).finished.toList, (a.drawing w 0 0).current, (b.drawing w 0 0).lines,
    head, tail, next, rest, ?_, ?_, ?_, ?_, ?_, ?_⟩
  · rw [display_doc, lines_wellFormed ha]
    rfl
  · rw [display_doc, lines_wellFormed hb]
    rfl
  · rw [display_doc, lines_wellFormed hb, h]
    rfl
  · rw [vert_docs, pure_bind, display_doc, lines_vert ha hb]
    rfl
  · rw [horz_docs run ha hb, pure_bind, display_doc, lines_horz ha hb w h]
    rfl
  · rw [concat_docs run ha hb, pure_bind, display_doc, hconcat]
    rfl

/-- Two lines; the second one leaves two columns of three. -/
def twoLines : Doc (Value Empty) := .vert (.text "ab") (.text "c")

/-- A choice that fits in three columns, and has to break in two. -/
def threeColumns : Doc (Value Empty) := .choice (.text "ddd") (.vert (.text "d") (.text "dd"))

theorem display_compose_twoLines :
    twoLines.WellFormed ∧ threeColumns.WellFormed ∧
    ∃ (above : List String) (last : String) (below : List String) (head : String)
      (tail : List String) (next : String) (rest : List String),
      Page.display Empty.elim (.doc twoLines) (.int 3) = pure (above ++ [last]) ∧
      Page.display Empty.elim (.doc threeColumns) (.int 3) = pure below ∧
      Page.display Empty.elim (.doc threeColumns) (.int (3 - last.length)) =
        pure (head :: tail) ∧
      (do
        let d ← Build.vert Empty.elim [.doc twoLines, .doc threeColumns]
        Page.display Empty.elim (.doc d) (.int 3)) =
        pure (above ++ [last] ++ below) ∧
      (do
        let d ← Build.horz Empty.elim [.doc twoLines, .doc threeColumns]
        Page.display Empty.elim (.doc d) (.int 3)) =
        pure (above ++ (last ++ head) :: tail.map (Canvas.spaces last.length ++ ·)) ∧
      (do
        let d ← Build.concat Empty.elim [.doc twoLines, .doc threeColumns]
        Page.display Empty.elim (.doc d) (.int 3)) =
        pure (above ++ (last ++ next) :: rest) := by
  have unbroken : ∀ s ∈ ["ab", "c", "ddd", "d", "dd"], Text.Unbroken s := by decide
  have ha : twoLines.WellFormed := ⟨unbroken "ab" (by simp), unbroken "c" (by simp)⟩
  have hb : threeColumns.WellFormed :=
    ⟨rfl, unbroken "ddd" (by simp), unbroken "d" (by simp), unbroken "dd" (by simp)⟩
  exact ⟨ha, hb, display_compose Empty.elim ha hb 3⟩

end DocLayout
