import DocLayout.Proofs.Canvas
import DocLayout.Proofs.Descent

/-
  Well formed documents on a page of `w` columns.

  Nothing can go wrong in the layout of a well formed document: it has no foreign leaf, and every
  choice knows whether its flat alternative fits. So the layout is a function of the document, the
  indentation and the column: `Doc.drawing` is what it puts on the canvas and `Doc.endColumn` the
  column where it ends. Both go down the document and neither looks at the canvas.

  Proved, for every margin of a page of `w` columns:
  * `layOut_wellFormed`: `Doc.layOut` puts the drawing behind what stands on the canvas and returns
    the end column. In particular it always returns.
  * `lines_wellFormed`: the lines of the document on a page of its own are those of its drawing.
-/

namespace DocLayout

variable {α : Type}

/-! ## What fits -/

/-- Whether something of a flat width has room behind `column` on a page of `w` columns. -/
def FlatWidth.Fits (v : FlatWidth α) (column w : Int) : Prop :=
  match v with
  | .columns n => column + n ≤ w
  | _ => False

instance (v : FlatWidth α) (column w : Int) : Decidable (v.Fits column w) :=
  match v with
  | .columns n => inferInstanceAs (Decidable (column + n ≤ w))
  | .never | .claimed _ => isFalse id

theorem fits_iff {v : FlatWidth α} {column w : Int} :
    v.Fits column w ↔ ∃ n, v = .columns n ∧ column + n ≤ w := by
  cases v <;> simp [FlatWidth.Fits]

/-- A margin of a page of `w` columns admits what fits, where no width was only claimed. -/
theorem admits_settled {margin : Margin α} {w : Int} (hw : margin.width = .columns w)
    {v : FlatWidth α} (hv : v.Settled) (column : Int) :
    margin.admits column v = .ok (decide (v.Fits column w)) := by
  cases v with
  | never => rfl
  | columns n =>
    rw [Margin.admits, hw]
    rfl
  | claimed x => exact hv.elim

/-! ## Drawings -/

namespace Doc

/-- The column where a document ends that is laid out from `column` with its lines returning to
`indent`, on a page of `w` columns. -/
def endColumn (w : Int) : Doc α → Int → Int → Int
  | text s, _, column => column + s.length
  | horzNode _ a b, indent, column =>
    b.endColumn w (a.endColumn w indent column) (a.endColumn w indent column)
  | concatNode _ a b, indent, column => b.endColumn w indent (a.endColumn w indent column)
  | vert _ b, indent, _ => b.endColumn w indent indent
  | choiceNode _ flat broken, indent, column =>
    if flat.flatWidth.Fits column w then flat.endColumn w indent column
    else broken.endColumn w indent column
  | fullLine a, indent, column => a.endColumn w indent column
  | foreign _ _, _, column => column

/-- What the layout of a document puts on a canvas. -/
def drawing (w : Int) : Doc α → Int → Int → Canvas
  | text s, _, _ => Canvas.empty.write s
  | horzNode _ a b, indent, column =>
    (a.drawing w indent column).append
      (b.drawing w (a.endColumn w indent column) (a.endColumn w indent column))
  | concatNode _ a b, indent, column =>
    (a.drawing w indent column).append (b.drawing w indent (a.endColumn w indent column))
  | vert a b, indent, column =>
    ((a.drawing w indent column).breakLine indent).append (b.drawing w indent indent)
  | choiceNode _ flat broken, indent, column =>
    if flat.flatWidth.Fits column w then flat.drawing w indent column
    else broken.drawing w indent column
  | fullLine a, indent, column => a.drawing w indent column
  | foreign _ _, _, _ => Canvas.empty

end Doc

/-! ## Drawings are layouts -/

variable {margin : Margin α} {w : Int}

/-- The descent of a well formed document adds its drawing to the canvas and ends at its end
column. -/
theorem descend_wellFormed (hw : margin.width = .columns w) {d : Doc α} (hd : d.WellFormed)
    (canvas : Canvas) (indent column : Int) :
    d.descend margin canvas indent column =
      (canvas.append (d.drawing w indent column), .ok (d.endColumn w indent column)) := by
  induction d generalizing canvas indent column with
  | text s =>
    rw [Doc.descend, Doc.drawing, Canvas.append_write_empty]
    rfl
  | horzNode v a b iha ihb =>
    rw [Doc.descend, iha hd.2.1, Outcome.andThen, ihb hd.2.2, Canvas.append_assoc]
    rfl
  | concatNode v a b iha ihb =>
    rw [Doc.descend, iha hd.2.1, Outcome.andThen, ihb hd.2.2, Canvas.append_assoc]
    rfl
  | vert a b iha ihb =>
    rw [Doc.descend, iha hd.1, Outcome.andThen, ihb hd.2, ← Canvas.append_breakLine,
      Canvas.append_assoc]
    rfl
  | choiceNode v flat broken ihf ihb =>
    rw [Doc.descend, admits_settled hw hd.2.1.settled, Doc.drawing, Doc.endColumn]
    by_cases h : flat.flatWidth.Fits column w
    · rw [decide_eq_true h, if_pos h, if_pos h]
      exact ihf hd.2.1 canvas indent column
    · rw [decide_eq_false h, if_neg h, if_neg h]
      exact ihb hd.2.2 canvas indent column
  | fullLine a ih => exact ih hd canvas indent column
  | foreign x v => exact hd.elim

/-- The layout of a well formed document always ends. It adds the drawing of the document to the
canvas and returns its end column. -/
theorem layOut_wellFormed (hw : margin.width = .columns w) {d : Doc α} (hd : d.WellFormed)
    (canvas : Canvas) (indent column : Int) :
    d.layOut canvas indent column margin =
      (canvas.append (d.drawing w indent column), .ok (d.endColumn w indent column)) := by
  rw [layOut_descend, descend_wellFormed hw hd]

/-- The same on a page that is `w` columns wide. -/
theorem layOut_page {κ : Type} {d : Doc (Value κ)} (hd : d.WellFormed) (canvas : Canvas)
    (indent column w : Int) :
    d.layOut canvas indent column (.page w) =
      (canvas.append (d.drawing w indent column), .ok (d.endColumn w indent column)) :=
  layOut_wellFormed rfl hd canvas indent column

theorem empty_append_lines (c : Canvas) : (Canvas.empty.append c).lines = c.lines := by
  obtain ⟨first, rest, h⟩ := c.exists_lines_eq_cons
  rw [Canvas.lines_append h, h, Canvas.empty, String.empty_append]
  rfl

/-- The lines of a well formed document on a page of `w` columns. -/
theorem lines_wellFormed {κ : Type} {d : Doc (Value κ)} (hd : d.WellFormed) (w : Int) :
    d.lines (.int w) = .ok (d.drawing w 0 0).lines := by
  rw [Doc.lines, Doc.display, layOut_page hd]
  show Except.ok (Canvas.empty.append (d.drawing w 0 0)).lines = .ok (d.drawing w 0 0).lines
  rw [empty_append_lines]

end DocLayout
