import DocLayout.Proofs.Typeset

/-
  The cursor, and documents moved to the right.

  The column that a layout counts is the place of the cursor on the canvas: it comes of the texts
  written since the last line break and the spaces that the line began with
  (`endColumn_eq_cursor`). A page that is `k` columns wider gives a document that starts `k` columns
  further right the same room, so it makes the same choices there; its drawing is the same, with
  `k` spaces more before every line that it begins (`drawing_shift`).

  Both take an indentation and a column that are not negative, since there are no spaces before a
  line that returns to a negative column.
-/

namespace DocLayout

variable {α : Type}

theorem endColumn_nonneg (w : Int) (d : Doc α) {indent column : Int} (hi : 0 ≤ indent)
    (hc : 0 ≤ column) : 0 ≤ d.endColumn w indent column := by
  induction d generalizing indent column with
  | text s => exact Int.add_nonneg hc (Int.natCast_nonneg s.length)
  | horzNode v a b iha ihb => exact ihb (iha hi hc) (iha hi hc)
  | concatNode v a b iha ihb => exact ihb hi (iha hi hc)
  | vert a b iha ihb => exact ihb hi hi
  | choiceNode v flat broken ihf ihb =>
    rw [Doc.endColumn]
    split
    · exact ihf hi hc
    · exact ihb hi hc
  | fullLine a ih => exact ih hi hc
  | foreign x v => exact hc

/-- The column where a document ends is the place of the cursor at the end of its drawing. -/
theorem endColumn_eq_cursor (w : Int) (d : Doc α) {indent column : Int} (hi : 0 ≤ indent)
    (hc : 0 ≤ column) :
    d.endColumn w indent column = (d.drawing w indent column).cursor column := by
  induction d generalizing indent column with
  | text s => rw [Doc.drawing, Canvas.cursor_write_empty]; rfl
  | horzNode v a b iha ihb =>
    have hm := endColumn_nonneg w a hi hc
    rw [Doc.endColumn, Doc.drawing, Canvas.cursor_append, ← iha hi hc, ihb hm hm]
  | concatNode v a b iha ihb =>
    rw [Doc.endColumn, Doc.drawing, Canvas.cursor_append, ← iha hi hc,
      ihb hi (endColumn_nonneg w a hi hc)]
  | vert a b iha ihb =>
    rw [Doc.endColumn, Doc.drawing, Canvas.cursor_append, Canvas.cursor_breakLine _ hi, ihb hi hi]
  | choiceNode v flat broken ihf ihb =>
    rw [Doc.endColumn, Doc.drawing]
    split
    · exact ihf hi hc
    · exact ihb hi hc
  | fullLine a ih => exact ih hi hc
  | foreign x v => simp [Doc.endColumn, Doc.drawing, Canvas.cursor, Canvas.empty]

/-! ## The same choices further right -/

theorem fits_shift (v : FlatWidth α) (column w k : Int) :
    v.Fits (column + k) (w + k) ↔ v.Fits column w := by
  cases v with
  | columns n =>
    show column + k + n ≤ w + k ↔ column + n ≤ w
    omega
  | never => exact Iff.rfl
  | claimed x => exact Iff.rfl

theorem endColumn_shift (w : Int) (d : Doc α) (indent column k : Int) :
    d.endColumn (w + k) (indent + k) (column + k) = d.endColumn w indent column + k := by
  induction d generalizing indent column with
  | text s =>
    show column + k + s.length = column + s.length + k
    omega
  | horzNode v a b iha ihb => rw [Doc.endColumn, iha, ihb]; rfl
  | concatNode v a b iha ihb => rw [Doc.endColumn, iha, ihb]; rfl
  | vert a b iha ihb => rw [Doc.endColumn, ihb]; rfl
  | choiceNode v flat broken ihf ihb =>
    rw [Doc.endColumn, Doc.endColumn]
    by_cases h : flat.flatWidth.Fits column w
    · rw [if_pos h, if_pos ((fits_shift _ column w k).mpr h), ihf]
    · rw [if_neg h, if_neg (mt (fits_shift _ column w k).mp h), ihb]
  | fullLine a ih => exact ih indent column
  | foreign x v => rfl

/-- A document that starts `k` columns further right on a page that is `k` columns wider draws the
same lines, with `k` spaces before every line but the first. -/
theorem drawing_shift (w : Int) (d : Doc α) {indent column k : Int} (hi : 0 ≤ indent)
    (hc : 0 ≤ column) (hk : 0 ≤ k) :
    d.drawing (w + k) (indent + k) (column + k) = (d.drawing w indent column).shift k := by
  induction d generalizing indent column with
  | text s => rfl
  | horzNode v a b iha ihb =>
    have hm := endColumn_nonneg w a hi hc
    rw [Doc.drawing, Doc.drawing, endColumn_shift, iha hi hc, ihb hm hm, Canvas.shift_append]
  | concatNode v a b iha ihb =>
    rw [Doc.drawing, Doc.drawing, endColumn_shift, iha hi hc,
      ihb hi (endColumn_nonneg w a hi hc), Canvas.shift_append]
  | vert a b iha ihb =>
    rw [Doc.drawing, Doc.drawing, iha hi hc, ihb hi hi, Canvas.shift_append,
      Canvas.shift_breakLine _ hk hi, Int.add_comm k indent]
  | choiceNode v flat broken ihf ihb =>
    rw [Doc.drawing, Doc.drawing]
    by_cases h : flat.flatWidth.Fits column w
    · rw [if_pos h, if_pos ((fits_shift _ column w k).mpr h), ihf hi hc]
    · rw [if_neg h, if_neg (mt (fits_shift _ column w k).mp h), ihb hi hc]
  | fullLine a ih => exact ih hi hc
  | foreign x v => rfl

/-- A document that hangs at column `k` is drawn as in the width that is left there, moved to the
right. -/
theorem drawing_hanging (w : Int) (d : Doc α) {k : Int} (hk : 0 ≤ k) :
    d.drawing w k k = (d.drawing (w - k) 0 0).shift k := by
  have hshift := drawing_shift (w - k) d (Int.le_refl 0) (Int.le_refl 0) hk
  rwa [Int.sub_add_cancel, Int.zero_add] at hshift

end DocLayout
