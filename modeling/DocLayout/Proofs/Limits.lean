import DocLayout.Proofs.Selection

/-
  The widest and the narrowest pages.

  The width of a page matters to the choices of a document and to nothing else, and it matters to them
  between two limits only. No layout gets further to the right than the texts come to that it has come
  past: a line returns to a column that was reached before, and a document hangs at one. So on a page
  that is as wide as all texts of the document together, those of both alternatives of every choice
  counted, each choice has room for its flat alternative, if that one can stand on a line at all. On a
  page of a negative width nothing has room.

  `d.resolved takes` is `d` with its choices replaced by a rule that looks at no column: the flat
  alternative where `takes` says so of its flat width, and the broken one elsewhere. At both limits the
  resolution that a layout picks is of this kind.

  Proved:
  * `endColumn_le`: how far to the right a layout can end, wherever it begins.
  * `flatWidth_le_textLength`: no document is wider on a line than its texts come to.
  * `picked_of_wide`, `picked_of_negative`: the resolutions that are picked at the limits.
  * `display_limits`: what a page shows is the same on all pages beyond a limit.
-/

namespace DocLayout

variable {α : Type}

/-! ## Choices resolved by a rule -/

/-- A width on a single line that is known. -/
def FlatWidth.isColumns : FlatWidth α → Bool
  | columns _ => true
  | _ => false

/-- The document with every choice replaced by its flat alternative, if `takes` is true of the flat
width of that one, and by its broken alternative if not. -/
def Doc.resolved (takes : FlatWidth α → Bool) : Doc α → Doc α
  | text s => text s
  | horzNode _ a b => horz (a.resolved takes) (b.resolved takes)
  | concatNode _ a b => concat (a.resolved takes) (b.resolved takes)
  | vert a b => vert (a.resolved takes) (b.resolved takes)
  | choiceNode _ flat broken =>
    if takes flat.flatWidth then flat.resolved takes else broken.resolved takes
  | fullLine a => fullLine (a.resolved takes)
  | foreign x v => foreign x v

theorem resolves_resolved (takes : FlatWidth α → Bool) (d : Doc α) :
    d.Resolves (d.resolved takes) := by
  induction d with
  | text s => exact .text s
  | horzNode v a b iha ihb => exact .horz iha ihb
  | concatNode v a b iha ihb => exact .concat iha ihb
  | vert a b iha ihb => exact .vert iha ihb
  | choiceNode v flat broken ihf ihb =>
    rw [Doc.resolved]
    split
    · exact .flat ihf
    · exact .broken ihb
  | fullLine a ih => exact .fullLine ih
  | foreign x v => exact .foreign x v

/-! ## How far to the right -/

/-- From columns up to `x` a layout ends no further to the right than its texts reach behind `x`. -/
theorem endColumn_le (w : Int) (d : Doc α) {indent column x : Int} (hi : indent ≤ x)
    (hc : column ≤ x) : d.endColumn w indent column ≤ x + d.textLength := by
  induction d generalizing indent column x with
  | text s =>
    unfold Doc.endColumn Doc.textLength
    omega
  | horzNode v a b iha ihb =>
    -- the second document hangs at the column that the first one reached
    have hm := iha hi hc
    have hend := ihb hm hm
    unfold Doc.endColumn Doc.textLength
    omega
  | concatNode v a b iha ihb =>
    have hm := iha hi hc
    have hindent : indent ≤ x + a.textLength := by omega
    have hend := ihb hindent hm
    unfold Doc.endColumn Doc.textLength
    omega
  | vert a b iha ihb =>
    have hend := ihb hi hi
    unfold Doc.endColumn Doc.textLength
    omega
  | choiceNode v flat broken ihf ihb =>
    have hflat := ihf hi hc
    have hbroken := ihb hi hc
    unfold Doc.endColumn Doc.textLength
    split <;> omega
  | fullLine a ih => exact ih hi hc
  | foreign x v =>
    unfold Doc.endColumn Doc.textLength
    omega

/-- Of the texts of a document only those of some alternatives are left in a resolution. -/
theorem Doc.Resolves.textLength_le {d r : Doc α} (h : d.Resolves r) :
    r.textLength ≤ d.textLength := by
  induction h with
  | text s => exact Nat.le_refl _
  | horz _ _ iha ihb => exact Nat.add_le_add iha ihb
  | concat _ _ iha ihb => exact Nat.add_le_add iha ihb
  | vert _ _ iha ihb => exact Nat.add_le_add iha ihb
  | flat _ ih => exact Nat.le_trans ih (Nat.le_add_right _ _)
  | broken _ ih => exact Nat.le_trans ih (Nat.le_add_left _ _)
  | fullLine _ ih => exact ih
  | foreign x v => exact Nat.le_refl _

/-- No document is wider on a line than its texts come to. -/
theorem flatWidth_le_textLength {d : Doc α} (hd : d.WellFormed) {n : Nat}
    (hn : d.flatWidth = .columns n) : n ≤ d.textLength := by
  obtain ⟨r, hr, -, hlength⟩ := exists_level_resolution hd hn
  have hle := hr.textLength_le
  omega

/-! ## The resolutions at the limits -/

variable {w indent column x : Int}

/-- With room for all its texts behind `column` a document that can stand on a line fits there. -/
theorem fits_iff_isColumns {d : Doc α} (hd : d.WellFormed) (hw : column + d.textLength ≤ w) :
    d.flatWidth.Fits column w ↔ d.flatWidth.isColumns = true := by
  cases hv : d.flatWidth with
  | never => exact ⟨False.elim, fun h => nomatch h⟩
  | claimed y => exact ⟨False.elim, fun h => nomatch h⟩
  | columns n =>
    have hle := flatWidth_le_textLength hd hv
    have hfits : column + n ≤ w := by omega
    exact ⟨fun _ => rfl, fun _ => hfits⟩

/-- On a page with room for all texts behind the columns where its layout begins, every choice takes
its flat alternative if that one can stand on a line. -/
theorem picked_of_wide {d : Doc α} (hd : d.WellFormed) (hi : indent ≤ x) (hc : column ≤ x)
    (hw : x + d.textLength ≤ w) :
    d.picked w indent column = d.resolved FlatWidth.isColumns := by
  induction d generalizing indent column x with
  | text s => rfl
  | horzNode v a b iha ihb =>
    unfold Doc.textLength at hw
    have hfirst : x + a.textLength ≤ w := by omega
    have hsecond : x + a.textLength + b.textLength ≤ w := by omega
    have hm := endColumn_le w a hi hc
    rw [Doc.picked, iha hd.2.1 hi hc hfirst, ihb hd.2.2 hm hm hsecond, Doc.resolved]
  | concatNode v a b iha ihb =>
    unfold Doc.textLength at hw
    have hfirst : x + a.textLength ≤ w := by omega
    have hsecond : x + a.textLength + b.textLength ≤ w := by omega
    have hm := endColumn_le w a hi hc
    have hindent : indent ≤ x + a.textLength := by omega
    rw [Doc.picked, iha hd.2.1 hi hc hfirst, ihb hd.2.2 hindent hm hsecond, Doc.resolved]
  | vert a b iha ihb =>
    unfold Doc.textLength at hw
    have hfirst : x + a.textLength ≤ w := by omega
    have hsecond : x + b.textLength ≤ w := by omega
    rw [Doc.picked, iha hd.1 hi hc hfirst, ihb hd.2 hi hi hsecond, Doc.resolved]
  | choiceNode v flat broken ihf ihb =>
    unfold Doc.textLength at hw
    have hflat : x + flat.textLength ≤ w := by omega
    have hbroken : x + broken.textLength ≤ w := by omega
    have hfits : flat.flatWidth.Fits column w ↔ flat.flatWidth.isColumns = true :=
      fits_iff_isColumns hd.2.1 (by omega)
    rw [Doc.picked, ihf hd.2.1 hi hc hflat, ihb hd.2.2 hi hc hbroken, Doc.resolved]
    by_cases hline : flat.flatWidth.isColumns = true
    · rw [if_pos hline, if_pos (hfits.mpr hline)]
    · rw [if_neg hline, if_neg (mt hfits.mp hline)]
  | fullLine a ih =>
    unfold Doc.textLength at hw
    rw [Doc.picked, ih hd hi hc hw, Doc.resolved]
  | foreign y v => exact hd.elim

/-- Nothing fits on a page of a negative width. -/
theorem not_fits_of_negative (v : FlatWidth α) (hw : w < 0) (hc : 0 ≤ column) :
    ¬ v.Fits column w := by
  intro h
  obtain ⟨n, -, hle⟩ := fits_iff.mp h
  omega

/-- On a page of a negative width every choice takes its broken alternative. -/
theorem picked_of_negative (d : Doc α) (hw : w < 0) (hi : 0 ≤ indent) (hc : 0 ≤ column) :
    d.picked w indent column = d.resolved fun _ => false := by
  induction d generalizing indent column with
  | text s => rfl
  | horzNode v a b iha ihb =>
    have hm := endColumn_nonneg w a hi hc
    rw [Doc.picked, iha hi hc, ihb hm hm, Doc.resolved]
  | concatNode v a b iha ihb =>
    have hm := endColumn_nonneg w a hi hc
    rw [Doc.picked, iha hi hc, ihb hi hm, Doc.resolved]
  | vert a b iha ihb => rw [Doc.picked, iha hi hc, ihb hi hi, Doc.resolved]
  | choiceNode v flat broken ihf ihb =>
    rw [Doc.picked, if_neg (not_fits_of_negative _ hw hc), ihb hi hc]
    rfl
  | fullLine a ih => rw [Doc.picked, ih hi hc, Doc.resolved]
  | foreign y v => rfl

/-! ## Pages beyond the limits -/

variable {κ : Type} {d : Doc (Value κ)} (run : Interpreter κ)

/-- A page that is as wide as all texts of a document together shows the document with every choice
replaced by its flat alternative, if that one can stand on a line, and by its broken one if not. A page
of a negative width shows the document with every choice replaced by its broken alternative. Both show
the same however far beyond the limit their width is, and so does every page that is given one of the
two documents without choices. -/
theorem display_limits (hd : d.WellFormed) :
    ∃ widest narrowest : List String,
      (∀ w : Int, d.textLength ≤ w → Page.display run (.doc d) (.int w) = pure widest) ∧
      (∀ w : Int, Page.display run (.doc (d.resolved FlatWidth.isColumns)) (.int w) =
        pure widest) ∧
      (∀ w : Int, w < 0 → Page.display run (.doc d) (.int w) = pure narrowest) ∧
      ∀ w : Int, Page.display run (.doc (d.resolved fun _ => false)) (.int w) =
        pure narrowest := by
  have hzero : (0 : Int) ≤ 0 := Int.le_refl 0
  -- a resolution looks the same on every page, so one page at each limit settles all of them
  have wide : ∀ w w' : Int, d.textLength ≤ w →
      d.drawing w 0 0 = (d.resolved FlatWidth.isColumns).drawing w' 0 0 := by
    intro w w' hw
    rw [← drawing_picked w w', picked_of_wide hd hzero hzero (by omega)]
  have negative : ∀ w w' : Int, w < 0 →
      d.drawing w 0 0 = (d.resolved fun _ => false).drawing w' 0 0 := by
    intro w w' hw
    rw [← drawing_picked w w', picked_of_negative d hw hzero hzero]
  have hwide := (resolves_resolved FlatWidth.isColumns d).wellFormed hd
  have hnarrow := (resolves_resolved (fun _ => false) d).wellFormed hd
  refine ⟨(d.drawing d.textLength 0 0).lines, (d.drawing (-1) 0 0).lines, ?_, ?_, ?_, ?_⟩
  · intro w hw
    rw [display_wellFormed run hd, wide w 0 hw, wide d.textLength 0 (Int.le_refl _)]
  · intro w
    rw [display_wellFormed run hwide, wide d.textLength w (Int.le_refl _)]
  · intro w hw
    rw [display_wellFormed run hd, negative w 0 hw, negative (-1) 0 (by decide)]
  · intro w
    rw [display_wellFormed run hnarrow, negative (-1) w (by decide)]

/-- A choice that hangs behind two characters, and below it one with a flat alternative that can not
stand on a line. -/
def hangingAndPoisoned : Doc (Value Empty) :=
  .vert (.horz (.text "ab") (.choice (.text "cd") (.vert (.text "c") (.text "d"))))
    (.choice (.fullLine (.text "e")) (.text "f"))

theorem display_limits_hangingAndPoisoned :
    hangingAndPoisoned.WellFormed ∧ hangingAndPoisoned.textLength = 8 ∧
    hangingAndPoisoned.resolved FlatWidth.isColumns =
      .vert (.horz (.text "ab") (.text "cd")) (.text "f") ∧
    hangingAndPoisoned.resolved (fun _ => false) =
      .vert (.horz (.text "ab") (.vert (.text "c") (.text "d"))) (.text "f") ∧
    ∃ widest narrowest : List String,
      (∀ w : Int, 8 ≤ w →
        Page.display Empty.elim (.doc hangingAndPoisoned) (.int w) = pure widest) ∧
      (∀ w : Int, Page.display Empty.elim
        (.doc (.vert (.horz (.text "ab") (.text "cd")) (.text "f"))) (.int w) = pure widest) ∧
      (∀ w : Int, w < 0 →
        Page.display Empty.elim (.doc hangingAndPoisoned) (.int w) = pure narrowest) ∧
      ∀ w : Int, Page.display Empty.elim
        (.doc (.vert (.horz (.text "ab") (.vert (.text "c") (.text "d"))) (.text "f"))) (.int w) =
        pure narrowest := by
  have unbroken : ∀ s ∈ ["ab", "cd", "c", "d", "e", "f"], Text.Unbroken s := by decide
  have hd : hangingAndPoisoned.WellFormed :=
    ⟨⟨rfl, unbroken "ab" (by simp), rfl, unbroken "cd" (by simp), unbroken "c" (by simp),
      unbroken "d" (by simp)⟩, rfl, unbroken "e" (by simp), unbroken "f" (by simp)⟩
  exact ⟨hd, rfl, rfl, rfl, display_limits Empty.elim hd⟩

end DocLayout
