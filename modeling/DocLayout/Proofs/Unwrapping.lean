import DocLayout.Proofs.Composition
import DocLayout.Proofs.Equivalence
import DocLayout.Proofs.Resolution

/-
  Full lines where no choice asks for a width.

  A `fullLine` lays its document out as it is and says that it can not stand on a single line. A layout
  asks for the width of one kind of document only, the flat alternative of a choice that it comes to. So
  outside of all flat alternatives a `fullLine` changes nothing, although it changes the widths of the
  nodes around it: taken off, they may get a width that they did not have, or a smaller one.

  `d.Unwraps d'` says that `d'` is what becomes of `d` when some of these nodes are taken off, whichever,
  and the widths of the nodes that stay are worked out anew. The flat alternative of a choice stays as it
  is, with all that is in it.

  Proved:
  * `Doc.Unwraps.laidAlike`: every layout treats both documents alike.
  * `Doc.Unwraps.flatWidth_le`: a width only gets smaller, or comes to be where there was none.
  * `display_unwrapped`: both are displayed alike on every page.
-/

namespace DocLayout

variable {α : Type}

/-- A document with some of the `fullLine` nodes of another one taken off, none of them in the flat
alternative of a choice. -/
inductive Doc.Unwraps : Doc α → Doc α → Prop
  | text (s : String) : Unwraps (.text s) (.text s)
  | horz {v : FlatWidth α} {a b a' b' : Doc α} :
    Unwraps a a' → Unwraps b b' → Unwraps (.horzNode v a b) (.horz a' b')
  | concat {v : FlatWidth α} {a b a' b' : Doc α} :
    Unwraps a a' → Unwraps b b' → Unwraps (.concatNode v a b) (.concat a' b')
  | vert {a b a' b' : Doc α} : Unwraps a a' → Unwraps b b' → Unwraps (.vert a b) (.vert a' b')
  | choice {v : FlatWidth α} (flat : Doc α) {broken broken' : Doc α} :
    Unwraps broken broken' → Unwraps (.choiceNode v flat broken) (.choice flat broken')
  | keep {a a' : Doc α} : Unwraps a a' → Unwraps (.fullLine a) (.fullLine a')
  | drop {a a' : Doc α} : Unwraps a a' → Unwraps (.fullLine a) a'
  | foreign (x : α) (v : FlatWidth α) : Unwraps (.foreign x v) (.foreign x v)

namespace Doc.Unwraps

variable {d d' : Doc α}

theorem wellFormed (h : d.Unwraps d') (hd : d.WellFormed) : d'.WellFormed := by
  induction h with
  | text s => exact hd
  | horz _ _ iha ihb => exact ⟨rfl, iha hd.2.1, ihb hd.2.2⟩
  | concat _ _ iha ihb => exact ⟨rfl, iha hd.2.1, ihb hd.2.2⟩
  | vert _ _ iha ihb => exact ⟨iha hd.1, ihb hd.2⟩
  | choice flat _ ih => exact ⟨rfl, hd.2.1, ih hd.2.2⟩
  | keep _ ih => exact ih hd
  | drop _ ih => exact ih hd
  | foreign x v => exact hd

/-- No layout tells the two apart: the only widths that it asks for have stayed. -/
theorem laidAlike (h : d.Unwraps d') : d.LaidAlike d' := by
  induction h with
  | text s => exact .refl _
  | horz _ _ iha ihb => exact .horz iha ihb
  | concat _ _ iha ihb => exact .concat iha ihb
  | vert _ _ iha ihb => exact .vert iha ihb
  | choice flat _ ih => exact .choice rfl (.refl flat) ih
  | keep _ ih => exact .fullLine ih
  | drop _ ih => exact .of_fullLine ih
  | foreign x v => exact .refl _

/-- A width on a single line gets no greater, and is not lost. -/
theorem flatWidth_le (h : d.Unwraps d') (hd : d.WellFormed) {n : Nat}
    (hn : d.flatWidth = .columns n) : ∃ m, d'.flatWidth = .columns m ∧ m ≤ n := by
  induction h generalizing n with
  | text s => exact ⟨n, hn, Nat.le_refl n⟩
  | horz _ _ iha ihb =>
    obtain ⟨i, k, hi, hk, rfl⟩ := add_eq_columns (hd.1.symm.trans hn)
    obtain ⟨i', hi', hlea⟩ := iha hd.2.1 hi
    obtain ⟨k', hk', hleb⟩ := ihb hd.2.2 hk
    refine ⟨i' + k', ?_, Nat.add_le_add hlea hleb⟩
    rw [Doc.flatWidth_horz, hi', hk', FlatWidth.add]
  | concat _ _ iha ihb =>
    obtain ⟨i, k, hi, hk, rfl⟩ := add_eq_columns (hd.1.symm.trans hn)
    obtain ⟨i', hi', hlea⟩ := iha hd.2.1 hi
    obtain ⟨k', hk', hleb⟩ := ihb hd.2.2 hk
    refine ⟨i' + k', ?_, Nat.add_le_add hlea hleb⟩
    rw [Doc.flatWidth_concat, hi', hk', FlatWidth.add]
  | vert _ _ _ _ => contradiction
  | choice flat hbroken ih =>
    rw [Doc.flatWidth_choice]
    rcases narrower_eq_columns (hd.1.symm.trans hn) with hflat | hwidth
    · rw [hflat]
      exact narrower_le_left n (hbroken.wellFormed hd.2.2).settled
    · obtain ⟨k, hk, hle⟩ := ih hd.2.2 hwidth
      obtain ⟨m, hm, hmin⟩ := narrower_le_right k hd.2.1.settled
      exact ⟨m, by rw [hk, hm], Nat.le_trans hmin hle⟩
  | keep _ _ => contradiction
  | drop _ _ => contradiction
  | foreign x v => exact hd.elim

end Doc.Unwraps

/-! ## On pages -/

variable {κ : Type} {d d' : Doc (Value κ)} (run : Interpreter κ)

/-- Whichever `fullLine` nodes of a well formed document are taken off outside of the flat alternatives of
its choices, what is left is a well formed document that every layout treats as before, on every canvas
and from every indentation and column. So it is displayed as before, on every page. -/
theorem display_unwrapped (hd : d.WellFormed) (h : d.Unwraps d') :
    d'.WellFormed ∧
    (∀ (canvas : Canvas) (indent column : Int) (margin : Margin (Value κ)),
      d'.layOut canvas indent column margin = d.layOut canvas indent column margin) ∧
    (∀ width : Value κ, Page.display run (.doc d') width = Page.display run (.doc d) width) ∧
    ∀ w : Int, ∃ lines, Page.display run (.doc d) (.int w) = pure lines ∧
      Page.display run (.doc d') (.int w) = pure lines := by
  have hdisplay : ∀ width : Value κ,
      Page.display run (.doc d') width = Page.display run (.doc d) width := by
    intro width
    rw [display_doc, display_doc, h.laidAlike.lines]
  refine ⟨h.wellFormed hd, fun canvas indent column margin => ?_, hdisplay, fun w => ?_⟩
  · exact (h.laidAlike.layOut margin canvas indent column).symm
  · refine ⟨(d.drawing w 0 0).lines, display_wellFormed run hd w, ?_⟩
    rw [hdisplay, display_wellFormed run hd]

/-- A text behind which a choice hangs, with a `fullLine` in each alternative and everywhere else. -/
def wrappedLine : Doc (Value Empty) :=
  .horz (.fullLine (.text "a"))
    (.choice (.fullLine (.text "b")) (.fullLine (.horz (.fullLine (.text "c")) (.text "d"))))

/-- What is left of it when all are taken off but the one in the flat alternative. -/
def unwrappedLine : Doc (Value Empty) :=
  .horz (.text "a") (.choice (.fullLine (.text "b")) (.horz (.text "c") (.text "d")))

theorem display_unwrapped_wrappedLine :
    wrappedLine.WellFormed ∧ wrappedLine.Unwraps unwrappedLine ∧
    wrappedLine.flatWidth = .never ∧ unwrappedLine.flatWidth = .columns 3 ∧
    unwrappedLine.WellFormed ∧
    (∀ (canvas : Canvas) (indent column : Int) (margin : Margin (Value Empty)),
      unwrappedLine.layOut canvas indent column margin =
        wrappedLine.layOut canvas indent column margin) ∧
    (∀ width : Value Empty, Page.display Empty.elim (.doc unwrappedLine) width =
      Page.display Empty.elim (.doc wrappedLine) width) ∧
    ∀ w : Int, ∃ lines, Page.display Empty.elim (.doc wrappedLine) (.int w) = pure lines ∧
      Page.display Empty.elim (.doc unwrappedLine) (.int w) = pure lines := by
  have unbroken : ∀ s ∈ ["a", "b", "c", "d"], Text.Unbroken s := by decide
  have hd : wrappedLine.WellFormed :=
    ⟨rfl, unbroken "a" (by simp), rfl, unbroken "b" (by simp), rfl, unbroken "c" (by simp),
      unbroken "d" (by simp)⟩
  have h : wrappedLine.Unwraps unwrappedLine :=
    .horz (.drop (.text "a")) (.choice _ (.drop (.horz (.drop (.text "c")) (.text "d"))))
  exact ⟨hd, h, rfl, rfl, display_unwrapped Empty.elim hd h⟩

/-- In a flat alternative it counts: without it that one would be taken. -/
example :
    ((Doc.choice (.fullLine (.text "a")) (.text "b") : Doc Empty).drawing 9 0 0).lines = ["b"] ∧
    ((Doc.choice (.text "a") (.text "b") : Doc Empty).drawing 9 0 0).lines = ["a"] := ⟨rfl, rfl⟩

end DocLayout
