import DocLayout.Node
import DocLayout.Proofs.Composition
import DocLayout.Proofs.Equivalence

/-
  Three documents joined in two ways.

  `horz`, `concat` and `vert` lay their first document out where they stand and go on with the second
  one. They differ in where that starts and in the indentation that it gets: `concat` and `vert` pass
  theirs on, and `horz` takes the column that was reached, whatever its own indentation is. So
  `p a (q b c)` and `q (p a b) c` come to the same unless `p` is a `horz` and `q` is none: then `q`
  hands its indentation down to `c`, which is the column where `a` ends in the first document, and the
  indentation of the whole in the second.

  Proved:
  * `descend_join`: a join is its first document, and then what `Joint.goOn` says.
  * `equivalent_join`, `equivalent_join_iff`: seven of the nine pairs of joints regroup, and no more.
  * `regroup_anywhere`: so documents made of nodes can be regrouped in every place of a larger one.
-/

namespace DocLayout

/-- A way to join two documents. -/
inductive Joint where
  | horz
  | concat
  | vert
  deriving Repr, DecidableEq

namespace Joint

variable {α κ : Type}

/-- Two documents joined. -/
def join : Joint → Doc α → Doc α → Doc α
  | horz => Doc.horz
  | concat => Doc.concat
  | vert => Doc.vert

/-- The node of two values, which are taken as they are. -/
def node : Joint → Value κ → Value κ → Except Failure (Doc (Value κ))
  | horz => Node.horz
  | concat => Node.concat
  | vert => fun first second => .ok (Node.vert first second)

/-- The pairs of joints `(p, q)` for which `p a (q b c)` and `q (p a b) c` come to the same. -/
def regrouping : List (Joint × Joint) :=
  [(horz, horz), (concat, concat), (vert, vert), (concat, horz), (concat, vert), (vert, horz),
    (vert, concat)]

/-- Only a `horz` outside of something else is left out. -/
theorem mem_regrouping_iff {p q : Joint} : (p, q) ∈ regrouping ↔ (p = .horz → q = .horz) := by
  cases p <;> cases q <;> decide

/-- What a join does with its second document when the first one is laid out. -/
def goOn (j : Joint) (margin : Margin α) (second : Doc α) (indent : Int) (canvas : Canvas)
    (column : Int) : Outcome α :=
  match j with
  | horz => second.descend margin canvas column column
  | concat => second.descend margin canvas indent column
  | vert => second.descend margin (canvas.breakLine indent) indent indent

end Joint

variable {α : Type} {p q : Joint}

/-! ## Layouts -/

theorem descend_join (j : Joint) (margin : Margin α) (a b : Doc α) (canvas : Canvas)
    (indent column : Int) :
    (j.join a b).descend margin canvas indent column =
      Outcome.andThen (a.descend margin canvas indent column) (j.goOn margin b indent) := by
  cases j <;> rfl

/-- Going on with a join is going on with its first document, and then with its second one at the
indentation of the whole: either that is the indentation which the join gets, or it does not look at
it. -/
theorem goOn_join (h : p = .horz → q = .horz) (margin : Margin α) (b c : Doc α) (indent : Int)
    (canvas : Canvas) (column : Int) :
    p.goOn margin (q.join b c) indent canvas column =
      Outcome.andThen (p.goOn margin b indent canvas column) (q.goOn margin c indent) := by
  cases p with
  | concat => exact descend_join q margin b c canvas indent column
  | vert => exact descend_join q margin b c (canvas.breakLine indent) indent indent
  | horz =>
    obtain rfl := h rfl
    exact descend_join .horz margin b c canvas column column

theorem descend_regroup (h : p = .horz → q = .horz) (margin : Margin α) (a b c : Doc α)
    (canvas : Canvas) (indent column : Int) :
    (p.join a (q.join b c)).descend margin canvas indent column =
      (q.join (p.join a b) c).descend margin canvas indent column := by
  rw [descend_join, descend_join, descend_join, andThen_assoc]
  exact andThen_congr _ (goOn_join h margin b c indent)

/-! ## Widths -/

theorem add_assoc_width (u v w : FlatWidth α) : (u.add v).add w = u.add (v.add w) := by
  cases u with
  | columns m =>
    cases v with
    | columns n =>
      cases w with
      | columns k => exact congrArg FlatWidth.columns (Nat.add_assoc m n k)
      | never | claimed _ => rfl
    | never | claimed _ => rfl
  | never | claimed _ => rfl

theorem add_never (w : FlatWidth α) : w.add .never = .never := by
  cases w <;> rfl

theorem flatWidth_join (j : Joint) (a b : Doc α) :
    (j.join a b).flatWidth =
      if j = .vert then .never else a.flatWidth.add b.flatWidth := by
  cases j <;> rfl

theorem flatWidth_regroup (p q : Joint) (a b c : Doc α) :
    (p.join a (q.join b c)).flatWidth = (q.join (p.join a b) c).flatWidth := by
  rw [flatWidth_join, flatWidth_join, flatWidth_join, flatWidth_join]
  by_cases hp : p = .vert
  · rw [if_pos hp, if_pos hp]
    split <;> rfl
  · rw [if_neg hp, if_neg hp]
    split
    · exact add_never _
    · exact (add_assoc_width _ _ _).symm

/-- Seven of the nine pairs of joints regroup. -/
theorem equivalent_join (h : (p, q) ∈ Joint.regrouping) (a b c : Doc α) :
    (p.join a (q.join b c)).Equivalent (q.join (p.join a b) c) :=
  .of_laidAlike (flatWidth_regroup p q a b c) fun margin canvas indent column =>
    descend_regroup (Joint.mem_regrouping_iff.mp h) margin a b c canvas indent column

/-- The other two do not: below `a` the lines of `c` begin where `a` ends in the first document, and at
the indentation of the whole in the second. -/
theorem equivalent_join_iff :
    (∀ a b c : Doc α, (p.join a (q.join b c)).Equivalent (q.join (p.join a b) c)) ↔
      (p, q) ∈ Joint.regrouping := by
  refine ⟨fun h => ?_, fun h a b c => equivalent_join h a b c⟩
  let margin : Margin α := ⟨.columns 0, fun _ _ => .ok true⟩
  have lines := congrArg (fun o : Outcome α => o.1.lines)
    ((h (.text "a") (.text "b") (.vert (.text "c") (.text "d"))).laidAlike margin .empty 0 0)
  refine Joint.mem_regrouping_iff.mpr ?_
  rintro rfl
  cases q with
  | horz => rfl
  | concat => exact absurd (show ["abc", " d"] = ["abc", "d"] from lines) (by decide)
  | vert => exact absurd (show ["ab", " c", " d"] = ["ab", "c", "d"] from lines) (by decide)

/-! ## Documents made of nodes -/

variable {κ : Type} {a b c : Doc (Value κ)}

theorem askWidths_docs (a b : Doc (Value κ)) : Node.askWidths (.doc a) (.doc b) = .ok () := by
  have first : Node.partWidth (.doc a) = .ok a.flatWidth := rfl
  have second : Node.partWidth (.doc b) = .ok b.flatWidth := rfl
  rw [Node.askWidths, first, second]
  cases a.flatWidth <;> rfl

/-- Nodes of well formed documents are joins of them. -/
theorem node_docs (j : Joint) (ha : a.WellFormed) (hb : b.WellFormed) :
    j.node (.doc a) (.doc b) = .ok (j.join a b) := by
  cases j with
  | horz =>
    rw [Joint.node, Node.horz, askWidths_docs]
    exact Join.horz_settled ha.settled hb.settled
  | concat =>
    rw [Joint.node, Node.concat, askWidths_docs]
    exact Join.concat_settled ha.settled hb.settled
  | vert => rfl

theorem wellFormed_join (j : Joint) (ha : a.WellFormed) (hb : b.WellFormed) :
    (j.join a b).WellFormed := by
  cases j with
  | horz | concat => exact ⟨rfl, ha, hb⟩
  | vert => exact ⟨ha, hb⟩

/-- Three well formed documents can be put together by nodes in two ways, `p a (q b c)` and
`q (p a b) c`. For seven pairs of nodes both have the same width, and they are laid out alike on every
canvas from every indentation and column; so each can be put in the place of the other anywhere in a
larger document, which keeps its width and is displayed as before on every page. -/
theorem regroup_anywhere (run : Interpreter κ) (h : (p, q) ∈ Joint.regrouping)
    (ha : a.WellFormed) (hb : b.WellFormed) (hc : c.WellFormed) :
    ∃ left right : Doc (Value κ),
      (do p.node (.doc a) (.doc (← q.node (.doc b) (.doc c)))) = .ok left ∧
      (do q.node (.doc (← p.node (.doc a) (.doc b))) (.doc c)) = .ok right ∧
      left.flatWidth = right.flatWidth ∧
      (∀ (canvas : Canvas) (indent column : Int) (margin : Margin (Value κ)),
        left.layOut canvas indent column margin = right.layOut canvas indent column margin) ∧
      ∀ context : Doc.Context (Value κ), context.WellFormed →
        (context.fill left).WellFormed ∧ (context.fill right).WellFormed ∧
        (context.fill left).flatWidth = (context.fill right).flatWidth ∧
        ∀ width : Value κ, Page.display run (.doc (context.fill left)) width =
          Page.display run (.doc (context.fill right)) width := by
  have hbc := wellFormed_join q hb hc
  have hab := wellFormed_join p ha hb
  have hequivalent := equivalent_join h a b c
  refine ⟨p.join a (q.join b c), q.join (p.join a b) c, ?_, ?_, hequivalent.flatWidth,
    fun canvas indent column margin => hequivalent.layOut margin canvas indent column, ?_⟩
  · rw [node_docs q hb hc]
    exact node_docs p ha hbc
  · rw [node_docs p ha hb]
    exact node_docs q hab hc
  · intro context hcontext
    have hfilled := equivalent_fill hequivalent context
    refine ⟨wellFormed_fill hcontext (wellFormed_join p ha hbc),
      wellFormed_fill hcontext (wellFormed_join q hab hc), hfilled.flatWidth, fun width => ?_⟩
    rw [display_doc, display_doc, hfilled.lines]

/-- A choice that may be wide, to be laid out behind something else. -/
def wideChoice : Doc (Value Empty) := .choice (.text "bbbb") (.vert (.text "b") (.text "b"))

/-- The hole is the flat alternative of a choice, behind a text. -/
def behindText : Doc.Context (Value Empty) :=
  .horzSecond (.text "x") (.choiceFlat .hole (.text "yy"))

theorem regroup_anywhere_behindText :
    (Joint.concat, Joint.horz) ∈ Joint.regrouping ∧
    wideChoice.WellFormed ∧ twoLines.WellFormed ∧ threeColumns.WellFormed ∧ behindText.WellFormed ∧
    ∃ left right : Doc (Value Empty),
      (do Node.concat (.doc wideChoice) (.doc (← Node.horz (.doc twoLines) (.doc threeColumns)))) =
        .ok left ∧
      (do Node.horz (.doc (← Node.concat (.doc wideChoice) (.doc twoLines))) (.doc threeColumns)) =
        .ok right ∧
      left.flatWidth = right.flatWidth ∧
      (∀ (canvas : Canvas) (indent column : Int) (margin : Margin (Value Empty)),
        left.layOut canvas indent column margin = right.layOut canvas indent column margin) ∧
      (behindText.fill left).WellFormed ∧ (behindText.fill right).WellFormed ∧
      (behindText.fill left).flatWidth = (behindText.fill right).flatWidth ∧
      ∀ width : Value Empty, Page.display Empty.elim (.doc (behindText.fill left)) width =
        Page.display Empty.elim (.doc (behindText.fill right)) width := by
  have unbroken : ∀ s ∈ ["ab", "b", "bbbb", "c", "d", "dd", "ddd", "x", "yy"], Text.Unbroken s := by
    decide
  have hpair : (Joint.concat, Joint.horz) ∈ Joint.regrouping := by decide
  have ha : wideChoice.WellFormed :=
    ⟨rfl, unbroken "bbbb" (by simp), unbroken "b" (by simp), unbroken "b" (by simp)⟩
  have hb : twoLines.WellFormed := ⟨unbroken "ab" (by simp), unbroken "c" (by simp)⟩
  have hc : threeColumns.WellFormed :=
    ⟨rfl, unbroken "ddd" (by simp), unbroken "d" (by simp), unbroken "dd" (by simp)⟩
  have hcontext : behindText.WellFormed :=
    ⟨⟨trivial, unbroken "yy" (by simp)⟩, unbroken "x" (by simp)⟩
  obtain ⟨left, right, hleft, hright, hwidth, hlayOut, hfill⟩ :=
    regroup_anywhere Empty.elim hpair ha hb hc
  exact ⟨hpair, ha, hb, hc, hcontext, left, right, hleft, hright, hwidth, hlayOut,
    hfill behindText hcontext⟩

end DocLayout
