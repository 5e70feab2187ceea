import DocLayout.Proofs.Safety
import DocLayout.Proofs.Stages

/-
  How many moves a layout takes.

  When all choices of a document are made, what is left of it is a `Layout`: a tree without alternatives,
  in which a choice stands for the one that was taken. `d.Chooses margin indent column l` says that `l`
  is the layout that is chosen for `d` from that column. What it asks of a choice is whether the page has
  room for the flat width of the first alternative, and then only the alternative that is taken; the other
  one may be any tree.

  A layout fixes the moves of the work and all that comes of them. Every node takes one move, and a `horz`
  or a `vert` takes a second one for the task that it leaves between its parts. So the number of moves
  hangs on the layout alone, however large the alternatives are that were passed over.

  Proved, for every margin:
  * `after_chooses`, by induction on the layout: the moves that work off a document on top of any stack.
  * `endsAfter_chooses`: the work on a document takes as many moves as its layout counts.
  * `exists_chooses`, `chooses_unique`: just one layout is chosen for a well formed document on a page
    whose width is a number.
  * `layOut_takes_moves`: a page takes the moves of the chosen layout, and so for all trees that share it.
-/

namespace DocLayout

/-- What is left of a document when every choice in it is made. -/
inductive Layout where
  | text (value : String)
  | horz (first second : Layout)
  | concat (first second : Layout)
  | vert (first second : Layout)
  | choice (taken : Layout)
  | fullLine (inner : Layout)

namespace Layout

/-- The moves that a layout takes: one for every node, and one more for every `horz` and every
`vert`. -/
def moves : Layout → Nat
  | text _ => 1
  | horz a b | vert a b => a.moves + b.moves + 2
  | concat a b => a.moves + b.moves + 1
  | choice a | fullLine a => a.moves + 1

/-- The column where a layout ends. -/
def endColumn : Layout → Int → Int → Int
  | text s, _, column => column + s.length
  | horz a b, indent, column =>
    b.endColumn (a.endColumn indent column) (a.endColumn indent column)
  | concat a b, indent, column => b.endColumn indent (a.endColumn indent column)
  | vert _ b, indent, _ => b.endColumn indent indent
  | choice a, indent, column | fullLine a, indent, column => a.endColumn indent column

/-- The canvas after a layout. -/
def paint : Layout → Canvas → Int → Int → Canvas
  | text s, canvas, _, _ => canvas.write s
  | horz a b, canvas, indent, column =>
    b.paint (a.paint canvas indent column) (a.endColumn indent column) (a.endColumn indent column)
  | concat a b, canvas, indent, column =>
    b.paint (a.paint canvas indent column) indent (a.endColumn indent column)
  | vert a b, canvas, indent, column =>
    b.paint ((a.paint canvas indent column).breakLine indent) indent indent
  | choice a, canvas, indent, column | fullLine a, canvas, indent, column =>
    a.paint canvas indent column

end Layout

section Moves

variable {α : Type} {margin : Margin α}

/-- The layout that is chosen for a document, from an indentation and a column. -/
inductive Doc.Chooses (margin : Margin α) : Doc α → Int → Int → Layout → Prop
  | text (s : String) (indent column : Int) : Chooses margin (.text s) indent column (.text s)
  | horz {v : FlatWidth α} {a b : Doc α} {indent column : Int} {la lb : Layout} :
    Chooses margin a indent column la →
    Chooses margin b (la.endColumn indent column) (la.endColumn indent column) lb →
    Chooses margin (.horzNode v a b) indent column (.horz la lb)
  | concat {v : FlatWidth α} {a b : Doc α} {indent column : Int} {la lb : Layout} :
    Chooses margin a indent column la → Chooses margin b indent (la.endColumn indent column) lb →
    Chooses margin (.concatNode v a b) indent column (.concat la lb)
  | vert {a b : Doc α} {indent column : Int} {la lb : Layout} :
    Chooses margin a indent column la → Chooses margin b indent indent lb →
    Chooses margin (.vert a b) indent column (.vert la lb)
  | flat {v : FlatWidth α} {flat broken : Doc α} {indent column : Int} {l : Layout} :
    margin.admits column flat.flatWidth = .ok true → Chooses margin flat indent column l →
    Chooses margin (.choiceNode v flat broken) indent column (.choice l)
  | broken {v : FlatWidth α} {flat broken : Doc α} {indent column : Int} {l : Layout} :
    margin.admits column flat.flatWidth = .ok false → Chooses margin broken indent column l →
    Chooses margin (.choiceNode v flat broken) indent column (.choice l)
  | fullLine {a : Doc α} {indent column : Int} {l : Layout} :
    Chooses margin a indent column l → Chooses margin (.fullLine a) indent column (.fullLine l)

/-! ## The moves of a layout -/

/-- A document on top of the stack is worked off in the moves of its layout, and leaves what lies below
as it was. -/
theorem after_chooses {d : Doc α} {indent column : Int} {l : Layout}
    (h : d.Chooses margin indent column l) (stack : List (Task α)) (canvas : Canvas) :
    Stage.after margin l.moves ⟨.lay d indent :: stack, column, canvas⟩ =
      some ⟨stack, l.endColumn indent column, l.paint canvas indent column⟩ := by
  -- the stack is arbitrary: while the first part is worked off, what is left of its node lies below it
  induction h generalizing stack canvas with
  | text s indent column => rfl
  | @horz v a b indent column la lb _ _ iha ihb =>
    have hmoves : (Layout.horz la lb).moves = la.moves + (lb.moves + 1) + 1 := by
      simp only [Layout.moves]
      omega
    have hnode : Stage.next? margin ⟨.lay (.horzNode v a b) indent :: stack, column, canvas⟩ =
        some ⟨.lay a indent :: .align b :: stack, column, canvas⟩ := rfl
    have halign : ∀ column canvas, Stage.next? margin ⟨.align b :: stack, column, canvas⟩ =
        some ⟨.lay b column :: stack, column, canvas⟩ := fun _ _ => rfl
    rw [hmoves, after_succ hnode, after_add (iha _ canvas), after_succ (halign _ _)]
    exact ihb stack _
  | @concat v a b indent column la lb _ _ iha ihb =>
    have hmoves : (Layout.concat la lb).moves = la.moves + lb.moves + 1 := rfl
    have hnode : Stage.next? margin ⟨.lay (.concatNode v a b) indent :: stack, column, canvas⟩ =
        some ⟨.lay a indent :: .lay b indent :: stack, column, canvas⟩ := rfl
    rw [hmoves, after_succ hnode, after_add (iha _ canvas)]
    exact ihb stack _
  | @vert a b indent column la lb _ _ iha ihb =>
    have hmoves : (Layout.vert la lb).moves = la.moves + (lb.moves + 1) + 1 := by
      simp only [Layout.moves]
      omega
    have hnode : Stage.next? margin ⟨.lay (.vert a b) indent :: stack, column, canvas⟩ =
        some ⟨.lay a indent :: .lineBreak indent :: .lay b indent :: stack, column, canvas⟩ := rfl
    have hbreak : ∀ column canvas,
        Stage.next? margin ⟨.lineBreak indent :: .lay b indent :: stack, column, canvas⟩ =
          some ⟨.lay b indent :: stack, indent, canvas.breakLine indent⟩ := fun _ _ => rfl
    rw [hmoves, after_succ hnode, after_add (iha _ canvas), after_succ (hbreak _ _)]
    exact ihb stack _
  | @flat v flat broken indent column l hfits _ ih =>
    exact (after_succ (next?_choice hfits v broken indent stack canvas) _).trans (ih stack canvas)
  | @broken v flat broken indent column l hfits _ ih =>
    exact (after_succ (next?_choice hfits v broken indent stack canvas) _).trans (ih stack canvas)
  | @fullLine a indent column l _ ih =>
    have hnode : Stage.next? margin ⟨.lay (.fullLine a) indent :: stack, column, canvas⟩ =
        some ⟨.lay a indent :: stack, column, canvas⟩ := rfl
    exact (after_succ hnode _).trans (ih stack canvas)

/-- The canvas and the column that a layout comes to are those of the layout that is chosen. -/
theorem layOut_chooses {d : Doc α} {indent column : Int} {l : Layout}
    (h : d.Chooses margin indent column l) (canvas : Canvas) :
    d.layOut canvas indent column margin =
      (l.paint canvas indent column, .ok (l.endColumn indent column)) := by
  refine (outcome_after (s := d.firstStage canvas indent column) (after_chooses h [] canvas)).trans ?_
  rw [Stage.outcome, work_nil]

/-- The work on a document takes the moves of the layout that is chosen for it. -/
theorem endsAfter_chooses {d : Doc α} {indent column : Int} {l : Layout}
    (h : d.Chooses margin indent column l) (canvas : Canvas) :
    (d.firstStage canvas indent column).EndsAfter margin l.moves
      (d.layOut canvas indent column margin) :=
  endsAfter_outcome (after_chooses h [] canvas)

/-! ## A layout is chosen -/

/-- On a page whose width is a number it is known of every settled width whether there is room for
it. -/
theorem exists_admits {v : FlatWidth α} (hv : v.Settled) (hw : margin.width.Comparable) (column : Int) :
    ∃ fits, margin.admits column v = .ok fits := by
  cases h : margin.admits column v with
  | error e => exact absurd hw (not_comparable_of_admits hv h)
  | ok fits => exact ⟨fits, rfl⟩

theorem exists_chooses {d : Doc α} (hd : d.WellFormed) (hw : margin.width.Comparable)
    (indent column : Int) : ∃ l, d.Chooses margin indent column l := by
  induction d generalizing indent column with
  | text s => exact ⟨.text s, .text s indent column⟩
  | horzNode v a b iha ihb =>
    obtain ⟨la, ha⟩ := iha hd.2.1 indent column
    obtain ⟨lb, hb⟩ := ihb hd.2.2 (la.endColumn indent column) (la.endColumn indent column)
    exact ⟨.horz la lb, .horz ha hb⟩
  | concatNode v a b iha ihb =>
    obtain ⟨la, ha⟩ := iha hd.2.1 indent column
    obtain ⟨lb, hb⟩ := ihb hd.2.2 indent (la.endColumn indent column)
    exact ⟨.concat la lb, .concat ha hb⟩
  | vert a b iha ihb =>
    obtain ⟨la, ha⟩ := iha hd.1 indent column
    obtain ⟨lb, hb⟩ := ihb hd.2 indent indent
    exact ⟨.vert la lb, .vert ha hb⟩
  | choiceNode v flat broken ihf ihb =>
    obtain ⟨fits, hfits⟩ := exists_admits hd.2.1.settled hw column
    cases fits with
    | true =>
      obtain ⟨l, hl⟩ := ihf hd.2.1 indent column
      exact ⟨.choice l, .flat hfits hl⟩
    | false =>
      obtain ⟨l, hl⟩ := ihb hd.2.2 indent column
      exact ⟨.choice l, .broken hfits hl⟩
  | fullLine a ih =>
    obtain ⟨l, hl⟩ := ih hd indent column
    exact ⟨.fullLine l, .fullLine hl⟩
  | foreign x v => exact hd.elim

/-- No other layout is chosen. -/
theorem chooses_unique {d : Doc α} {indent column : Int} {l l' : Layout}
    (h : d.Chooses margin indent column l) (h' : d.Chooses margin indent column l') : l = l' := by
  induction h generalizing l' with
  | text s indent column =>
    cases h'
    rfl
  | horz _ _ iha ihb =>
    cases h' with
    | horz ha hb =>
      obtain rfl := iha ha
      rw [ihb hb]
  | concat _ _ iha ihb =>
    cases h' with
    | concat ha hb =>
      obtain rfl := iha ha
      rw [ihb hb]
  | vert _ _ iha ihb =>
    cases h' with
    | vert ha hb => rw [iha ha, ihb hb]
  | flat hfits _ ih =>
    cases h' with
    | flat _ hl => rw [ih hl]
    | broken hnot _ => nomatch Except.ok.inj (hfits.symm.trans hnot)
  | broken hfits _ ih =>
    cases h' with
    | flat hnot _ => nomatch Except.ok.inj (hfits.symm.trans hnot)
    | broken _ hl => rw [ih hl]
  | fullLine _ ih =>
    cases h' with
    | fullLine hl => rw [ih hl]

end Moves

/-! ## On pages -/

/-- On a page whose width is a number one layout is chosen for a well formed document, and laying the
document out takes as many moves as that layout counts: the stack is empty after them, and not before.
Nothing else of the document plays a part. Every tree for which the same layout is chosen, whatever stands
in the alternatives that are passed over, is worked off in as many moves, to the same canvas and the same
column. -/
theorem layOut_takes_moves {κ : Type} {d : Doc (Value κ)} (hd : d.WellFormed) {width : Value κ}
    (hw : (Width.ofValue width).Comparable) (canvas : Canvas) (indent column : Int) :
    ∃ l : Layout,
      (∀ l', d.Chooses (.ofValue width) indent column l' ↔ l' = l) ∧
      (d.firstStage canvas indent column).EndsAfter (.ofValue width) l.moves
        (d.layOut canvas indent column (.ofValue width)) ∧
      ∀ e : Doc (Value κ), e.Chooses (.ofValue width) indent column l →
        e.layOut canvas indent column (.ofValue width) =
          d.layOut canvas indent column (.ofValue width) ∧
        (e.firstStage canvas indent column).EndsAfter (.ofValue width) l.moves
          (e.layOut canvas indent column (.ofValue width)) := by
  have hmargin : (Margin.ofValue width).width.Comparable := hw
  obtain ⟨l, hl⟩ := exists_chooses hd hmargin indent column
  refine ⟨l, fun l' => ⟨fun hl' => chooses_unique hl' hl, ?_⟩, endsAfter_chooses hl canvas, ?_⟩
  · rintro rfl
    exact hl
  · intro e he
    refine ⟨?_, endsAfter_chooses he canvas⟩
    rw [layOut_chooses he, layOut_chooses hl]

/-- A choice that is broken in four columns, with one in it that is not. -/
def nestedChoices : Doc (Value Empty) :=
  .horz (.text "aa") (.choice (.text "bbb")
    (.vert (.text "b") (.choice (.text "cc") (.vert (.text "c") (.text "c")))))

/-- The same, but where an alternative is passed over there is no document. -/
def gappyChoices : Doc (Value Empty) :=
  .horz (.text "aa") (.choice (.foreign (.str "bbb") (.columns 3))
    (.vert (.text "b") (.choice (.text "cc") (.foreign .null .never))))

theorem layOut_takes_moves_nestedChoices :
    nestedChoices.WellFormed ∧ (Width.ofValue (.int 4 : Value Empty)).Comparable ∧
    (nestedChoices.firstStage .empty 0 0).EndsAfter (.page 4) 9
      (nestedChoices.layOut .empty 0 0 (.page 4)) ∧
    gappyChoices.layOut .empty 0 0 (.page 4) = nestedChoices.layOut .empty 0 0 (.page 4) ∧
    (gappyChoices.firstStage .empty 0 0).EndsAfter (.page 4) 9
      (gappyChoices.layOut .empty 0 0 (.page 4)) := by
  have unbroken : ∀ s ∈ ["aa", "bbb", "b", "cc", "c"], Text.Unbroken s := by decide
  have hd : nestedChoices.WellFormed :=
    ⟨rfl, unbroken "aa" (by simp), rfl, unbroken "bbb" (by simp), unbroken "b" (by simp), rfl,
      unbroken "cc" (by simp), unbroken "c" (by simp), unbroken "c" (by simp)⟩
  have hw : (Width.ofValue (.int 4 : Value Empty)).Comparable := trivial
  obtain ⟨l, hchosen, hends, hall⟩ := layOut_takes_moves hd hw .empty 0 0
  have hl : Layout.horz (.text "aa") (.choice (.vert (.text "b") (.choice (.text "cc")))) = l :=
    (hchosen _).mp (.horz (.text ..) (.broken rfl (.vert (.text ..) (.flat rfl (.text ..)))))
  subst hl
  obtain ⟨hsame, hgappy⟩ := hall gappyChoices
    (.horz (.text ..) (.broken rfl (.vert (.text ..) (.flat rfl (.text ..)))))
  exact ⟨hd, hw, hends, hsame, hgappy⟩

end DocLayout
