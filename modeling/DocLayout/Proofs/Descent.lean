import DocLayout.Build

/-
  The stack of tasks against the descent.

  `work` takes tasks off a stack and threads a single column through all of them; `Doc.descend`
  is the recursion on the document that it stands for, and says what each kind of node does to the
  canvas and to the column in terms of its children. `work_lay` joins the two under an arbitrary
  rest of the stack: a document on top of the stack has the effect of its descent, and the rest of
  the work starts from there, unless the descent ran into an obstacle. It holds of every tree,
  foreign leaves and claimed widths included, since both sides stop at the same place.

  Proved:
  * `work_lay`: the statement about the stack, by induction on the document.
  * `layOut_descend`: a whole layout is a descent, whatever the margin.
  * `layOut_eq_descend`: on a page of `w` columns, with what a choice asks spelled out.
-/

namespace DocLayout

section Stack

variable {α : Type}

/-! ## The descent -/

/-- The layout that follows another one, unless that one stopped. -/
def Outcome.andThen (o : Outcome α) (next : Canvas → Int → Outcome α) : Outcome α :=
  match o with
  | (canvas, .ok column) => next canvas column
  | (canvas, .error obstacle) => (canvas, .error obstacle)

/-- The layout of a document by recursion on it. -/
def Doc.descend (margin : Margin α) : Doc α → Canvas → Int → Int → Outcome α
  | .text s, canvas, _, column => (canvas.write s, .ok (column + s.length))
  | .horzNode _ a b, canvas, indent, column =>
    Outcome.andThen (a.descend margin canvas indent column) fun canvas column =>
      b.descend margin canvas column column
  | .concatNode _ a b, canvas, indent, column =>
    Outcome.andThen (a.descend margin canvas indent column) fun canvas column =>
      b.descend margin canvas indent column
  | .vert a b, canvas, indent, column =>
    Outcome.andThen (a.descend margin canvas indent column) fun canvas _ =>
      b.descend margin (canvas.breakLine indent) indent indent
  | .choiceNode _ flat broken, canvas, indent, column =>
    match margin.admits column flat.flatWidth with
    | .ok true => flat.descend margin canvas indent column
    | .ok false => broken.descend margin canvas indent column
    | .error e => (canvas, .error (.operand e))
  | .fullLine a, canvas, indent, column => a.descend margin canvas indent column
  | .foreign x _, canvas, _, _ => (canvas, .error (.foreign x))

/-! ## The stack -/

/-- What is done after two layouts in a row is done after the second of them. -/
theorem andThen_assoc (o : Outcome α) (f g : Canvas → Int → Outcome α) :
    Outcome.andThen (Outcome.andThen o f) g =
      Outcome.andThen o fun canvas column => Outcome.andThen (f canvas column) g := by
  obtain ⟨canvas, obstacle | column⟩ := o <;> rfl

theorem andThen_ok (o : Outcome α) :
    Outcome.andThen o (fun canvas column => (canvas, .ok column)) = o := by
  obtain ⟨canvas, obstacle | column⟩ := o <;> rfl

/-- What follows an outcome counts only where it goes on from. -/
theorem andThen_congr (o : Outcome α) {f g : Canvas → Int → Outcome α}
    (h : ∀ canvas column, f canvas column = g canvas column) :
    Outcome.andThen o f = Outcome.andThen o g := by
  obtain ⟨canvas, obstacle | column⟩ := o
  · rfl
  · exact h canvas column

/-- An empty text has no effect. -/
theorem descend_nil (margin : Margin α) (canvas : Canvas) (indent column : Int) :
    Doc.nil.descend margin canvas indent column = (canvas, .ok column) := by
  rw [Doc.nil, Doc.descend, Canvas.write, String.append_empty, String.length_empty]
  show (canvas, Except.ok (column + 0)) = (canvas, Except.ok column)
  rw [Int.add_zero]

/-- An `align` task lays its document out at the column of the cursor. -/
theorem work_align (margin : Margin α) (d : Doc α) (stack : List (Task α)) (column : Int)
    (canvas : Canvas) :
    work margin (.align d :: stack) column canvas =
      work margin (.lay d column :: stack) column canvas := by
  rw [work_cons]
  rfl

/-- A `lineBreak` task moves the cursor to its indentation on a new line. -/
theorem work_lineBreak (margin : Margin α) (indent : Int) (stack : List (Task α)) (column : Int)
    (canvas : Canvas) :
    work margin (.lineBreak indent :: stack) column canvas =
      work margin stack indent (canvas.breakLine indent) := by
  rw [work_cons]
  rfl

/-- A document on top of the stack has the effect of its descent, and the rest of the stack is
worked off from where that ends. -/
theorem work_lay (margin : Margin α) (d : Doc α) (indent : Int) (stack : List (Task α))
    (column : Int) (canvas : Canvas) :
    work margin (.lay d indent :: stack) column canvas =
      Outcome.andThen (d.descend margin canvas indent column) fun canvas column =>
        work margin stack column canvas := by
  -- the stack is arbitrary, so the second child of a node is met with the tasks that wait below it
  induction d generalizing indent stack column canvas with
  | text s =>
    rw [work_cons]
    rfl
  | horzNode width a b iha ihb =>
    rw [work_cons, Doc.descend, andThen_assoc]
    refine (iha indent (.align b :: stack) column canvas).trans ?_
    refine andThen_congr _ fun canvas column => ?_
    rw [work_align, ihb]
  | concatNode width a b iha ihb =>
    rw [work_cons, Doc.descend, andThen_assoc]
    refine (iha indent (.lay b indent :: stack) column canvas).trans ?_
    refine andThen_congr _ fun canvas column => ?_
    rw [ihb]
  | vert a b iha ihb =>
    rw [work_cons, Doc.descend, andThen_assoc]
    refine (iha indent (.lineBreak indent :: .lay b indent :: stack) column canvas).trans ?_
    refine andThen_congr _ fun canvas column => ?_
    rw [work_lineBreak, ihb]
  | choiceNode width flat broken ihf ihb =>
    rw [work_cons, Doc.descend]
    simp only [Task.move]
    cases margin.admits column flat.flatWidth with
    | error e => rfl
    | ok fits =>
      cases fits with
      | true => exact ihf indent stack column canvas
      | false => exact ihb indent stack column canvas
  | fullLine a ih =>
    rw [work_cons, Doc.descend]
    exact ih indent stack column canvas
  | foreign x width =>
    rw [work_cons]
    rfl

/-- The layout of a document is its descent: the same canvas, and the same column or the same
obstacle. -/
theorem layOut_descend (margin : Margin α) (d : Doc α) (canvas : Canvas) (indent column : Int) :
    d.layOut canvas indent column margin = d.descend margin canvas indent column := by
  rw [Doc.layOut, work_lay]
  simp only [work_nil]
  exact andThen_ok _

end Stack

section Page

variable {κ : Type}

/-- The margin of a page that is `w` columns wide. -/
abbrev Margin.page (w : Int) : Margin (Value κ) := Margin.ofValue (.int w)

/-- On a page of `w` columns a flat width of `n` columns has room behind `column` if it ends within
the page. -/
theorem page_admits_columns (w column : Int) (n : Nat) :
    (Margin.page (κ := κ) w).admits column (.columns n) = .ok (decide (column + n ≤ w)) := rfl

/-- Laying out with a stack is laying out by recursion on the document, for every document tree,
canvas, indentation, column and page width. What a choice does is said by the flat width of its
first alternative: one that cannot stand on a line is passed over, one of `n` columns is taken if
`column + n ≤ w`, and for one that was only claimed the page is asked. -/
theorem layOut_eq_descend (canvas : Canvas) (indent column w : Int) :
    (∀ d : Doc (Value κ), d.layOut canvas indent column (.page w) =
      d.descend (.page w) canvas indent column) ∧
    ∀ (width : FlatWidth (Value κ)) (flat broken : Doc (Value κ)),
      (Doc.choiceNode width flat broken).layOut canvas indent column (.page w) =
        match flat.flatWidth with
        | .never => broken.layOut canvas indent column (.page w)
        | .columns n =>
          if column + n ≤ w then flat.layOut canvas indent column (.page w)
          else broken.layOut canvas indent column (.page w)
        | .claimed x =>
          match (Margin.page w).admitsClaim column x with
          | .ok true => flat.layOut canvas indent column (.page w)
          | .ok false => broken.layOut canvas indent column (.page w)
          | .error e => (canvas, .error (.operand e)) := by
  constructor
  · intro d
    exact layOut_descend _ d canvas indent column
  · intro width flat broken
    simp only [layOut_descend]
    rw [Doc.descend]
    cases flat.flatWidth with
    | never => rfl
    | claimed x => rfl
    | columns n =>
      rw [page_admits_columns]
      by_cases h : column + n ≤ w
      · simp only [h, decide_true, if_true]
      · simp only [h, decide_false, if_false]

end Page

end DocLayout
