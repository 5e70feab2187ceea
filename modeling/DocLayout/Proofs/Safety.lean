import DocLayout.Proofs.Writing

/-
  What cannot happen while a well formed document is laid out.

  A well formed task lays out a well formed document, or none. Its move leaves well formed tasks
  behind (`move_wellFormed`), and the one thing that can keep it from moving is a page width that no
  column can be compared with (`move_error`). Both pass from a single move to the work on a whole stack
  of tasks.

  Proved, for every margin, canvas, indentation and column:
  * `layOut_error`: no foreign leaf is met.
  * `exists_layOut`: on a page whose width is a number the layout returns a column.
  * `display_unbroken`: no line of what is displayed holds a boundary.
-/

namespace DocLayout

variable {α : Type}

/-! ## Lines without a boundary -/

theorem writable_unbroken : Writable Text.Unbroken := writable_of_chars (by decide)

theorem unbroken_texts {d : Doc α} (h : d.WellFormed) : ∀ s ∈ d.texts, Text.Unbroken s := by
  induction d with
  | text s => exact List.forall_mem_singleton.mpr h
  | horzNode v a b iha ihb | concatNode v a b iha ihb | choiceNode v a b iha ihb =>
    exact List.forall_mem_append.mpr ⟨iha h.2.1, ihb h.2.2⟩
  | vert a b iha ihb => exact List.forall_mem_append.mpr ⟨iha h.1, ihb h.2⟩
  | fullLine a ih => exact ih h
  | foreign x v => exact h.elim

/-! ## One move -/

/-- A task that lays out a well formed document, or none. -/
def Task.WellFormed : Task α → Prop
  | .lay d _ | .align d => d.WellFormed
  | .lineBreak _ => True

/-- A width that columns can be compared with. -/
def Width.Comparable : Width → Prop
  | .incomparable _ => False
  | _ => True

variable {margin : Margin α} {column : Int}

/-- Only the width of the page can stand in the way of a decision about a settled width. -/
theorem not_comparable_of_admits {v : FlatWidth α} (hv : v.Settled) {e : OperandError}
    (h : margin.admits column v = .error e) : ¬ margin.width.Comparable := by
  intro hw
  cases v with
  | never => contradiction
  | claimed x => exact hv.elim
  | columns n =>
    rw [Margin.admits] at h
    cases hwidth : margin.width with
    | incomparable typeName =>
      rw [hwidth] at hw
      exact hw
    | columns _ | unbounded | empty =>
      rw [hwidth] at h
      contradiction

/-- The move of a well formed task leaves well formed tasks behind. -/
theorem move_wellFormed {t : Task α} (ht : t.WellFormed) {m : Move α}
    (h : t.move margin column = .ok m) : ∀ u ∈ m.tasks, u.WellFormed := by
  cases t with
  | align b =>
    cases h
    exact List.forall_mem_singleton.mpr ht
  | lineBreak indent =>
    cases h
    exact List.forall_mem_nil _
  | lay d indent =>
    cases d with
    | text s =>
      cases h
      exact List.forall_mem_nil _
    | horzNode v a b =>
      cases h
      simp only [List.forall_mem_cons]
      exact ⟨ht.2.1, ht.2.2, List.forall_mem_nil _⟩
    | concatNode v a b =>
      cases h
      simp only [List.forall_mem_cons]
      exact ⟨ht.2.1, ht.2.2, List.forall_mem_nil _⟩
    | vert a b =>
      cases h
      simp only [List.forall_mem_cons]
      exact ⟨ht.1, trivial, ht.2, List.forall_mem_nil _⟩
    | choiceNode v flat broken =>
      rw [Task.move] at h
      split at h
      · cases h
        exact List.forall_mem_singleton.mpr ht.2.1
      · cases h
        exact List.forall_mem_singleton.mpr ht.2.2
      · contradiction
    | fullLine a =>
      cases h
      exact List.forall_mem_singleton.mpr ht
    | foreign x v => contradiction

/-- A well formed task moves, unless the page width is no number. -/
theorem move_error {t : Task α} (ht : t.WellFormed) {o : Obstacle α}
    (h : t.move margin column = .error o) :
    (∃ e, o = .operand e) ∧ ¬ margin.width.Comparable := by
  cases t with
  | align b => contradiction
  | lineBreak indent => contradiction
  | lay d indent =>
    cases d with
    | choiceNode v flat broken =>
      rw [Task.move] at h
      split at h
      · contradiction
      · contradiction
      · rename_i e he
        injection h with h
        exact ⟨⟨e, h.symm⟩, not_comparable_of_admits ht.2.1.settled he⟩
    | foreign x v => exact ht.elim
    | text _ | horzNode _ _ _ | concatNode _ _ _ | vert _ _ | fullLine _ => contradiction

/-! ## The whole work -/

variable {stack : List (Task α)} {canvas : Canvas}

theorem wellFormed_rest {t : Task α} (hs : ∀ u ∈ t :: stack, u.WellFormed) {m : Move α}
    (h : t.move margin column = .ok m) : ∀ u ∈ m.tasks ++ stack, u.WellFormed := by
  obtain ⟨ht, hrest⟩ := List.forall_mem_cons.mp hs
  exact List.forall_mem_append.mpr ⟨move_wellFormed ht h, hrest⟩

/-- Work on well formed tasks is done to the end, unless the page width is no number. -/
theorem work_error (hs : ∀ t ∈ stack, t.WellFormed) {o : Obstacle α}
    (h : (work margin stack column canvas).2 = .error o) :
    (∃ e, o = .operand e) ∧ ¬ margin.width.Comparable := by
  induction stack, column, canvas using work.induct margin with
  | case1 column canvas =>
    rw [work_nil] at h
    contradiction
  | case2 task stack column canvas obstacle hmove =>
    rw [work_cons, hmove] at h
    injection h with h
    exact h ▸ move_error (hs task List.mem_cons_self) hmove
  | case3 task stack column canvas m hmove _ ih =>
    rw [work_cons, hmove] at h
    exact ih (wellFormed_rest hs hmove) h

/-! ## Layouts -/

variable {d : Doc α} {indent : Int}

/-- The layout of a well formed document meets no foreign leaf, and nothing else that stops it unless
the page width is no number. -/
theorem layOut_error (hd : d.WellFormed) {o : Obstacle α}
    (h : (d.layOut canvas indent column margin).2 = .error o) :
    (∃ e, o = .operand e) ∧ ¬ margin.width.Comparable := by
  have hs : ∀ t ∈ [Task.lay d indent], t.WellFormed := List.forall_mem_singleton.mpr hd
  exact work_error hs h

/-- On a page whose width is a number the layout of a well formed document returns a column. -/
theorem exists_layOut (hd : d.WellFormed) (hw : margin.width.Comparable) :
    ∃ reached, (d.layOut canvas indent column margin).2 = .ok reached := by
  cases h : (d.layOut canvas indent column margin).2 with
  | error o => exact absurd hw (layOut_error hd h).2
  | ok reached => exact ⟨reached, rfl⟩

/-! ## Displays -/

/-- The lines that a document is displayed as are those of the canvas that its layout leaves. -/
theorem lines_of_display {lines : List String} (h : d.display margin = .ok lines) :
    lines = (d.layOut Canvas.empty 0 0 margin).1.lines := by
  rw [Doc.display] at h
  cases hl : (d.layOut Canvas.empty 0 0 margin).2 with
  | error o => simp [hl, Except.map] at h
  | ok reached =>
    simp only [hl, Except.map, Except.ok.injEq] at h
    exact h.symm

theorem display_ne_nil {lines : List String} (h : d.display margin = .ok lines) : lines ≠ [] :=
  lines_of_display h ▸ Canvas.lines_ne_nil _

/-- What every text of a document has that is displayed, every line of it has. -/
theorem display_allLines {p : String → Prop} (hp : Writable p) (hd : ∀ s ∈ d.texts, p s)
    {lines : List String} (h : d.display margin = .ok lines) : ∀ line ∈ lines, p line :=
  lines_of_display h ▸ layOut_allLines hp hd (allLines_empty hp) 0 0

/-- What a well formed document is displayed as holds no boundary. -/
theorem display_unbroken (hd : d.WellFormed) {lines : List String}
    (h : d.display margin = .ok lines) : ∀ line ∈ lines, Text.Unbroken line :=
  display_allLines writable_unbroken (unbroken_texts hd) h

/-- On a page whose width is a number a well formed document is displayed. -/
theorem exists_display (hd : d.WellFormed) (hw : margin.width.Comparable) :
    ∃ lines, d.display margin = .ok lines := by
  obtain ⟨reached, hr⟩ : ∃ reached, (d.layOut Canvas.empty 0 0 margin).2 = .ok reached :=
    exists_layOut hd hw
  refine ⟨(d.layOut Canvas.empty 0 0 margin).1.lines, ?_⟩
  rw [Doc.display]
  simp only [hr]
  rfl

end DocLayout
