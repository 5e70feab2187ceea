import DocLayout.Proofs.Appending
import DocLayout.Proofs.Safety

/-
  Documents that go on where the one before ends.

  A flow is made of documents and of line breaks. A document hangs at the column where the cursor is
  when its turn comes, and a line break goes back to the start of a line. Documents side by side are a
  flow without a line break, and documents on top of each other one with a line break between two of
  them. A flow does not know how its documents were joined, so what is joined in one way and what is
  joined in another can be compared as flows.

  Two flows are alike if they have the same effect on every canvas. Pieces of flows can be replaced by
  pieces that are alike (`FlowsAlike.append`).

  Proved:
  * `alike_horzList`, `descend_vertList`: sequences of documents as flows.
  * `alike_text`: a text is the flow of its characters.
  * `lines_flow`, by induction on the flow: the lines of a flow are the lines of its rows.
-/

namespace DocLayout

variable {α : Type}

/-- What a flow makes of a canvas, and the column that it ends in. A line break is no document. -/
def flow (margin : Margin α) : List (Option (Doc α)) → Canvas → Int → Outcome α
  | [], canvas, column => (canvas, .ok column)
  | none :: rest, canvas, _ => flow margin rest (canvas.breakLine 0) 0
  | some d :: rest, canvas, column =>
    Outcome.andThen (d.descend margin canvas column column) (flow margin rest)

variable {margin : Margin α} {xs xs' ys ys' : List (Option (Doc α))}

theorem flow_append (canvas : Canvas) (column : Int) :
    flow margin (xs ++ ys) canvas column =
      Outcome.andThen (flow margin xs canvas column) (flow margin ys) := by
  induction xs generalizing canvas column with
  | nil => rfl
  | cons x xs ih =>
    cases x with
    | none => exact ih (canvas.breakLine 0) 0
    | some d =>
      rw [List.cons_append, flow, flow, andThen_assoc]
      exact andThen_congr _ ih

theorem flow_singleton (d : Doc α) (canvas : Canvas) (column : Int) :
    flow margin [some d] canvas column = d.descend margin canvas column column := by
  rw [flow]
  exact andThen_ok _

/-! ## Flows that are alike -/

/-- Flows with the same effect in every margin. -/
def FlowsAlike (xs ys : List (Option (Doc α))) : Prop := ∀ margin, flow margin xs = flow margin ys

namespace FlowsAlike

theorem refl (xs : List (Option (Doc α))) : FlowsAlike xs xs := fun _ => rfl

theorem trans {zs : List (Option (Doc α))} (h : FlowsAlike xs ys) (h' : FlowsAlike ys zs) :
    FlowsAlike xs zs := fun margin => (h margin).trans (h' margin)

theorem append (h : FlowsAlike xs xs') (h' : FlowsAlike ys ys') :
    FlowsAlike (xs ++ ys) (xs' ++ ys') := by
  intro margin
  funext canvas column
  rw [flow_append, flow_append, h margin, h' margin]

theorem cons (x : Option (Doc α)) (h : FlowsAlike xs ys) : FlowsAlike (x :: xs) (x :: ys) :=
  append (refl [x]) h

theorem flatMap {β : Type} {f g : β → List (Option (Doc α))} {items : List β}
    (h : ∀ x ∈ items, FlowsAlike (f x) (g x)) : FlowsAlike (items.flatMap f) (items.flatMap g) := by
  induction items with
  | nil => exact refl []
  | cons x items ih =>
    rw [List.forall_mem_cons] at h
    rw [List.flatMap_cons, List.flatMap_cons]
    exact append h.1 (ih h.2)

end FlowsAlike

/-- An empty text has no effect. -/
theorem alike_nil : FlowsAlike [some (.nil : Doc α)] [] := by
  intro margin
  funext canvas column
  rw [flow_singleton, descend_nil]
  rfl

theorem alike_horz (a b : Doc α) : FlowsAlike [some (.horz a b)] [some a, some b] := by
  intro margin
  funext canvas column
  rw [flow_singleton, Doc.horz, Doc.descend, flow]
  exact andThen_congr _ fun canvas column => (flow_singleton b canvas column).symm

theorem alike_foldl_horz (d : Doc α) (ds : List (Doc α)) :
    FlowsAlike [some (ds.foldl .horz d)] (some d :: ds.map some) := by
  induction ds generalizing d with
  | nil => exact .refl _
  | cons e ds ih => exact (ih (.horz d e)).trans (.append (alike_horz d e) (.refl _))

/-- Documents side by side are a flow without a line break. -/
theorem alike_horzList (ds : List (Doc α)) : FlowsAlike [some (.horzList ds)] (ds.map some) := by
  cases ds with
  | nil => exact alike_nil
  | cons d ds => exact alike_foldl_horz d ds

theorem descend_foldl_vert (d : Doc α) (ds : List (Doc α)) (canvas : Canvas) :
    (ds.foldl .vert d).descend margin canvas 0 0 =
      flow margin (some d :: ds.flatMap fun e => [none, some e]) canvas 0 := by
  induction ds generalizing d with
  | nil => exact (flow_singleton d canvas 0).symm
  | cons e ds ih =>
    rw [List.foldl_cons, ih, flow, Doc.descend, andThen_assoc]
    rfl

theorem flatMap_breaks (d last : Doc α) (ds : List (Doc α)) :
    some d :: (ds ++ [last]).flatMap (fun e => [none, some e]) =
      (d :: ds).flatMap (fun d => [some d, none]) ++ [some last] := by
  induction ds generalizing d with
  | nil => rfl
  | cons e ds ih =>
    rw [List.flatMap_cons, List.append_assoc, ← ih e]
    rfl

/-- Documents on top of each other are a flow with a line break between two of them. -/
theorem descend_vertList (ds : List (Doc α)) (last : Doc α) (canvas : Canvas) :
    (Doc.vertList (ds ++ [last])).descend margin canvas 0 0 =
      flow margin (ds.flatMap (fun d => [some d, none]) ++ [some last]) canvas 0 := by
  cases ds with
  | nil => exact (flow_singleton last canvas 0).symm
  | cons d ds => exact (descend_foldl_vert d (ds ++ [last]) canvas).trans (by rw [flatMap_breaks])

theorem flow_chars (margin : Margin α) (cs : List Char) (canvas : Canvas) (column : Int) :
    flow margin (cs.map fun c => some (.text c.toString)) canvas column =
      (canvas.write (String.ofList cs), .ok (column + cs.length)) := by
  induction cs generalizing canvas column with
  | nil =>
    show (canvas, Except.ok column) = (canvas.write "", Except.ok (column + (0 : Nat)))
    rw [Canvas.write, String.append_empty, Int.natCast_zero, Int.add_zero]
  | cons c cs ih =>
    rw [List.map_cons, flow, Doc.descend, Outcome.andThen, ih, Canvas.write, Canvas.write,
      Canvas.write, String.append_assoc]
    have htext : c.toString ++ String.ofList cs = String.ofList (c :: cs) := by
      rw [← String.toList_inj, Char.toString_eq_singleton, String.toList_append,
        String.toList_singleton, String.toList_ofList, String.toList_ofList, List.singleton_append]
    have hcolumn : column + (c.toString.length : Int) + (cs.length : Int) =
        column + ((c :: cs).length : Int) := by
      rw [Char.toString_eq_singleton, String.length_singleton, List.length_cons]
      omega
    rw [htext, hcolumn]

/-- A text is the flow of its characters. -/
theorem alike_text (s : String) :
    FlowsAlike [some (.text s : Doc α)] (s.toList.map fun c => some (.text c.toString)) := by
  intro margin
  funext canvas column
  rw [flow_singleton, Doc.descend, flow_chars, String.ofList_toList, String.length_toList]

/-! ## Rows -/

/-- What stands between the line breaks of a flow, row by row. -/
def rowsOf {β : Type} : List (Option β) → List (List β)
  | [] => [[]]
  | none :: rest => [] :: rowsOf rest
  | some x :: rest => match rowsOf rest with
    | [] => [[x]]
    | row :: rows => (x :: row) :: rows

theorem exists_rowsOf_eq_cons {β : Type} (xs : List (Option β)) :
    ∃ row rows, rowsOf xs = row :: rows := by
  induction xs with
  | nil => exact ⟨[], [], rfl⟩
  | cons x xs ih =>
    obtain ⟨row, rows, h⟩ := ih
    cases x with
    | none => exact ⟨[], rowsOf xs, rfl⟩
    | some x => exact ⟨x :: row, rows, by rw [rowsOf, h]⟩

theorem rowsOf_cons {β : Type} {xs : List (Option β)} {row : List β} {rows : List (List β)}
    (h : rowsOf xs = row :: rows) (x : β) : rowsOf (some x :: xs) = (x :: row) :: rows := by
  rw [rowsOf, h]

theorem rowsOf_map {β γ : Type} (f : β → γ) (xs : List (Option β)) :
    rowsOf (xs.map (Option.map f)) = (rowsOf xs).map (List.map f) := by
  induction xs with
  | nil => rfl
  | cons x xs ih =>
    cases x with
    | none => exact congrArg ([] :: ·) ih
    | some x =>
      obtain ⟨row, rows, h⟩ := exists_rowsOf_eq_cons xs
      rw [rowsOf_cons h]
      rw [h] at ih
      exact rowsOf_cons ih (f x)

/-- The rows with line breaks between them, the first one in front. -/
theorem eq_of_rowsOf_eq_cons {β : Type} {xs : List (Option β)} {row : List β} {rows : List (List β)}
    (h : rowsOf xs = row :: rows) :
    xs = row.map some ++ rows.flatMap fun row => none :: row.map some := by
  induction xs generalizing row rows with
  | nil =>
    cases h
    rfl
  | cons x xs ih =>
    obtain ⟨first, others, hrest⟩ := exists_rowsOf_eq_cons xs
    cases x with
    | none =>
      cases h
      rw [hrest, List.map_nil, List.nil_append, List.flatMap_cons, List.cons_append, ← ih hrest]
    | some x =>
      rw [rowsOf_cons hrest] at h
      cases h
      rw [List.map_cons, List.cons_append, ← ih hrest]

theorem mem_of_mem_rowsOf {β : Type} {xs : List (Option β)} {row : List β} (hrow : row ∈ rowsOf xs)
    {x : β} (hx : x ∈ row) : some x ∈ xs := by
  induction xs generalizing row with
  | nil =>
    rw [List.mem_singleton.mp hrow] at hx
    contradiction
  | cons y xs ih =>
    cases y with
    | none =>
      rcases List.mem_cons.mp hrow with rfl | hrow
      · contradiction
      · exact List.mem_cons_of_mem _ (ih hrow hx)
    | some y =>
      obtain ⟨first, rows, h⟩ := exists_rowsOf_eq_cons xs
      rw [rowsOf_cons h] at hrow
      rw [h] at ih
      rcases List.mem_cons.mp hrow with rfl | hrow
      · rcases List.mem_cons.mp hx with rfl | hx
        · exact List.mem_cons_self
        · exact List.mem_cons_of_mem _ (ih List.mem_cons_self hx)
      · exact List.mem_cons_of_mem _ (ih (List.mem_cons_of_mem _ hrow) hx)

/-! ## The lines of a flow -/

theorem andThen_behind {c canvas : Canvas} {result : Except (Obstacle α) Int}
    {next : Canvas → Int → Outcome α}
    (hnext : ∀ canvas column, next (c.append canvas) column =
      (c.append (next canvas column).1, (next canvas column).2)) :
    Outcome.andThen (c.append canvas, result) next =
      (c.append (Outcome.andThen (canvas, result) next).1,
        (Outcome.andThen (canvas, result) next).2) := by
  cases result with
  | error obstacle => rfl
  | ok column => exact hnext canvas column

theorem flow_behind (xs : List (Option (Doc α))) (c canvas : Canvas) (column : Int) :
    flow margin xs (c.append canvas) column =
      (c.append (flow margin xs canvas column).1, (flow margin xs canvas column).2) := by
  induction xs generalizing canvas column with
  | nil => rfl
  | cons x xs ih =>
    cases x with
    | none =>
      rw [flow, flow, ← Canvas.append_breakLine]
      exact ih (canvas.breakLine 0) 0
    | some d =>
      rw [flow, flow, descend_behind]
      exact andThen_behind ih

/-- On a page whose width is a number a flow of well formed documents comes to its end. -/
theorem exists_flow (hxs : ∀ d, some d ∈ xs → d.WellFormed) (hw : margin.width.Comparable)
    (canvas : Canvas) (column : Int) :
    ∃ after reached, flow margin xs canvas column = (after, .ok reached) := by
  induction xs generalizing canvas column with
  | nil => exact ⟨canvas, column, rfl⟩
  | cons x xs ih =>
    have hrest := ih fun d hd => hxs d (List.mem_cons_of_mem _ hd)
    cases x with
    | none => exact hrest (canvas.breakLine 0) 0
    | some d =>
      obtain ⟨reached, h⟩ :
          ∃ reached, (d.layOut canvas column column margin).2 = .ok reached :=
        exists_layOut (hxs d List.mem_cons_self) hw
      rw [layOut_descend] at h
      rw [flow, Outcome.andThen.eq_def]
      split
      · exact hrest _ _
      · rename_i heq
        rw [heq] at h
        contradiction

/-- The lines behind a line break are the lines of the flow that begins there. -/
theorem lines_flow_none (canvas : Canvas) (column : Int) :
    (flow margin (none :: xs) canvas column).1.lines =
      canvas.lines ++ (flow margin xs .empty 0).1.lines := by
  rw [flow, ← Canvas.append_empty (canvas.breakLine 0), flow_behind,
    Canvas.lines_breakLine_append]

/-- The documents in front are those of the first row that are done. -/
theorem lines_flow_begun (hw : margin.width.Comparable) {before : List (Doc α)}
    (hbefore : ∀ d ∈ before, d.WellFormed) (hxs : ∀ d, some d ∈ xs → d.WellFormed)
    {row : List (Doc α)} {rows : List (List (Doc α))} (hrows : rowsOf xs = row :: rows) :
    (flow margin (before.map some ++ xs) .empty 0).1.lines =
      ((before ++ row) :: rows).flatMap fun row =>
        (flow margin (row.map some) .empty 0).1.lines := by
  induction xs generalizing before row rows with
  | nil =>
    cases hrows
    rw [List.append_nil, List.append_nil, List.flatMap_singleton]
  | cons x xs ih =>
    have hrest : ∀ d, some d ∈ xs → d.WellFormed := fun d hd => hxs d (List.mem_cons_of_mem _ hd)
    obtain ⟨first, others, hfirst⟩ := exists_rowsOf_eq_cons xs
    cases x with
    | some d =>
      rw [rowsOf_cons hfirst] at hrows
      cases hrows
      have hfront : ∀ e ∈ before ++ [d], e.WellFormed :=
        List.forall_mem_append.mpr ⟨hbefore, List.forall_mem_singleton.mpr
          (hxs d List.mem_cons_self)⟩
      have hnext := ih hfront hrest hfirst
      rw [List.map_append, List.append_assoc, List.append_assoc] at hnext
      exact hnext
    | none =>
      cases hrows
      have hdone : ∀ d, some d ∈ before.map some → d.WellFormed := by
        intro d hd
        obtain ⟨e, he, hed⟩ := List.mem_map.mp hd
        exact Option.some.inj hed ▸ hbefore e he
      obtain ⟨after, reached, hflow⟩ := exists_flow hdone hw .empty 0
      have hnext := ih (List.forall_mem_nil _) hrest hfirst
      rw [flow_append, hflow, Outcome.andThen, lines_flow_none, List.flatMap_cons, List.append_nil,
        hflow, hfirst]
      exact congrArg (after.lines ++ ·) hnext

/-- The lines of a flow are the lines of its rows, one row after the other. -/
theorem lines_flow (hxs : ∀ d, some d ∈ xs → d.WellFormed) (hw : margin.width.Comparable) :
    (flow margin xs .empty 0).1.lines =
      (rowsOf xs).flatMap fun row => (flow margin (row.map some) .empty 0).1.lines := by
  obtain ⟨row, rows, hrows⟩ := exists_rowsOf_eq_cons xs
  rw [hrows]
  exact lines_flow_begun hw (List.forall_mem_nil _) hxs hrows

end DocLayout
