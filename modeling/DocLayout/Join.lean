import DocLayout.Doc.Compose
import DocLayout.Failure

/-
  Documents joined to one, with their widths.

  A document that was put together by hand can claim any value for its flat width. The widths of
  two documents side by side are added as values then, and those of two alternatives compared, and
  a join fails where that does. Documents that make no claim are joined as `Doc.horz`,
  `Doc.concat` and `Doc.choice` say, without fail.
-/

namespace DocLayout.Join

variable {κ : Type}

/-- The width of two things on one line, if both can stand there. -/
def addWidths : FlatWidth (Value κ) → FlatWidth (Value κ) →
    Except OperandError (FlatWidth (Value κ))
  | .never, _ | _, .never => .ok .never
  | .columns m, .columns n => .ok (.columns (m + n))
  | v, w => return (← (Value.ofFlatWidth v).add (.ofFlatWidth w)).toFlatWidth

/-- The narrower of two widths, or the one that there is. Of two that are equal it is the first. -/
def narrowerWidth : FlatWidth (Value κ) → FlatWidth (Value κ) →
    Except OperandError (FlatWidth (Value κ))
  | .never, w => .ok w
  | v, .never => .ok v
  | .columns m, .columns n => .ok (.columns (min m n))
  | v, w => return if ← (Value.ofFlatWidth w).lessThan (.ofFlatWidth v) then w else v

/-- Two documents side by side, the second one hanging at the column where the first ends. -/
def horz (first second : Doc (Value κ)) : Except Failure (Doc (Value κ)) :=
  match addWidths first.flatWidth second.flatWidth with
  | .ok width => .ok (.horzNode width first second)
  | .error e => .error (.operand e)

/-- Two documents one after the other at the same indentation. -/
def concat (first second : Doc (Value κ)) : Except Failure (Doc (Value κ)) :=
  match addWidths first.flatWidth second.flatWidth with
  | .ok width => .ok (.concatNode width first second)
  | .error e => .error (.operand e)

/-- A choice between two layouts. -/
def choice (flat broken : Doc (Value κ)) : Except Failure (Doc (Value κ)) :=
  match narrowerWidth flat.flatWidth broken.flatWidth with
  | .ok width => .ok (.choiceNode width flat broken)
  | .error e => .error (.operand e)

/-- The documents of a list joined from the left. -/
def joined (join : Doc (Value κ) → Doc (Value κ) → Except Failure (Doc (Value κ))) :
    List (Doc (Value κ)) → Except Failure (Doc (Value κ))
  | [] => .ok .nil
  | d :: ds => ds.foldlM join d

/-- Documents side by side. -/
def horzList (docs : List (Doc (Value κ))) : Except Failure (Doc (Value κ)) := joined horz docs

/-- Documents one after the other. -/
def concatList (docs : List (Doc (Value κ))) : Except Failure (Doc (Value κ)) :=
  joined concat docs

/-- A document between parentheses. -/
def parens (d : Doc (Value κ)) : Except Failure (Doc (Value κ)) :=
  horzList [.text "(", d, .text ")"]

theorem addWidths_settled {v w : FlatWidth (Value κ)} (hv : v.Settled) (hw : w.Settled) :
    addWidths v w = .ok (v.add w) :=
  match v, w, hv, hw with
  | .never, .never, _, _ | .never, .columns _, _, _ => rfl
  | .columns _, .never, _, _ | .columns _, .columns _, _, _ => rfl
  | .claimed _, _, hv, _ => hv.elim
  | _, .claimed _, _, hw => hw.elim

theorem narrowerWidth_settled {v w : FlatWidth (Value κ)} (hv : v.Settled) (hw : w.Settled) :
    narrowerWidth v w = .ok (v.narrower w) :=
  match v, w, hv, hw with
  | .never, .never, _, _ | .never, .columns _, _, _ => rfl
  | .columns _, .never, _, _ | .columns _, .columns _, _, _ => rfl
  | .claimed _, _, hv, _ => hv.elim
  | _, .claimed _, _, hw => hw.elim

/-- Documents that make no claim about their width are joined without fail. -/
theorem horz_settled {a b : Doc (Value κ)} (ha : a.flatWidth.Settled) (hb : b.flatWidth.Settled) :
    horz a b = .ok (Doc.horz a b) := by
  unfold horz
  rw [addWidths_settled ha hb]
  rfl

theorem concat_settled {a b : Doc (Value κ)} (ha : a.flatWidth.Settled)
    (hb : b.flatWidth.Settled) : concat a b = .ok (Doc.concat a b) := by
  unfold concat
  rw [addWidths_settled ha hb]
  rfl

theorem choice_settled {a b : Doc (Value κ)} (ha : a.flatWidth.Settled)
    (hb : b.flatWidth.Settled) : choice a b = .ok (Doc.choice a b) := by
  unfold choice
  rw [narrowerWidth_settled ha hb]
  rfl

/-- Documents without claims are joined to one without a claim. -/
theorem foldlM_settled {join : Doc (Value κ) → Doc (Value κ) → Except Failure (Doc (Value κ))}
    {node : Doc (Value κ) → Doc (Value κ) → Doc (Value κ)}
    (hjoin : ∀ {a b}, a.flatWidth.Settled → b.flatWidth.Settled → join a b = .ok (node a b))
    (hnode : ∀ a b, (node a b).flatWidth.Settled) {ds : List (Doc (Value κ))}
    (hs : ∀ d ∈ ds, d.flatWidth.Settled) {d : Doc (Value κ)} (hd : d.flatWidth.Settled) :
    ds.foldlM join d = .ok (ds.foldl node d) := by
  induction ds generalizing d with
  | nil => rfl
  | cons e ds ih =>
    have he : join d e = .ok (node d e) := hjoin hd (hs e (by simp))
    have rest := ih (fun x hx => hs x (by simp [hx])) (hnode d e)
    simp only [List.foldlM_cons, he, List.foldl_cons]
    exact rest

theorem horzList_settled {ds : List (Doc (Value κ))} (hs : ∀ d ∈ ds, d.flatWidth.Settled) :
    horzList ds = .ok (Doc.horzList ds) := by
  cases ds with
  | nil => rfl
  | cons d ds =>
    exact foldlM_settled horz_settled (fun _ _ => FlatWidth.settled_add _ _)
      (fun x hx => hs x (by simp [hx])) (hs d (by simp))

theorem concatList_settled {ds : List (Doc (Value κ))} (hs : ∀ d ∈ ds, d.flatWidth.Settled) :
    concatList ds = .ok (Doc.concatList ds) := by
  cases ds with
  | nil => rfl
  | cons d ds =>
    exact foldlM_settled concat_settled (fun _ _ => FlatWidth.settled_add _ _)
      (fun x hx => hs x (by simp [hx])) (hs d (by simp))

/-- A fold of joins has no claim to make. -/
theorem settled_foldl (node : Doc (Value κ) → Doc (Value κ) → Doc (Value κ))
    (hnode : ∀ a b, (node a b).flatWidth.Settled) (ds : List (Doc (Value κ)))
    {d : Doc (Value κ)} (hd : d.flatWidth.Settled) : (ds.foldl node d).flatWidth.Settled := by
  induction ds generalizing d with
  | nil => exact hd
  | cons e ds ih => exact ih (hnode d e)

theorem settled_horzList {ds : List (Doc (Value κ))} (hs : ∀ d ∈ ds, d.flatWidth.Settled) :
    (Doc.horzList ds).flatWidth.Settled := by
  cases ds with
  | nil => trivial
  | cons d ds => exact settled_foldl Doc.horz (fun _ _ => FlatWidth.settled_add _ _) ds (hs d (by simp))

theorem settled_vertList {ds : List (Doc (Value κ))} (hs : ∀ d ∈ ds, d.flatWidth.Settled) :
    (Doc.vertList ds).flatWidth.Settled := by
  cases ds with
  | nil => trivial
  | cons d ds => exact settled_foldl .vert (fun _ _ => trivial) ds (hs d (by simp))

theorem parens_settled {d : Doc (Value κ)} (h : d.flatWidth.Settled) :
    parens d = .ok (Doc.parens d) :=
  horzList_settled (by
    intro x hx
    simp only [List.mem_cons, List.not_mem_nil, or_false] at hx
    obtain rfl | rfl | rfl := hx
    · trivial
    · exact h
    · trivial)

end DocLayout.Join
