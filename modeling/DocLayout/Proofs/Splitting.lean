import DocLayout.Proofs.Regrouping

/-
  Lists of documents that are joined in two parts.

  A list is joined from the left, and the empty list is the empty text. As a joint regroups with itself,
  a list can be cut in two, and its parts joined by themselves and then to each other, as long as both of
  them hold a document. Where a part is empty, it hangs on what an empty text does beside a document:
  nothing for `concat` on either side, and nothing for `horz` behind the document. Before the document it
  makes `horz` return to the column where the cursor is, and `vert` begins a line for it wherever it
  stands.

  Proved:
  * `equivalent_joined_append`: joints cut the lists that `Joint.Splits` says.
  * `equivalent_joined_append_iff`: no other lists can be cut whatever documents they hold, told by
    which part is empty.
  * `split_anywhere`: the same for lists of values, in every place of a larger document.
-/

namespace DocLayout

variable {α : Type} {j : Joint}

/-! ## Joints between lists -/

/-- The two parts in which a joint can cut a list, told by which of them are empty. -/
def Joint.Splits {β : Type} (j : Joint) (first second : List β) : Prop :=
  match j with
  | concat => True
  | horz => first = [] → second = []
  | vert => first ≠ [] ∧ second ≠ []

theorem Doc.Equivalent.join (j : Joint) {a a' b b' : Doc α} (ha : a.Equivalent a')
    (hb : b.Equivalent b') : (j.join a b).Equivalent (j.join a' b') := by
  cases j with
  | horz => exact ha.horz hb
  | concat => exact ha.concat hb
  | vert => exact ha.vert hb

theorem equivalent_foldl (j : Joint) {a b : Doc α} (h : a.Equivalent b) (ds : List (Doc α)) :
    (ds.foldl j.join a).Equivalent (ds.foldl j.join b) := by
  induction ds generalizing a b with
  | nil => exact h
  | cons d ds ih => exact ih (h.join j (.refl d))

/-- What is joined behind the second of two documents can be joined to it before the first one is. -/
theorem equivalent_foldl_join (j : Joint) (a b : Doc α) (ds : List (Doc α)) :
    (ds.foldl j.join (j.join a b)).Equivalent (j.join a (ds.foldl j.join b)) := by
  induction ds generalizing b with
  | nil => exact .refl (j.join a b)
  | cons d ds ih =>
    have regrouped : (j.join (j.join a b) d).Equivalent (j.join a (j.join b d)) :=
      (equivalent_join (Joint.mem_regrouping_iff.mpr id) a b d).symm
    exact (equivalent_foldl j regrouped ds).trans (ih (j.join b d))

theorem equivalent_joined_cons (j : Joint) (x y : Doc α) (xs ys : List (Doc α)) :
    (Doc.joined j.join (x :: xs ++ y :: ys)).Equivalent
      (j.join (Doc.joined j.join (x :: xs)) (Doc.joined j.join (y :: ys))) := by
  show ((xs ++ y :: ys).foldl j.join x).Equivalent (j.join (xs.foldl j.join x) (ys.foldl j.join y))
  rw [List.foldl_append]
  exact equivalent_foldl_join j (xs.foldl j.join x) y ys

/-! ## Empty texts -/

theorem add_zero_width {v : FlatWidth α} (h : v.Settled) : v.add (.columns 0) = v := by
  cases v with
  | never => rfl
  | columns n => rfl
  | claimed x => exact h.elim

theorem zero_add_width {v : FlatWidth α} (h : v.Settled) : FlatWidth.add (.columns 0) v = v := by
  cases v with
  | never => rfl
  | columns n => exact congrArg FlatWidth.columns (Nat.zero_add n)
  | claimed x => exact h.elim

/-- An empty text behind a document on its line leaves it as it is. -/
theorem equivalent_join_nil (hj : j ≠ .vert) {d : Doc α} (hd : d.flatWidth.Settled) :
    (j.join d .nil).Equivalent d := by
  refine .of_laidAlike ?_ fun margin canvas indent column => ?_
  · rw [flatWidth_join, if_neg hj]
    exact add_zero_width hd
  · have goOn : j.goOn margin .nil indent = fun canvas column => (canvas, .ok column) := by
      funext canvas column
      cases j with
      | horz => exact descend_nil margin canvas column column
      | concat => exact descend_nil margin canvas indent column
      | vert => exact absurd rfl hj
    rw [descend_join, goOn, andThen_ok]

/-- So does an empty text before it, at the same indentation. -/
theorem equivalent_nil_concat {d : Doc α} (hd : d.flatWidth.Settled) :
    (Doc.concat .nil d).Equivalent d := by
  refine .of_laidAlike ?_ fun margin canvas indent column => ?_
  · rw [Doc.flatWidth_concat]
    exact zero_add_width hd
  · rw [Doc.concat, Doc.descend, descend_nil, Outcome.andThen]

/-- Two lines hang where the cursor is behind an empty text, and return to the indentation of the whole
without it. -/
theorem not_equivalent_hanging :
    ¬ (Doc.vert (.text "a") (.text "b") : Doc α).Equivalent
      (.horz .nil (.vert (.text "a") (.text "b"))) := by
  intro h
  let margin : Margin α := ⟨.columns 0, fun _ _ => .ok true⟩
  have lines := congrArg (fun o : Outcome α => o.1.lines)
    (h.laidAlike margin (Canvas.empty.write "x") 0 1)
  exact absurd (show ["xa", "b"] = ["xa", " b"] from lines) (by decide)

/-- What has a width on a single line is not made of two documents on top of each other. -/
theorem not_equivalent_vert {d a b : Doc α} {n : Nat} (hd : d.flatWidth = .columns n) :
    ¬ d.Equivalent (.vert a b) := fun h => nomatch hd.symm.trans h.flatWidth

/-! ## Lists -/

variable {κ : Type} {xs ys : List (Doc (Value κ))}

/-- Documents without claims are joined to one without a claim. -/
theorem settled_joined (j : Joint) {ds : List (Doc (Value κ))}
    (h : ∀ d ∈ ds, d.flatWidth.Settled) : (Doc.joined j.join ds).flatWidth.Settled := by
  have hjoin : ∀ a b : Doc (Value κ), (j.join a b).flatWidth.Settled := by
    intro a b
    cases j with
    | horz | concat => exact FlatWidth.settled_add _ _
    | vert => trivial
  cases ds with
  | nil => trivial
  | cons d ds => exact Join.settled_foldl j.join hjoin ds (h d List.mem_cons_self)

/-- A list that can be cut in two is joined to what its parts are joined to. -/
theorem equivalent_joined_append (h : j.Splits xs ys) (hx : Build.AllSettled xs)
    (hy : Build.AllSettled ys) :
    (Doc.joined j.join (xs ++ ys)).Equivalent
      (j.join (Doc.joined j.join xs) (Doc.joined j.join ys)) := by
  cases xs with
  | nil =>
    cases j with
    | horz =>
      obtain rfl := h rfl
      exact (equivalent_join_nil (d := .nil) (by decide) trivial).symm
    | concat => exact (equivalent_nil_concat (settled_joined .concat hy)).symm
    | vert => exact absurd rfl h.1
  | cons x xs =>
    cases ys with
    | cons y ys => exact equivalent_joined_cons j x y xs ys
    | nil =>
      have hj : j ≠ .vert := by
        rintro rfl
        exact h.2 rfl
      rw [List.append_nil]
      exact (equivalent_join_nil hj (settled_joined j hx)).symm

/-- Whether a list can be cut hangs on which of the parts are empty. -/
theorem Joint.Splits.of_empty {β γ : Type} {xs ys : List β} {xs' ys' : List γ} (h : j.Splits xs ys)
    (hxs : xs' = [] ↔ xs = []) (hys : ys' = [] ↔ ys = []) : j.Splits xs' ys' := by
  cases j with
  | horz => exact fun hx => hys.mpr (h (hxs.mp hx))
  | concat => trivial
  | vert => exact ⟨mt hxs.mp h.1, mt hys.mp h.2⟩

/-- No other lists can be cut, whatever documents they hold: if all lists can that are empty where `xs` and
`ys` are, then the joint splits `xs` and `ys`. -/
theorem equivalent_joined_append_iff :
    (∀ xs' ys' : List (Doc (Value κ)), (xs' = [] ↔ xs = []) → (ys' = [] ↔ ys = []) →
      Build.AllSettled xs' → Build.AllSettled ys' →
      (Doc.joined j.join (xs' ++ ys')).Equivalent
        (j.join (Doc.joined j.join xs') (Doc.joined j.join ys'))) ↔ j.Splits xs ys := by
  refine ⟨fun law => ?_, fun h xs' ys' hxs hys hx hy =>
    equivalent_joined_append (h.of_empty hxs hys) hx hy⟩
  have none : Build.AllSettled (κ := κ) [] := List.forall_mem_nil _
  have one : ∀ d : Doc (Value κ), d.flatWidth.Settled → Build.AllSettled [d] := fun d hd =>
    List.forall_mem_singleton.mpr hd
  have filled : ∀ (d : Doc (Value κ)) {ds : List (Doc (Value κ))}, ds ≠ [] → ([d] = [] ↔ ds = []) :=
    fun d ds hds => iff_of_false (List.cons_ne_nil d []) hds
  cases j with
  | concat => trivial
  | horz =>
    rintro rfl
    refine Classical.byContradiction fun hy => ?_
    exact not_equivalent_hanging (law [] [_] Iff.rfl (filled _ hy) none (one _ trivial))
  | vert =>
    constructor
    · rintro rfl
      by_cases hy : ys = []
      · exact not_equivalent_vert rfl (law [] [] Iff.rfl (iff_of_true rfl hy) none none)
      · exact not_equivalent_vert rfl (law [] [.nil] Iff.rfl (filled _ hy) none (one _ trivial))
    · rintro rfl
      by_cases hx : xs = []
      · exact not_equivalent_vert rfl (law [] [] (iff_of_true rfl hx) Iff.rfl none none)
      · exact not_equivalent_vert rfl (law [.nil] [] (filled _ hx) Iff.rfl (one _ trivial) none)

/-! ## Lists of values -/

/-- The documents of a sequence joined to one. -/
def Joint.buildList (j : Joint) (run : Interpreter κ) : Value κ → Effect κ (Doc (Value κ)) :=
  match j with
  | horz => Build.horzList run
  | concat => Build.concatList run
  | vert => Build.vertList run

/-- The documents of some values joined to one. -/
def Joint.build (j : Joint) (run : Interpreter κ) : List (Value κ) → Effect κ (Doc (Value κ)) :=
  match j with
  | horz => Build.horz run
  | concat => Build.concat run
  | vert => Build.vert run

variable (run : Interpreter κ)

theorem buildList_plain (j : Joint) {vs : List (Value κ)} {ds : List (Doc (Value κ))} (h : Plain vs ds)
    (hd : Build.AllSettled ds) : j.buildList run (.list vs) = pure (Doc.joined j.join ds) := by
  cases j with
  | horz => exact Build.horzList_plain run rfl h hd
  | concat => exact Build.concatList_plain run rfl h hd
  | vert => exact Build.vertList_plain run rfl h

theorem build_docs (j : Joint) {a b : Doc (Value κ)} (ha : a.flatWidth.Settled)
    (hb : b.flatWidth.Settled) : j.build run [.doc a, .doc b] = pure (j.join a b) := by
  have hs : (Value.tuple [.doc a, .doc b] : Value κ).source? = some (.items [.doc a, .doc b]) := rfl
  have hp : Plain [.doc a, .doc b] [a, b] := rfl
  have hd : Build.AllSettled [a, b] := List.forall_mem_cons.mpr ⟨ha, List.forall_mem_singleton.mpr hb⟩
  cases j with
  | horz => exact Build.horzList_plain run hs hp hd
  | concat => exact Build.concatList_plain run hs hp hd
  | vert => exact Build.vertList_plain run hs hp

theorem eq_nil_of_plain {vs : List (Value κ)} {ds : List (Doc (Value κ))} (h : Plain vs ds) :
    ds = [] ↔ vs = [] := by
  have hlength := congrArg List.length h
  rw [List.length_map, List.length_map] at hlength
  rw [← List.length_eq_zero_iff, ← List.length_eq_zero_iff, hlength]

theorem plain_append {vs ws : List (Value κ)} (hv : Plain vs xs) (hw : Plain ws ys) :
    Plain (vs ++ ws) (xs ++ ys) := by
  rw [Plain, List.map_append, List.map_append, hv, hw]

/-- Two lists of documents and texts are joined as one list, or each by itself and then to each other.
Where the joint can cut the list in these two, both have the same width, and they are laid out alike on
every canvas, from every indentation and column and for every margin; so each can be put in the place of
the other anywhere in a larger document, which keeps its width and is displayed as before on every
page. -/
theorem split_anywhere {vs ws : List (Value κ)} (h : j.Splits vs ws) (hv : Plain vs xs)
    (hw : Plain ws ys) (hx : Build.AllSettled xs) (hy : Build.AllSettled ys) :
    ∃ whole halves : Doc (Value κ),
      j.buildList run (.list (vs ++ ws)) = pure whole ∧
      (do
        let first ← j.buildList run (.list vs)
        let second ← j.buildList run (.list ws)
        j.build run [.doc first, .doc second]) = pure halves ∧
      whole.flatWidth = halves.flatWidth ∧
      (∀ (canvas : Canvas) (indent column : Int) (margin : Margin (Value κ)),
        whole.layOut canvas indent column margin = halves.layOut canvas indent column margin) ∧
      ∀ context : Doc.Context (Value κ),
        (context.fill whole).flatWidth = (context.fill halves).flatWidth ∧
        ∀ width : Value κ, Page.display run (.doc (context.fill whole)) width =
          Page.display run (.doc (context.fill halves)) width := by
  have hequivalent :=
    equivalent_joined_append (h.of_empty (eq_nil_of_plain hv) (eq_nil_of_plain hw)) hx hy
  refine ⟨_, _, buildList_plain run j (plain_append hv hw)
    (List.forall_mem_append.mpr ⟨hx, hy⟩), ?_, hequivalent.flatWidth,
    fun canvas indent column margin => hequivalent.layOut margin canvas indent column, fun context => ?_⟩
  · rw [buildList_plain run j hv hx, pure_bind, buildList_plain run j hw hy, pure_bind,
      build_docs run j (settled_joined j hx) (settled_joined j hy)]
  · have hfilled := equivalent_fill hequivalent context
    refine ⟨hfilled.flatWidth, fun width => ?_⟩
    rw [display_doc, display_doc, hfilled.lines]

/-- Behind a text hang two lines, behind these a choice, and behind that one another. -/
theorem split_anywhere_hangingBehindText :
    Joint.horz.Splits [.str "ab", .doc twoLines] [Value.doc threeColumns, .doc wideChoice] ∧
    Plain [.str "ab", .doc twoLines] [.text "ab", twoLines] ∧
    Plain [.doc threeColumns, .doc wideChoice] [threeColumns, wideChoice] ∧
    Build.AllSettled [.text "ab", twoLines] ∧ Build.AllSettled [threeColumns, wideChoice] ∧
    ∃ whole halves : Doc (Value Empty),
      Build.horzList Empty.elim
        (.list [.str "ab", .doc twoLines, .doc threeColumns, .doc wideChoice]) = pure whole ∧
      (do
        let first ← Build.horzList Empty.elim (.list [.str "ab", .doc twoLines])
        let second ← Build.horzList Empty.elim (.list [.doc threeColumns, .doc wideChoice])
        Build.horz Empty.elim [.doc first, .doc second]) = pure halves ∧
      whole.flatWidth = halves.flatWidth ∧
      (∀ (canvas : Canvas) (indent column : Int) (margin : Margin (Value Empty)),
        whole.layOut canvas indent column margin = halves.layOut canvas indent column margin) ∧
      ∀ context : Doc.Context (Value Empty),
        (context.fill whole).flatWidth = (context.fill halves).flatWidth ∧
        ∀ width : Value Empty, Page.display Empty.elim (.doc (context.fill whole)) width =
          Page.display Empty.elim (.doc (context.fill halves)) width := by
  have hsplits : Joint.horz.Splits [.str "ab", .doc twoLines]
      [Value.doc threeColumns, .doc wideChoice] := nofun
  have hv : Plain [.str "ab", .doc twoLines] [.text "ab", twoLines] := rfl
  have hw : Plain [.doc threeColumns, .doc wideChoice] [threeColumns, wideChoice] := rfl
  have hx : Build.AllSettled [.text "ab", twoLines] :=
    List.forall_mem_cons.mpr ⟨trivial, List.forall_mem_singleton.mpr trivial⟩
  have hy : Build.AllSettled [threeColumns, wideChoice] :=
    List.forall_mem_cons.mpr ⟨trivial, List.forall_mem_singleton.mpr trivial⟩
  exact ⟨hsplits, hv, hw, hx, hy, split_anywhere Empty.elim hsplits hv hw hx hy⟩

end DocLayout
