import DocLayout.Proofs.Composition
import DocLayout.Proofs.Construction
import DocLayout.Proofs.Room
import DocLayout.Proofs.Wrapping
import Mathlib.Algebra.GroupWithZero.Nat
import Mathlib.Data.List.ModifyLast

/-
  Items with separators: all of them on one line, or none.

  Items that are laid out with separators have two layouts. In one of them they stand side by side with
  the separator between two of them; in the other one each begins a line of its own, and all but the
  last have the line end behind them. There is one choice between the two, and it is made where the
  layout begins: the items come to stand on one line if they fit there together, and no item goes on the
  line of another one if they do not.

  Items `FitTogether` if each has a flat width, and these widths and those of the separators come to no
  more than the page has. That is what the flat width of the row says (`fits_row`). The lines of the
  broken layout are `stacked`: those of each item by itself, one item after the other.

  Proved:
  * `flatWidth_row`, `fits_row`: how wide items are side by side, and when that fits.
  * `drawing_row_texts`: texts side by side are one text.
  * `lines_vertList`, `lines_withEnds`: the lines of items on top of each other.
  * `display_sepBy`: what a page shows of items with separators.
-/

namespace DocLayout

variable {α : Type} {w : Int} {sep lineEnd : String}

/-- A text behind what is on a canvas goes to the end of the last line. -/
theorem Canvas.lines_write_last (c : Canvas) (s : String) :
    (c.write s).lines = c.lines.modifyLast (· ++ s) := by
  rw [lines_write, lines, List.modifyLast_concat]

theorem drawing_horz_text (d : Doc α) (s : String) (w indent column : Int) :
    (Doc.horz d (.text s)).drawing w indent column = (d.drawing w indent column).write s := by
  rw [Doc.horz, Doc.drawing, Doc.drawing, Canvas.append_write_empty]

/-! ## Items on one line -/

/-- Documents that have a flat width each, and that come to `w` columns at most if they stand on one
line with `gap` columns between two of them. -/
def FitTogether (gap : Nat) (w : Int) (docs : List (Doc α)) : Prop :=
  ∃ widths : List Nat, docs.map Doc.flatWidth = widths.map .columns ∧
    ((widths.sum + (docs.length - 1) * gap : Nat) : Int) ≤ w

theorem FitTogether.columns {gap : Nat} {docs : List (Doc α)} (h : FitTogether gap w docs)
    {d : Doc α} (hd : d ∈ docs) : ∃ n, d.flatWidth = .columns n := by
  obtain ⟨widths, hwidths, -⟩ := h
  have hmem : d.flatWidth ∈ widths.map FlatWidth.columns := hwidths ▸ List.mem_map_of_mem hd
  obtain ⟨n, -, hn⟩ := List.mem_map.mp hmem
  exact ⟨n, hn.symm⟩

/-- A document with more behind it on the same line, each behind a separator. -/
def Doc.row (sep : String) (first : Doc α) (rest : List (Doc α)) : Doc α :=
  rest.foldl (fun row item => horz (horz row (text sep)) item) first

theorem horzList_spaced_text (sep : String) (first : Doc α) (rest : List (Doc α)) :
    Doc.horzList (Doc.spaced (.text sep) (first :: rest)) = Doc.row sep first rest :=
  Doc.horzList_spaced _ _ _

theorem flatWidth_row {first : Doc α} {rest : List (Doc α)} {n : Nat} :
    (Doc.row sep first rest).flatWidth = .columns n ↔
      ∃ (m : Nat) (widths : List Nat), first.flatWidth = .columns m ∧
        rest.map Doc.flatWidth = widths.map .columns ∧
        n = m + widths.sum + rest.length * sep.length := by
  induction rest generalizing first with
  | nil =>
    constructor
    · intro h
      exact ⟨n, [], h, rfl, by simp⟩
    · rintro ⟨m, widths, hm, hwidths, rfl⟩
      obtain rfl := List.map_eq_nil_iff.mp hwidths.symm
      rw [Doc.row, List.foldl_nil, hm]
      simp
  | cons item rest ih =>
    have hrow : Doc.row sep first (item :: rest) =
        Doc.row sep (.horz (.horz first (.text sep)) item) rest := rfl
    rw [hrow, ih]
    constructor
    · rintro ⟨m, widths, hm, hwidths, rfl⟩
      obtain ⟨before, own, hbefore, hown, rfl⟩ := add_eq_columns hm
      obtain ⟨k, gap, hk, hgap, rfl⟩ := add_eq_columns hbefore
      injection hgap with hgap
      refine ⟨k, own :: widths, hk, by rw [List.map_cons, List.map_cons, hown, hwidths], ?_⟩
      rw [List.sum_cons, List.length_cons, Nat.succ_mul]
      omega
    · rintro ⟨m, widths, hm, hwidths, rfl⟩
      cases widths with
      | nil => contradiction
      | cons own widths =>
        injection hwidths with hown hwidths
        refine ⟨m + sep.length + own, widths, ?_, hwidths, ?_⟩
        · rw [Doc.flatWidth_horz, Doc.flatWidth_horz, hm, hown]
          rfl
        · rw [List.sum_cons, List.length_cons, Nat.succ_mul]
          omega

/-- Side by side items fit on a page if they fit together. -/
theorem fits_row {first : Doc α} {rest : List (Doc α)} :
    (Doc.row sep first rest).flatWidth.Fits 0 w ↔ FitTogether sep.length w (first :: rest) := by
  rw [fits_iff]
  constructor
  · rintro ⟨n, hn, hle⟩
    obtain ⟨m, widths, hm, hwidths, rfl⟩ := flatWidth_row.mp hn
    refine ⟨m :: widths, by rw [List.map_cons, List.map_cons, hm, hwidths], ?_⟩
    rw [List.sum_cons, List.length_cons, Nat.add_sub_cancel]
    omega
  · rintro ⟨widths, hwidths, hle⟩
    cases widths with
    | nil => contradiction
    | cons m widths =>
      injection hwidths with hm hwidths
      rw [List.sum_cons, List.length_cons, Nat.add_sub_cancel] at hle
      exact ⟨_, flatWidth_row.mpr ⟨m, widths, hm, hwidths, rfl⟩, by omega⟩

/-- Texts side by side are one text. -/
theorem drawing_row_texts (first : String) (rest : List String) (w indent column : Int) :
    (Doc.row sep (.text first : Doc α) (rest.map .text)).drawing w indent column =
      Canvas.empty.write (sep.intercalate (first :: rest)) := by
  induction rest using List.reverseRecOn with
  | nil => rw [String.intercalate_singleton]; rfl
  | append_singleton rest last ih =>
    rw [Doc.row, List.map_append, List.foldl_append]
    show (Doc.horz (.horz (Doc.row sep _ _) _) (.text last)).drawing w indent column = _
    rw [drawing_horz_text, drawing_horz_text, ih, ← List.cons_append,
      intercalate_concat sep last (List.cons_ne_nil first rest)]
    simp only [Canvas.write, String.append_assoc]

/-! ## Items on top of each other -/

/-- The lines of items on top of each other, from the lines of each: `lineEnd` goes behind the last
line of every item but the last. -/
def stacked (lineEnd : String) (pages : List (List String)) : List String :=
  pages.dropLast.flatMap (List.modifyLast (· ++ lineEnd)) ++ pages.getLast?.getD []

theorem lines_foldl_vert (w : Int) (d : Doc α) (ds : List (Doc α)) :
    ((ds.foldl .vert d).drawing w 0 0).lines =
      (d :: ds).flatMap fun e => (e.drawing w 0 0).lines := by
  induction ds generalizing d with
  | nil => rw [List.flatMap_singleton]; rfl
  | cons e ds ih =>
    rw [List.foldl_cons, ih, List.flatMap_cons, lines_drawing_vert, List.append_assoc]
    rfl

theorem lines_vertList (w : Int) {ds : List (Doc α)} (h : ds ≠ []) :
    ((Doc.vertList ds).drawing w 0 0).lines = ds.flatMap fun d => (d.drawing w 0 0).lines := by
  cases ds with
  | nil => exact absurd rfl h
  | cons d ds => exact lines_foldl_vert w d ds

theorem lines_withEnds (w : Int) (lineEnd : String) {ds : List (Doc α)} (h : ds ≠ []) :
    ((Doc.vertList (Doc.withEnds (.text lineEnd) ds)).drawing w 0 0).lines =
      stacked lineEnd (ds.map fun d => (d.drawing w 0 0).lines) := by
  rcases List.eq_nil_or_concat' ds with rfl | ⟨init, last, rfl⟩
  · exact absurd rfl h
  · have hends : Doc.withEnds (.text lineEnd) (init ++ [last]) =
        init.map (Doc.horz · (.text lineEnd)) ++ [last] := by
      rw [Doc.withEnds, List.dropLast_concat, List.getLast?_concat]
      rfl
    rw [hends, lines_vertList w (List.append_ne_nil_of_right_ne_nil _ (List.cons_ne_nil last [])),
      List.flatMap_append, List.flatMap_map, List.flatMap_singleton, stacked, List.map_append,
      List.map_singleton, List.dropLast_concat, List.getLast?_concat, List.flatMap_map]
    simp only [drawing_horz_text, Canvas.lines_write_last]
    rfl

/-! ## The choice between the two -/

variable {first : Doc α} {rest : List (Doc α)}

theorem drawing_sepBy_of_fits (h : FitTogether sep.length w (first :: rest)) (lineEnd : Doc α) :
    (Doc.sepBy (first :: rest) (.text sep) lineEnd).drawing w 0 0 =
      (Doc.row sep first rest).drawing w 0 0 := by
  rw [Doc.sepBy, horzList_spaced_text, Doc.choice, Doc.drawing]
  exact if_pos (fits_row.mpr h)

theorem drawing_sepBy_of_not_fits (h : ¬ FitTogether sep.length w (first :: rest))
    (lineEnd : Doc α) :
    (Doc.sepBy (first :: rest) (.text sep) lineEnd).drawing w 0 0 =
      (Doc.vertList (Doc.withEnds lineEnd (first :: rest))).drawing w 0 0 := by
  rw [Doc.sepBy, horzList_spaced_text, Doc.choice, Doc.drawing]
  exact if_neg (mt fits_row.mp h)

/-! ## On pages -/

theorem map_intersperse {β γ : Type} (f : β → γ) (between : β) (xs : List β) :
    (xs.intersperse between).map f = (xs.map f).intersperse (f between) := by
  induction xs with
  | nil => rfl
  | cons x xs ih =>
    cases xs with
    | nil => rfl
    | cons y xs =>
      rw [List.intersperse_cons_cons, List.map_cons, List.map_cons, ih]
      rfl

variable {κ : Type} (run : Interpreter κ) {items : List (Value κ)} {docs : List (Doc (Value κ))}

theorem plain_intersperse {separator : Value κ} {space : Doc (Value κ)}
    (hs : separator.plainDoc? = some space) (h : Plain items docs) :
    Plain (items.intersperse separator) (docs.intersperse space) := by
  rw [Plain, map_intersperse, map_intersperse, h, hs]

theorem mapM_display_plain (h : Plain items docs) (hd : ∀ d ∈ docs, d.WellFormed) (w : Int) :
    items.mapM (Page.display run · (.int w)) = pure (docs.map fun d => (d.drawing w 0 0).lines) :=
  Build.mapM_plain h fun hv hmem => display_plain run hv (hd _ hmem) w

/-- Items that are laid out with separators. If there are none, that is one empty line. If they fit
together on a page, the page shows them side by side with `sep` between two of them; texts are one line
then. In every other case the page shows what it shows of each item by itself, one item after the other
and with `lineEnd` behind the last line of every item but the last. -/
theorem display_sepBy (hitems : Plain items docs) (hdocs : ∀ d ∈ docs, d.WellFormed)
    (hsep : Text.Unbroken sep) (hend : Text.Unbroken lineEnd) (w : Int) :
    ∃ (pages : List (List String)) (lines : List String),
      items.mapM (Page.display run · (.int w)) = pure pages ∧
      (do
        let d ← Build.sepBy run (.list items) (.str sep) (.str lineEnd)
        Page.display run (.doc d) (.int w)) = pure lines ∧
      (docs = [] → lines = [""]) ∧
      (docs ≠ [] → FitTogether sep.length w docs →
        (do
          let d ← Build.horzList run (.list (items.intersperse (.str sep)))
          Page.display run (.doc d) (.int w)) = pure lines ∧
        ∀ texts : List String, docs = texts.map .text → lines = [sep.intercalate texts]) ∧
      (docs ≠ [] → ¬ FitTogether sep.length w docs → lines = stacked lineEnd pages) := by
  have hbuild : Build.sepBy run (.list items) (.str sep) (.str lineEnd) =
      pure (Doc.sepBy docs (.text sep) (.text lineEnd)) :=
    Build.sepBy_plain run rfl hitems (plainDoc?_text hsep) (plainDoc?_text hend) trivial trivial
      fun d hd => (hdocs d hd).settled
  have hspace : (Doc.text sep : Doc (Value κ)).WellFormed := hsep
  have hstop : (Doc.text lineEnd : Doc (Value κ)).WellFormed := hend
  have hwell := rule_wellFormed.sepBy hspace hstop hdocs
  refine ⟨_, _, mapM_display_plain run hitems hdocs w,
    by rw [hbuild, pure_bind, display_wellFormed run hwell], ?_⟩
  cases docs with
  | nil =>
    refine ⟨fun _ => ?_, fun hne => absurd rfl hne, fun hne => absurd rfl hne⟩
    show (if _ then _ else _ : Canvas).lines = [""]
    split <;> rfl
  | cons first rest =>
    have hspaced : ∀ d ∈ Doc.spaced (.text sep) (first :: rest), d.WellFormed :=
      Doc.forall_mem_spaced hsep hdocs
    have hplain : Plain (items.intersperse (.str sep)) (Doc.spaced (.text sep) (first :: rest)) := by
      rw [Doc.spaced_eq_intersperse]
      exact plain_intersperse (plainDoc?_text hsep) hitems
    have hflat : Build.horzList run (.list (items.intersperse (.str sep))) =
        pure (Doc.row sep first rest) := by
      rw [Build.horzList_plain run rfl hplain fun d hd => (hspaced d hd).settled,
        horzList_spaced_text]
    have hrow := rule_wellFormed.horzList hspaced
    rw [horzList_spaced_text] at hrow
    refine ⟨fun hnil => absurd hnil (List.cons_ne_nil first rest), fun _ hfit => ⟨?_, ?_⟩,
      fun hne hfit => ?_⟩
    · rw [hflat, pure_bind, display_wellFormed run hrow, drawing_sepBy_of_fits hfit]
    · rintro (_ | ⟨text, texts⟩) htexts
      · contradiction
      · injection htexts with hfirst hrest
        rw [drawing_sepBy_of_fits hfit, hfirst, hrest, drawing_row_texts, Canvas.lines_write]
        rfl
    · rw [drawing_sepBy_of_not_fits hfit, lines_withEnds w lineEnd hne]

/-- Two lines, a choice and a text. -/
def mixedItems : List (Value Empty) := [.doc twoLines, .doc threeColumns, .str "e"]

/-- The two lines keep the other items from standing on one. -/
theorem display_sepBy_mixedItems :
    Plain mixedItems [twoLines, threeColumns, .text "e"] ∧
    (∀ d ∈ [twoLines, threeColumns, .text "e"], d.WellFormed) ∧
    Text.Unbroken " " ∧ Text.Unbroken "," ∧
    ¬ FitTogether 1 3 [twoLines, threeColumns, .text "e"] ∧
    (do
      let d ← Build.sepBy Empty.elim (.list mixedItems) (.str " ") (.str ",")
      Page.display Empty.elim (.doc d) (.int 3)) = pure ["ab", "c,", "ddd,", "e"] := by
  have unbroken : ∀ s ∈ ["ab", "c", "ddd", "d", "dd", "e", " ", ","], Text.Unbroken s := by decide
  have hdocs : ∀ d ∈ [twoLines, threeColumns, .text "e"], d.WellFormed := by
    simp only [List.forall_mem_cons]
    exact ⟨⟨unbroken "ab" (by simp), unbroken "c" (by simp)⟩,
      ⟨rfl, unbroken "ddd" (by simp), unbroken "d" (by simp), unbroken "dd" (by simp)⟩,
      unbroken "e" (by simp), List.forall_mem_nil _⟩
  have hitems : Plain mixedItems [twoLines, threeColumns, .text "e"] := rfl
  have hsep := unbroken " " (by simp)
  have hend := unbroken "," (by simp)
  have hfit : ¬ FitTogether 1 3 [twoLines, threeColumns, .text "e"] := by
    intro h
    obtain ⟨n, hn⟩ := h.columns List.mem_cons_self
    contradiction
  obtain ⟨pages, lines, hpages, hlines, -, -, hbroken⟩ :=
    display_sepBy Empty.elim hitems hdocs hsep hend 3
  have hstacked := hbroken (List.cons_ne_nil _ _) hfit
  rw [mapM_display_plain Empty.elim hitems hdocs] at hpages
  rw [hstacked, ← pure_injective hpages] at hlines
  exact ⟨hitems, hdocs, hsep, hend, hfit, hlines⟩

end DocLayout
