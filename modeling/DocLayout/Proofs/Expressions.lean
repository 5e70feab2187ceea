import DocLayout.Proofs.Separated

/-
  S-expressions on several lines.

  What stands behind the opening parenthesis hangs there, one column to the right, and what stands below
  a keyword is moved by another column that is written as a space. So the lines below the head of an
  s-expression are the lines that their document has on a page that is narrower by these columns, and
  the closing parenthesis comes behind the last of them (`hanging`). It does not count in any choice
  that is made between the parentheses.

  A block always has its bodies below the keyword. A definition and an application have a choice, and
  take several lines when the one line does not fit. For a definition the choice stands before the
  opening parenthesis, and the one line is counted with both parentheses; for an application it stands
  behind the opening one, and the closing one is not counted.

  Proved:
  * `lines_horz_text`, `lines_parens`: lines behind a text and between parentheses.
  * `lines_headed`: the lines of a head with something below it that is indented by two.
  * `lines_block`, `lines_definition`, `lines_application`: the lines of s-expressions on several lines.
  * `display_expressions`: what pages show of them.
-/

namespace DocLayout

variable {α : Type} {w : Int}

/-! ## Lines behind a text -/

/-- Lines that hang behind a text: the first goes on with the line of the text, and the others begin
below its end. -/
def behind (s : String) : List String → List String
  | [] => []
  | first :: rest => (s ++ first) :: rest.map (Canvas.spaces s.length ++ ·)

theorem lines_horz_text (s : String) (d : Doc α) (w : Int) :
    ((Doc.horz (.text s) d).drawing w 0 0).lines =
      behind s (d.drawing (w - s.length) 0 0).lines := by
  have hs : (Doc.text s : Doc α).drawing w 0 0 = ⟨#[], s⟩ := by
    rw [Doc.drawing, Canvas.write, Canvas.empty, String.empty_append]
  obtain ⟨head, tail, h⟩ := (d.drawing (w - s.length) 0 0).exists_lines_eq_cons
  rw [lines_drawing_horz w (.text s) d (by rw [hs]; exact h), hs, h]
  rfl

/-- Behind a space all lines are moved by one column. -/
theorem behind_space (lines : List String) : behind " " lines = lines.map (Canvas.spaces 1 ++ ·) := by
  cases lines with
  | nil => rfl
  | cons first rest => rfl

theorem lines_parens (d : Doc α) (w : Int) :
    ((Doc.parens d).drawing w 0 0).lines =
      (behind "(" (d.drawing (w - 1) 0 0).lines).modifyLast (· ++ ")") := by
  rw [Doc.parens, drawing_horz_text, Canvas.lines_write_last, lines_horz_text]
  rfl

/-! ## Lines below a head -/

/-- The lines of an s-expression with its head on a line of its own: the head behind the opening
parenthesis, the lines below it `indent` columns to the right, and the closing parenthesis behind the
last line. -/
def hanging (indent : Int) (head : String) (lines : List String) : List String :=
  (("(" ++ head) :: lines.map (Canvas.spaces indent ++ ·)).modifyLast (· ++ ")")

/-- A head, and below it a document that is indented by two. -/
theorem lines_headed {head : Doc α} {s : String} {d : Doc α}
    (h : (head.drawing (w - 1) 0 0).lines = [s]) :
    ((Doc.parens (.vert head (.horz (.text " ") d))).drawing w 0 0).lines =
      hanging 2 s (d.drawing (w - 2) 0 0).lines := by
  have hwidth : w - 1 - (" " : String).length = w - 2 := by
    show w - 1 - 1 = w - 2
    omega
  have htwo : (Canvas.spaces 1 ++ ·) ∘ (Canvas.spaces 1 ++ ·) = (Canvas.spaces 2 ++ ·) := by
    funext line
    show Canvas.spaces 1 ++ (Canvas.spaces 1 ++ line) = Canvas.spaces (1 + 1) ++ line
    rw [← String.append_assoc, ← Canvas.spaces_add (by decide) (by decide)]
  rw [lines_parens, lines_drawing_vert, h, lines_horz_text, behind_space, hwidth]
  show (("(" ++ s) :: List.map (Canvas.spaces 1 ++ ·) (List.map _ _)).modifyLast _ = _
  rw [List.map_map, htwo, hanging]

/-! ## S-expressions -/

/-- Without line ends items on top of each other have the lines of each, one item after the other. -/
theorem stacked_empty (pages : List (List String)) : stacked "" pages = pages.flatten := by
  have hid : (List.modifyLast (· ++ "") : List String → List String) = id := by
    funext page
    rcases List.eq_nil_or_concat' page with rfl | ⟨init, last, rfl⟩
    · rfl
    · rw [List.modifyLast_concat, String.append_empty]
      rfl
  rcases List.eq_nil_or_concat' pages with rfl | ⟨init, last, rfl⟩
  · rfl
  · rw [stacked, hid, List.dropLast_concat, List.getLast?_concat, List.flatMap_id,
      List.flatten_append, List.flatten_singleton]
    rfl

theorem lines_text (s : String) (w indent column : Int) :
    ((Doc.text s : Doc α).drawing w indent column).lines = [s] := by
  rw [Doc.drawing, Canvas.lines_write, Canvas.empty, String.empty_append]
  rfl

variable {word name : String} {d : Doc α} {docs : List (Doc α)}

theorem lines_block (word : String) (docs : List (Doc α)) (w : Int) :
    ((Doc.block (.text word) docs).drawing w 0 0).lines = hanging 2 word
      (if docs.isEmpty then [""] else (docs.map fun d => (d.drawing (w - 2) 0 0).lines).flatten) := by
  rw [Doc.block, lines_headed (lines_text word _ _ _)]
  cases docs with
  | nil => rfl
  | cons first rest => rw [lines_vertList (w - 2) (List.cons_ne_nil first rest)]; rfl

/-- On one line a definition is four columns wider than its parts: two parentheses and two spaces. -/
theorem flatWidth_definition (word name : String) (d : Doc α) :
    (Doc.parens (Doc.sepBy [.text word, .text name, d] (.text " ") .nil)).flatWidth =
      (FlatWidth.columns (word.length + name.length + 4)).add d.flatWidth := by
  have hrow : (Doc.sepBy [.text word, .text name, d] (.text " ") .nil).flatWidth =
      ((FlatWidth.columns (word.length + 1 + name.length + 1)).add d.flatWidth).narrower .never := rfl
  rw [Doc.parens, Doc.flatWidth_horz, Doc.flatWidth_horz, hrow]
  cases d.flatWidth with
  | never => rfl
  | claimed x => rfl
  | columns n =>
    show FlatWidth.columns (1 + (word.length + 1 + name.length + 1 + n) + 1) =
      .columns (word.length + name.length + 4 + n)
    congr 1
    omega

/-- A definition without room for its one line has its body below the keyword and the head. -/
theorem lines_definition
    (h : ∀ n : Nat, d.flatWidth = .columns n → w < word.length + name.length + n + 4) :
    ((Doc.definition (.text word) (.text name) d).drawing w 0 0).lines =
      hanging 2 (word ++ " " ++ name) (d.drawing (w - 2) 0 0).lines := by
  have hfit : ¬ (Doc.parens (Doc.sepBy [.text word, .text name, d] (.text " ") .nil)).flatWidth.Fits
      0 w := by
    intro hfits
    obtain ⟨n, hn, hle⟩ := fits_iff.mp hfits
    rw [flatWidth_definition] at hn
    obtain ⟨m, k, hm, hk, rfl⟩ := add_eq_columns hn
    injection hm with hm
    have hwide := h k hk
    omega
  have hhead : ((Doc.horz (.horz (.text word : Doc α) (.text " ")) (.text name)).drawing
      (w - 1) 0 0).lines = [word ++ " " ++ name] := by
    rw [drawing_horz_text, drawing_horz_text, Canvas.lines_write_last, Canvas.lines_write_last,
      lines_text]
    rfl
  rw [Doc.definition, Doc.choice, Doc.drawing, if_neg hfit, lines_headed hhead]

/-- An application whose parts do not fit on a line behind the opening parenthesis has its arguments
below the function. -/
theorem lines_application (h : ¬ FitTogether 1 (w - 1) (.text word :: docs)) :
    ((Doc.application (.text word) docs).drawing w 0 0).lines =
      hanging 1 word (docs.map fun d => (d.drawing (w - 1) 0 0).lines).flatten := by
  have hfit : ¬ FitTogether (" " : String).length (w - 1) (.text word :: docs) := h
  rw [Doc.application, lines_parens, drawing_sepBy_of_not_fits hfit, Doc.nil,
    lines_withEnds (w - 1) "" (List.cons_ne_nil _ docs), stacked_empty, List.map_cons,
    List.flatten_cons, lines_text]
  rfl

/-! ## On pages -/

variable {κ : Type} (run : Interpreter κ) {first second body : Value κ} {items : List (Value κ)}
  {whole : Doc (Value κ)} {parts : List (Doc (Value κ))}

/-- S-expressions on several lines, from the pages of their parts. A block shows what a page that is
two columns narrower shows of its bodies, moved by two, and an empty line if it has none. A definition
whose one line has no room on the page shows what a page that is two columns narrower shows of its body,
moved by two. An application whose one line has no room behind the opening parenthesis shows what a page
that is one column narrower shows of its arguments, moved by one. All that stands below the head, and
the closing parenthesis comes last. -/
theorem display_expressions (hfirst : first.plainDoc? = some (.text word))
    (hword : Text.Unbroken word) (hsecond : second.plainDoc? = some (.text name))
    (hname : Text.Unbroken name) (hbody : body.plainDoc? = some whole) (hwhole : whole.WellFormed)
    (hitems : Plain items parts) (hparts : ∀ d ∈ parts, d.WellFormed) (w : Int) :
    ∃ (indented : List (List String)) (below : List String) (aligned : List (List String)),
      items.mapM (Page.display run · (.int (w - 2))) = pure indented ∧
      Page.display run body (.int (w - 2)) = pure below ∧
      items.mapM (Page.display run · (.int (w - 1))) = pure aligned ∧
      (do
        let d ← Build.block run first (.list items)
        Page.display run (.doc d) (.int w)) =
        pure (hanging 2 word (if items.isEmpty then [""] else indented.flatten)) ∧
      ((∀ n : Nat, whole.flatWidth = .columns n → w < word.length + name.length + n + 4) →
        (do
          let d ← Build.definition run first second body
          Page.display run (.doc d) (.int w)) = pure (hanging 2 (word ++ " " ++ name) below)) ∧
      (¬ FitTogether 1 (w - 1) (.text word :: parts) →
        (do
          let d ← Build.application run first (.list items)
          Page.display run (.doc d) (.int w)) = pure (hanging 1 word aligned.flatten)) := by
  have hw : (Doc.text word : Doc (Value κ)).WellFormed := hword
  have hn : (Doc.text name : Doc (Value κ)).WellFormed := hname
  have hempty : items.isEmpty = parts.isEmpty := by
    have h := congrArg List.isEmpty hitems
    rwa [List.isEmpty_map, List.isEmpty_map] at h
  have settled : Build.AllSettled parts := fun d hd => (hparts d hd).settled
  refine ⟨_, _, _, mapM_display_plain run hitems hparts (w - 2), display_plain run hbody hwhole (w - 2),
    mapM_display_plain run hitems hparts (w - 1), ?_, fun h => ?_, fun h => ?_⟩
  · rw [Build.block_plain run rfl hitems hfirst settled, pure_bind,
      display_wellFormed run (rule_wellFormed.block hw hparts), lines_block, hempty]
  · have threeSettled : Build.AllSettled [.text word, .text name, whole] := by
      rw [Build.AllSettled, List.forall_mem_cons, List.forall_mem_cons, List.forall_mem_singleton]
      exact ⟨hw.settled, hn.settled, hwhole.settled⟩
    rw [Build.definition_plain run hfirst hsecond hbody threeSettled, pure_bind,
      display_wellFormed run (rule_wellFormed.definition hw hn hwhole), lines_definition h]
  · have allSettled : Build.AllSettled (.text word :: parts) :=
      List.forall_mem_cons.mpr ⟨hw.settled, settled⟩
    rw [Build.application_plain run rfl hitems hfirst allSettled, pure_bind,
      display_wellFormed run (rule_wellFormed.application hw hparts), lines_application h]

/-- Two lines and a text. -/
def brokenItems : List (Value Empty) := [.doc twoLines, .str "e"]

/-- On four columns, with a body that takes three columns and has two of them. -/
theorem display_expressions_brokenItems :
    (Value.str "begin" : Value Empty).plainDoc? = some (.text "begin") ∧ Text.Unbroken "begin" ∧
    (Value.str "x" : Value Empty).plainDoc? = some (.text "x") ∧ Text.Unbroken "x" ∧
    (Value.doc threeColumns).plainDoc? = some threeColumns ∧ threeColumns.WellFormed ∧
    Plain brokenItems [twoLines, .text "e"] ∧ (∀ d ∈ [twoLines, .text "e"], d.WellFormed) ∧
    (do
      let d ← Build.block Empty.elim (.str "begin") (.list brokenItems)
      Page.display Empty.elim (.doc d) (.int 4)) = pure ["(begin", "  ab", "  c", "  e)"] ∧
    (do
      let d ← Build.definition Empty.elim (.str "begin") (.str "x") (.doc threeColumns)
      Page.display Empty.elim (.doc d) (.int 4)) = pure ["(begin x", "  d", "  dd)"] ∧
    (do
      let d ← Build.application Empty.elim (.str "begin") (.list brokenItems)
      Page.display Empty.elim (.doc d) (.int 4)) = pure ["(begin", " ab", " c", " e)"] := by
  have unbroken : ∀ s ∈ ["ab", "c", "ddd", "d", "dd", "e", "begin", "x"], Text.Unbroken s := by
    decide
  have hword := unbroken "begin" (by simp)
  have hname := unbroken "x" (by simp)
  have hwhole : threeColumns.WellFormed :=
    ⟨rfl, unbroken "ddd" (by simp), unbroken "d" (by simp), unbroken "dd" (by simp)⟩
  have hbody : (Value.doc threeColumns).plainDoc? = some threeColumns := rfl
  have hitems : Plain brokenItems [twoLines, .text "e"] := rfl
  have hparts : ∀ d ∈ [twoLines, .text "e"], d.WellFormed := by
    rw [List.forall_mem_cons, List.forall_mem_singleton]
    exact ⟨⟨unbroken "ab" (by simp), unbroken "c" (by simp)⟩, unbroken "e" (by simp)⟩
  obtain ⟨indented, below, aligned, hindented, hbelow, haligned, hblock, hdefinition, happlication⟩ :=
    display_expressions Empty.elim (plainDoc?_text hword) hword (plainDoc?_text hname) hname
      hbody hwhole hitems hparts 4
  rw [mapM_display_plain Empty.elim hitems hparts] at hindented haligned
  rw [display_wellFormed Empty.elim hwhole] at hbelow
  have hdefinition := hdefinition fun n _ => by
    show (4 : Int) < (5 : Nat) + (1 : Nat) + n + 4
    omega
  have happlication := happlication fun h => by
    obtain ⟨n, hn⟩ := h.columns (List.mem_cons_of_mem _ List.mem_cons_self)
    contradiction
  rw [← pure_injective hindented] at hblock
  rw [← pure_injective hbelow] at hdefinition
  rw [← pure_injective haligned] at happlication
  exact ⟨plainDoc?_text hword, hword, plainDoc?_text hname, hname, hbody, hwhole, hitems, hparts,
    hblock, hdefinition, happlication⟩

end DocLayout
