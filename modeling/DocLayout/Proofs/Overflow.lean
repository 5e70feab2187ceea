import DocLayout.Proofs.Forms
import DocLayout.Proofs.Separated
import DocLayout.Proofs.Writing
import Mathlib.Data.List.DropRight

/-
  How far s-expressions overflow their page.

  The parentheses of an s-expression are not counted in the choice between them: it begins behind the
  opening parenthesis, and the closing one comes behind it, whatever room there is. So lines can be too
  long, and the question is by what. The answer has two parts. Closing parentheses at the end of a line
  are free. Without them a line is within the page, or there was nothing on it that could be broken:
  only the spaces that it began with, opening parentheses, and one atom at most.

  The invariant is about a canvas with a document behind it. A document is laid out in the column where
  the canvas ends, and what stands there on the line is a `Lead`: spaces and opening parentheses. Texts
  of several words come from a flat alternative that fits, and these are exact, so they end within the
  page. A broken alternative begins a line with each of its parts, and behind the last of them there is
  nothing but closing parentheses.

  Only forms without definitions are covered. The flat alternative of a definition is fit on the page with
  its parentheses, but its broken one has the keyword and the head on one line, however long that is.

  Proved:
  * `drawing_of_fits`: an ordered document that fits is drawn as one text that ends within the page.
  * `tidy_atom`, `tidy_parens`, `tidy_vert`, `tidy_indented`, `tidy_choice`: one lemma for each way that
    the parts of an s-expression are put together, and `tidy_doc` by induction on the form.
  * `display_keepsTo`: on a page of any width all lines of a form keep to it in this sense.
-/

namespace DocLayout

/-! ## Lines that keep to a page -/

/-- A line without the closing parentheses at its end. -/
def unclosed (line : String) : List Char := line.toList.rdropWhile (· == ')')

/-- Spaces, and opening parentheses behind them. -/
def Lead (cs : List Char) : Prop := ∃ m n, cs = List.replicate m ' ' ++ List.replicate n '('

/-- A line that is `w` columns long at most, or that has nothing but spaces, opening parentheses behind
them and one atom at most behind these, when the closing parentheses at its end are taken off. -/
def KeepsTo (w : Int) (line : String) : Prop :=
  ((unclosed line).length : Int) ≤ w ∨ Lead (unclosed line) ∨
    ∃ lead, Lead lead ∧ ∃ a : Atom, unclosed line = lead ++ a.name.toList

variable {w : Int} {s : String} {cs : List Char}

theorem lead_spaces (n : Int) : Lead (Canvas.spaces n).toList :=
  ⟨n.toNat, 0, by rw [Canvas.toList_spaces, List.replicate_zero, List.append_nil]⟩

theorem Lead.opened (h : Lead cs) : Lead (cs ++ ['(']) := by
  obtain ⟨m, n, rfl⟩ := h
  exact ⟨m, n + 1, by rw [List.replicate_succ', List.append_assoc]⟩

theorem Lead.not_closing (h : Lead cs) : ∀ c ∈ cs, c ≠ ')' := by
  obtain ⟨m, n, rfl⟩ := h
  intro c hc
  rcases List.mem_append.mp hc with hc | hc
  · rw [List.eq_of_mem_replicate hc]
    decide
  · rw [List.eq_of_mem_replicate hc]
    decide

/-- A line without closing parentheses has none at its end. -/
theorem unclosed_eq_self (h : ∀ c ∈ s.toList, c ≠ ')') : unclosed s = s.toList := by
  refine List.rdropWhile_eq_self_iff.mpr fun hne => ?_
  rw [beq_iff_eq]
  exact h _ (List.getLast_mem hne)

/-- One more closing parenthesis at the end of a line does not count. -/
theorem unclosed_close (s : String) : unclosed (s ++ ")") = unclosed s := by
  rw [unclosed, String.toList_append]
  exact List.rdropWhile_concat_pos (· == ')') s.toList ')' rfl

theorem keepsTo_within (h : (s.length : Int) ≤ w) : KeepsTo w s := by
  have hle : (unclosed s).length ≤ s.toList.length := (List.rdropWhile_prefix _ _).length_le
  rw [String.length_toList] at hle
  exact .inl (by omega)

theorem keepsTo_lead (h : Lead s.toList) : KeepsTo w s := by
  right; left
  rwa [unclosed_eq_self h.not_closing]

theorem keepsTo_atom (h : Lead s.toList) (a : Atom) : KeepsTo w (s ++ a.name) := by
  have hopen : ∀ c ∈ (s ++ a.name).toList, c ≠ ')' := by
    rw [String.toList_append, List.forall_mem_append]
    exact ⟨h.not_closing, fun c hc => (a.plain c hc).2.2⟩
  right; right
  exact ⟨s.toList, h, a, by rw [unclosed_eq_self hopen, String.toList_append]⟩

theorem keepsTo_close (h : KeepsTo w s) : KeepsTo w (s ++ ")") := by
  rwa [KeepsTo, unclosed_close]

/-! ## Documents that fit -/

variable {α : Type}

/-- An ordered document that fits is drawn as one text that ends within the page. -/
theorem drawing_of_fits {d : Doc α} (h : d.Orderly) {column : Int} (hc : 0 ≤ column)
    (hfit : d.flatWidth.Fits column w) :
    ∃ s, d.drawing w column column = Canvas.empty.write s ∧ column + s.length ≤ w := by
  obtain ⟨n, hn, hle⟩ := fits_iff.mp hfit
  have hspend : ∀ t ∈ d.course w column column, ¬ Task.Overspends w t :=
    not_overspends_of_ordered h.ordered
  obtain ⟨hroom, hend⟩ := hasRoom_of_not_overspends h.wellFormed hn hle hspend
  have hsize := unbroken_of_level fun t ht => (hroom t ht).level
  rw [endColumn_eq_cursor w d hc hc, Canvas.cursor, if_pos hsize] at hend
  refine ⟨(d.drawing w column column).current, ?_, by omega⟩
  rw [Canvas.write, Canvas.empty, String.empty_append, ← Array.eq_empty_of_size_eq_zero hsize]

/-! ## Tidy documents -/

/-- A document that leaves all lines of a canvas as they keep to the page, when it is laid out behind
a lead. -/
def Doc.Tidy (w : Int) (d : Doc α) : Prop :=
  ∀ canvas : Canvas, canvas.AllLines (KeepsTo w) → Lead canvas.current.toList →
    (canvas.append (d.drawing w canvas.current.length canvas.current.length)).AllLines (KeepsTo w)

variable {a b d : Doc α} {ds : List (Doc α)}

/-- What hangs behind a text is laid out where the text ends. -/
theorem append_drawing_horz_text (canvas : Canvas) (s : String) (d : Doc α) (w indent column : Int) :
    canvas.append ((Doc.horz (.text s) d).drawing w indent column) =
      (canvas.write s).append (d.drawing w (column + s.length) (column + s.length)) := by
  rw [Doc.horz, Doc.drawing, Doc.drawing, ← Canvas.append_assoc, Canvas.append_write_empty]
  rfl

theorem tidy_atom (a : Atom) : (Doc.text a.name : Doc α).Tidy w := by
  intro canvas hc hlead
  rw [Doc.drawing, Canvas.append_write_empty]
  exact allLines_write_of_current hc (keepsTo_atom hlead a)

theorem tidy_nil : (Doc.nil : Doc α).Tidy w := by
  intro canvas hc hlead
  rw [Doc.nil, Doc.drawing, Canvas.append_write_empty, Canvas.write, String.append_empty]
  exact hc

theorem tidy_horz_nil (h : d.Tidy w) : (Doc.horz d .nil).Tidy w := by
  intro canvas hc hlead
  rw [Doc.nil, drawing_horz_text, Canvas.write, String.append_empty]
  exact h canvas hc hlead

/-- The opening parenthesis makes the lead longer, and the closing one does not count. -/
theorem tidy_parens (h : d.Tidy w) : (Doc.parens d).Tidy w := by
  intro canvas hc hlead
  have hopened : Lead (canvas.write "(").current.toList := by
    rw [Canvas.write, String.toList_append]
    exact hlead.opened
  have hinner := h (canvas.write "(") (allLines_write_of_current hc (keepsTo_lead hopened)) hopened
  have hlength : ((canvas.write "(").current.length : Int) = canvas.current.length + 1 := by
    rw [Canvas.write, String.length_append]
    rfl
  rw [hlength] at hinner
  rw [Doc.parens, drawing_horz_text, Canvas.append_write, append_drawing_horz_text]
  exact allLines_write_of_current hinner (keepsTo_close hinner.current)

/-- What is laid out on a new line finds only spaces there. -/
theorem tidy_below (ha : a.Tidy w)
    (hb : ∀ (canvas : Canvas) (n : Nat), canvas.AllLines (KeepsTo w) →
      canvas.current = Canvas.spaces n → (canvas.append (b.drawing w n n)).AllLines (KeepsTo w)) :
    (Doc.vert a b).Tidy w := by
  intro canvas hc hlead
  rw [Doc.drawing, ← Canvas.append_assoc, Canvas.append_breakLine]
  exact hb _ _ (allLines_breakLine (ha canvas hc hlead) (keepsTo_lead (lead_spaces _))) rfl

theorem tidy_vert (ha : a.Tidy w) (hb : b.Tidy w) : (Doc.vert a b).Tidy w := by
  refine tidy_below ha fun canvas n hc hcurrent => ?_
  have hlayout := hb canvas hc (hcurrent ▸ lead_spaces n)
  rwa [hcurrent, Canvas.length_spaces (Int.natCast_nonneg n)] at hlayout

/-- A space at the start of a line is one more of the spaces there. -/
theorem tidy_indented (ha : a.Tidy w) (hb : b.Tidy w) :
    (Doc.vert a (.horz (.text " ") b)).Tidy w := by
  refine tidy_below ha fun canvas n hc hcurrent => ?_
  have hspaces : (canvas.write " ").current = Canvas.spaces (n + 1) := by
    rw [Canvas.spaces_add (Int.natCast_nonneg n) (by decide), ← hcurrent]
    rfl
  have hlead : Lead (canvas.write " ").current.toList := hspaces ▸ lead_spaces (n + 1)
  have hlayout := hb _ (allLines_write_of_current hc (keepsTo_lead hlead)) hlead
  rw [hspaces, Canvas.length_spaces (by omega)] at hlayout
  rw [append_drawing_horz_text]
  exact hlayout

/-- A flat alternative that fits ends within the page, so only the broken one has to be looked at. -/
theorem tidy_choice (ha : a.Orderly) (hb : b.Tidy w) : (Doc.choice a b).Tidy w := by
  intro canvas hc hlead
  rw [Doc.choice, Doc.drawing]
  split
  · rename_i hfit
    obtain ⟨s, hs, hle⟩ := drawing_of_fits ha (Int.natCast_nonneg _) hfit
    rw [hs, Canvas.append_write_empty]
    refine allLines_write_of_current hc (keepsTo_within ?_)
    rw [String.length_append]
    omega
  · exact hb canvas hc hlead

variable {κ : Type}

theorem tidy_sepBy {items : List (Doc (Value κ))} (ho : ∀ d ∈ items, d.Orderly)
    (ht : ∀ d ∈ items, d.Tidy w) : (Doc.sepBy items (.text " ") .nil).Tidy w := by
  have hrow : ∀ d ∈ Doc.spaced (.text " ") items, d.Orderly :=
    Doc.forall_mem_spaced (rule_orderly.text (by decide)) ho
  have hcolumn : ∀ d ∈ Doc.withEnds .nil items, d.Tidy w :=
    Doc.forall_mem_withEnds (fun d hd => tidy_horz_nil (ht d hd)) ht
  exact tidy_choice (rule_orderly.horzList hrow) (joined_keeps tidy_nil tidy_vert hcolumn)

/-! ## Forms without definitions -/

namespace Form

mutual

/-- A form that is made of atoms, applications and blocks. -/
def DefinitionFree : Form → Prop
  | atom _ => True
  | application function arguments => function.DefinitionFree ∧ AllDefinitionFree arguments
  | definition _ _ _ => False
  | block keyword bodies => keyword.DefinitionFree ∧ AllDefinitionFree bodies

/-- Forms that are made of atoms, applications and blocks. -/
def AllDefinitionFree : List Form → Prop
  | [] => True
  | t :: ts => t.DefinitionFree ∧ AllDefinitionFree ts

end

mutual

theorem tidy_doc : ∀ {t : Form}, t.DefinitionFree → (t.doc : Doc (Value κ)).Tidy w
  | atom a, _ => tidy_atom a
  | application function arguments, h =>
    tidy_parens (tidy_sepBy (orderly_docs (function :: arguments))
      (List.forall_mem_cons.mpr ⟨tidy_doc h.1, tidy_docs h.2⟩))
  | definition _ _ _, h => h.elim
  | block _ _, h =>
    tidy_parens (tidy_indented (tidy_doc h.1) (joined_keeps tidy_nil tidy_vert (tidy_docs h.2)))

theorem tidy_docs : ∀ {ts : List Form}, AllDefinitionFree ts →
    ∀ d ∈ (docs ts : List (Doc (Value κ))), d.Tidy w
  | [], _ => List.forall_mem_nil _
  | _ :: _, h => List.forall_mem_cons.mpr ⟨tidy_doc h.1, tidy_docs h.2⟩

end

end Form

/-- On a page of any width every line of a form of atoms, applications and blocks is within the page, or
it consists of spaces, opening parentheses and one atom at most, when the closing parentheses at its end
are taken off. -/
theorem display_keepsTo (run : Interpreter κ) {t : Form} (ht : t.DefinitionFree) (w : Int) :
    ∃ lines, (do Page.display run (← t.value run) (.int w)) = pure lines ∧
      ∀ line ∈ lines, KeepsTo w line := by
  obtain ⟨v, hv, hplain⟩ := Form.value_doc run t
  refine ⟨((t.doc : Doc (Value κ)).drawing w 0 0).lines, ?_, ?_⟩
  · rw [hv, pure_bind, display_plain run hplain (Form.orderly_doc t).wellFormed]
  · have hempty : Lead Canvas.empty.current.toList := lead_spaces 0
    have hlines : Canvas.empty.AllLines (KeepsTo w) :=
      List.forall_mem_singleton.mpr (keepsTo_lead hempty)
    have htidy : (t.doc : Doc (Value κ)).Tidy w := Form.tidy_doc ht
    have hpage := htidy Canvas.empty hlines hempty
    rw [Canvas.AllLines, empty_append_lines] at hpage
    exact hpage

/-- An atom of four characters in a block in an application. -/
def longAtom : Form :=
  .application (.atom ⟨"f", by decide, by decide, by simp⟩)
    [.block (.atom ⟨"g", by decide, by decide, by simp⟩)
      [.atom ⟨"aaaa", by decide, by decide, by simp⟩, .atom ⟨"b", by decide, by decide, by simp⟩]]

theorem display_keepsTo_longAtom :
    longAtom.DefinitionFree ∧
    (do Page.display (κ := Empty) Empty.elim (← longAtom.value Empty.elim) (.int 4)) =
      pure ["(f", " (g", "   aaaa", "   b))"] ∧
    ∀ line ∈ ["(f", " (g", "   aaaa", "   b))"], KeepsTo 4 line := by
  have hfree : longAtom.DefinitionFree := ⟨trivial, ⟨trivial, trivial, trivial, trivial⟩, trivial⟩
  have hpage : (do Page.display (κ := Empty) Empty.elim (← longAtom.value Empty.elim) (.int 4)) =
      pure ["(f", " (g", "   aaaa", "   b))"] := by
    obtain ⟨v, hv, hplain⟩ := Form.value_doc (κ := Empty) Empty.elim longAtom
    have hlines : ((longAtom.doc : Doc (Value Empty)).drawing 4 0 0).lines =
        ["(f", " (g", "   aaaa", "   b))"] := by decide +kernel
    rw [hv, pure_bind, display_plain Empty.elim hplain (Form.orderly_doc longAtom).wellFormed, hlines]
  obtain ⟨lines, hlines, hkeeps⟩ := display_keepsTo (κ := Empty) Empty.elim hfree 4
  rw [← pure_injective (hpage.symm.trans hlines)] at hkeeps
  exact ⟨hfree, hpage, hkeeps⟩

end DocLayout
