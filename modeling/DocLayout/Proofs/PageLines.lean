import DocLayout.Proofs.Composition
import DocLayout.Proofs.Keeping
import DocLayout.Proofs.PageText
import DocLayout.Proofs.Safety

/-
  The lines of a page and its text.

  A text is admitted to a document if it holds none of the characters that end a line, and layouts
  write nothing else but spaces. So no line of a page holds one of them. A page is formatted as its
  lines with a line feed between two of them, and since no line has a line feed of its own, the text
  of a page can be cut into its lines again.

  Proved:
  * `text_eq_intercalate`, `splitNewlines_text`: the text of lines, and the lines of a text.
  * `page_lines_unbroken`: what a page shows, formatted and printed, for every width and every end.
-/

namespace DocLayout

/-! ## Lines and text -/

theorem Text.splitNewlines_eq_splitOn (cs : List Char) : splitNewlines cs = cs.splitOn '\n' := by
  induction cs with
  | nil => rfl
  | cons c cs ih =>
    rw [splitNewlines, List.splitOn_cons_eq_if_modifyHead, ← ih]
    by_cases hc : c = '\n'
    · rw [if_pos hc, if_pos (beq_iff_eq.mpr hc)]
    · rw [if_neg hc, if_neg (mt beq_iff_eq.mp hc)]
      cases hs : splitNewlines cs with
      | nil => exact absurd hs (splitNewlines_ne_nil cs)
      | cons piece pieces => rfl

theorem Text.unbroken_iff {s : String} : Unbroken s ↔ ∀ c ∈ s.toList, c ∉ boundaries := by
  simp only [Unbroken, isBoundary, List.contains_eq_mem, decide_eq_false_iff_not]

namespace Page

/-- The text of lines is made of them and of the line feeds between them. -/
theorem text_eq_intercalate (lines : List String) : text lines = "\n".intercalate lines := by
  induction lines with
  | nil => rfl
  | cons line lines ih =>
    cases lines with
    | nil => rw [← String.toList_inj, toList_text_singleton, String.intercalate_singleton]
    | cons next rest =>
      rw [← String.toList_inj, toList_text_cons_cons, ih, String.intercalate_cons_cons,
        String.toList_append, String.toList_append, List.append_assoc]
      rfl

/-- The text of lines without a line feed can be cut into these lines. -/
theorem splitNewlines_text {lines : List String} (hne : lines ≠ [])
    (h : ∀ line ∈ lines, Text.Unbroken line) :
    (Text.splitNewlines (text lines).toList).map String.ofList = lines := by
  have hfeed : ∀ cs ∈ lines.map String.toList, '\n' ∉ cs := by
    intro cs hcs hmem
    obtain ⟨line, hline, rfl⟩ := List.mem_map.mp hcs
    exact absurd (h line hline '\n' hmem) (by decide)
  rw [text_eq_intercalate, String.toList_intercalate, Text.splitNewlines_eq_splitOn]
  have hcut := List.splitOn_intercalate '\n' hfeed (by simpa using hne)
  show (List.splitOn '\n' (['\n'].intercalate _)).map String.ofList = lines
  rw [hcut, List.map_map]
  exact List.map_id'' (fun line => String.ofList_toList) lines

variable {κ : Type} {run : Interpreter κ} {v width : Value κ} {lines : List String}

theorem format_of_display (h : display run v width = pure lines) :
    format run v width = pure (text lines) := by
  rw [format, h]
  rfl

theorem print_of_display (h : display run v width = pure lines) (last : Value κ) :
    print run v width last = pure (pageWrites lines last) := by
  rw [print, h]
  rfl

/-- A text at the end of a page is written as it is. -/
theorem exists_ending (last : String) :
    ∃ writes : List String, ending (.str last : Value κ) = writes.map .str ∧
      String.join writes = last := by
  rw [ending]
  by_cases h : (Value.str last : Value κ).isTruthy
  · refine ⟨[last], if_pos h, ?_⟩
    rw [String.join_cons]
    exact String.append_empty
  · have hempty : last = "" := by simpa [Value.isTruthy] using h
    exact ⟨[], if_neg h, hempty.symm⟩

/-- What is written for a page with a text behind it comes to the text of its lines and that text. -/
theorem exists_pageWrites (lines : List String) (last : String) :
    ∃ writes : List String, pageWrites lines (.str last : Value κ) = writes.map .str ∧
      String.join writes = text lines ++ last := by
  obtain ⟨behind, hbehind, hjoin⟩ := exists_ending (κ := κ) last
  refine ⟨writes lines "\n" ++ behind, ?_, ?_⟩
  · rw [pageWrites, hbehind, List.map_append]
  · rw [String.join_append, hjoin, text]

/-- With nothing for an end the lines and line feeds are all that is written. -/
theorem pageWrites_of_not_truthy (lines : List String) {last : Value κ}
    (h : last.isTruthy = false) : pageWrites lines last = (writes lines "\n").map .str := by
  rw [pageWrites, ending, h]
  exact List.append_nil _

end Page

/-! ## Pages of documents -/

variable {κ : Type} (run : Interpreter κ)

theorem eq_ok_of_ofExcept {β : Type} {e : Except Failure β} {x : β}
    (h : (ofExcept e : Effect κ β) = pure x) : e = .ok x := by
  cases e with
  | error f => exact nomatch congrFun h Session.empty
  | ok y => exact congrArg Except.ok (pure_injective h)

/-- The lines that a page shows are the display of its document. -/
theorem display_of_page {d : Doc (Value κ)} {width : Value κ} {lines : List String}
    (h : Page.display run (.doc d) width = pure lines) : d.display (.ofValue width) = .ok lines := by
  rw [display_doc] at h
  exact eq_ok_of_mapError (eq_ok_of_ofExcept h)

/-- On a page whose width is a number a well formed document is shown. -/
theorem exists_pageDisplay {d : Doc (Value κ)} (hd : d.WellFormed) {width : Value κ}
    (hw : (Width.ofValue width).Comparable) :
    ∃ lines, Page.display run (.doc d) width = pure lines := by
  obtain ⟨lines, hlines⟩ : ∃ lines, d.display (.ofValue width) = .ok lines := exists_display hd hw
  refine ⟨lines, ?_⟩
  rw [display_doc, Doc.lines, hlines]
  rfl

/-- A text becomes a document exactly if it holds none of the characters that end a line. On a page
whose width is a number a well formed document is shown as lines, and whatever lines a page shows,
none of them holds such a character. So the text of the page is these lines with line feeds between
them, cutting it at its line feeds gives the lines back, and what is printed comes to the text of the
page and the end behind it. No end is written if there is none or it is empty. -/
theorem page_lines_unbroken :
    (∀ s : String, (∃ d, (Value.str s : Value κ).toText = .ok d) ↔
      ∀ c ∈ s.toList, c ∉ Text.boundaries) ∧
    ∀ (d : Doc (Value κ)) (width : Value κ), d.WellFormed →
      ((Width.ofValue width).Comparable → ∃ lines, Page.display run (.doc d) width = pure lines) ∧
      ∀ lines, Page.display run (.doc d) width = pure lines →
        (∀ line ∈ lines, ∀ c ∈ line.toList, c ∉ Text.boundaries) ∧
        Page.format run (.doc d) width = pure ("\n".intercalate lines) ∧
        (Text.splitNewlines ("\n".intercalate lines).toList).map String.ofList = lines ∧
        (∀ last : String, ∃ writes : List String,
          Page.print run (.doc d) width (.str last) = pure (writes.map .str) ∧
          String.join writes = "\n".intercalate lines ++ last) ∧
        ∀ last : Value κ, last.isTruthy = false →
          Page.print run (.doc d) width last = pure ((Page.writes lines "\n").map .str) ∧
          String.join (Page.writes lines "\n") = "\n".intercalate lines := by
  constructor
  · intro s
    rw [← Text.unbroken_iff, ← Text.oneLine_iff, Value.toText, Doc.ofText, Doc.text?]
    by_cases hs : Text.oneLine s
    · simp [hs]
    · simp [hs]
  · intro d width hd
    constructor
    · exact exists_pageDisplay run hd
    · intro lines hlines
      have hdisplay := display_of_page run hlines
      have hunbroken := display_unbroken hd hdisplay
      simp only [← Page.text_eq_intercalate]
      refine ⟨fun line hline => Text.unbroken_iff.mp (hunbroken line hline),
        Page.format_of_display hlines, Page.splitNewlines_text (display_ne_nil hdisplay) hunbroken,
        ?_, ?_⟩
      · intro last
        obtain ⟨writes, hwrites, hjoin⟩ := Page.exists_pageWrites (κ := κ) lines last
        exact ⟨writes, by rw [Page.print_of_display hlines, hwrites], hjoin⟩
      · intro last hlast
        refine ⟨?_, rfl⟩
        rw [Page.print_of_display hlines, Page.pageWrites_of_not_truthy lines hlast]

/-- Two lines, the second one indented; the first one may be a single line as well. -/
def indentedPair : Doc (Value Empty) :=
  .horz (.text "a\t") (.choice (.text "bcd") (.vert (.text "b") (.text "cd")))

theorem page_lines_unbroken_indentedPair :
    indentedPair.WellFormed ∧ (Width.ofValue (.int 4 : Value Empty)).Comparable ∧
    (Value.null : Value Empty).isTruthy = false ∧
    ∃ lines, Page.display Empty.elim (.doc indentedPair) (.int 4) = pure lines ∧
      (∀ line ∈ lines, ∀ c ∈ line.toList, c ∉ Text.boundaries) ∧
      Page.format Empty.elim (.doc indentedPair) (.int 4) = pure ("\n".intercalate lines) ∧
      (Text.splitNewlines ("\n".intercalate lines).toList).map String.ofList = lines ∧
      (∃ writes : List String,
        Page.print Empty.elim (.doc indentedPair) (.int 4) (.str ";") = pure (writes.map .str) ∧
        String.join writes = "\n".intercalate lines ++ ";") ∧
      Page.print Empty.elim (.doc indentedPair) (.int 4) .null =
        pure ((Page.writes lines "\n").map .str) ∧
      String.join (Page.writes lines "\n") = "\n".intercalate lines := by
  have unbroken : ∀ s ∈ ["a\t", "bcd", "b", "cd"], Text.Unbroken s := by decide
  have hd : indentedPair.WellFormed :=
    ⟨rfl, unbroken "a\t" (by simp), rfl, unbroken "bcd" (by simp), unbroken "b" (by simp),
      unbroken "cd" (by simp)⟩
  obtain ⟨-, page⟩ := page_lines_unbroken (κ := Empty) Empty.elim
  obtain ⟨shown, lines⟩ := page indentedPair (.int 4) hd
  obtain ⟨ls, hls⟩ := shown trivial
  obtain ⟨hboundary, hformat, hsplit, hprint, hnone⟩ := lines ls hls
  exact ⟨hd, trivial, rfl, ls, hls, hboundary, hformat, hsplit, hprint ";", hnone .null rfl⟩

end DocLayout
