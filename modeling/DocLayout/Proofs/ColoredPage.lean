import DocLayout.Proofs.PageLines
import DocLayout.Proofs.Stripping

/-
  Pages in colour whose text is not cut.

  Where no lexer is asked for, the text of a page is a single token. Its line ends are made line
  feeds before, and a byte order mark is dropped if the text begins with one. The lines of a page
  hold nothing that ends a line, so there is no line end to be changed; but a byte order mark ends no
  line, a text may begin with it, and then it is missing from the page in colour.

  Proved:
  * `tokens_text`: the one token of a text without a carriage return.
  * `strip_print`: what a page in colour says without its control sequences is what the page says
    without colour, up to a byte order mark at its beginning.
-/

namespace DocLayout.Color

/-! ## The text of a page as a token -/

theorem unixLineEnds_eq_self {cs : List Char} (h : '\r' ∉ cs) : unixLineEnds cs = cs := by
  induction cs using unixLineEnds.induct with
  | case1 => rfl
  | case2 rest ih => exact absurd List.mem_cons_self h
  | case3 c rest hother ih =>
    rw [List.mem_cons, not_or] at h
    rw [unixLineEnds, if_neg (Ne.symm h.1), ih h.2]
    exact hother

theorem dropByteOrderMark_eq_self {cs : List Char} (h : ∀ rest, cs ≠ '\ufeff' :: rest) :
    dropByteOrderMark cs = cs := by
  rw [dropByteOrderMark.eq_def]
  split
  · exact absurd rfl (h _)
  · rfl

/-- A text without a carriage return is one token, and the token is that text without a byte order mark
that it may begin with. -/
theorem tokens_text {source : String} (h : '\r' ∉ source.toList) :
    Lexer.text.tokens source = [⟨"Text", String.ofList (dropByteOrderMark source.toList)⟩] := by
  show [_] = [_]
  rw [unixLineEnds_eq_self fun hmem => h (mem_dropByteOrderMark hmem)]

variable {s : Style}

/-- What is left of the writes for such a text, whatever is written behind them. -/
theorem strip_highlight_text {source : String} (hfree : EscapeFree source)
    (hreturn : '\r' ∉ source.toList) (hs : s.Covers "Text") (d : Depth) :
    ∃ writes, highlight d s .text (.ok "\n") .empty source = (writes, none) ∧
      ∀ u, strip (String.join writes ++ u) =
        String.ofList (dropByteOrderMark source.toList) ++ strip u := by
  have hcovers : ∀ t ∈ Lexer.text.tokens source, t.value ≠ "" → s.Covers t.kind :=
    fun t ht _ => List.mem_singleton.mp ht ▸ hs
  obtain ⟨closing, hwrites, hclosing⟩ := exists_highlight d s .text (.ok "\n") .empty source
  have hfeed : EscapeFree "\n" := by decide
  obtain ⟨writes, q, htoken, hstrip⟩ :=
    strip_tokenWrites hfeed (escapeFree_text hfree) hcovers d .empty []
  rw [List.append_nil, tokenWrites, List.append_nil] at htoken
  refine ⟨writes ++ closing, by rw [hwrites, htoken], fun u => ?_⟩
  rw [String.join_append, String.append_assoc, hstrip, hclosing, withLineEnds_eq_self fun _ => rfl,
    tokens_text hreturn, tokenText_cons]
  exact congrArg (· ++ strip u) String.append_empty

/-! ## Pages -/

theorem writable_escapeFree : Writable EscapeFree := by
  have hchars : EscapeFree = fun s => ∀ c ∈ s.toList, c ≠ '\x1b' := by
    funext s
    exact propext ⟨fun h c hc heq => h (heq ▸ hc), fun h hc => h _ hc rfl⟩
  exact hchars ▸ writable_of_chars (by decide)

variable {κ : Type} (run : Interpreter κ)

theorem print_of_display {v width : Value κ} {lines : List String}
    (h : Page.display run v width = pure lines) {writes : List String} {d : Depth} {s : Style}
    {l : Lexer} (hwrites : highlight d s l (.ok "\n") .empty ("\n".intercalate lines) = (writes, none))
    (last : Value κ) :
    print run ⟨true, d, .ok s, .ok l, .ok "\n"⟩ v width last =
      pure (writes.map .str ++ Page.ending last, none) := by
  rw [print, h, pure_bind, writeLines, writeLinesFrom_texts, hwrites]
  rfl

/-- The page of a well formed document, in colour and without, on a page whose width is a number and
with an end behind it. No escape character is in the texts of the document or in the end, and the style
covers plain text; no lexer is asked for. Then both are printed. If the page does not begin with a byte
order mark, what is left of the page in colour without its control sequences is what is printed without
colour. If it does, that mark is missing, and nothing else. -/
theorem strip_print {d : Doc (Value κ)} (hd : d.WellFormed) (htexts : ∀ t ∈ d.texts, EscapeFree t)
    {width : Value κ} (hwidth : (Width.ofValue width).Comparable) (hs : s.Covers "Text")
    {last : String} (hlast : EscapeFree last) (depth : Depth) :
    ∃ page plain colored,
      Page.format run (.doc d) width = pure page ∧
      Page.print run (.doc d) width (.str last) = pure (plain.map .str) ∧
      print run ⟨true, depth, .ok s, .ok .text, .ok "\n"⟩ (.doc d) width (.str last) =
        pure (colored.map .str, none) ∧
      String.join plain = page ++ last ∧
      ((∀ rest, page.toList ≠ '\ufeff' :: rest) →
        strip (String.join colored) = String.join plain) ∧
      ∀ rest, page = "\ufeff" ++ rest → strip (String.join colored) = rest ++ last := by
  obtain ⟨lines, hlines⟩ := exists_pageDisplay run hd hwidth
  have hdisplay := display_of_page run hlines
  have hfree : EscapeFree ("\n".intercalate lines) :=
    not_mem_intercalate (by decide) (display_allLines writable_escapeFree htexts hdisplay)
  have hreturn : '\r' ∉ ("\n".intercalate lines).toList :=
    not_mem_intercalate (by decide) fun line hline h =>
      absurd (display_unbroken hd hdisplay line hline _ h) (by decide)
  obtain ⟨plain, hplain, hjoin⟩ := Page.exists_pageWrites (κ := κ) lines last
  obtain ⟨behind, hbehind, hlastJoin⟩ := Page.exists_ending (κ := κ) last
  obtain ⟨writes, hwrites, hstrip⟩ := strip_highlight_text hfree hreturn hs depth
  rw [← Page.text_eq_intercalate] at hstrip
  have hcolored : strip (String.join (writes ++ behind)) =
      String.ofList (dropByteOrderMark (Page.text lines).toList) ++ last := by
    rw [String.join_append, hstrip, hlastJoin, strip_eq_self hlast]
  refine ⟨Page.text lines, plain, writes ++ behind, Page.format_of_display hlines, ?_, ?_, hjoin,
    ?_, ?_⟩
  · rw [Page.print_of_display hlines, hplain]
  · rw [print_of_display run hlines hwrites, hbehind, List.map_append]
  · intro hmark
    rw [hcolored, dropByteOrderMark_eq_self hmark, String.ofList_toList, hjoin]
  · intro rest hrest
    rw [hcolored, hrest, String.toList_append]
    show String.ofList rest.toList ++ last = rest ++ last
    rw [String.ofList_toList]

theorem monokai_covers : Style.monokai.Covers "Text" := ⟨_, _, rfl, rfl⟩

/-- A byte order mark in front of the second line, and in front of nothing else. -/
def markBelow : Doc (Value Empty) := .vert (.text "a") (.text "\ufeffb")

/-- A byte order mark in front of the whole text. -/
def markAbove : Doc (Value Empty) := .vert (.text "\ufeffa") (.text "b")

theorem strip_print_marks :
    markBelow.WellFormed ∧ (∀ t ∈ markBelow.texts, EscapeFree t) ∧
    markAbove.WellFormed ∧ (∀ t ∈ markAbove.texts, EscapeFree t) ∧
    (Width.ofValue (.int 10 : Value Empty)).Comparable ∧ Style.monokai.Covers "Text" ∧
    EscapeFree ";" ∧
    (∃ plain colored,
      Page.print Empty.elim (.doc markBelow) (.int 10) (.str ";") = pure (plain.map .str) ∧
      print Empty.elim ⟨true, .trueColor, .ok .monokai, .ok .text, .ok "\n"⟩ (.doc markBelow)
        (.int 10) (.str ";") = pure (colored.map .str, none) ∧
      String.join plain = "a\n\ufeffb;" ∧ strip (String.join colored) = "a\n\ufeffb;") ∧
    ∃ plain colored,
      Page.print Empty.elim (.doc markAbove) (.int 10) (.str ";") = pure (plain.map .str) ∧
      print Empty.elim ⟨true, .trueColor, .ok .monokai, .ok .text, .ok "\n"⟩ (.doc markAbove)
        (.int 10) (.str ";") = pure (colored.map .str, none) ∧
      String.join plain = "\ufeffa\nb;" ∧ strip (String.join colored) = "a\nb;" := by
  have unbroken : ∀ s ∈ ["a", "b", "\ufeffa", "\ufeffb"], Text.Unbroken s := by decide
  have hbelow : markBelow.WellFormed := ⟨unbroken "a" (by decide), unbroken "\ufeffb" (by decide)⟩
  have habove : markAbove.WellFormed := ⟨unbroken "\ufeffa" (by decide), unbroken "b" (by decide)⟩
  have hbelowFree : ∀ t ∈ markBelow.texts, EscapeFree t := by decide
  have haboveFree : ∀ t ∈ markAbove.texts, EscapeFree t := by decide
  have hlast : EscapeFree ";" := by decide
  have page : ∀ {d : Doc (Value Empty)} {text : String} (lines : List String), d.WellFormed →
      (d.drawing 10 0 0).lines = lines →
      Page.format Empty.elim (.doc d) (.int 10) = pure text → text = Page.text lines := by
    intro d text lines hd hlines htext
    have hdisplay : Page.display Empty.elim (.doc d) (.int 10) = pure lines := by
      rw [display_doc, lines_wellFormed hd, hlines]
      rfl
    rw [Page.format_of_display hdisplay] at htext
    exact (Except.ok.inj (eq_ok_of_ofExcept (e := .ok _) htext)).symm
  have hwidth : (Width.ofValue (.int 10 : Value Empty)).Comparable := trivial
  obtain ⟨below, plain, colored, hformat, hplain, hcolored, hjoin, hsame, -⟩ :=
    strip_print Empty.elim hbelow hbelowFree hwidth monokai_covers hlast .trueColor
  obtain ⟨above, plain', colored', hformat', hplain', hcolored', hjoin', -, hmark⟩ :=
    strip_print Empty.elim habove haboveFree hwidth monokai_covers hlast .trueColor
  have hbelowText : below = "a\n\ufeffb" :=
    (page ["a", "\ufeffb"] hbelow rfl hformat).trans (by decide)
  have haboveText : above = "\ufeff" ++ "a\nb" :=
    (page ["\ufeffa", "b"] habove rfl hformat').trans (by decide)
  rw [hbelowText] at hjoin hsame
  rw [haboveText] at hjoin'
  refine ⟨hbelow, hbelowFree, habove, haboveFree, hwidth, monokai_covers, hlast,
    ⟨plain, colored, hplain, hcolored, hjoin, ?_⟩, plain', colored', hplain', hcolored', hjoin', ?_⟩
  · rw [hsame (fun rest h => absurd (List.cons.inj h).1 (by decide)), hjoin]
    rfl
  · exact hmark "a\nb" haboveText

/-- The text of this page begins with a byte order mark, and the page in colour does not have it. -/
theorem colored_without_mark :
    ∃ plain colored,
      Page.print Empty.elim (.doc (.text "\ufeffa")) (.int 10) (.str "\n" : Value Empty) =
        pure (plain.map .str) ∧
      print Empty.elim ⟨true, .trueColor, .ok .monokai, .ok .text, .ok "\n"⟩ (.doc (.text "\ufeffa"))
        (.int 10) (.str "\n" : Value Empty) = pure (colored.map .str, none) ∧
      String.join plain = "\ufeffa\n" ∧ strip (String.join colored) = "a\n" := by
  have hd : (Doc.text "\ufeffa" : Doc (Value Empty)).WellFormed :=
    show Text.Unbroken "\ufeffa" by decide
  have hdisplay : Page.display Empty.elim (.doc (.text "\ufeffa")) (.int 10 : Value Empty) =
      pure ["\ufeffa"] := by
    rw [display_doc, lines_wellFormed hd]
    rfl
  have hfree : EscapeFree ("\n".intercalate ["\ufeffa"]) := by decide
  obtain ⟨writes, hwrites, hstrip⟩ :=
    strip_highlight_text hfree (by decide) monokai_covers .trueColor
  refine ⟨["\ufeffa", "\n"], writes ++ ["\n"], ?_, ?_, by decide, ?_⟩
  · rw [Page.print_of_display hdisplay]
    rfl
  · rw [print_of_display _ hdisplay hwrites, List.map_append]
    rfl
  · rw [String.join_append, hstrip, strip_eq_self (by decide)]
    decide

end DocLayout.Color
