import DocLayout.Build.Plain
import DocLayout.Proofs.Composition
import Mathlib.Data.List.Chain

/-
  Paragraphs: words filled into lines, first fit.

  A paragraph takes its words one by one. A word goes behind the separator on the line in the making if
  it fits there, and begins the next line if not. `Filling` is how far that has come: the lines that are
  done, as groups of words, and the line in the making. The layout decides on the column, and that is the
  length of the line in the making, whatever ends the lines before.

  Proved:
  * `firstFit_concat`: what a last line adds to lines that are broken first fit.
  * `shows_fillWord`, `shows_foldl`: one more word in a paragraph is one more word in its filling, and so
    a whole paragraph shows the filling of its words.
  * `firstFit_add`, `firstFit_foldl`: a filling breaks its words first fit, word by word.
  * `firstFit_unique`: there is no other way to do that.
  * `display_wrap`: what is displayed of a paragraph is the first fit of its words.
-/

namespace DocLayout

/-! ## Lines of words -/

theorem intercalate_concat (sep word : String) {line : List String} (h : line ≠ []) :
    sep.intercalate (line ++ [word]) = sep.intercalate line ++ sep ++ word := by
  induction line with
  | nil => exact absurd rfl h
  | cons first rest ih =>
    cases rest with
    | nil => rw [List.singleton_append, String.intercalate_cons_cons, String.intercalate_singleton,
        String.intercalate_singleton]
    | cons second rest =>
      have hrest := ih (List.cons_ne_nil second rest)
      rw [List.cons_append, List.cons_append, String.intercalate_cons_cons, ← List.cons_append, hrest,
        String.intercalate_cons_cons]
      simp only [String.append_assoc]

/-- More words make no shorter line. -/
theorem length_intercalate_le (sep : String) {line : List String} (h : line ≠ [])
    (more : List String) :
    (sep.intercalate line).length ≤ (sep.intercalate (line ++ more)).length := by
  induction more generalizing line with
  | nil => rw [List.append_nil]
  | cons word more ih =>
    have hnext := ih (List.append_ne_nil_of_left_ne_nil h [word])
    rw [List.append_assoc, List.singleton_append] at hnext
    refine Nat.le_trans ?_ hnext
    rw [intercalate_concat sep word h, String.length_append, String.length_append, Nat.add_assoc]
    exact Nat.le_add_right _ _

/-- The lines of a paragraph from the words on each of them. Every line but the last has `lineEnd`
behind it. -/
def paragraphLines (sep lineEnd : String) (groups : List (List String)) : List String :=
  (groups.dropLast.map fun line => sep.intercalate line ++ lineEnd) ++
    groups.getLast?.toList.map (sep.intercalate ·)

/-! ## First fit -/

/-- Words on lines of `w` columns, each line as long as it can be: none is without a word, only a word
alone may be too long for the page, and none has room for the first word of the next. -/
structure FirstFit (sep : String) (w : Int) (words : List String) (groups : List (List String)) :
    Prop where
  whole : groups.flatten = words
  nonempty : ∀ line ∈ groups, line ≠ []
  fits : ∀ line ∈ groups, line.length = 1 ∨ ((sep.intercalate line).length : Int) ≤ w
  full : groups.IsChain fun line next => ∀ word ∈ next.head?,
    w < (sep.intercalate line).length + sep.length + word.length

variable {sep : String} {w : Int} {words : List String}

/-- What the last line adds to the lines before it. -/
theorem firstFit_concat {done : List (List String)} {line : List String} :
    FirstFit sep w words (done ++ [line]) ↔
      FirstFit sep w done.flatten done ∧ done.flatten ++ line = words ∧ line ≠ [] ∧
      (line.length = 1 ∨ ((sep.intercalate line).length : Int) ≤ w) ∧
      ∀ before ∈ done.getLast?, ∀ word ∈ line.head?,
        w < (sep.intercalate before).length + sep.length + word.length := by
  constructor
  · intro h
    obtain ⟨hdone, hline⟩ := List.forall_mem_append.mp h.nonempty
    obtain ⟨hfits, hfit⟩ := List.forall_mem_append.mp h.fits
    obtain ⟨hchain, -, hlast⟩ := List.isChain_append.mp h.full
    have hwhole := h.whole
    rw [List.flatten_append, List.flatten_singleton] at hwhole
    exact ⟨⟨rfl, hdone, hfits, hchain⟩, hwhole, hline line List.mem_cons_self,
      hfit line List.mem_cons_self, fun before hbefore => hlast before hbefore line rfl⟩
  · rintro ⟨hdone, hwhole, hline, hfit, hlast⟩
    refine ⟨?_, ?_, ?_, ?_⟩
    · rw [List.flatten_append, List.flatten_singleton, hwhole]
    · exact List.forall_mem_append.mpr ⟨hdone.nonempty, List.forall_mem_singleton.mpr hline⟩
    · exact List.forall_mem_append.mpr ⟨hdone.fits, List.forall_mem_singleton.mpr hfit⟩
    · refine List.isChain_append.mpr ⟨hdone.full, List.isChain_singleton line, ?_⟩
      intro before hbefore next hnext
      cases hnext
      exact hlast before hbefore

section Unique

variable {line more : List String} {groups groups' : List (List String)}

/-- The lines below the first one fit the words below it. -/
theorem FirstFit.below (h : FirstFit sep w words (line :: groups)) :
    FirstFit sep w groups.flatten groups :=
  ⟨rfl, fun l hl => h.nonempty l (List.mem_cons_of_mem _ hl),
    fun l hl => h.fits l (List.mem_cons_of_mem _ hl), h.full.tail⟩

/-- A line that is full cannot begin a longer one that fits. -/
theorem FirstFit.not_longer (h : FirstFit sep w words (line :: groups))
    (hbelow : groups.flatten = more ++ groups'.flatten)
    (h' : FirstFit sep w words ((line ++ more) :: groups')) : more = [] := by
  cases more with
  | nil => rfl
  | cons word more =>
    have hline := h.nonempty line List.mem_cons_self
    obtain ⟨next, below, rfl⟩ : ∃ next below, groups = next :: below := by
      cases groups with
      | nil => contradiction
      | cons next below => exact ⟨next, below, rfl⟩
    have hfirst : next.head? = some word := by
      have hnext := h.nonempty next (List.mem_cons_of_mem _ List.mem_cons_self)
      obtain ⟨first, rest, rfl⟩ := List.exists_cons_of_ne_nil hnext
      injection hbelow with hfirst
      rw [List.head?_cons, hfirst]
    have hfull := (List.isChain_cons_cons.mp h.full).1 word hfirst
    have hlong := length_intercalate_le sep (List.append_ne_nil_of_left_ne_nil hline [word]) more
    rw [List.append_assoc, List.singleton_append, intercalate_concat sep word hline,
      String.length_append, String.length_append] at hlong
    rcases h'.fits _ List.mem_cons_self with hone | hfit
    · have := List.length_pos_of_ne_nil hline
      rw [List.length_append, List.length_cons] at hone
      omega
    · omega

/-- Words can be broken first fit in one way only. -/
theorem firstFit_unique (h : FirstFit sep w words groups) (h' : FirstFit sep w words groups') :
    groups = groups' := by
  induction groups generalizing words groups' with
  | nil =>
    cases groups' with
    | nil => rfl
    | cons line' groups' =>
      have hwords : words = [] := h.whole.symm
      have hempty := h'.whole
      rw [hwords, List.flatten_cons, List.append_eq_nil_iff] at hempty
      exact absurd hempty.1 (h'.nonempty line' List.mem_cons_self)
  | cons line groups ih =>
    cases groups' with
    | nil =>
      have hwords : words = [] := h'.whole.symm
      have hempty := h.whole
      rw [hwords, List.flatten_cons, List.append_eq_nil_iff] at hempty
      exact absurd hempty.1 (h.nonempty line List.mem_cons_self)
    | cons line' groups' =>
      have hsame : line ++ groups.flatten = line' ++ groups'.flatten := h.whole.trans h'.whole.symm
      rcases List.append_eq_append_iff.mp hsame with ⟨more, rfl, hbelow⟩ | ⟨more, rfl, hbelow⟩
      · obtain rfl := h.not_longer hbelow h'
        rw [List.nil_append] at hbelow
        rw [List.append_nil, ih h.below (hbelow ▸ h'.below)]
      · obtain rfl := h'.not_longer hbelow h
        rw [List.nil_append] at hbelow
        have hbelow' : FirstFit sep w groups.flatten groups' := hbelow ▸ h'.below
        rw [List.append_nil, ih h.below hbelow']

end Unique

/-! ## Fillings -/

/-- A paragraph in the making, by the words on each line: the lines that are done, and the line in the
making. -/
structure Filling where
  done : List (List String)
  current : List String

namespace Filling

/-- The words on each line, the line in the making last. -/
def groups (f : Filling) : List (List String) := f.done ++ [f.current]

/-- A filling with one word. -/
def single (word : String) : Filling := ⟨[], [word]⟩

/-- A filling with one more word. -/
def add (sep : String) (w : Int) (f : Filling) (word : String) : Filling :=
  if (sep.intercalate f.current).length + sep.length + word.length ≤ w then
    { f with current := f.current ++ [word] }
  else ⟨f.done ++ [f.current], [word]⟩

end Filling

theorem firstFit_single (word : String) :
    FirstFit sep w [word] (Filling.single word).groups where
  whole := rfl
  nonempty := List.forall_mem_singleton.mpr (List.cons_ne_nil word [])
  fits := List.forall_mem_singleton.mpr (.inl rfl)
  full := List.isChain_singleton [word]

/-- One more word goes where first fit has it. -/
theorem firstFit_add {f : Filling} (h : FirstFit sep w words f.groups) (word : String) :
    FirstFit sep w (words ++ [word]) (f.add sep w word).groups := by
  obtain ⟨hdone, hwhole, hbegun, -, hlast⟩ := firstFit_concat.mp h
  rw [Filling.add]
  split
  · rename_i hroom
    have hlength : ((sep.intercalate (f.current ++ [word])).length : Int) ≤ w := by
      rw [intercalate_concat sep word hbegun, String.length_append, String.length_append]
      omega
    refine firstFit_concat.mpr ⟨hdone, ?_, ?_, .inr hlength, ?_⟩
    · rw [← List.append_assoc, hwhole]
    · exact List.append_ne_nil_of_left_ne_nil hbegun [word]
    · rwa [List.head?_append_of_ne_nil _ hbegun]
  · rename_i hfull
    have hdone : FirstFit sep w f.groups.flatten f.groups := h.whole.symm ▸ h
    refine firstFit_concat.mpr ⟨hdone, ?_, List.cons_ne_nil word [], .inl rfl, ?_⟩
    · exact congrArg (· ++ [word]) h.whole
    · intro before hbefore
      rw [Option.mem_def, List.getLast?_concat] at hbefore
      cases hbefore
      rintro _ ⟨⟩
      exact Int.not_le.mp hfull

/-- A filling breaks its words first fit. -/
theorem firstFit_foldl {f : Filling} (h : FirstFit sep w words f.groups) (more : List String) :
    FirstFit sep w (words ++ more) (more.foldl (Filling.add sep w) f).groups := by
  induction more generalizing f words with
  | nil => rwa [List.append_nil]
  | cons word more ih =>
    have hnext := ih (firstFit_add h word)
    rwa [List.append_assoc, List.singleton_append] at hnext

/-! ## Paragraphs -/

/-- A document is laid out from the start of a line as a filling has it. -/
structure Shows {α : Type} (sep lineEnd : String) (w : Int) (d : Doc α) (f : Filling) : Prop where
  wellFormed : d.WellFormed
  finished : (d.drawing w 0 0).finished.toList =
    f.done.map fun line => sep.intercalate line ++ lineEnd
  current : (d.drawing w 0 0).current = sep.intercalate f.current
  begun : f.current ≠ []

section Shows

variable {α : Type} {lineEnd word : String}

theorem shows_single (hword : Text.Unbroken word) :
    Shows sep lineEnd w (Doc.text word : Doc α) (.single word) where
  wellFormed := hword
  finished := rfl
  current := String.empty_append.trans String.intercalate_singleton.symm
  begun := List.cons_ne_nil word []

/-- A word is drawn behind the separator if it fits there, and on a new line if not. The room is that
behind the line in the making. -/
theorem drawing_fillWord (sep lineEnd word : String) (w : Int) (d : Doc α) :
    (Doc.fillWord (.text sep) (.text lineEnd) d (.text word)).drawing w 0 0 =
      if (d.drawing w 0 0).current.length + sep.length + word.length ≤ w then
        ((d.drawing w 0 0).write sep).write word
      else (((d.drawing w 0 0).write lineEnd).breakLine 0).write word := by
  have hroom : (Doc.horz (.text sep) (.text word) : Doc α).flatWidth.Fits
      (d.drawing w 0 0).current.length w ↔
      ((d.drawing w 0 0).current.length + sep.length + word.length : Int) ≤ w := by
    rw [Int.add_assoc, ← Int.natCast_add]
    exact Iff.rfl
  rw [Doc.fillWord, Doc.concat, Doc.drawing, endColumn_zero, Doc.choice, Doc.drawing]
  split
  · rename_i hfits
    rw [if_pos (hroom.mp hfits)]
    show Canvas.append _ ((Canvas.empty.write sep).append (Canvas.empty.write word)) = _
    simp only [Canvas.append_write, Canvas.append_empty]
  · rename_i hfull
    rw [if_neg (mt hroom.mpr hfull)]
    show Canvas.append _ (((Canvas.empty.write lineEnd).breakLine 0).append
      (Canvas.empty.write word)) = _
    simp only [Canvas.append_write, Canvas.append_breakLine, Canvas.append_empty]

variable (hsep : Text.Unbroken sep) (hend : Text.Unbroken lineEnd)
include hsep hend

/-- One more word in a paragraph is one more word in its filling. -/
theorem shows_fillWord {d : Doc α} {f : Filling} (h : Shows sep lineEnd w d f)
    (hword : Text.Unbroken word) :
    Shows sep lineEnd w (Doc.fillWord (.text sep) (.text lineEnd) d (.text word))
      (f.add sep w word) := by
  have hwellFormed : (Doc.fillWord (.text sep) (.text lineEnd) d (.text word)).WellFormed :=
    ⟨rfl, h.wellFormed, rfl, ⟨rfl, hsep, hword⟩, hend, hword⟩
  have hdrawing := drawing_fillWord sep lineEnd word w d
  rw [h.current] at hdrawing
  rw [Filling.add]
  split
  · rename_i hfits
    rw [if_pos hfits] at hdrawing
    refine ⟨hwellFormed, ?_, ?_, List.append_ne_nil_of_left_ne_nil h.begun [word]⟩
    · rw [hdrawing]
      exact h.finished
    · rw [hdrawing, intercalate_concat sep word h.begun, ← h.current]
      rfl
  · rename_i hfull
    rw [if_neg hfull] at hdrawing
    refine ⟨hwellFormed, ?_, ?_, List.cons_ne_nil word []⟩
    · rw [hdrawing, List.map_append, ← h.finished, List.map_singleton, ← h.current]
      exact Array.toList_push
    · rw [hdrawing, String.intercalate_singleton]
      exact String.empty_append

/-- A paragraph shows the filling of its words. -/
theorem shows_foldl {d : Doc α} {f : Filling} (h : Shows sep lineEnd w d f) {more : List String}
    (hmore : ∀ word ∈ more, Text.Unbroken word) :
    Shows sep lineEnd w ((more.map Doc.text).foldl (Doc.fillWord (.text sep) (.text lineEnd)) d)
      (more.foldl (Filling.add sep w) f) := by
  induction more generalizing d f with
  | nil => exact h
  | cons word more ih =>
    obtain ⟨hword, hrest⟩ := List.forall_mem_cons.mp hmore
    exact ih (shows_fillWord hsep hend h hword) hrest

end Shows

/-- The lines of a document that shows a filling. -/
theorem lines_shows {α : Type} {lineEnd : String} {d : Doc α} {f : Filling}
    (h : Shows sep lineEnd w d f) :
    (d.drawing w 0 0).lines = paragraphLines sep lineEnd f.groups := by
  rw [Canvas.lines, h.finished, h.current, paragraphLines, Filling.groups, List.dropLast_concat,
    List.getLast?_concat]
  rfl

variable {κ : Type}

/-- A paragraph of texts is put together from the documents of the texts. -/
theorem wrap_texts (run : Interpreter κ) {lineEnd : String}
    (hwords : ∀ word ∈ words, Text.Unbroken word) (hsep : Text.Unbroken sep)
    (hend : Text.Unbroken lineEnd) :
    Build.wrap run (.list (words.map .str)) (.str sep) (.str lineEnd) =
      pure (Doc.wrap (words.map .text) (.text sep) (.text lineEnd)) := by
  have hplain : Plain (words.map (Value.str (κ := κ))) (words.map .text) := by
    rw [Plain, List.map_map, List.map_map]
    exact List.map_congr_left fun word hword => text?_unbroken (hwords word hword)
  refine Build.wrap_plain run rfl hplain (text?_unbroken hsep) (text?_unbroken hend) trivial ?_
  intro d hd
  obtain ⟨word, -, rfl⟩ := List.mem_map.mp hd
  trivial

/-- A paragraph of words, with a separator between them and something at the end of every line but the
last, is displayed as its words broken first fit, however wide the page is; and there is only one way to
break words so. -/
theorem display_wrap (run : Interpreter κ) (hne : words ≠ [])
    (hwords : ∀ word ∈ words, Text.Unbroken word) (hsep : Text.Unbroken sep) {lineEnd : String}
    (hend : Text.Unbroken lineEnd) (w : Int) :
    ∃ groups, FirstFit sep w words groups ∧
      (do
        let d ← Build.wrap run (.list (words.map .str)) (.str sep) (.str lineEnd)
        Page.display run (.doc d) (.int w)) = pure (paragraphLines sep lineEnd groups) ∧
      ∀ groups', FirstFit sep w words groups' → groups' = groups := by
  cases words with
  | nil => exact absurd rfl hne
  | cons first rest =>
    obtain ⟨hfirst, hrest⟩ := List.forall_mem_cons.mp hwords
    have hfit : FirstFit sep w ([first] ++ rest) _ := firstFit_foldl (firstFit_single first) rest
    have hshows := shows_foldl (α := Value κ) (w := w) hsep hend (shows_single hfirst) hrest
    refine ⟨_, hfit, ?_, fun groups' h' => firstFit_unique h' hfit⟩
    rw [wrap_texts run hwords hsep hend, pure_bind, display_doc]
    show ofExcept (Doc.lines ((rest.map Doc.text).foldl _ (Doc.text first)) (.int w)) = _
    rw [lines_wellFormed hshows.wellFormed, lines_shows hshows]
    rfl

/-- Words of which one is empty and one is too long for four columns. -/
def unevenWords : List String := ["ab", "", "c", "defgh"]

theorem firstFit_unevenWords : FirstFit " " 4 unevenWords [["ab", ""], ["c"], ["defgh"]] where
  whole := rfl
  nonempty := by decide
  fits := by decide
  full := by decide

theorem display_wrap_unevenWords :
    unevenWords ≠ [] ∧ (∀ word ∈ unevenWords, Text.Unbroken word) ∧ Text.Unbroken " " ∧
    Text.Unbroken "-" ∧
    (do
      let d ← Build.wrap Empty.elim (.list (unevenWords.map .str)) (.str " ") (.str "-")
      Page.display Empty.elim (.doc d) (.int 4)) = pure ["ab -", "c-", "defgh"] := by
  have hwords : ∀ word ∈ unevenWords, Text.Unbroken word := by decide
  have hsep : Text.Unbroken " " := by decide
  have hend : Text.Unbroken "-" := by decide
  obtain ⟨groups, -, hdisplay, hunique⟩ :=
    display_wrap Empty.elim (List.cons_ne_nil _ _) hwords hsep hend 4
  have hlines : paragraphLines " " "-" [["ab", ""], ["c"], ["defgh"]] = ["ab -", "c-", "defgh"] := by
    decide
  rw [← hunique _ firstFit_unevenWords, hlines] at hdisplay
  exact ⟨List.cons_ne_nil _ _, hwords, hsep, hend, hdisplay⟩

end DocLayout
