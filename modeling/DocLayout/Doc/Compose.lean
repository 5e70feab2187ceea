import DocLayout.Doc.Basic

/-
  Documents from documents.

  Sequences of documents are put beside each other, one after the other or on top of each other.
  `wrap` breaks a line before a word that does not fit, `sepBy` breaks every line or none, and the
  layouts of s-expressions are made of these.
-/

namespace DocLayout.Doc

variable {α : Type}

/-- The empty text. -/
def nil : Doc α := text ""

/-- The documents of a list joined from the left. -/
def joined (join : Doc α → Doc α → Doc α) : List (Doc α) → Doc α
  | [] => nil
  | d :: ds => ds.foldl join d

/-- Documents side by side, each hanging at the column where the one before it ends. -/
def horzList : List (Doc α) → Doc α := joined horz

/-- Documents on top of each other. -/
def vertList : List (Doc α) → Doc α := joined vert

/-- Documents one after the other at the same indentation. -/
def concatList : List (Doc α) → Doc α := joined concat

/-- A paragraph with one more word: behind the separator if that fits, on a new line if not. -/
def fillWord (separator lineEnd paragraph word : Doc α) : Doc α :=
  concat paragraph (choice (horz separator word) (vert lineEnd word))

/-- A paragraph of words. -/
def wrap (words : List (Doc α)) (separator lineEnd : Doc α) : Doc α :=
  joined (fillWord separator lineEnd) words

/-- Items with a separator before all but the first. -/
def spaced (separator : Doc α) (items : List (Doc α)) : List (Doc α) :=
  items.head?.toList ++ (items.tail.map fun item => [separator, item]).flatten

theorem spaced_eq_intersperse (separator : Doc α) (items : List (Doc α)) :
    spaced separator items = items.intersperse separator := by
  cases items with
  | nil => rfl
  | cons first rest =>
    induction rest generalizing first with
    | nil => rfl
    | cons second rest ih =>
      rw [List.intersperse_cons_cons, ← ih second]
      rfl

/-- Only the items and the separator come to stand on one line. -/
theorem forall_mem_spaced {P : Doc α → Prop} {separator : Doc α} {items : List (Doc α)}
    (hs : P separator) (h : ∀ d ∈ items, P d) : ∀ d ∈ spaced separator items, P d := by
  intro d hd
  rcases List.mem_append.mp hd with hd | hd
  · exact h d (List.mem_of_mem_head? (Option.mem_toList.mp hd))
  · obtain ⟨pair, hpair, hd⟩ := List.mem_flatten.mp hd
    obtain ⟨item, hitem, rfl⟩ := List.mem_map.mp hpair
    rcases List.mem_cons.mp hd with rfl | hd
    · exact hs
    · exact List.mem_singleton.mp hd ▸ h item (List.mem_of_mem_tail hitem)

/-- Items on one line are joined to what stands before them, each behind a separator. -/
theorem horzList_spaced (separator first : Doc α) (rest : List (Doc α)) :
    horzList (spaced separator (first :: rest)) =
      rest.foldl (fun row item => horz (horz row separator) item) first := by
  show ((rest.map fun item => [separator, item]).flatten).foldl horz first = _
  rw [List.foldl_flatten, List.foldl_map]
  rfl

/-- Items with `lineEnd` behind all but the last. -/
def withEnds (lineEnd : Doc α) (items : List (Doc α)) : List (Doc α) :=
  items.dropLast.map (horz · lineEnd) ++ items.getLast?.toList

/-- Items that end their lines are items, or items with `lineEnd` behind them. -/
theorem forall_mem_withEnds {P : Doc α → Prop} {lineEnd : Doc α} {items : List (Doc α)}
    (hends : ∀ d ∈ items, P (horz d lineEnd)) (h : ∀ d ∈ items, P d) :
    ∀ d ∈ withEnds lineEnd items, P d := by
  intro d hd
  rcases List.mem_append.mp hd with hd | hd
  · obtain ⟨item, hitem, rfl⟩ := List.mem_map.mp hd
    exact hends item (List.dropLast_subset _ hitem)
  · exact h d (List.mem_of_getLast? (Option.mem_toList.mp hd))

/-- Items on one line with a separator between them, or one on each line with `lineEnd` behind all
but the last. -/
def sepBy (items : List (Doc α)) (separator lineEnd : Doc α) : Doc α :=
  choice (horzList (spaced separator items)) (vertList (withEnds lineEnd items))

/-- A document between parentheses. -/
def parens (d : Doc α) : Doc α := horz (horz (text "(") d) (text ")")

/-- An application: on one line, or with the arguments below the function. -/
def application (function : Doc α) (arguments : List (Doc α)) : Doc α :=
  parens (sepBy (function :: arguments) (text " ") nil)

/-- A definition: on one line, or with the body on the next line, indented by two. -/
def definition (keyword head body : Doc α) : Doc α :=
  choice (parens (sepBy [keyword, head, body] (text " ") nil))
    (parens (vert (horz (horz keyword (text " ")) head) (horz (text " ") body)))

/-- A block: the keyword, and below it the bodies, indented by two. -/
def block (keyword : Doc α) (bodies : List (Doc α)) : Doc α :=
  parens (vert keyword (horz (text " ") (vertList bodies)))

end DocLayout.Doc
