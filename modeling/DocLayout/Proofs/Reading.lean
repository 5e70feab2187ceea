/-
  Parenthesised expressions, and how they are read from a text.

  The tokens of a text are its parentheses and the longest runs of other characters between them,
  where spaces and line feeds separate runs and count for nothing else. A reader takes one token at a
  time and keeps the items of every list that is still open.

  `Spells cs ts` says of a text `cs` that it has the tokens `ts` wherever it stands, as long as no
  further character of a run follows on it. It goes through the ways in which texts are put together:
  between parentheses, and one behind the other with a blank in between.

  Proved:
  * `scan_word`: a run of characters is one token.
  * `read_tokens`, by induction on the expression: the reader makes of the tokens of an expression
    that expression, whatever has been read before.
  * `read_of_spells`: a text that spells an expression is read as that expression.
-/

namespace DocLayout

/-- A parenthesised expression: lists of lists and atoms. -/
inductive SExpr where
  | atom (name : String)
  | list (items : List SExpr)
  deriving Repr

/-- A token of a parenthesised expression. -/
inductive Token where
  | opening
  | closing
  | atom (name : String)
  deriving Repr, DecidableEq

/-! ## Tokens of a text -/

/-- The characters that separate atoms. -/
def IsBlank (c : Char) : Prop := c = ' ' ∨ c = '\n'

instance : DecidablePred IsBlank := fun c => inferInstanceAs (Decidable (c = ' ' ∨ c = '\n'))

namespace Token

/-- The token of a run of characters that has come to its end. -/
def ofWord (word : List Char) : List Token :=
  if word.isEmpty then [] else [.atom (String.ofList word)]

/-- The tokens of a text. `word` are the characters of the run that is being read. -/
def scan (word : List Char) : List Char → List Token
  | [] => ofWord word
  | c :: rest =>
    if c = '(' then ofWord word ++ .opening :: scan [] rest
    else if c = ')' then ofWord word ++ .closing :: scan [] rest
    else if IsBlank c then ofWord word ++ scan [] rest
    else scan (word ++ [c]) rest

end Token

/-! ## Reading tokens -/

/-- What has been read: the items of the innermost list that is open, and for each list around it the
items that stand before it. -/
structure Reader where
  items : List SExpr
  outer : List (List SExpr)

namespace Reader

/-- A reader that has read nothing. -/
def start : Reader := ⟨[], []⟩

/-- Reads one token. A list cannot be closed that has not been opened. -/
def step : Reader → Token → Option Reader
  | ⟨items, outer⟩, .opening => some ⟨[], items :: outer⟩
  | ⟨items, before :: outer⟩, .closing => some ⟨before ++ [.list items], outer⟩
  | ⟨_, []⟩, .closing => none
  | ⟨items, outer⟩, .atom name => some ⟨items ++ [.atom name], outer⟩

end Reader

namespace SExpr

/-- The expression that a text stands for, if it is exactly one and every list is closed. -/
def read (text : String) : Option SExpr :=
  match (Token.scan [] text.toList).foldlM Reader.step .start with
  | some ⟨[e], []⟩ => some e
  | _ => none

mutual

/-- The tokens of an expression. -/
def tokens : SExpr → List Token
  | atom name => [.atom name]
  | list items => .opening :: (tokensAll items ++ [.closing])

/-- The tokens of some expressions, one after the other. -/
def tokensAll : List SExpr → List Token
  | [] => []
  | e :: es => e.tokens ++ tokensAll es

end

end SExpr

mutual

/-- An expression is read as one more item, whatever has been read before. -/
theorem read_tokens : ∀ (e : SExpr) (items : List SExpr) (outer : List (List SExpr))
    (rest : List Token), (e.tokens ++ rest).foldlM Reader.step ⟨items, outer⟩ =
      rest.foldlM Reader.step ⟨items ++ [e], outer⟩
  | .atom name, items, outer, rest => rfl
  | .list es, items, outer, rest => by
    rw [SExpr.tokens, List.cons_append, List.append_assoc]
    show (SExpr.tokensAll es ++ ([Token.closing] ++ rest)).foldlM Reader.step ⟨[], items :: outer⟩ = _
    rw [read_tokensAll es, List.nil_append]
    rfl

theorem read_tokensAll : ∀ (es items : List SExpr) (outer : List (List SExpr))
    (rest : List Token), (SExpr.tokensAll es ++ rest).foldlM Reader.step ⟨items, outer⟩ =
      rest.foldlM Reader.step ⟨items ++ es, outer⟩
  | [], items, outer, rest => by
    rw [SExpr.tokensAll, List.nil_append, List.append_nil]
  | e :: es, items, outer, rest => by
    rw [SExpr.tokensAll, List.append_assoc, read_tokens e, read_tokensAll es, List.append_assoc]
    rfl

end

/-! ## Texts that spell tokens -/

open Token

/-- A text that ends the run of characters before it. -/
def EndsWord : List Char → Prop
  | [] => True
  | c :: _ => c = '(' ∨ c = ')' ∨ IsBlank c

/-- Wherever a text stands with a run ended behind it, it has these tokens. -/
def Spells (cs : List Char) (ts : List Token) : Prop :=
  ∀ rest, EndsWord rest → scan [] (cs ++ rest) = ts ++ scan [] rest

theorem scan_endsWord (word : List Char) {rest : List Char} (h : EndsWord rest) :
    scan word rest = ofWord word ++ scan [] rest := by
  cases rest with
  | nil => exact (List.append_nil _).symm
  | cons c rest =>
    unfold scan
    by_cases hopen : c = '('
    · rw [if_pos hopen, if_pos hopen]
      rfl
    · by_cases hclose : c = ')'
      · rw [if_neg hopen, if_pos hclose, if_neg hopen, if_pos hclose]
        rfl
      · have hblank : IsBlank c := (h.resolve_left hopen).resolve_left hclose
        rw [if_neg hopen, if_neg hclose, if_pos hblank, if_neg hopen, if_neg hclose, if_pos hblank]
        rfl

theorem scan_blank {c : Char} (hc : IsBlank c) (rest : List Char) :
    scan [] (c :: rest) = scan [] rest := by
  rw [scan]
  obtain rfl | rfl := hc
  · rfl
  · rfl

/-- The characters of a run are collected. -/
theorem scan_word {cs : List Char} (h : ∀ c ∈ cs, ¬ (c = '(' ∨ c = ')' ∨ IsBlank c))
    (word rest : List Char) : scan word (cs ++ rest) = scan (word ++ cs) rest := by
  induction cs generalizing word with
  | nil => rw [List.nil_append, List.append_nil]
  | cons c cs ih =>
    obtain ⟨hc, hcs⟩ := List.forall_mem_cons.mp h
    rw [not_or, not_or] at hc
    rw [List.cons_append, scan, if_neg hc.1, if_neg hc.2.1, if_neg hc.2.2, ih hcs,
      List.append_assoc]
    rfl

theorem spells_nil : Spells [] [] := fun _ _ => rfl

theorem spells_atom {name : String} (hne : name ≠ "")
    (h : ∀ c ∈ name.toList, ¬ (c = '(' ∨ c = ')' ∨ IsBlank c)) :
    Spells name.toList [.atom name] := by
  intro rest hrest
  have hword : ofWord name.toList = [.atom name] := by
    rw [ofWord, if_neg (by simpa using hne), String.ofList_toList]
  rw [scan_word h, List.nil_append, scan_endsWord _ hrest, hword]

variable {cs ds : List Char} {ts us : List Token}

theorem spells_parens (h : Spells cs ts) :
    Spells ('(' :: (cs ++ [')'])) (.opening :: (ts ++ [.closing])) := by
  intro rest hrest
  have inner := h (')' :: rest) (.inr (.inl rfl))
  show .opening :: scan [] ((cs ++ [')']) ++ rest) = _
  rw [List.append_assoc, List.singleton_append, inner, List.cons_append, List.append_assoc]
  rfl

/-- A blank before a text counts for nothing. -/
theorem spells_blank {c : Char} (hc : IsBlank c) (h : Spells cs ts) : Spells (c :: cs) ts := by
  intro rest hrest
  rw [List.cons_append, scan_blank hc, h rest hrest]

theorem spells_spaces (n : Nat) (h : Spells cs ts) : Spells (List.replicate n ' ' ++ cs) ts := by
  induction n with
  | zero => exact h
  | succ n ih => exact spells_blank (.inl rfl) ih

/-- A blank between two texts separates their tokens. -/
theorem spells_gap {c : Char} (hc : IsBlank c) (h : Spells cs ts) (hd : Spells ds us) :
    Spells (cs ++ c :: ds) (ts ++ us) := by
  intro rest hrest
  have before := h (c :: (ds ++ rest)) (.inr (.inr hc))
  rw [List.append_assoc, List.cons_append, before, scan_blank hc, hd rest hrest, List.append_assoc]

/-- A text that spells an expression is read as that. -/
theorem read_of_spells {text : String} {e : SExpr} (h : Spells text.toList e.tokens) :
    SExpr.read text = some e := by
  have tokens : scan [] text.toList = e.tokens := by
    have whole := h [] trivial
    rw [List.append_nil] at whole
    rw [whole]
    exact List.append_nil _
  have all := read_tokens e [] [] []
  rw [List.append_nil] at all
  rw [SExpr.read, tokens, Reader.start, all]
  rfl

example : SExpr.read "(a (b)\n c)" = some (.list [.atom "a", .list [.atom "b"], .atom "c"]) := rfl

example : SExpr.read "(a (b) c" = none := rfl

end DocLayout
