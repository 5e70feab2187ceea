import DocLayout.Node

/-
  Documents told from their literal forms.

  The literal form of a document spells its tree out: the kind of each node, its parts between
  parentheses, and the texts in quotes. A text may hold anything that such a form is made of, quotes,
  commas and parentheses among it, but what stands between the marks of a quoted text never looks like
  the mark that ends it. So the end of a text can be found, and with it the end of every node.

  Everything is said of forms with any rest behind them: if two of them come to the same, what is written
  is the same, and so are the rests. This passes from characters to quoted texts along the text, and from
  the parts of a node to the node.

  Proved:
  * `Text.spelled_escapeChar`, `Text.Spelled.inj`: a character is spelled by itself or behind a backslash,
    and can be told from its spelling.
  * `Text.quoteChars_inj`: a text can be told from its quoted form.
  * `shown_inj`: a well formed document can be told from its literal form.
  * `literal_eq_iff`: so two of them have the same literal form only if they are the same tree.
-/

namespace DocLayout

namespace Text

/-! ## Hexadecimal digits -/

/-- A number with no more than so many hexadecimal digits. -/
def WithinDigits : (digits : Nat) → Nat → Prop
  | 0, n => n = 0
  | k + 1, n => WithinDigits k (n / 16)

theorem length_hexDigits (k n : Nat) : (hexDigits k n).length = k := by
  induction k generalizing n with
  | zero => rfl
  | succ k ih => rw [hexDigits, List.length_append, ih, List.length_singleton]

theorem digitChar_inj : ∀ m < 16, ∀ n < 16, Nat.digitChar m = Nat.digitChar n → m = n := by decide

/-- Numbers that their digits have room for can be told from them. -/
theorem hexDigits_inj {k m n : Nat} (hm : WithinDigits k m) (hn : WithinDigits k n)
    (h : hexDigits k m = hexDigits k n) : m = n := by
  induction k generalizing m n with
  | zero => exact hm.trans hn.symm
  | succ k ih =>
    obtain ⟨hrest, hlast⟩ := List.append_inj' h rfl
    have hdiv : m / 16 = n / 16 := ih hm hn hrest
    have hmod : m % 16 = n % 16 :=
      digitChar_inj _ (Nat.mod_lt m (by decide)) _ (Nat.mod_lt n (by decide)) (List.cons.inj hlast).1
    omega

/-! ## Characters between quotes -/

/-- The number of hexadecimal digits behind a letter that follows a backslash. -/
def digitsBehind : Char → Nat
  | 'x' => 2
  | 'u' => 4
  | 'U' => 8
  | _ => 0

/-- The character that a backslash and a letter without digits stand for. -/
def ofLetter : Char → Char
  | 'n' => '\n'
  | 'r' => '\r'
  | 't' => '\t'
  | c => c

/-- What a letter behind a backslash can stand for: the one character that is told by it, or any one whose
code point its digits have room for. -/
def StandsFor (l c : Char) : Prop :=
  if digitsBehind l = 0 then c = ofLetter l else WithinDigits (digitsBehind l) c.toNat

/-- The ways to spell a character between `mark`s. -/
inductive Spelled (mark c : Char) : List Char → Prop
  | plain : c ≠ mark → c ≠ '\\' → Spelled mark c [c]
  | behind (l : Char) : StandsFor l c →
    Spelled mark c ('\\' :: l :: hexDigits (digitsBehind l) c.toNat)

/-- The two characters that a text can be quoted between. -/
def IsMark (mark : Char) : Prop := mark = '\'' ∨ mark = '"'

theorem isMark_quoteMark (s : List Char) : IsMark (quoteMark s) := by
  unfold quoteMark
  split
  · exact .inr rfl
  · exact .inl rfl

variable {mark : Char}

theorem spelled_escapeCode (c : Char) : Spelled mark c (escapeCode c.toNat) := by
  have hsize : c.toNat < 4294967296 := c.val.toNat_lt
  unfold escapeCode
  split
  · exact .behind 'x' (show c.toNat / 16 / 16 = 0 by omega)
  · split
    · exact .behind 'u' (show c.toNat / 16 / 16 / 16 / 16 = 0 by omega)
    · exact .behind 'U' (show c.toNat / 16 / 16 / 16 / 16 / 16 / 16 / 16 / 16 = 0 by omega)

/-- The quotes and the backslash stand for themselves behind a backslash. -/
theorem spelled_behind_backslash (hm : IsMark mark) {c : Char} (h : c = mark ∨ c = '\\') :
    Spelled mark c ['\\', c] := by
  obtain rfl | rfl := h
  · obtain rfl | rfl := hm
    · exact .behind '\'' rfl
    · exact .behind '"' rfl
  · exact .behind '\\' rfl

theorem spelled_escapeChar (hm : IsMark mark) (c : Char) : Spelled mark c (escapeChar mark c) := by
  unfold escapeChar
  split
  · rename_i h
    rw [Bool.or_eq_true, decide_eq_true_eq, decide_eq_true_eq] at h
    exact spelled_behind_backslash hm h
  rename_i h
  rw [Bool.or_eq_true, decide_eq_true_eq, decide_eq_true_eq, not_or] at h
  split
  · rename_i hline
    exact .behind 'n' hline
  split
  · rename_i hreturn
    exact .behind 'r' hreturn
  split
  · rename_i htab
    exact .behind 't' htab
  split
  · exact .plain h.1 h.2
  · exact spelled_escapeCode c

/-- What a letter stands for can be told from its digits. -/
theorem StandsFor.inj {l c d : Char} (hc : StandsFor l c) (hd : StandsFor l d)
    (h : hexDigits (digitsBehind l) c.toNat = hexDigits (digitsBehind l) d.toNat) : c = d := by
  unfold StandsFor at hc hd
  split at hc
  · rename_i hnone
    rw [if_pos hnone] at hd
    exact hc.trans hd.symm
  · rename_i hsome
    rw [if_neg hsome] at hd
    exact Char.toNat_inj.mp (hexDigits_inj hc hd h)

/-- A character can be told from its spelling, whatever comes behind it. -/
theorem Spelled.inj {c d : Char} {p q r s : List Char} (hc : Spelled mark c p) (hd : Spelled mark d q)
    (h : p ++ r = q ++ s) : c = d ∧ r = s := by
  cases hc with
  | plain _ hc =>
    cases hd with
    | plain _ _ => exact List.cons.inj h
    | behind l _ => exact absurd (List.cons.inj h).1 hc
  | behind l hc =>
    cases hd with
    | plain _ hd => exact absurd (List.cons.inj h).1.symm hd
    | behind l' hd =>
      obtain ⟨rfl, hdigits⟩ := List.cons.inj (List.cons.inj h).2
      obtain ⟨hdigits, hrest⟩ := List.append_inj hdigits (by rw [length_hexDigits, length_hexDigits])
      exact ⟨hc.inj hd hdigits, hrest⟩

/-- No character is spelled with the mark in front. -/
theorem Spelled.ne_mark (hm : IsMark mark) {c : Char} {p r s : List Char} (hc : Spelled mark c p) :
    p ++ r ≠ mark :: s := by
  have hbackslash : '\\' ≠ mark := by
    obtain rfl | rfl := hm <;> decide
  intro h
  cases hc with
  | plain hc _ => exact hc (List.cons.inj h).1
  | behind l _ => exact hbackslash (List.cons.inj h).1

/-! ## Quoted texts -/

theorem escaped_inj (hm : IsMark mark) {s t r r' : List Char}
    (h : s.flatMap (escapeChar mark) ++ mark :: r = t.flatMap (escapeChar mark) ++ mark :: r') :
    s = t ∧ r = r' := by
  induction s generalizing t with
  | nil =>
    cases t with
    | nil => exact ⟨rfl, (List.cons.inj h).2⟩
    | cons d t =>
      rw [List.flatMap_cons, List.append_assoc] at h
      exact absurd h.symm ((spelled_escapeChar hm d).ne_mark hm)
  | cons c s ih =>
    rw [List.flatMap_cons, List.append_assoc] at h
    cases t with
    | nil => exact absurd h ((spelled_escapeChar hm c).ne_mark hm)
    | cons d t =>
      rw [List.flatMap_cons, List.append_assoc] at h
      obtain ⟨rfl, hrest⟩ := (spelled_escapeChar hm c).inj (spelled_escapeChar hm d) h
      obtain ⟨rfl, rfl⟩ := ih hrest
      exact ⟨rfl, rfl⟩

/-- A text can be told from its quoted form, whatever comes behind it. The form begins with the mark that
ends it. -/
theorem quoteChars_inj {s t r r' : List Char} (h : quoteChars s ++ r = quoteChars t ++ r') :
    s = t ∧ r = r' := by
  simp only [quoteChars, List.cons_append, List.append_assoc, List.nil_append] at h
  injection h with hmark h
  rw [← hmark] at h
  exact escaped_inj (isMark_quoteMark s) h

end Text

/-! ## Literal forms of documents -/

variable {κ : Type}

/-- The characters of the literal form of a document. -/
def Doc.shown (d : Doc (Value κ)) : List Char := (docLiteral d).toList

/-- The characters of the literal form of a node with two parts. -/
def shownPair (opening separator : String) (a b : Doc (Value κ)) : List Char :=
  opening.toList ++ (a.shown ++ (separator.toList ++ (b.shown ++ [')'])))

theorem toList_pair (opening separator : String) (a b : Doc (Value κ)) :
    (opening ++ docLiteral a ++ separator ++ docLiteral b ++ ")").toList =
      shownPair opening separator a b := by
  simp only [shownPair, Doc.shown, String.toList_append, List.append_assoc]
  rfl

section Shown

variable (v : FlatWidth (Value κ)) (a b : Doc (Value κ))

theorem shown_text (s : String) : (Doc.text s : Doc (Value κ)).shown =
    "Text(".toList ++ (Text.quoteChars s.toList ++ [')']) := by
  show ("Text(" ++ Text.quote s ++ ")").toList = _
  rw [String.toList_append, String.toList_append, List.append_assoc, Text.quote,
    String.toList_ofList (l := Text.quoteChars s.toList)]
  rfl

theorem shown_horz : (Doc.horzNode v a b).shown = shownPair "Horz(" ", " a b :=
  toList_pair "Horz(" ", " a b

theorem shown_concat : (Doc.concatNode v a b).shown = shownPair "Concat(" ", " a b :=
  toList_pair "Concat(" ", " a b

theorem shown_vert : (Doc.vert a b).shown = shownPair "Vert(" ", " a b := toList_pair "Vert(" ", " a b

theorem shown_choice :
    (Doc.choiceNode v a b).shown = shownPair "IfFlat(when_flat=" ", when_broken=" a b :=
  toList_pair "IfFlat(when_flat=" ", when_broken=" a b

theorem shown_fullLine : (Doc.fullLine a).shown = "FullLine(".toList ++ (a.shown ++ [')']) := by
  show ("FullLine(" ++ docLiteral a ++ ")").toList = _
  rw [String.toList_append, String.toList_append, List.append_assoc]
  rfl

end Shown

/-- A document that can be told from its literal form, whatever comes behind it. -/
def Doc.Told (d : Doc (Value κ)) : Prop :=
  ∀ {e : Doc (Value κ)}, e.WellFormed → ∀ {r s : List Char}, d.shown ++ r = e.shown ++ s →
    d = e ∧ r = s

/-- Two parts can be told from the form of a node, if each of them can be told from its own. -/
theorem shownPair_inj {opening separator : String} {a b a' b' : Doc (Value κ)} (ha : a.Told)
    (hb : b.Told) (ha' : a'.WellFormed) (hb' : b'.WellFormed) {r s : List Char}
    (h : shownPair opening separator a b ++ r = shownPair opening separator a' b' ++ s) :
    a = a' ∧ b = b' ∧ r = s := by
  simp only [shownPair, List.append_assoc] at h
  obtain ⟨hfirst, h⟩ := ha ha' (List.append_cancel_left h)
  obtain ⟨hsecond, h⟩ := hb hb' (List.append_cancel_left h)
  exact ⟨hfirst, hsecond, List.append_cancel_left h⟩

/-- The letter that the literal form of a document begins with, another one for each kind of node. -/
def Doc.initial : Doc (Value κ) → Char
  | text _ => 'T'
  | horzNode _ _ _ => 'H'
  | concatNode _ _ _ => 'C'
  | vert _ _ => 'V'
  | choiceNode _ _ _ => 'I'
  | fullLine _ => 'F'
  | foreign _ _ => '?'

theorem exists_shown {d : Doc (Value κ)} (hd : d.WellFormed) :
    ∃ rest, d.shown = d.initial :: rest := by
  cases d with
  | text s => exact ⟨_, shown_text s⟩
  | horzNode v a b => exact ⟨_, shown_horz v a b⟩
  | concatNode v a b => exact ⟨_, shown_concat v a b⟩
  | vert a b => exact ⟨_, shown_vert a b⟩
  | choiceNode v a b => exact ⟨_, shown_choice v a b⟩
  | fullLine a => exact ⟨_, shown_fullLine a⟩
  | foreign x v => exact hd.elim

theorem initial_eq {d e : Doc (Value κ)} (hd : d.WellFormed) (he : e.WellFormed) {r s : List Char}
    (h : d.shown ++ r = e.shown ++ s) : d.initial = e.initial := by
  obtain ⟨drest, hdrest⟩ := exists_shown hd
  obtain ⟨erest, herest⟩ := exists_shown he
  rw [hdrest, herest] at h
  exact (List.cons.inj h).1

/-- A well formed document can be told from its literal form, whatever comes behind it. -/
theorem shown_inj {d : Doc (Value κ)} (hd : d.WellFormed) : d.Told := by
  intro e he r s h
  -- the initials leave one kind for the other document, and the parts are told one after the other
  induction d generalizing e r s with
  | text t =>
    have hkind := initial_eq hd he h
    cases e with
    | text u =>
      rw [shown_text, shown_text, List.append_assoc, List.append_assoc, List.append_assoc,
        List.append_assoc] at h
      obtain ⟨htext, hrest⟩ := Text.quoteChars_inj (List.append_cancel_left h)
      exact ⟨congrArg Doc.text (String.toList_inj.mp htext), List.append_cancel_left hrest⟩
    | _ => simp [Doc.initial] at hkind
  | horzNode v a b iha ihb =>
    have hkind := initial_eq hd he h
    cases e with
    | horzNode v' a' b' =>
      rw [shown_horz, shown_horz] at h
      obtain ⟨rfl, rfl, hrest⟩ := shownPair_inj (iha hd.2.1) (ihb hd.2.2) he.2.1 he.2.2 h
      exact ⟨by rw [hd.1, he.1], hrest⟩
    | _ => simp [Doc.initial] at hkind
  | concatNode v a b iha ihb =>
    have hkind := initial_eq hd he h
    cases e with
    | concatNode v' a' b' =>
      rw [shown_concat, shown_concat] at h
      obtain ⟨rfl, rfl, hrest⟩ := shownPair_inj (iha hd.2.1) (ihb hd.2.2) he.2.1 he.2.2 h
      exact ⟨by rw [hd.1, he.1], hrest⟩
    | _ => simp [Doc.initial] at hkind
  | vert a b iha ihb =>
    have hkind := initial_eq hd he h
    cases e with
    | vert a' b' =>
      rw [shown_vert, shown_vert] at h
      obtain ⟨rfl, rfl, hrest⟩ := shownPair_inj (iha hd.1) (ihb hd.2) he.1 he.2 h
      exact ⟨rfl, hrest⟩
    | _ => simp [Doc.initial] at hkind
  | choiceNode v flat broken ihf ihb =>
    have hkind := initial_eq hd he h
    cases e with
    | choiceNode v' flat' broken' =>
      rw [shown_choice, shown_choice] at h
      obtain ⟨rfl, rfl, hrest⟩ := shownPair_inj (ihf hd.2.1) (ihb hd.2.2) he.2.1 he.2.2 h
      exact ⟨by rw [hd.1, he.1], hrest⟩
    | _ => simp [Doc.initial] at hkind
  | fullLine a ih =>
    have hkind := initial_eq hd he h
    cases e with
    | fullLine a' =>
      rw [shown_fullLine, shown_fullLine, List.append_assoc, List.append_assoc, List.append_assoc,
        List.append_assoc] at h
      obtain ⟨rfl, hrest⟩ := ih (e := a') hd he (List.append_cancel_left h)
      exact ⟨rfl, List.append_cancel_left hrest⟩
    | _ => simp [Doc.initial] at hkind
  | foreign x v => exact hd.elim

/-- Two well formed documents have the same literal form only if they are the same tree: nodes of the same
kinds with the same parts, down to the same texts, whatever characters these hold. -/
theorem literal_eq_iff {d e : Doc (Value κ)} (hd : d.WellFormed) (he : e.WellFormed) :
    (Value.doc d).literal = (Value.doc e).literal ↔ d = e := by
  constructor
  · intro h
    have hshown : d.shown ++ [] = e.shown ++ [] := congrArg (fun s => s.toList ++ []) h
    exact (shown_inj hd he hshown).1
  · rintro rfl
    rfl

/-- A text that holds what stands between the two texts of a node, and a quote of either kind. -/
def disguised : Doc (Value Empty) := .horz (.text "a'), Text('b\"") (.text "c")

/-- The node whose form it looks like. -/
def disguise : Doc (Value Empty) := .horz (.text "a") (.text "b\"'), Text('c")

theorem literal_eq_iff_disguise :
    disguised.WellFormed ∧ disguise.WellFormed ∧
    ((Value.doc disguised).literal = (Value.doc disguise).literal ↔ disguised = disguise) ∧
    (Value.doc disguised).literal ≠ (Value.doc disguise).literal := by
  have unbroken : ∀ s ∈ ["a'), Text('b\"", "c", "a", "b\"'), Text('c"], Text.Unbroken s := by decide
  have hd : disguised.WellFormed := ⟨rfl, unbroken _ (by simp), unbroken "c" (by simp)⟩
  have he : disguise.WellFormed := ⟨rfl, unbroken "a" (by simp), unbroken _ (by simp)⟩
  have hiff := literal_eq_iff hd he
  refine ⟨hd, he, hiff, fun h => ?_⟩
  exact absurd (hiff.mp h) (by simp [disguised, disguise, Doc.horz])

end DocLayout
