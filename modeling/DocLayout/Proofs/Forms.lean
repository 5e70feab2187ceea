import DocLayout.Proofs.Composition
import DocLayout.Proofs.Ordered
import DocLayout.Proofs.PageText
import DocLayout.Proofs.Reading

/-
  S-expressions read back.

  A `Form` is an s-expression that is to be laid out: an atom, an application, a definition or a block
  of other forms. `Form.value` builds its document as a program does, part by part, and `Form.denotes`
  is the nested list that the form stands for.

  A document `Spells` tokens if its drawing has them, however wide the page is and wherever the
  document begins. Both alternatives of a choice have to spell the same tokens for that; every other
  node puts the texts of its parts one behind the other.

  Proved:
  * `spells_doc`, by induction on the form: its document spells the tokens of what it denotes.
  * `value_doc`: building the form gives that document, for every interpreter.
  * `read_format`: on a page of any width the text of a form is read as what the form denotes.
-/

namespace DocLayout

/-- A name that can stand in an s-expression. -/
structure Atom where
  name : String
  nonempty : name ≠ ""
  unbroken : Text.Unbroken name
  plain : ∀ c ∈ name.toList, c ≠ ' ' ∧ c ≠ '(' ∧ c ≠ ')'

/-- An s-expression that is to be laid out. -/
inductive Form where
  | atom (a : Atom)
  | application (function : Form) (arguments : List Form)
  | definition (keyword head body : Form)
  | block (keyword : Form) (bodies : List Form)

namespace Form

mutual

/-- The nested list that a form denotes. -/
def denotes : Form → SExpr
  | atom a => .atom a.name
  | application function arguments => .list (function.denotes :: denotesAll arguments)
  | definition keyword head body => .list [keyword.denotes, head.denotes, body.denotes]
  | block keyword bodies => .list (keyword.denotes :: denotesAll bodies)

/-- What some forms denote. -/
def denotesAll : List Form → List SExpr
  | [] => []
  | t :: ts => t.denotes :: denotesAll ts

end

mutual

/-- The value of a form: the name of an atom, and the document that is built of other forms. -/
def value {κ : Type} (run : Interpreter κ) : Form → Effect κ (Value κ)
  | atom a => return .str a.name
  | application function arguments => do
    let function ← function.value run
    let arguments ← values run arguments
    return .doc (← Build.application run function (.list arguments))
  | definition keyword head body => do
    let keyword ← keyword.value run
    let head ← head.value run
    let body ← body.value run
    return .doc (← Build.definition run keyword head body)
  | block keyword bodies => do
    let keyword ← keyword.value run
    let bodies ← values run bodies
    return .doc (← Build.block run keyword (.list bodies))

/-- The values of some forms. -/
def values {κ : Type} (run : Interpreter κ) : List Form → Effect κ (List (Value κ))
  | [] => return []
  | t :: ts => return (← t.value run) :: (← values run ts)

end

mutual

/-- The document of a form. -/
def doc {α : Type} : Form → Doc α
  | atom a => .text a.name
  | application function arguments => .application function.doc (docs arguments)
  | definition keyword head body => .definition keyword.doc head.doc body.doc
  | block keyword bodies => .block keyword.doc (docs bodies)

/-- The documents of some forms. -/
def docs {α : Type} : List Form → List (Doc α)
  | [] => []
  | t :: ts => t.doc :: docs ts

end

end Form

variable {α : Type}

/-! ## Documents that spell tokens -/

/-- A document whose text has these tokens on every page and wherever it begins. -/
def Doc.Spells (d : Doc α) (ts : List Token) : Prop :=
  ∀ w indent column, DocLayout.Spells (d.drawing w indent column).chars ts

/-- Documents that have these tokens one after the other. -/
inductive SpellAll : List (Doc α) → List Token → Prop
  | nil : SpellAll [] []
  | cons {d : Doc α} {ds : List (Doc α)} {ts us : List Token} (hd : d.Spells ts)
    (hds : SpellAll ds us) : SpellAll (d :: ds) (ts ++ us)

variable {a b d : Doc α} {ds : List (Doc α)} {ts us : List Token}

theorem chars_text (s : String) (w indent column : Int) :
    ((Doc.text s : Doc α).drawing w indent column).chars = s.toList := by
  rw [Doc.drawing, Canvas.chars_write_empty]

theorem chars_horz (w indent column : Int) :
    ((Doc.horz a b).drawing w indent column).chars = (a.drawing w indent column).chars ++
      (b.drawing w (a.endColumn w indent column) (a.endColumn w indent column)).chars := by
  rw [Doc.horz, Doc.drawing, Canvas.chars_append]

theorem chars_vert (w indent column : Int) :
    ((Doc.vert a b).drawing w indent column).chars = (a.drawing w indent column).chars ++
      '\n' :: (List.replicate indent.toNat ' ' ++ (b.drawing w indent indent).chars) := by
  rw [Doc.drawing, Canvas.chars_append, Canvas.chars_breakLine, List.append_assoc, List.cons_append]

theorem spells_empty : (Doc.nil : Doc α).Spells [] := by
  intro w indent column
  rw [Doc.nil, chars_text]
  exact spells_nil

theorem spells_text (a : Atom) : (Doc.text a.name : Doc α).Spells [.atom a.name] := by
  intro w indent column
  rw [chars_text]
  refine spells_atom a.nonempty fun c hc => ?_
  obtain ⟨hspace, hopen, hclose⟩ := a.plain c hc
  have hfeed : c ≠ '\n' := by
    rintro rfl
    exact absurd (a.unbroken _ hc) (by decide)
  rintro (h | h | h | h)
  · exact hopen h
  · exact hclose h
  · exact hspace h
  · exact hfeed h

/-- An empty document behind another one adds nothing to it. -/
theorem spells_horz_nil (h : d.Spells ts) : (Doc.horz d .nil).Spells ts := by
  intro w indent column
  rw [chars_horz, Doc.nil, chars_text]
  show DocLayout.Spells (_ ++ []) ts
  rw [List.append_nil]
  exact h w indent column

theorem spells_docParens (h : d.Spells ts) :
    (Doc.parens d).Spells (.opening :: (ts ++ [.closing])) := by
  intro w indent column
  rw [Doc.parens, chars_horz, chars_horz, chars_text, chars_text]
  exact spells_parens (h w _ _)

/-- A document behind a space. -/
theorem spells_horz_space (h : d.Spells ts) : (Doc.horz (.text " ") d).Spells ts := by
  intro w indent column
  rw [chars_horz, chars_text]
  exact spells_blank (.inl rfl) (h w _ _)

/-- Two documents with a space between them. -/
theorem spells_horz_gap (ha : a.Spells ts) (hb : b.Spells us) :
    (Doc.horz (Doc.horz a (.text " ")) b).Spells (ts ++ us) := by
  intro w indent column
  rw [chars_horz, chars_horz, chars_text, List.append_assoc]
  exact spells_gap (.inl rfl) (ha w _ _) (hb w _ _)

theorem spells_vert (ha : a.Spells ts) (hb : b.Spells us) : (Doc.vert a b).Spells (ts ++ us) := by
  intro w indent column
  rw [chars_vert]
  exact spells_gap (.inr rfl) (ha w _ _) (spells_spaces _ (hb w _ _))

/-- Whichever alternative is laid out, the tokens are the same. -/
theorem spells_choice (ha : a.Spells ts) (hb : b.Spells ts) : (Doc.choice a b).Spells ts := by
  intro w indent column
  rw [Doc.choice, Doc.drawing]
  split
  · exact ha w indent column
  · exact hb w indent column

/-! ### Sequences -/

/-- Documents joined one by one have the tokens of all of them, if every join keeps both sides'. -/
theorem spells_foldl {node : Doc α → Doc α → Doc α}
    (hnode : ∀ {a b : Doc α} {ts us : List Token}, a.Spells ts → b.Spells us →
      (node a b).Spells (ts ++ us))
    (hds : SpellAll ds us) (hd : d.Spells ts) : (ds.foldl node d).Spells (ts ++ us) := by
  induction hds generalizing d ts with
  | nil =>
    rw [List.append_nil]
    exact hd
  | cons hx hxs ih =>
    rw [← List.append_assoc]
    exact ih (hnode hd hx)

/-- Documents on one line, with a space between them. -/
theorem spells_row (h : SpellAll ds ts) : (Doc.horzList (Doc.spaced (.text " ") ds)).Spells ts := by
  cases h with
  | nil => exact spells_empty
  | @cons d ds ts us hd hds =>
    rw [Doc.horzList_spaced]
    exact spells_foldl spells_horz_gap hds hd

/-- Documents on top of each other. -/
theorem spells_column (h : SpellAll ds ts) : (Doc.vertList ds).Spells ts := by
  cases h with
  | nil => exact spells_empty
  | cons hd hds => exact spells_foldl spells_vert hds hd

/-- Empty line ends change no token. -/
theorem spellAll_withEnds (h : SpellAll ds ts) : SpellAll (Doc.withEnds .nil ds) ts := by
  induction h with
  | nil => exact .nil
  | cons hd hds ih =>
    cases hds with
    | nil => exact .cons hd .nil
    | cons he hes => exact .cons (spells_horz_nil hd) ih

theorem spells_sepBy (h : SpellAll ds ts) : (Doc.sepBy ds (.text " ") .nil).Spells ts :=
  spells_choice (spells_row h) (spells_column (spellAll_withEnds h))

/-! ## Forms -/

namespace Form

mutual

/-- The document of a form spells what the form denotes. -/
theorem spells_doc : ∀ t : Form, (t.doc : Doc α).Spells t.denotes.tokens
  | atom a => spells_text a
  | application function arguments =>
    spells_docParens (spells_sepBy (.cons (spells_doc function) (spells_docs arguments)))
  | definition keyword head body => by
    have hk : (keyword.doc : Doc α).Spells _ := spells_doc keyword
    have hh : (head.doc : Doc α).Spells _ := spells_doc head
    have hb : (body.doc : Doc α).Spells _ := spells_doc body
    have flat := spells_sepBy (.cons hk (.cons hh (.cons hb .nil)))
    have broken := spells_vert (spells_horz_gap hk hh) (spells_horz_space hb)
    rw [List.append_nil] at flat
    rw [List.append_assoc] at broken
    have htokens : (definition keyword head body).denotes.tokens = .opening ::
        (keyword.denotes.tokens ++ (head.denotes.tokens ++ body.denotes.tokens) ++ [.closing]) := by
      simp only [denotes, SExpr.tokens, SExpr.tokensAll, List.append_nil]
    rw [htokens]
    exact spells_choice (spells_docParens flat) (spells_docParens broken)
  | block keyword bodies =>
    spells_docParens (spells_vert (spells_doc keyword)
      (spells_horz_space (spells_column (spells_docs bodies))))

theorem spells_docs : ∀ ts : List Form,
    SpellAll (docs ts : List (Doc α)) (SExpr.tokensAll (denotesAll ts))
  | [] => .nil
  | t :: ts => .cons (spells_doc t) (spells_docs ts)

end

variable {κ : Type}

mutual

theorem orderly_doc : ∀ t : Form, (t.doc : Doc (Value κ)).Orderly
  | atom a => rule_orderly.text a.unbroken
  | application function arguments =>
    rule_orderly.application (orderly_doc function) (orderly_docs arguments)
  | definition keyword head body =>
    rule_orderly.definition (orderly_doc keyword) (orderly_doc head) (orderly_doc body)
  | block keyword bodies => rule_orderly.block (orderly_doc keyword) (orderly_docs bodies)

theorem orderly_docs : ∀ ts : List Form, ∀ d ∈ (docs ts : List (Doc (Value κ))), d.Orderly
  | [] => List.forall_mem_nil _
  | t :: ts => List.forall_mem_cons.mpr ⟨orderly_doc t, orderly_docs ts⟩

end

theorem settled_docs (ts : List Form) : Build.AllSettled (docs ts : List (Doc (Value κ))) :=
  fun d hd => (orderly_docs ts d hd).wellFormed.settled

mutual

/-- A form is built to its document, whatever the interpreter is. -/
theorem value_doc (run : Interpreter κ) :
    ∀ t : Form, ∃ v, t.value run = pure v ∧ v.plainDoc? = some t.doc
  | atom a => ⟨.str a.name, rfl, text?_unbroken a.unbroken⟩
  | application function arguments => by
    obtain ⟨v, hv, hplain⟩ := value_doc run function
    obtain ⟨vs, hvs, hplains⟩ := values_docs run arguments
    refine ⟨.doc (.application function.doc (docs arguments)), ?_, rfl⟩
    rw [value, hv, pure_bind, hvs, pure_bind,
      Build.application_plain run rfl hplains hplain (settled_docs (function :: arguments))]
    rfl
  | definition keyword head body => by
    obtain ⟨first, hfirst, hk⟩ := value_doc run keyword
    obtain ⟨second, hsecond, hh⟩ := value_doc run head
    obtain ⟨third, hthird, hb⟩ := value_doc run body
    refine ⟨.doc (.definition keyword.doc head.doc body.doc), ?_, rfl⟩
    rw [value, hfirst, pure_bind, hsecond, pure_bind, hthird, pure_bind,
      Build.definition_plain run hk hh hb (settled_docs [keyword, head, body])]
    rfl
  | block keyword bodies => by
    obtain ⟨v, hv, hplain⟩ := value_doc run keyword
    obtain ⟨vs, hvs, hplains⟩ := values_docs run bodies
    refine ⟨.doc (.block keyword.doc (docs bodies)), ?_, rfl⟩
    rw [value, hv, pure_bind, hvs, pure_bind,
      Build.block_plain run rfl hplains hplain (settled_docs bodies)]
    rfl

theorem values_docs (run : Interpreter κ) :
    ∀ ts : List Form, ∃ vs, values run ts = pure vs ∧ Plain vs (docs ts)
  | [] => ⟨[], rfl, plain_nil⟩
  | t :: ts => by
    obtain ⟨v, hv, hplain⟩ := value_doc run t
    obtain ⟨vs, hvs, hplains⟩ := values_docs run ts
    refine ⟨v :: vs, ?_, plain_cons hplain hplains⟩
    rw [values, hv, pure_bind, hvs]
    rfl

end

end Form

/-- The text of a well formed document on a page of `w` columns. -/
theorem format_plain {κ : Type} (run : Interpreter κ) {v : Value κ} {d : Doc (Value κ)}
    (h : v.plainDoc? = some d) (hd : d.WellFormed) (w : Int) :
    Page.format run v (.int w) = pure (Page.text (d.drawing w 0 0).lines) := by
  rw [Page.format, display_plain run h hd, pure_bind]

/-- The text of a form can be read, and gives the nested list that the form denotes. -/
theorem read_format {κ : Type} (run : Interpreter κ) (t : Form) (w : Int) :
    ∃ text, (do Page.format run (← t.value run) (.int w)) = pure text ∧
      SExpr.read text = some t.denotes := by
  obtain ⟨v, hv, hplain⟩ := Form.value_doc run t
  have spells : (t.doc : Doc (Value κ)).Spells t.denotes.tokens := t.spells_doc
  refine ⟨_, ?_, read_of_spells (spells w 0 0)⟩
  rw [hv, pure_bind, format_plain run hplain (Form.orderly_doc t).wellFormed]

end DocLayout
