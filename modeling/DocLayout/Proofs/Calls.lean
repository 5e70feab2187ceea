import DocLayout.Build.Plain
import DocLayout.Proofs.Filling

/-
  The ways of making a document, as one type.

  A `Call` is one of the ways of making a document, with its arguments. `Call.perform` makes it.
  `Call.Plain` says that everything in the place of a document is a document or a text of one line,
  everything in the place of a sequence a sequence of these, and everything in the place of a
  template one whose fields lead to these.

  Proved:
  * `makes_perform`: every call but a choice keeps every rule.
  * `perform_plain`: a plain call whose documents are as a rule says always makes a document.
-/

namespace DocLayout

variable {κ : Type}

/-- A way of making a document, with its arguments. -/
inductive Call (κ : Type) where
  | text (v : Value κ)
  | cast (v : Value κ)
  | horz (items : List (Value κ))
  | vert (items : List (Value κ))
  | concat (items : List (Value κ))
  | horzList (items : Value κ)
  | vertList (items : Value κ)
  | concatList (items : Value κ)
  | choice (flat broken : Value κ)
  | fullLine (v : Value κ)
  | wrap (words separator lineEnd : Value κ)
  | sepBy (items separator lineEnd : Value κ)
  | parens (v : Value κ)
  | application (function arguments : Value κ)
  | definition (keyword head body : Value κ)
  | block (keyword bodies : Value κ)
  | fill (template : Value κ) (arguments : Template.Arguments κ)

/-- A sequence of values that stand for documents by themselves. -/
def Value.HasPlainItems (v : Value κ) : Prop :=
  ∃ vs, v.source? = some (.items vs) ∧ ∀ x ∈ vs, x.IsPlain

namespace Call

/-- The arguments of a call. -/
def arguments : Call κ → List (Value κ)
  | text v | cast v | horzList v | vertList v | concatList v | fullLine v | parens v => [v]
  | horz items | vert items | concat items => items
  | choice v w | application v w | block v w => [v, w]
  | wrap u v w | sepBy u v w | definition u v w => [u, v, w]
  | fill template a => template :: (a.positional ++ a.named.map (·.2))

/-- Makes the document of a call. -/
def perform (run : Interpreter κ) : Call κ → Effect κ (Doc (Value κ))
  | text v => ofExcept v.toText
  | cast v => Build.cast run v
  | horz items => Build.horz run items
  | vert items => Build.vert run items
  | concat items => Build.concat run items
  | horzList items => Build.horzList run items
  | vertList items => Build.vertList run items
  | concatList items => Build.concatList run items
  | choice flat broken => Build.choice run flat broken
  | fullLine v => Build.fullLine run v
  | wrap words separator lineEnd => Build.wrap run words separator lineEnd
  | sepBy items separator lineEnd => Build.sepBy run items separator lineEnd
  | parens v => Build.parens run v
  | application function arguments => Build.application run function arguments
  | definition keyword head body => Build.definition run keyword head body
  | block keyword bodies => Build.block run keyword bodies
  | fill template a => Template.fill run template a

/-- A call for a choice between two layouts. -/
def IsChoice : Call κ → Prop
  | choice _ _ => True
  | _ => False

/-- A call with a document or a text of one line wherever a document belongs. -/
def Plain : Call κ → Prop
  | text v => ∃ s, v = .str s ∧ Text.Unbroken s
  | cast v | fullLine v | parens v => v.IsPlain
  | horz items | vert items | concat items => ∀ v ∈ items, v.IsPlain
  | horzList items | vertList items | concatList items => items.HasPlainItems
  | choice v w => v.IsPlain ∧ w.IsPlain
  | wrap items v w | sepBy items v w => items.HasPlainItems ∧ v.IsPlain ∧ w.IsPlain
  | application v items | block v items => v.IsPlain ∧ items.HasPlainItems
  | definition u v w => u.IsPlain ∧ v.IsPlain ∧ w.IsPlain
  | fill template a => a.named.any (·.1 == "template") = false ∧
    ∃ s pieces, template = .str s ∧ Template.pieces s.toList = .ok pieces ∧
      Template.Fillable a .start pieces

end Call

variable {P : Doc (Value κ) → Prop} {run : Interpreter κ}

/-! ## Rules are kept -/

section Making

variable (hP : Rule P) (hrun : Heeds P run)
include hP hrun

/-- Every way of making a document but a choice keeps every rule. -/
theorem makes_perform {c : Call κ} (hc : ¬ c.IsChoice) (h : ∀ v ∈ c.arguments, v.AllDocs P) :
    Makes P (c.perform run) := by
  cases c with
  | text v => exact makes_toText hP v
  | cast v => exact makes_cast hP hrun (h v (by simp [Call.arguments]))
  | horz items => exact makes_horzList hP hrun (.tuple h)
  | vert items => exact makes_vertList hP hrun (.tuple h)
  | concat items => exact makes_concatList hP hrun (.tuple h)
  | horzList items => exact makes_horzList hP hrun (h items (by simp [Call.arguments]))
  | vertList items => exact makes_vertList hP hrun (h items (by simp [Call.arguments]))
  | concatList items => exact makes_concatList hP hrun (h items (by simp [Call.arguments]))
  | choice flat broken => exact absurd trivial hc
  | fullLine v => exact makes_fullLine hP hrun (h v (by simp [Call.arguments]))
  | wrap words separator lineEnd =>
    exact makes_wrap hP hrun (h words (by simp [Call.arguments]))
      (h separator (by simp [Call.arguments])) (h lineEnd (by simp [Call.arguments]))
  | sepBy items separator lineEnd =>
    exact makes_sepBy hP hrun (h items (by simp [Call.arguments]))
      (h separator (by simp [Call.arguments])) (h lineEnd (by simp [Call.arguments]))
  | parens v => exact makes_parens hP hrun (h v (by simp [Call.arguments]))
  | application function arguments =>
    exact makes_application hP hrun (h function (by simp [Call.arguments]))
      (h arguments (by simp [Call.arguments]))
  | definition keyword head body =>
    exact makes_definition hP hrun (h keyword (by simp [Call.arguments]))
      (h head (by simp [Call.arguments])) (h body (by simp [Call.arguments]))
  | block keyword bodies =>
    exact makes_block hP hrun (h keyword (by simp [Call.arguments]))
      (h bodies (by simp [Call.arguments]))
  | fill template a =>
    have ha := List.forall_mem_append.mp (List.forall_mem_cons.mp h).2
    exact makes_fill hP hrun ⟨ha.1, fun entry he => ha.2 _ (List.mem_map_of_mem he)⟩

end Making

/-! ## Plain calls -/

theorem exists_plain {vs : List (Value κ)} (h : ∀ v ∈ vs, v.IsPlain) : ∃ ds, Plain vs ds := by
  induction vs with
  | nil => exact ⟨[], plain_nil⟩
  | cons v vs ih =>
    obtain ⟨⟨d, hd⟩, hvs⟩ := List.forall_mem_cons.mp h
    obtain ⟨ds, hds⟩ := ih hvs
    exact ⟨d :: ds, plain_cons hd hds⟩

variable (hP : Rule P)
include hP

theorem Rule.plainDocs {vs : List (Value κ)} (hvs : ∀ v ∈ vs, v.AllDocs P)
    {ds : List (Doc (Value κ))} (h : Plain vs ds) : ∀ d ∈ ds, P d := by
  induction vs generalizing ds with
  | nil =>
    cases ds with
    | nil => exact List.forall_mem_nil _
    | cons d ds => contradiction
  | cons v vs ih =>
    cases ds with
    | nil => contradiction
    | cons d ds =>
      injection h with hd hds
      obtain ⟨hv, hrest⟩ := List.forall_mem_cons.mp hvs
      exact List.forall_mem_cons.mpr ⟨hP.plainDoc hv hd, ih hrest hds⟩

/-- A sequence of values that stand for documents by themselves gives documents as the rule says. -/
theorem Rule.plainSource {items : Value κ} (hitems : items.AllDocs P) (h : items.HasPlainItems) :
    ∃ vs ds, items.source? = some (.items vs) ∧ Plain vs ds ∧ ∀ d ∈ ds, P d := by
  obtain ⟨vs, hvs, hplain⟩ := h
  obtain ⟨ds, hds⟩ := exists_plain hplain
  exact ⟨vs, ds, hvs, hds, hP.plainDocs (allDocs_source hitems hvs) hds⟩

/-- A plain call always makes a document, whatever the interpreter is. -/
theorem perform_plain (run : Interpreter κ) {c : Call κ} (hc : c.Plain)
    (h : ∀ v ∈ c.arguments, v.AllDocs P) : ∃ d, c.perform run = pure d := by
  have settled : ∀ {ds : List (Doc (Value κ))}, (∀ d ∈ ds, P d) → Build.AllSettled ds :=
    fun hds d hd => hP.settled (hds d hd)
  cases c with
  | text v =>
    obtain ⟨s, rfl, hs⟩ := hc
    refine ⟨.text s, ?_⟩
    show ofExcept (Doc.ofText s) = _
    rw [ofText_unbroken hs]
    rfl
  | cast v =>
    obtain ⟨d, hd⟩ := hc
    exact ⟨d, Build.cast_plain run hd⟩
  | horz items =>
    obtain ⟨ds, hds⟩ := exists_plain hc
    exact ⟨_, Build.horzList_plain run rfl hds (settled (hP.plainDocs h hds))⟩
  | vert items =>
    obtain ⟨ds, hds⟩ := exists_plain hc
    exact ⟨_, Build.vertList_plain run rfl hds⟩
  | concat items =>
    obtain ⟨ds, hds⟩ := exists_plain hc
    exact ⟨_, Build.concatList_plain run rfl hds (settled (hP.plainDocs h hds))⟩
  | horzList items =>
    obtain ⟨vs, ds, hvs, hds, hall⟩ := hP.plainSource (h items (by simp [Call.arguments])) hc
    exact ⟨_, Build.horzList_plain run hvs hds (settled hall)⟩
  | vertList items =>
    obtain ⟨vs, ds, hvs, hds, hall⟩ := hP.plainSource (h items (by simp [Call.arguments])) hc
    exact ⟨_, Build.vertList_plain run hvs hds⟩
  | concatList items =>
    obtain ⟨vs, ds, hvs, hds, hall⟩ := hP.plainSource (h items (by simp [Call.arguments])) hc
    exact ⟨_, Build.concatList_plain run hvs hds (settled hall)⟩
  | choice flat broken =>
    obtain ⟨⟨d, hd⟩, e, he⟩ := hc
    refine ⟨.choice d e, ?_⟩
    have hflat : P d := hP.plainDoc (h flat (by simp [Call.arguments])) hd
    have hbroken : P e := hP.plainDoc (h broken (by simp [Call.arguments])) he
    show Build.choice run flat broken = _
    rw [Build.choice, Build.cast_plain run hd, Build.cast_plain run he, pure_bind, pure_bind,
      Join.choice_settled (hP.settled hflat) (hP.settled hbroken)]
    rfl
  | fullLine v =>
    obtain ⟨d, hd⟩ := hc
    exact ⟨_, Build.fullLine_plain run hd⟩
  | wrap words separator lineEnd =>
    obtain ⟨hwords, ⟨space, hspace⟩, stop, hstop⟩ := hc
    obtain ⟨vs, ds, hvs, hds, hall⟩ := hP.plainSource (h words (by simp [Call.arguments])) hwords
    have hPspace := hP.plainDoc (h separator (by simp [Call.arguments])) hspace
    exact ⟨_, Build.wrap_plain run hvs hds hspace hstop (hP.settled hPspace) (settled hall)⟩
  | sepBy items separator lineEnd =>
    obtain ⟨hitems, ⟨space, hspace⟩, stop, hstop⟩ := hc
    obtain ⟨vs, ds, hvs, hds, hall⟩ := hP.plainSource (h items (by simp [Call.arguments])) hitems
    have hPspace := hP.plainDoc (h separator (by simp [Call.arguments])) hspace
    have hPstop := hP.plainDoc (h lineEnd (by simp [Call.arguments])) hstop
    exact ⟨_, Build.sepBy_plain run hvs hds hspace hstop (hP.settled hPspace) (hP.settled hPstop)
      (settled hall)⟩
  | parens v =>
    obtain ⟨d, hd⟩ := hc
    have hPd := hP.plainDoc (h v (by simp [Call.arguments])) hd
    exact ⟨_, Build.parens_plain run hd (hP.settled hPd)⟩
  | application function arguments =>
    obtain ⟨⟨d, hd⟩, harguments⟩ := hc
    have hPd := hP.plainDoc (h function (by simp [Call.arguments])) hd
    obtain ⟨vs, ds, hvs, hds, hall⟩ :=
      hP.plainSource (h arguments (by simp [Call.arguments])) harguments
    exact ⟨_, Build.application_plain run hvs hds hd
      (settled (List.forall_mem_cons.mpr ⟨hPd, hall⟩))⟩
  | definition keyword head body =>
    obtain ⟨⟨first, hfirst⟩, ⟨second, hsecond⟩, third, hthird⟩ := hc
    have all := plain_cons hfirst (plain_cons hsecond (plain_cons hthird plain_nil))
    exact ⟨_, Build.definition_plain run hfirst hsecond hthird (settled (hP.plainDocs h all))⟩
  | block keyword bodies =>
    obtain ⟨⟨d, hd⟩, hbodies⟩ := hc
    obtain ⟨vs, ds, hvs, hds, hall⟩ :=
      hP.plainSource (h bodies (by simp [Call.arguments])) hbodies
    exact ⟨_, Build.block_plain run hvs hds hd (settled hall)⟩
  | fill template a =>
    obtain ⟨hname, s, pieces, rfl, hpieces, hfields⟩ := hc
    have ha := List.forall_mem_append.mp (List.forall_mem_cons.mp h).2
    exact fill_fillable hP ⟨ha.1, fun entry he => ha.2 _ (List.mem_map_of_mem he)⟩ hname hpieces
      hfields

end DocLayout
