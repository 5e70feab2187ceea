import DocLayout.Build.Documents

/-
  Building from plain values.

  A document stands for itself, and a text that stays within one line for the document of that text,
  whatever the interpreter is. Where all parts are plain, nothing is left of the session, as with
  documents alone: every way of building makes of them what it makes of the documents that they stand
  for.
-/

namespace DocLayout

variable {κ : Type}

/-- The document that a value stands for by itself, if it is a document or a text of one line. -/
def Value.plainDoc? : Value κ → Option (Doc (Value κ))
  | doc d => some d
  | str s => Doc.text? s
  | _ => none

/-- A value that stands for a document by itself. -/
def Value.IsPlain (v : Value κ) : Prop := ∃ d, v.plainDoc? = some d

/-- Values and the documents that they stand for by themselves. -/
abbrev Plain (vs : List (Value κ)) (ds : List (Doc (Value κ))) : Prop :=
  vs.map Value.plainDoc? = ds.map some

theorem plain_nil : Plain ([] : List (Value κ)) [] := rfl

theorem plain_cons {v : Value κ} {d : Doc (Value κ)} {vs : List (Value κ)}
    {ds : List (Doc (Value κ))} (h : v.plainDoc? = some d) (hs : Plain vs ds) :
    Plain (v :: vs) (d :: ds) := by
  rw [Plain, List.map_cons, List.map_cons, h, hs]

theorem text?_unbroken {s : String} (h : Text.Unbroken s) :
    (Doc.text? s : Option (Doc (Value κ))) = some (.text s) := by
  rw [Doc.text?, if_pos ((Text.oneLine_iff s).mpr h)]

theorem ofText_unbroken {s : String} (h : Text.Unbroken s) :
    (Doc.ofText s : Except Failure (Doc (Value κ))) = .ok (.text s) := by
  rw [Doc.ofText, text?_unbroken h]

theorem plainDoc?_text {s : String} (h : Text.Unbroken s) :
    (Value.str s : Value κ).plainDoc? = some (.text s) := text?_unbroken h

theorem plainDoc?_space : (Value.str " " : Value κ).plainDoc? = some (.text " ") := rfl

theorem plainDoc?_empty : (Value.str "" : Value κ).plainDoc? = some .nil := rfl

namespace Build

variable (run : Interpreter κ)

theorem cast_plain {v : Value κ} {d : Doc (Value κ)} (h : v.plainDoc? = some d) :
    cast run v = pure d := by
  cases v with
  | doc e =>
    injection h with h
    exact congrArg pure h
  | str s =>
    have htext : Doc.text? s = some d := h
    rw [cast, Doc.ofText, htext]
    rfl
  | _ => contradiction

/-- What is made of each of some plain values, from what is made of the document that it stands for. -/
theorem mapM_plain {β : Type} {f : Value κ → Effect κ β} {g : Doc (Value κ) → β}
    {vs : List (Value κ)} {ds : List (Doc (Value κ))} (h : Plain vs ds)
    (hf : ∀ {v d}, v.plainDoc? = some d → d ∈ ds → f v = pure (g d)) :
    vs.mapM f = pure (ds.map g) := by
  induction vs generalizing ds with
  | nil =>
    cases ds with
    | nil => rfl
    | cons d ds => contradiction
  | cons v vs ih =>
    cases ds with
    | nil => contradiction
    | cons d ds =>
      injection h with hv hvs
      have hrest := ih hvs fun hv hd => hf hv (List.mem_cons_of_mem d hd)
      rw [List.mapM_cons, hf hv List.mem_cons_self, pure_bind, hrest]
      rfl

theorem mapM_cast_plain {vs : List (Value κ)} {ds : List (Doc (Value κ))} (h : Plain vs ds) :
    vs.mapM (cast run) = pure ds := by
  rw [mapM_plain h fun hv _ => cast_plain run hv, List.map_id']

/-- The items of a sequence of plain values are the documents that they stand for. -/
theorem castAll_plain {items : Value κ} {vs : List (Value κ)} {ds : List (Doc (Value κ))}
    (hs : items.source? = some (.items vs)) (h : Plain vs ds) : castAll run items = pure ds := by
  rw [castAll, eachItem, hs]
  exact mapM_cast_plain run h

section Sequences

variable {items : Value κ} {vs : List (Value κ)} {ds : List (Doc (Value κ))}
  (hs : items.source? = some (.items vs)) (h : Plain vs ds)
include hs h

theorem horzList_plain (hd : AllSettled ds) : horzList run items = pure (Doc.horzList ds) := by
  rw [← horzList_docs run hd, horzList, horzList, castAll_plain run hs h, castAll_docs]

theorem vertList_plain : vertList run items = pure (Doc.vertList ds) := by
  rw [← vertList_docs run ds, vertList, vertList, castAll_plain run hs h, castAll_docs]

theorem concatList_plain (hd : AllSettled ds) :
    concatList run items = pure (Doc.concatList ds) := by
  rw [← concatList_docs run hd, concatList, concatList, castAll_plain run hs h, castAll_docs]

theorem wrap_plain {separator lineEnd : Value κ} {space lineStop : Doc (Value κ)}
    (hsep : separator.plainDoc? = some space) (hend : lineEnd.plainDoc? = some lineStop)
    (hspace : space.flatWidth.Settled) (hd : AllSettled ds) :
    wrap run items separator lineEnd = pure (Doc.wrap ds space lineStop) := by
  rw [← wrap_docs run (cast_plain run hsep) (cast_plain run hend) hspace hd, wrap, wrap,
    castAll_plain run hs h, castAll_docs]

theorem sepBy_plain {separator lineEnd : Value κ} {space lineStop : Doc (Value κ)}
    (hsep : separator.plainDoc? = some space) (hend : lineEnd.plainDoc? = some lineStop)
    (hspace : space.flatWidth.Settled) (hstop : lineStop.flatWidth.Settled) (hd : AllSettled ds) :
    sepBy run items separator lineEnd = pure (Doc.sepBy ds space lineStop) := by
  rw [← sepBy_docs run (cast_plain run hsep) (cast_plain run hend) hspace hstop hd, sepBy, sepBy,
    castAll_plain run hs h, castAll_docs]

theorem block_plain {keyword : Value κ} {first : Doc (Value κ)}
    (hk : keyword.plainDoc? = some first) (hd : AllSettled ds) :
    block run keyword items = pure (Doc.block first ds) := by
  rw [← block_docs run hd, block, block, vertList_plain run hs h, vertList_docs,
    cast_plain run hk, cast_doc]

omit hs in
/-- The flat form of an s-expression of plain values. -/
theorem flatForm_plain (hd : AllSettled ds) :
    flatForm run vs = pure (Doc.parens (Doc.sepBy ds (.text " ") .nil)) := by
  have hs : (Value.list vs).source? = some (.items vs) := rfl
  have inner := sepBy_plain run hs h plainDoc?_space plainDoc?_empty trivial
    trivial hd
  rw [flatForm, defaultSeparator, defaultLineEnd, inner, pure_bind,
    Join.parens_settled (d := Doc.sepBy ds _ _) (FlatWidth.settled_narrower _ _)]
  rfl

theorem application_plain {function : Value κ} {first : Doc (Value κ)}
    (hf : function.plainDoc? = some first) (hd : AllSettled (first :: ds)) :
    application run function items = pure (Doc.application first ds) := by
  have read : itemsOf (.notSpreadable items.typeName) items = (pure vs : Effect κ _) := by
    rw [itemsOf, eachItem, hs]
    exact (List.mapM_pure (m := Effect κ) (f := id)).trans (by rw [List.map_id])
  rw [application, read, pure_bind, flatForm_plain run (plain_cons hf h) hd]
  rfl

end Sequences

theorem fullLine_plain {v : Value κ} {d : Doc (Value κ)} (h : v.plainDoc? = some d) :
    fullLine run v = pure (.fullLine d) := by
  rw [fullLine, cast_plain run h]
  rfl

theorem parens_plain {v : Value κ} {d : Doc (Value κ)} (h : v.plainDoc? = some d)
    (hd : d.flatWidth.Settled) : parens run v = pure (Doc.parens d) := by
  rw [← parens_doc run hd, parens, parens, cast_plain run h, cast_doc]

theorem definition_plain {keyword head body : Value κ} {first second third : Doc (Value κ)}
    (hk : keyword.plainDoc? = some first) (hh : head.plainDoc? = some second)
    (hb : body.plainDoc? = some third) (hd : AllSettled [first, second, third]) :
    definition run keyword head body = pure (Doc.definition first second third) := by
  have all := plain_cons hk (plain_cons hh (plain_cons hb plain_nil))
  have above := plain_cons hk (plain_cons plainDoc?_space (plain_cons hh plain_nil))
  have below := plain_cons (plainDoc?_space (κ := κ)) (plain_cons hb plain_nil)
  have hflat : flatForm run [keyword, head, body] =
      flatForm run [.doc first, .doc second, .doc third] := by
    rw [flatForm_plain run all hd]
    exact (flatForm_docs run hd).symm
  have habove : horz run [keyword, .str " ", head] = horz run [.doc first, .str " ", .doc second] := by
    rw [horz, horzList, castAll_plain run rfl above]
    rfl
  have hbelow : horz run [.str " ", body] = horz run [.str " ", .doc third] := by
    rw [horz, horzList, castAll_plain run rfl below]
    rfl
  rw [← definition_docs run hd, definition, definition, hflat, habove, hbelow]

end Build

end DocLayout
