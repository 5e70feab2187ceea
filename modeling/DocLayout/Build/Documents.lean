import DocLayout.Build

/-
  Building from documents alone.

  Where every part is a document that makes no claim about its width, nothing is left of the
  session: building is the composition of documents, for every interpreter.
-/

namespace DocLayout.Build

variable {κ : Type} (run : Interpreter κ)

/-- Documents that make no claim about their flat width. -/
abbrev AllSettled (ds : List (Doc (Value κ))) : Prop := ∀ d ∈ ds, d.flatWidth.Settled

theorem cast_doc (d : Doc (Value κ)) : cast run (.doc d) = pure d := rfl

theorem cast_space : cast run (.str " ") = pure (.text " ") := rfl

theorem cast_empty : cast run (.str "") = pure .nil := rfl

theorem mapM_cast_docs (ds : List (Doc (Value κ))) :
    (ds.map Value.doc).mapM (cast run) = pure ds := by
  induction ds with
  | nil => simp
  | cons d ds ih => simp [List.mapM_cons, cast_doc, ih]

/-- The documents of a list of documents are these documents. -/
theorem castAll_docs (ds : List (Doc (Value κ))) :
    castAll run (.list (ds.map .doc)) = pure ds := mapM_cast_docs run ds

theorem ofExcept_ok {β : Type} (x : β) : (ofExcept (.ok x : Except Failure β) : Effect κ β) = pure x :=
  rfl

theorem horzList_docs {ds : List (Doc (Value κ))} (hs : AllSettled ds) :
    horzList run (.list (ds.map .doc)) = pure (Doc.horzList ds) := by
  simp [horzList, castAll_docs, Join.horzList_settled hs, ofExcept_ok]

theorem vertList_docs (ds : List (Doc (Value κ))) :
    vertList run (.list (ds.map .doc)) = pure (Doc.vertList ds) := by
  simp [vertList, castAll_docs]

theorem concatList_docs {ds : List (Doc (Value κ))} (hs : AllSettled ds) :
    concatList run (.list (ds.map .doc)) = pure (Doc.concatList ds) := by
  simp [concatList, castAll_docs, Join.concatList_settled hs, ofExcept_ok]

/-- A word is filled in as the composition of documents says. -/
theorem fillWord_docs {separator lineEnd : Value κ} {space lineStop : Doc (Value κ)}
    (hs : cast run separator = pure space) (he : cast run lineEnd = pure lineStop)
    {paragraph word : Doc (Value κ)} (hspace : space.flatWidth.Settled)
    (hp : paragraph.flatWidth.Settled) (hw : word.flatWidth.Settled) :
    fillWord run separator lineEnd paragraph word =
      pure (Doc.fillWord space lineStop paragraph word) := by
  have flat := Join.horz_settled hspace hw
  have both := Join.choice_settled (a := Doc.horz space word) (b := .vert lineStop word)
    (FlatWidth.settled_add _ _) trivial
  have whole := Join.concat_settled (a := paragraph)
    (b := Doc.choice (Doc.horz space word) (.vert lineStop word)) hp
    (FlatWidth.settled_narrower _ _)
  simp only [fillWord, hs, he, pure_bind, flat, ofExcept_ok, both]
  simp only [bind, Except.bind, whole]
  rfl

theorem settled_fillWord (space lineStop paragraph word : Doc (Value κ)) :
    (Doc.fillWord space lineStop paragraph word).flatWidth.Settled := FlatWidth.settled_add _ _

theorem foldlM_fillWord {separator lineEnd : Value κ} {space lineStop : Doc (Value κ)}
    (hs : cast run separator = pure space) (he : cast run lineEnd = pure lineStop)
    (hspace : space.flatWidth.Settled) {words : List (Doc (Value κ))} (hw : AllSettled words)
    {paragraph : Doc (Value κ)} (hp : paragraph.flatWidth.Settled) :
    words.foldlM (fillWord run separator lineEnd) paragraph =
      pure (words.foldl (Doc.fillWord space lineStop) paragraph) := by
  induction words generalizing paragraph with
  | nil => rfl
  | cons word words ih =>
    rw [List.foldlM_cons, fillWord_docs run hs he hspace hp (hw word (by simp)), pure_bind,
      ih (fun d hd => hw d (by simp [hd])) (settled_fillWord space lineStop paragraph word)]
    rfl

/-- A paragraph of documents, whatever makes the separator and the line end. -/
theorem wrap_docs {separator lineEnd : Value κ} {space lineStop : Doc (Value κ)}
    (hs : cast run separator = pure space) (he : cast run lineEnd = pure lineStop)
    (hspace : space.flatWidth.Settled) {words : List (Doc (Value κ))} (hw : AllSettled words) :
    wrap run (.list (words.map .doc)) separator lineEnd =
      pure (Doc.wrap words space lineStop) := by
  simp only [wrap, castAll_docs, pure_bind]
  cases words with
  | nil => rfl
  | cons first rest =>
    exact foldlM_fillWord run hs he hspace (fun d hd => hw d (by simp [hd])) (hw first (by simp))

theorem mapM_ends {lineEnd : Value κ} {lineStop : Doc (Value κ)}
    (he : cast run lineEnd = pure lineStop) (hstop : lineStop.flatWidth.Settled)
    {items : List (Doc (Value κ))} (hs : AllSettled items) :
    (items.mapM fun item => do ofExcept (Join.horz item (← cast run lineEnd))) =
      (pure (items.map (Doc.horz · lineStop)) : Effect κ _) := by
  induction items with
  | nil => simp
  | cons item items ih =>
    have hitem := Join.horz_settled (hs item (by simp)) hstop
    have hrest := ih fun d hd => hs d (by simp [hd])
    simp only [he, pure_bind] at hrest
    simp only [List.mapM_cons, he, pure_bind, hitem, ofExcept_ok, hrest, List.map_cons]

theorem mapM_separated {separator : Value κ} {space : Doc (Value κ)}
    (h : cast run separator = pure space) (items : List (Doc (Value κ))) :
    (items.mapM fun item => return [← cast run separator, item]) =
      (pure (items.map fun item => [space, item]) : Effect κ _) := by
  simp only [h, pure_bind, List.mapM_pure]

/-- Items that are documents, whatever makes the separator and the line end. -/
theorem sepBy_docs {separator lineEnd : Value κ} {space lineStop : Doc (Value κ)}
    (hsep : cast run separator = pure space) (hend : cast run lineEnd = pure lineStop)
    (hspace : space.flatWidth.Settled) (hstop : lineStop.flatWidth.Settled)
    {items : List (Doc (Value κ))} (hs : AllSettled items) :
    sepBy run (.list (items.map .doc)) separator lineEnd =
      pure (Doc.sepBy items space lineStop) := by
  have butLast : AllSettled items.dropLast :=
    fun d hd => hs d ((List.dropLast_sublist items).subset hd)
  have ends := mapM_ends run hend hstop butLast
  have flat : Join.horzList (items.head?.toList ++
      (items.tail.map fun item => [space, item]).flatten) =
      .ok (Doc.horzList (Doc.spaced space items)) :=
    Join.horzList_settled (Doc.forall_mem_spaced hspace hs)
  have flatSettled : (Doc.horzList (Doc.spaced space items)).flatWidth.Settled :=
    Join.settled_horzList (Doc.forall_mem_spaced hspace hs)
  have brokenSettled : (Doc.vertList (Doc.withEnds lineStop items)).flatWidth.Settled :=
    Join.settled_vertList (Doc.forall_mem_withEnds (fun _ _ => FlatWidth.settled_add _ _) hs)
  simp only [sepBy, castAll_docs, pure_bind, ends, mapM_separated run hsep, flat, ofExcept_ok]
  exact congrArg ofExcept (Join.choice_settled flatSettled brokenSettled)

theorem parens_doc {d : Doc (Value κ)} (h : d.flatWidth.Settled) :
    parens run (.doc d) = pure (Doc.parens d) := by
  simp only [parens, cast_doc, pure_bind, Join.parens_settled h]
  rfl

/-- The flat form of an s-expression of documents. -/
theorem flatForm_docs {items : List (Doc (Value κ))} (hs : AllSettled items) :
    flatForm run (items.map .doc) = pure (Doc.parens (Doc.sepBy items (.text " ") .nil)) := by
  have inner := sepBy_docs run (cast_space run) (cast_empty run) trivial trivial hs
  simp only [flatForm, defaultSeparator, defaultLineEnd, inner, pure_bind,
    Join.parens_settled (d := Doc.sepBy items _ _) (FlatWidth.settled_narrower _ _)]
  rfl

theorem application_docs {function : Doc (Value κ)} {arguments : List (Doc (Value κ))}
    (hs : AllSettled (function :: arguments)) :
    application run (.doc function) (.list (arguments.map .doc)) =
      pure (Doc.application function arguments) := by
  have items : itemsOf (.notSpreadable "list") (Value.list (arguments.map Value.doc)) =
      (pure (arguments.map Value.doc) : Effect κ _) :=
    (List.mapM_pure (m := Effect κ) (f := id)).trans (by rw [List.map_id])
  have flat := flatForm_docs run hs
  simp only [List.map_cons] at flat
  simp only [application, Value.typeName, items, pure_bind, flat]
  rfl

theorem definition_docs {keyword head body : Doc (Value κ)}
    (hs : AllSettled [keyword, head, body]) :
    definition run (.doc keyword) (.doc head) (.doc body) =
      pure (Doc.definition keyword head body) := by
  have hk := hs keyword (by simp)
  have hh := hs head (by simp)
  have hb := hs body (by simp)
  have flat := flatForm_docs run hs
  simp only [List.map_cons, List.map_nil] at flat
  have ofFirst : AllSettled [keyword, .text " ", head] := by
    intro d hd
    simp only [List.mem_cons, List.not_mem_nil, or_false] at hd
    obtain rfl | rfl | rfl := hd
    · exact hk
    · trivial
    · exact hh
  have ofSecond : AllSettled [.text " ", body] := by
    intro d hd
    simp only [List.mem_cons, List.not_mem_nil, or_false] at hd
    obtain rfl | rfl := hd
    · trivial
    · exact hb
  have first : horz run [.doc keyword, .str " ", .doc head] =
      pure (Doc.horz (Doc.horz keyword (.text " ")) head) := horzList_docs run ofFirst
  have second : horz run [.str " ", .doc body] = pure (Doc.horz (.text " ") body) :=
    horzList_docs run ofSecond
  simp only [definition, flat, first, second, pure_bind]
  simp only [Join.parens_settled (d := Doc.vert _ _) trivial, bind, Except.bind]
  have both := Join.choice_settled
    (a := Doc.parens (Doc.sepBy [keyword, head, body] (.text " ") .nil))
    (b := Doc.parens (.vert (Doc.horz (Doc.horz keyword (.text " ")) head)
      (Doc.horz (.text " ") body)))
    (FlatWidth.settled_add _ _) trivial
  exact congrArg ofExcept both

theorem block_docs {keyword : Doc (Value κ)} {bodies : List (Doc (Value κ))}
    (hs : AllSettled bodies) :
    block run (.doc keyword) (.list (bodies.map .doc)) = pure (Doc.block keyword bodies) := by
  have below := Join.horz_settled (a := .text " ") (b := Doc.vertList bodies) trivial
    (Join.settled_vertList hs)
  simp only [block, vertList_docs, pure_bind, below, ofExcept_ok, cast_doc,
    Join.parens_settled (d := Doc.vert _ _) trivial]
  rfl

end DocLayout.Build
