import DocLayout.Proofs.Composition
import DocLayout.Proofs.Drafts
import DocLayout.Proofs.TemplateReading

/-
  Templates that spell something out.

  What a template is to spell out is given by parts, literal texts and values. A literal text is
  written with every brace twice, a value as a field without a name. The lines of the parts come of
  cutting the literal texts at their line feeds.

  A template is read as pieces, with new ones wherever a brace was written twice, and the pieces are
  put into the lines of a draft one after the other. Neither the cuts between pieces nor the empty
  texts that come with them make a difference: a draft is what its parts are as a flow
  (`Draft.Shows`), and so are the pieces that a template is read as (`Reads`).

  Proved:
  * `readsTo_spelled`, by induction on the parts: how a spelled template is read.
  * `shows_addPieces`, by induction on the pieces: what their draft shows.
  * `fill_spelled`: a spelled template can be filled, and its lines are those of the parts.
-/

namespace DocLayout.Template

open Text

variable {κ : Type}

/-- The document that a value stands for by itself. -/
def standsFor (v : Value κ) : Doc (Value κ) := v.plainDoc?.getD .nil

/-- A value that stands for a well formed document by itself. -/
def Shown (v : Value κ) : Prop := ∃ d, v.plainDoc? = some d ∧ d.WellFormed

theorem plainDoc?_of_shown {v : Value κ} (h : Shown v) :
    v.plainDoc? = some (standsFor v) ∧ (standsFor v).WellFormed := by
  obtain ⟨d, hplain, hd⟩ := h
  rw [standsFor, hplain]
  exact ⟨rfl, hd⟩

theorem plainDoc?_of_unbroken {s : String} (h : Unbroken s) :
    (Value.str s : Value κ).plainDoc? = some (.text s) := text?_unbroken h

theorem shown_of_unbroken {s : String} (h : Unbroken s) : Shown (.str s : Value κ) :=
  ⟨.text s, plainDoc?_of_unbroken h, h⟩

theorem unbroken_of_plainDoc? {s : String} {d : Doc (Value κ)}
    (h : (Value.str s : Value κ).plainDoc? = some d) : Unbroken s := by
  rw [Value.plainDoc?, Doc.text?] at h
  split at h
  · rename_i hs
    exact (oneLine_iff s).mp hs
  · contradiction

theorem standsFor_of_unbroken {s : String} (h : Unbroken s) :
    standsFor (.str s : Value κ) = .text s := by
  rw [standsFor, plainDoc?_of_unbroken h]
  rfl

/-! ## Parts -/

/-- A part of what a template is to spell out. -/
inductive Part (κ : Type) where
  | literal (s : String)
  | value (v : Value κ)

/-- A character of literal text, with a brace written twice. -/
def escaped (c : Char) : List Char := if isBrace c then [c, c] else [c]

/-- A line of literal text, which is nothing if it is empty. -/
def fragment (cs : List Char) : List (Option (Value κ)) :=
  if cs.isEmpty then [] else [some (.str (String.ofList cs))]

namespace Part

/-- How a part is written in a template. -/
def spelled : Part κ → List Char
  | literal s => s.toList.flatMap escaped
  | value _ => ['\x7b', '\x7d']

/-- The argument that a part stands for. -/
def argument? : Part κ → Option (Value κ)
  | literal _ => none
  | value v => some v

/-- A literal text that breaks lines by line feeds alone, or a value that stands for a well formed
document by itself. -/
def Sound : Part κ → Prop
  | literal s => FeedsOnly s.toList
  | value v => Shown v

/-- What stands in the lines of a part, with none where a line ends. -/
def cut : Part κ → List (Option (Value κ))
  | literal s => [none].intercalate ((splitNewlines s.toList).map fragment)
  | value v => [some v]

/-- The text of a part, if it is one. -/
def text? : Part κ → Option String
  | literal s => some s
  | value (.str s) => some s
  | value _ => none

end Part

/-- The template that spells out parts. -/
def spelled (parts : List (Part κ)) : String := String.ofList (parts.flatMap Part.spelled)

/-- The arguments for the fields of that template. -/
def argumentsOf (parts : List (Part κ)) : List (Value κ) := parts.filterMap Part.argument?

/-- The lines of parts, cut at every line feed of a literal text. -/
def linesOf (parts : List (Part κ)) : List (List (Value κ)) := rowsOf (parts.flatMap Part.cut)

/-! ## Parts as flows -/

theorem intercalate_cons {β : Type} (sep first : List β) (rest : List (List β)) :
    sep.intercalate (first :: rest) = first ++ rest.flatMap (sep ++ ·) := by
  induction rest generalizing first with
  | nil => rw [List.intercalate_singleton, List.flatMap_nil, List.append_nil]
  | cons next rest ih =>
    rw [List.intercalate_cons_cons, ih, List.flatMap_cons, List.append_assoc, List.append_assoc]

/-- A line of literal text is the flow of its characters. -/
theorem alike_fragment {cs : List Char} (h : Unbroken (String.ofList cs)) :
    FlowsAlike ((fragment cs).map (Option.map (standsFor (κ := κ)))) (lineFlow cs) := by
  rw [fragment]
  split
  · rename_i hempty
    rw [List.isEmpty_iff.mp hempty]
    exact .refl []
  · have halike := alike_text (α := Value κ) (String.ofList cs)
    rw [String.toList_ofList] at halike
    rw [List.map_singleton, Option.map_some, standsFor_of_unbroken h]
    exact halike

/-- The flow of a part. -/
def Part.flow : Part κ → List (Option (Doc (Value κ)))
  | literal s => charFlow s.toList
  | value v => [some (standsFor v)]

/-- Nothing but empty texts is lost where a part is cut into lines. -/
theorem alike_cut {p : Part κ} (hp : p.Sound) :
    FlowsAlike (p.cut.map (Option.map standsFor)) p.flow := by
  cases p with
  | value v => exact .refl _
  | literal s =>
    obtain ⟨first, rest, hlines⟩ := List.exists_cons_of_ne_nil (splitNewlines_ne_nil s.toList)
    have hunbroken : ∀ line ∈ first :: rest, Unbroken (String.ofList line) :=
      fun line hline => unbroken_line hp (hlines ▸ hline)
    rw [List.forall_mem_cons] at hunbroken
    rw [Part.cut, Part.flow, charFlow_eq hlines, hlines, List.map_cons, intercalate_cons,
      List.map_append, List.flatMap_map, List.map_flatMap]
    refine .append (alike_fragment hunbroken.1) (.flatMap fun line hline => ?_)
    exact .cons none (alike_fragment (hunbroken.2 line hline))

theorem alike_parts {parts : List (Part κ)} (h : ∀ p ∈ parts, p.Sound) :
    FlowsAlike ((parts.flatMap Part.cut).map (Option.map standsFor)) (parts.flatMap Part.flow) := by
  rw [List.map_flatMap]
  exact .flatMap fun p hp => alike_cut (h p hp)

variable {run : Interpreter κ} {a : Arguments κ} {n : Numbering}

/-! ## Spelled templates -/

/-- A template that is read as pieces that come to a flow. -/
def ReadsTo (run : Interpreter κ) (a : Arguments κ) (n : Numbering) (s : List Char)
    (xs : List (Option (Doc (Value κ)))) : Prop :=
  ∃ ps, pieces s = .ok ps ∧ Reads run a n ps xs

variable {s : List Char} {xs : List (Option (Doc (Value κ)))}

theorem readsTo_nil : ReadsTo run a n [] [] := ⟨[], by rw [pieces]; rfl, .nil n⟩

theorem feedsOnly_singleton {c : Char} (hc : c = '\n' ∨ isBoundary c = false) :
    FeedsOnly (String.ofList [c]).toList := by
  rw [String.toList_ofList]
  exact List.forall_mem_singleton.mpr hc

/-- A character in front of the first literal text is in front of the flow. -/
theorem reads_withChar {c : Char} (hc : c = '\n' ∨ isBoundary c = false) {ps : List Piece}
    (h : Reads run a n ps xs) : Reads run a n (withChar c ps) (charFlow [c] ++ xs) := by
  have longer : ∀ {s : String}, FeedsOnly s.toList →
      FeedsOnly (String.ofList (c :: s.toList)).toList := by
    intro s hs
    rw [String.toList_ofList]
    exact List.forall_mem_cons.mpr ⟨hc, hs⟩
  have split : ∀ (s : String) (ys : List (Option (Doc (Value κ)))),
      charFlow [c] ++ (charFlow s.toList ++ ys) =
        charFlow (String.ofList (c :: s.toList)).toList ++ ys := by
    intro s ys
    rw [String.toList_ofList, ← List.append_assoc, ← charFlow_append, List.singleton_append]
  cases h with
  | nil n =>
    have hnil : Reads run a n [] [] := .nil n
    have hread := Reads.literal (feedsOnly_singleton hc) hnil
    rwa [String.toList_ofList] at hread
  | literal hs hrest =>
    rw [split]
    exact .literal (longer hs) hrest
  | field hs hf hd hrest =>
    rw [split]
    exact .field (longer hs) hf hd hrest

theorem readsTo_char (h : ReadsTo run a n s xs) {c : Char}
    (hc : c = '\n' ∨ isBoundary c = false) :
    ReadsTo run a n (escaped c ++ s) (charFlow [c] ++ xs) := by
  obtain ⟨ps, hps, hreads⟩ := h
  rw [escaped]
  split
  · rename_i hbrace
    refine ⟨⟨String.ofList [c], none⟩ :: ps, ?_, ?_⟩
    · show pieces (c :: c :: s) = _
      rw [pieces_brace hbrace, hps]
      rfl
    · have hread := Reads.literal (feedsOnly_singleton hc) hreads
      rwa [String.toList_ofList] at hread
  · rename_i hbrace
    refine ⟨withChar c ps, ?_, reads_withChar hc hreads⟩
    show pieces (c :: s) = _
    rw [pieces_cons (by simpa using hbrace), hps]
    rfl

/-- Literal text is read as its characters. -/
theorem readsTo_literal (h : ReadsTo run a n s xs) {cs : List Char} (hcs : FeedsOnly cs) :
    ReadsTo run a n (cs.flatMap escaped ++ s) (charFlow cs ++ xs) := by
  induction cs with
  | nil => exact h
  | cons c cs ih =>
    rw [FeedsOnly, List.forall_mem_cons] at hcs
    have hnext := readsTo_char (ih hcs.2) hcs.1
    rw [← List.append_assoc, ← List.append_assoc, ← charFlow_append] at hnext
    exact hnext

/-- A field without a name is read as the next argument. -/
theorem readsTo_field (hmode : n.mode ≠ some .manual) (hk : n.nextIndex ≤ greatestPosition)
    {v : Value κ} (hv : a.positional[n.nextIndex]? = some v) {d : Doc (Value κ)}
    (hplain : v.plainDoc? = some d) (hd : d.WellFormed)
    (h : ReadsTo run a ⟨some .automatic, n.nextIndex + 1⟩ s xs) :
    ReadsTo run a n ('\x7b' :: '\x7d' :: s) (some d :: xs) := by
  obtain ⟨ps, hps, hreads⟩ := h
  refine ⟨⟨"", some ⟨"", "", none⟩⟩ :: ps, ?_, ?_⟩
  · rw [pieces_field, hps]
    rfl
  · have hresolve : n.resolve a (Field.mk "" "" none).name = _ := resolve_next hmode hk hv
    exact .field (List.forall_mem_nil _) (fieldDoc_plain run rfl rfl hresolve hplain) hd hreads

/-- A spelled template is read as its parts, with the arguments in their order from where the numbering
is. -/
theorem readsTo_spelled {parts : List (Part κ)} (hparts : ∀ p ∈ parts, p.Sound)
    {before : List (Value κ)} (ha : a.positional = before ++ argumentsOf parts)
    (hcount : a.positional.length ≤ greatestPosition) (hmode : n.mode ≠ some .manual)
    (hindex : n.nextIndex = before.length) :
    ReadsTo run a n (parts.flatMap Part.spelled) (parts.flatMap Part.flow) := by
  induction parts generalizing n before with
  | nil => exact readsTo_nil
  | cons p parts ih =>
    rw [List.forall_mem_cons] at hparts
    cases p with
    | literal s => exact readsTo_literal (ih hparts.2 ha hmode hindex) hparts.1
    | value v =>
      obtain ⟨hplain, hd⟩ := plainDoc?_of_shown hparts.1
      have hargs : a.positional = before ++ v :: argumentsOf parts := ha
      have hv : a.positional[n.nextIndex]? = some v := by
        rw [hargs, hindex, List.getElem?_append_right (Nat.le_refl _), Nat.sub_self,
          List.getElem?_cons_zero]
      have hlength : a.positional.length = before.length + ((argumentsOf parts).length + 1) := by
        rw [hargs, List.length_append, List.length_cons]
      have hrest : a.positional = (before ++ [v]) ++ argumentsOf parts := by
        rw [hargs, List.append_assoc, List.singleton_append]
      have hnext : n.nextIndex + 1 = (before ++ [v]).length := by
        rw [List.length_append, List.length_singleton, hindex]
      have hread : ReadsTo run a ⟨some .automatic, n.nextIndex + 1⟩ (parts.flatMap Part.spelled)
          (parts.flatMap Part.flow) := ih hparts.2 hrest (by simp) hnext
      exact readsTo_field hmode (by omega) hv hplain hd hread

/-! ## Displays -/

theorem mapM_eq_pure {β γ : Type} {f : β → Effect κ γ} {g : β → γ} {items : List β}
    (h : ∀ x ∈ items, f x = pure (g x)) : items.mapM f = pure (items.map g) := by
  induction items with
  | nil => rfl
  | cons x items ih =>
    rw [List.forall_mem_cons] at h
    rw [List.mapM_cons, h.1, pure_bind, ih h.2]
    rfl

/-- A document that is laid out as a flow of well formed documents has the lines of that flow. -/
theorem display_flow {d : Doc (Value κ)} {width : Value κ}
    (h : ∀ margin canvas, d.descend margin canvas 0 0 = flow margin xs canvas 0)
    (hxs : ∀ e, some e ∈ xs → e.WellFormed) (hw : (Width.ofValue width).Comparable) :
    Page.display run (.doc d) width = pure (flow (.ofValue width) xs .empty 0).1.lines := by
  obtain ⟨after, reached, hflow⟩ :
      ∃ after reached, flow (.ofValue width) xs .empty 0 = (after, .ok reached) :=
    exists_flow hxs hw .empty 0
  rw [display_doc, Doc.lines, Doc.display, layOut_descend, h, hflow]
  rfl

/-- The lines of values side by side. -/
theorem display_line {line : List (Value κ)} (hline : ∀ v ∈ line, Shown v) {width : Value κ}
    (hw : (Width.ofValue width).Comparable) :
    (do Page.display run (.doc (← Build.horzList run (.list line))) width) =
      pure (flow (.ofValue width) ((line.map standsFor).map some) .empty 0).1.lines := by
  have hplain : Plain line (line.map standsFor) := by
    rw [Plain, List.map_map]
    exact List.map_congr_left fun v hv => (plainDoc?_of_shown (hline v hv)).1
  have hdocs : ∀ d ∈ line.map standsFor, d.WellFormed := by
    intro d hd
    obtain ⟨v, hv, rfl⟩ := List.mem_map.mp hd
    exact (plainDoc?_of_shown (hline v hv)).2
  have hsource : (Value.list line).source? = some (.items line) := rfl
  rw [Build.horzList_plain run hsource hplain fun d hd => (hdocs d hd).settled, pure_bind]
  refine display_flow (fun margin canvas => ?_) (fun e he => ?_) hw
  · rw [← flow_singleton, alike_horzList]
  · obtain ⟨d, hd, heq⟩ := List.mem_map.mp he
    exact Option.some.inj heq ▸ hdocs d hd

/-- What stands in the lines of sound parts can be shown. -/
theorem shown_cut {p : Part κ} (hp : p.Sound) {v : Value κ} (hv : some v ∈ p.cut) : Shown v := by
  cases p with
  | value w => exact Option.some.inj (List.mem_singleton.mp hv) ▸ hp
  | literal s =>
    obtain ⟨first, rest, hlines⟩ := List.exists_cons_of_ne_nil (splitNewlines_ne_nil s.toList)
    have hfragment : ∀ line ∈ first :: rest, some v ∈ fragment line → Shown v := by
      intro line hline hmem
      rw [fragment] at hmem
      split at hmem
      · contradiction
      · rw [Option.some.inj (List.mem_singleton.mp hmem)]
        exact shown_of_unbroken (unbroken_line hp (hlines ▸ hline))
    rw [Part.cut, hlines, List.map_cons, intercalate_cons, List.mem_append, List.flatMap_map,
      List.mem_flatMap] at hv
    rcases hv with hv | ⟨line, hline, hv⟩
    · exact hfragment first List.mem_cons_self hv
    · rcases List.mem_cons.mp hv with hv | hv
      · contradiction
      · exact hfragment line (List.mem_cons_of_mem _ hline) hv

/-- A text in a part is the flow of its characters. -/
theorem alike_text_part {p : Part κ} (hp : p.Sound) {s : String} (h : p.text? = some s) :
    FeedsOnly s.toList ∧ FlowsAlike p.flow (charFlow s.toList) := by
  cases p with
  | literal t =>
    cases h
    exact ⟨hp, .refl _⟩
  | value v =>
    cases v with
    | str t =>
      cases h
      obtain ⟨d, hplain, -⟩ := hp
      have hunbroken := unbroken_of_plainDoc? hplain
      have hfeed : '\n' ∉ s.toList := fun hmem => absurd (hunbroken _ hmem) (by decide)
      refine ⟨fun c hc => .inr (hunbroken c hc), ?_⟩
      rw [Part.flow, standsFor_of_unbroken hunbroken, charFlow_line hfeed]
      exact alike_text s
    | _ => contradiction

section Sound

variable {parts : List (Part κ)} (hparts : ∀ p ∈ parts, p.Sound)
include hparts

theorem shown_line {line : List (Value κ)} (hline : line ∈ linesOf parts) :
    ∀ v ∈ line, Shown v := by
  intro v hv
  obtain ⟨p, hp, hcut⟩ := List.mem_flatMap.mp (mem_of_mem_rowsOf hline hv)
  exact shown_cut (hparts p hp) hcut

/-- The documents of the values that stand in the lines of parts. -/
theorem wellFormed_parts {d : Doc (Value κ)}
    (hd : some d ∈ (parts.flatMap Part.cut).map (Option.map standsFor)) : d.WellFormed := by
  obtain ⟨x, hx, hmap⟩ := List.mem_map.mp hd
  obtain ⟨p, hp, hcut⟩ := List.mem_flatMap.mp hx
  obtain ⟨v, rfl, rfl⟩ := Option.map_eq_some_iff.mp hmap
  exact (plainDoc?_of_shown (shown_cut (hparts p hp) hcut)).2

variable (run) in
/-- The template that spells out parts can be filled with their values, and its document is laid out as
the parts are. -/
theorem exists_fill (hcount : (argumentsOf parts).length ≤ greatestPosition) :
    ∃ d, fill run (.str (spelled parts)) ⟨argumentsOf parts, []⟩ = pure d ∧
      ∀ margin canvas, d.descend margin canvas 0 0 =
        flow margin ((parts.flatMap Part.cut).map (Option.map standsFor)) canvas 0 := by
  have hargs : (⟨argumentsOf parts, []⟩ : Arguments κ).positional = [] ++ argumentsOf parts := rfl
  obtain ⟨ps, hps, hreads⟩ : ReadsTo run ⟨argumentsOf parts, []⟩ .start
      (parts.flatMap Part.spelled) (parts.flatMap Part.flow) :=
    readsTo_spelled hparts hargs hcount (by decide) rfl
  obtain ⟨draft, hdraft, hshows⟩ := shows_addPieces hreads shows_empty
  obtain ⟨d, hfinish, hd⟩ := shows_finish hshows
  refine ⟨d, ?_, fun margin canvas => ?_⟩
  · have hpieces : pieces (spelled parts).toList = .ok ps := by
      rw [spelled, String.toList_ofList, hps]
    rw [fill_of_addPieces rfl hpieces hdraft, hfinish]
    rfl
  · rw [hd, alike_parts hparts]
    rfl

/-- The lines of the parts as a flow are those of their lines one by one. -/
theorem lines_parts {margin : Margin (Value κ)} (hw : margin.width.Comparable) :
    (flow margin ((parts.flatMap Part.cut).map (Option.map standsFor)) .empty 0).1.lines =
      (linesOf parts).flatMap fun line =>
        (flow margin ((line.map standsFor).map some) .empty 0).1.lines := by
  rw [lines_flow (fun d hd => wellFormed_parts hparts hd) hw, rowsOf_map, List.flatMap_map]
  rfl

/-- Parts that are all texts are like the characters of these texts. -/
theorem alike_texts {texts : List String} (htexts : parts.map Part.text? = texts.map some) :
    FeedsOnly (String.join texts).toList ∧
      FlowsAlike (parts.flatMap Part.flow) (charFlow (String.join texts).toList) := by
  induction parts generalizing texts with
  | nil =>
    rw [List.map_nil, eq_comm, List.map_eq_nil_iff] at htexts
    rw [htexts]
    exact ⟨List.forall_mem_nil _, .refl []⟩
  | cons p parts ih =>
    cases texts with
    | nil => contradiction
    | cons s texts =>
      rw [List.forall_mem_cons] at hparts
      rw [List.map_cons, List.map_cons, List.cons.injEq] at htexts
      obtain ⟨hfeeds, halike⟩ := alike_text_part hparts.1 htexts.1
      obtain ⟨hrest, hflow⟩ := ih hparts.2 htexts.2
      rw [String.join_cons, String.toList_append, charFlow_append]
      exact ⟨List.forall_mem_append.mpr ⟨hfeeds, hrest⟩, .append halike hflow⟩

end Sound

section Shown

variable {parts : List (Part κ)} (hparts : ∀ p ∈ parts, p.Sound) {d : Doc (Value κ)}
  (hd : ∀ margin canvas, d.descend margin canvas 0 0 =
    flow margin ((parts.flatMap Part.cut).map (Option.map standsFor)) canvas 0)
  {width : Value κ} (hw : (Width.ofValue width).Comparable)
include hparts hd hw

/-- What is laid out as parts are is displayed as their lines, one after the other. -/
theorem display_parts :
    ∃ shown, (linesOf parts).mapM (fun line => do
        Page.display run (.doc (← Build.horzList run (.list line))) width) = pure shown ∧
      Page.display run (.doc d) width = pure shown.flatten := by
  refine ⟨_, mapM_eq_pure fun line hline => display_line (shown_line hparts hline) hw, ?_⟩
  rw [display_flow hd (fun e he => wellFormed_parts hparts he) hw, lines_parts hparts hw]
  rfl

/-- What is laid out as texts are is displayed as what line feeds leave of them. -/
theorem display_texts {texts : List String} (htexts : parts.map Part.text? = texts.map some) :
    Page.display run (.doc d) width =
      pure ((splitNewlines (String.join texts).toList).map String.ofList) := by
  obtain ⟨hfeeds, halike⟩ := alike_texts hparts htexts
  rw [display_flow hd (fun e he => wellFormed_parts hparts he) hw, alike_parts hparts, halike,
    lines_charFlow hfeeds hw]

end Shown

/-- A template spells out what its parts are. Take any parts: literal texts with any characters and
no boundary but line feeds, and values that stand for well formed documents, no more of them than a
position can count. Write the literal texts with every brace twice, and a field without a name for
every value. Then that template can be filled with the values, and on every page whose width is a
number its display is the display of the lines of the parts, one after the other: a line ends at
every line feed of a literal text, and what stands in it is put side by side. Where all values are
texts, the display is what the line feeds leave of these texts, put one behind the other; and so an
escaped text is displayed as its own lines. -/
theorem fill_spelled (run : Interpreter κ) :
    (∀ parts : List (Part κ), (∀ p ∈ parts, p.Sound) →
      (argumentsOf parts).length ≤ greatestPosition →
      ∃ d, fill run (.str (spelled parts)) ⟨argumentsOf parts, []⟩ = pure d ∧
        ∀ width : Value κ, (Width.ofValue width).Comparable →
          (∃ shown, (linesOf parts).mapM (fun line => do
              Page.display run (.doc (← Build.horzList run (.list line))) width) = pure shown ∧
            Page.display run (.doc d) width = pure shown.flatten) ∧
          ∀ texts : List String, parts.map Part.text? = texts.map some →
            Page.display run (.doc d) width =
              pure ((splitNewlines (String.join texts).toList).map String.ofList)) ∧
    ∀ s : String, FeedsOnly s.toList →
      ∃ d, fill run (.str (String.ofList (s.toList.flatMap escaped))) ⟨[], []⟩ = pure d ∧
        ∀ width : Value κ, (Width.ofValue width).Comparable →
          Page.display run (.doc d) width = pure ((splitNewlines s.toList).map String.ofList) := by
  constructor
  · intro parts hparts hcount
    obtain ⟨d, hfill, hd⟩ := exists_fill run hparts hcount
    exact ⟨d, hfill, fun width hw => ⟨display_parts hparts hd hw,
      fun texts htexts => display_texts hparts hd hw htexts⟩⟩
  · intro s hs
    have hparts : ∀ p ∈ [(.literal s : Part κ)], p.Sound := List.forall_mem_singleton.mpr hs
    have htexts : [(.literal s : Part κ)].map Part.text? = [s].map some := rfl
    have hspelled : spelled [(.literal s : Part κ)] = String.ofList (s.toList.flatMap escaped) := by
      rw [spelled, List.flatMap_singleton, Part.spelled]
    have hjoin : String.join [s] = s := by
      rw [String.join_cons]
      exact String.append_empty
    obtain ⟨d, hfill, hd⟩ := exists_fill run hparts (Nat.zero_le _)
    rw [hspelled] at hfill
    refine ⟨d, hfill, fun width hw => ?_⟩
    rw [display_texts hparts hd hw htexts, hjoin]

/-- Braces around a document of two lines and a text, on three lines. -/
def bracedParts : List (Part Empty) :=
  [.literal "\x7b ", .value (.doc (.vert (.text "a") (.text "b"))), .literal "\n\n\x7d",
    .value (.str "c")]

/-- A brace and two texts, with a line feed behind them. -/
def textParts : List (Part Empty) := [.literal "a\x7b", .value (.str "b"), .literal "c\n"]

theorem fill_spelled_braces :
    (∀ p ∈ bracedParts, p.Sound) ∧ (∀ p ∈ textParts, p.Sound) ∧
    (argumentsOf bracedParts).length ≤ greatestPosition ∧
    (argumentsOf textParts).length ≤ greatestPosition ∧
    textParts.map Part.text? = ["a\x7b", "b", "c\n"].map some ∧ FeedsOnly "\x7b\n\x7d".toList ∧
    (Width.ofValue (.int 10 : Value Empty)).Comparable ∧
    spelled bracedParts = "\x7b\x7b \x7b\x7d\n\n\x7d\x7d\x7b\x7d" ∧
    (∃ d shown, fill Empty.elim (.str (spelled bracedParts)) ⟨argumentsOf bracedParts, []⟩ = pure d ∧
      (linesOf bracedParts).mapM (fun line => do
        Page.display Empty.elim (.doc (← Build.horzList Empty.elim (.list line))) (.int 10)) =
          pure shown ∧
      Page.display Empty.elim (.doc d) (.int 10) = pure shown.flatten) ∧
    (∃ d, fill Empty.elim (.str (spelled textParts)) ⟨argumentsOf textParts, []⟩ = pure d ∧
      Page.display Empty.elim (.doc d) (.int 10) = pure ["a\x7bbc", ""]) ∧
    ∃ d, fill Empty.elim (.str "\x7b\x7b\n\x7d\x7d") ⟨[], []⟩ = pure d ∧
      Page.display Empty.elim (.doc d) (.int 10) = pure ["\x7b", "\x7d"] := by
  have unbroken : ∀ s ∈ ["a", "b", "c"], Unbroken s := by decide
  have hdoc : (Doc.vert (.text "a") (.text "b") : Doc (Value Empty)).WellFormed :=
    ⟨unbroken "a" (by decide), unbroken "b" (by decide)⟩
  have literal : ∀ s ∈ ["\x7b ", "\n\n\x7d", "a\x7b", "c\n"], FeedsOnly s.toList := by decide
  have hbraced : ∀ p ∈ bracedParts, p.Sound := by
    rw [bracedParts, List.forall_mem_cons, List.forall_mem_cons, List.forall_mem_cons,
      List.forall_mem_singleton]
    exact ⟨literal "\x7b " (by decide), ⟨_, rfl, hdoc⟩, literal "\n\n\x7d" (by decide),
      shown_of_unbroken (unbroken "c" (by decide))⟩
  have htext : ∀ p ∈ textParts, p.Sound := by
    rw [textParts, List.forall_mem_cons, List.forall_mem_cons, List.forall_mem_singleton]
    exact ⟨literal "a\x7b" (by decide), shown_of_unbroken (unbroken "b" (by decide)),
      literal "c\n" (by decide)⟩
  have htexts : textParts.map Part.text? = ["a\x7b", "b", "c\n"].map some := rfl
  have hfeeds : FeedsOnly "\x7b\n\x7d".toList := by decide
  have hwidth : (Width.ofValue (.int 10 : Value Empty)).Comparable := trivial
  obtain ⟨hparts, hescaped⟩ := fill_spelled Empty.elim
  obtain ⟨d, hd, hdisplay⟩ := hparts bracedParts hbraced (by decide)
  obtain ⟨⟨shown, hlines, hshown⟩, -⟩ := hdisplay (.int 10) hwidth
  obtain ⟨e, he, hplain⟩ := hparts textParts htext (by decide)
  obtain ⟨f, hf, hown⟩ := hescaped _ hfeeds
  exact ⟨hbraced, htext, by decide, by decide, htexts, hfeeds, hwidth, by decide,
    ⟨d, shown, hd, hlines, hshown⟩, ⟨e, he, (hplain (.int 10) hwidth).2 _ htexts⟩,
    f, hf, hown (.int 10) hwidth⟩

end DocLayout.Template
