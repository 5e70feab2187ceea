import DocLayout.Build.Plain
import DocLayout.Proofs.Holdings

/-
  Building keeps rules.

  A rule that holds of all documents in the arguments holds of the document that is built of them,
  whatever the arguments are: texts, documents, sequences that can be read once or many times, and
  objects whose methods heed the rule. The exception is a choice that is asked for as such: whether
  that one keeps the rule is up to its alternatives.

  There is one lemma for each way of building, and the two places where a choice comes into being are
  worth a look: `makes_fillWord` and `makes_definition` break a line in the broken alternative, and
  `makes_sepBy` does so too from the second item on.
-/

namespace DocLayout

variable {κ : Type} {P : Doc (Value κ) → Prop}

/-- The methods of objects keep a rule. -/
abbrev Heeds (P : Doc (Value κ) → Prop) (run : Interpreter κ) : Prop :=
  ∀ code, (run code).Keeps (Session.AllDocs P) (Value.AllDocs P)

/-- A computation makes only documents as a rule says. -/
abbrev Makes (P : Doc (Value κ) → Prop) (m : Effect κ (Doc (Value κ))) : Prop :=
  m.Keeps (Session.AllDocs P) P

/-! ## Joins -/

theorem joined_keeps {join : Doc (Value κ) → Doc (Value κ) → Doc (Value κ)}
    (hnil : P .nil) (hjoin : ∀ {a b}, P a → P b → P (join a b)) {ds : List (Doc (Value κ))}
    (h : ∀ d ∈ ds, P d) : P (Doc.joined join ds) := by
  have fold : ∀ (l : List (Doc (Value κ))) (d : Doc (Value κ)), P d → (∀ x ∈ l, P x) →
      P (l.foldl join d) := by
    intro l
    induction l with
    | nil => exact fun d hd _ => hd
    | cons x l ih =>
      intro d hd hl
      have hx := List.forall_mem_cons.mp hl
      exact ih (join d x) (hjoin hd hx.1) hx.2
  cases ds with
  | nil => exact hnil
  | cons d ds =>
    have hd := List.forall_mem_cons.mp h
    exact fold ds d hd.1 hd.2

section Joins

variable (hP : Rule P)
include hP

theorem Rule.nil : P .nil := hP.text (by decide)

theorem Rule.horzList {ds : List (Doc (Value κ))} (h : ∀ d ∈ ds, P d) : P (.horzList ds) :=
  joined_keeps hP.nil hP.horz h

theorem Rule.concatList {ds : List (Doc (Value κ))} (h : ∀ d ∈ ds, P d) : P (.concatList ds) :=
  joined_keeps hP.nil hP.concat h

theorem Rule.vertList {ds : List (Doc (Value κ))} (h : ∀ d ∈ ds, P d) : P (.vertList ds) :=
  joined_keeps hP.nil hP.vert h

theorem Rule.joinHorzList {ds : List (Doc (Value κ))} (h : ∀ d ∈ ds, P d) :
    Join.horzList ds = .ok (.horzList ds) := Join.horzList_settled fun d hd => hP.settled (h d hd)

theorem Rule.parens {d : Doc (Value κ)} (h : P d) : P (.parens d) :=
  hP.horz (hP.horz (hP.text (by decide)) h) (hP.text (by decide))

theorem makes_joinHorzList {ds : List (Doc (Value κ))} (h : ∀ d ∈ ds, P d) :
    Makes P (ofExcept (Join.horzList ds)) := by
  rw [hP.joinHorzList h]
  exact keeps_pure (hP.horzList h)

theorem makes_joinParens {d : Doc (Value κ)} (h : P d) : Makes P (ofExcept (Join.parens d)) := by
  rw [Join.parens_settled (hP.settled h)]
  exact keeps_pure (hP.parens h)

theorem makes_joinHorz {a b : Doc (Value κ)} (ha : P a) (hb : P b) :
    Makes P (ofExcept (Join.horz a b)) := by
  rw [Join.horz_settled (hP.settled ha) (hP.settled hb)]
  exact keeps_pure (hP.horz ha hb)

theorem makes_joinChoice {flat broken : Doc (Value κ)} (hflat : P flat) (hbroken : P broken)
    (h : broken.flatWidth = .never ∨ flat = broken) :
    Makes P (ofExcept (Join.choice flat broken)) := by
  rw [Join.choice_settled (hP.settled hflat) (hP.settled hbroken)]
  exact keeps_pure (hP.choice hflat hbroken h)

theorem Rule.ofText {s : String} {d : Doc (Value κ)} (hd : Doc.ofText s = .ok d) : P d := by
  rw [Doc.ofText, Doc.text?] at hd
  by_cases hs : Text.oneLine s
  · rw [if_pos hs] at hd
    injection hd with hd
    exact hd ▸ hP.text ((Text.oneLine_iff s).mp hs)
  · rw [if_neg hs] at hd
    contradiction

/-- What stands for a document by itself stands for one as the rule says. -/
theorem Rule.plainDoc {v : Value κ} (hv : v.AllDocs P) {d : Doc (Value κ)}
    (h : v.plainDoc? = some d) : P d := by
  cases hv with
  | doc hd =>
    injection h with h
    exact h ▸ hd
  | str s =>
    have htext : Doc.text? s = some d := h
    exact hP.ofText (by rw [Doc.ofText, htext])
  | _ => contradiction

theorem makes_ofText (s : String) : Makes P (ofExcept (Doc.ofText s)) :=
  keeps_ofExcept fun _ hd => hP.ofText hd

end Joins

/-! ## Documents of values -/

section Build

variable {run : Interpreter κ} (hP : Rule P) (hrun : Heeds P run)
include hP

theorem makes_toText (v : Value κ) : Makes P (ofExcept v.toText) := by
  cases v with
  | str s => exact makes_ofText hP s
  | _ => exact keeps_throw _

include hrun

omit hP in
theorem makes_castObject (v : Value κ) (attributes : List (String × Value κ)) (method : Option κ) :
    Makes P (Build.castObject run v attributes method) := by
  unfold Build.castObject
  split
  · exact keeps_throw _
  · refine keeps_bind (hrun _) fun made hmade => ?_
    cases hmade with
    | doc hd => exact keeps_pure hd
    | _ => exact keeps_throw _
  · exact keeps_throw _

theorem makes_cast {v : Value κ} (hv : v.AllDocs P) : Makes P (Build.cast run v) := by
  cases hv with
  | doc hd => exact keeps_pure hd
  | str s => exact makes_ofText hP s
  | object _ => exact makes_castObject hrun _ _ _
  | _ => exact keeps_throw _

theorem keeps_castAll {items : Value κ} (hitems : items.AllDocs P) :
    (Build.castAll run items).Keeps (Session.AllDocs P) fun ds => ∀ d ∈ ds, P d :=
  keeps_eachItem _ hitems fun _ hx => makes_cast hP hrun hx

theorem makes_horzList {items : Value κ} (hitems : items.AllDocs P) :
    Makes P (Build.horzList run items) :=
  keeps_bind (keeps_castAll hP hrun hitems) fun _ hds => makes_joinHorzList hP hds

theorem makes_vertList {items : Value κ} (hitems : items.AllDocs P) :
    Makes P (Build.vertList run items) :=
  keeps_bind (keeps_castAll hP hrun hitems) fun _ hds => keeps_pure (hP.vertList hds)

theorem makes_concatList {items : Value κ} (hitems : items.AllDocs P) :
    Makes P (Build.concatList run items) := by
  refine keeps_bind (keeps_castAll hP hrun hitems) fun ds hds => ?_
  rw [Join.concatList_settled fun d hd => hP.settled (hds d hd)]
  exact keeps_pure (hP.concatList hds)

theorem makes_fullLine {v : Value κ} (hv : v.AllDocs P) : Makes P (Build.fullLine run v) :=
  keeps_bind (makes_cast hP hrun hv) fun _ hd => keeps_pure (hP.fullLine hd)

theorem makes_parens {v : Value κ} (hv : v.AllDocs P) : Makes P (Build.parens run v) :=
  keeps_bind (makes_cast hP hrun hv) fun _ hd => makes_joinParens hP hd

/-- A word on a new line cannot stand on one line with the word before it. -/
theorem makes_fillWord {separator lineEnd : Value κ} (hs : separator.AllDocs P)
    (he : lineEnd.AllDocs P) {paragraph word : Doc (Value κ)} (hp : P paragraph) (hw : P word) :
    Makes P (Build.fillWord run separator lineEnd paragraph word) := by
  rw [Build.fillWord]
  refine keeps_bind (makes_cast hP hrun hs) fun space hspace => ?_
  refine keeps_bind (makes_joinHorz hP hspace hw) fun flat hflat => ?_
  refine keeps_bind (makes_cast hP hrun he) fun lineStop hstop => ?_
  have hbroken : P (.vert lineStop word) := hP.vert hstop hw
  have hchoice := hP.choice hflat hbroken (.inl rfl)
  show Makes P (ofExcept (Join.choice flat (.vert lineStop word) >>= Join.concat paragraph))
  rw [Join.choice_settled (hP.settled hflat) (hP.settled hbroken)]
  show Makes P (ofExcept (Join.concat paragraph (.choice flat (.vert lineStop word))))
  rw [Join.concat_settled (hP.settled hp) (hP.settled hchoice)]
  exact keeps_pure (hP.concat hp hchoice)

theorem makes_wrap {words separator lineEnd : Value κ} (hwords : words.AllDocs P)
    (hs : separator.AllDocs P) (he : lineEnd.AllDocs P) :
    Makes P (Build.wrap run words separator lineEnd) := by
  refine keeps_bind (keeps_castAll hP hrun hwords) fun ds hds => ?_
  cases ds with
  | nil => exact keeps_pure hP.nil
  | cons first rest =>
    have hd := List.forall_mem_cons.mp hds
    exact keeps_foldlM (fun paragraph hp word hw =>
      makes_fillWord hP hrun hs he hp (hd.2 word hw)) hd.1

omit hP hrun in
/-- Documents on top of each other cannot stand on one line, if there are two of them. -/
theorem flatWidth_vertList {d e : Doc (Value κ)} {ds : List (Doc (Value κ))} :
    (Doc.vertList (d :: e :: ds)).flatWidth = .never := by
  have fold : ∀ (l : List (Doc (Value κ))) (c : Doc (Value κ)), c.flatWidth = .never →
      (l.foldl Doc.vert c).flatWidth = .never := by
    intro l
    induction l with
    | nil => exact fun c hc => hc
    | cons x l ih => exact fun c _ => ih (.vert c x) rfl
  exact fold ds (.vert d e) rfl

/-- The ends of lines: each item but the last with a line end of its own. -/
theorem keeps_ends {lineEnd : Value κ} (he : lineEnd.AllDocs P) {items : List (Doc (Value κ))}
    (h : ∀ d ∈ items, P d) :
    Effect.Keeps (Session.AllDocs P)
      (items.mapM fun item => do ofExcept (Join.horz item (← Build.cast run lineEnd)))
      fun ended => ended.length = items.length ∧ ∀ d ∈ ended, P d :=
  keeps_mapM fun item hitem => keeps_bind (makes_cast hP hrun he) fun _ hstop =>
    makes_joinHorz hP (h item hitem) hstop

/-- The gaps on one line: each item but the first behind a separator of its own. -/
theorem keeps_gaps {separator : Value κ} (hs : separator.AllDocs P) {items : List (Doc (Value κ))}
    (h : ∀ d ∈ items, P d) :
    Effect.Keeps (Session.AllDocs P)
      (items.mapM fun item => return [← Build.cast run separator, item])
      fun separated => ∀ d ∈ separated.flatten, P d := by
  have pair : ∀ item ∈ items, Effect.Keeps (Session.AllDocs P)
      (do return [← Build.cast run separator, item]) fun pair => ∀ d ∈ pair, P d := by
    intro item hitem
    refine keeps_bind (makes_cast hP hrun hs) fun space hspace => keeps_pure ?_
    simp only [List.forall_mem_cons]
    exact ⟨hspace, h item hitem, List.forall_mem_nil _⟩
  refine (keeps_mapM pair).mono fun separated hall d hd => ?_
  obtain ⟨l, hl, hdl⟩ := List.mem_flatten.mp hd
  exact hall.2 l hl d hdl

/-- With no item or with one the two layouts are the same; with more the broken one has several
lines. -/
theorem makes_sepBy {items separator lineEnd : Value κ} (hitems : items.AllDocs P)
    (hs : separator.AllDocs P) (he : lineEnd.AllDocs P) :
    Makes P (Build.sepBy run items separator lineEnd) := by
  refine keeps_bind (keeps_castAll hP hrun hitems) fun ds hds => ?_
  match ds, hds with
  | [], _ => exact makes_joinChoice hP hP.nil hP.nil (.inr rfl)
  | [d], hds =>
    have hd : P d := hds d List.mem_cons_self
    exact makes_joinChoice hP hd hd (.inr rfl)
  | d :: e :: rest, hds =>
    have hd := List.forall_mem_cons.mp hds
    have hlast : P ((e :: rest).getLast (by simp)) := hd.2 _ (List.getLast_mem _)
    refine keeps_bind (keeps_ends hP hrun he fun x hx => hds x (List.dropLast_subset _ hx))
      fun ended hended => ?_
    refine keeps_bind (keeps_gaps hP hrun hs hd.2) fun separated hseparated => ?_
    have hrow : ∀ x ∈ d :: separated.flatten, P x := List.forall_mem_cons.mpr ⟨hd.1, hseparated⟩
    refine keeps_bind (makes_joinHorzList hP hrow) fun flat hflat => ?_
    rw [List.getLast?_cons_cons, List.getLast?_eq_some_getLast (by simp), Option.toList_some]
    obtain ⟨hlength, hended⟩ := hended
    match ended, hlength, hended with
    | first :: more, _, hended =>
      refine makes_joinChoice hP hflat
        (hP.vertList (List.forall_mem_append.mpr ⟨hended, List.forall_mem_singleton.mpr hlast⟩))
        (.inl ?_)
      cases more with
      | nil => exact flatWidth_vertList
      | cons second more => exact flatWidth_vertList

theorem makes_flatForm {items : List (Value κ)} (h : ∀ v ∈ items, v.AllDocs P) :
    Makes P (Build.flatForm run items) :=
  keeps_bind (makes_sepBy hP hrun (.list h) (.str _) (.str _)) fun _ hd => makes_joinParens hP hd

theorem makes_application {function arguments : Value κ} (hf : function.AllDocs P)
    (ha : arguments.AllDocs P) : Makes P (Build.application run function arguments) :=
  keeps_bind (keeps_eachItem _ ha fun _ hx => keeps_pure hx) fun _ hvs =>
    makes_flatForm hP hrun (List.forall_mem_cons.mpr ⟨hf, hvs⟩)

/-- The layout with the body below the head cannot stand on one line. -/
theorem makes_definition {keyword head body : Value κ} (hk : keyword.AllDocs P)
    (hh : head.AllDocs P) (hb : body.AllDocs P) :
    Makes P (Build.definition run keyword head body) := by
  have three : ∀ v ∈ [keyword, head, body], v.AllDocs P := by
    simp only [List.forall_mem_cons]
    exact ⟨hk, hh, hb, List.forall_mem_nil _⟩
  have above : ∀ v ∈ [keyword, .str " ", head], v.AllDocs P := by
    simp only [List.forall_mem_cons]
    exact ⟨hk, .str _, hh, List.forall_mem_nil _⟩
  have below : ∀ v ∈ [.str " ", body], v.AllDocs P := by
    simp only [List.forall_mem_cons]
    exact ⟨.str _, hb, List.forall_mem_nil _⟩
  refine keeps_bind (makes_flatForm hP hrun three) fun flat hflat => ?_
  refine keeps_bind (makes_horzList hP hrun (.tuple above)) fun first hfirst => ?_
  refine keeps_bind (makes_horzList hP hrun (.tuple below)) fun second hsecond => ?_
  rw [Join.parens_settled (d := .vert first second) trivial]
  exact makes_joinChoice hP hflat (hP.parens (hP.vert hfirst hsecond)) (.inl rfl)

theorem makes_block {keyword bodies : Value κ} (hk : keyword.AllDocs P) (hb : bodies.AllDocs P) :
    Makes P (Build.block run keyword bodies) := by
  refine keeps_bind (makes_vertList hP hrun hb) fun stacked hstacked => ?_
  refine keeps_bind (makes_joinHorz hP (hP.text (by decide)) hstacked) fun indented hindented => ?_
  refine keeps_bind (makes_cast hP hrun hk) fun first hfirst => ?_
  exact makes_joinParens hP (hP.vert hfirst hindented)

end Build

/-! ## Documents of documents -/

/-- What is made under every interpreter is made under one that heeds the rule. -/
theorem of_makes {m : Interpreter κ → Effect κ (Doc (Value κ))}
    (h : ∀ run, Heeds P run → Makes P (m run)) {d : Doc (Value κ)}
    (hd : ∀ run, m run = pure d) : P d := by
  have made := h (fun _ => throw .noWidth) fun _ => keeps_throw _
  rw [hd] at made
  exact of_keeps_pure made allDocs_empty

theorem allDocs_docs {ds : List (Doc (Value κ))} (h : ∀ d ∈ ds, P d) :
    (Value.list (ds.map .doc)).AllDocs P := by
  refine .list fun x hx => ?_
  obtain ⟨d, hd, rfl⟩ := List.mem_map.mp hx
  exact .doc (h d hd)

theorem Rule.sepBy (hP : Rule P) {separator lineEnd : Doc (Value κ)} {ds : List (Doc (Value κ))}
    (hs : P separator) (he : P lineEnd) (hds : ∀ d ∈ ds, P d) : P (.sepBy ds separator lineEnd) :=
  of_makes (fun _ hrun => makes_sepBy hP hrun (allDocs_docs hds) (.doc hs) (.doc he)) fun run =>
    Build.sepBy_docs run rfl rfl (hP.settled hs) (hP.settled he) fun d hd => hP.settled (hds d hd)

section Documents

variable (hP : Rule P) {first second third : Doc (Value κ)} {ds : List (Doc (Value κ))}
  (hfirst : P first)
include hP hfirst

theorem Rule.application (hds : ∀ d ∈ ds, P d) : P (.application first ds) := by
  have all := List.forall_mem_cons.mpr ⟨hfirst, hds⟩
  exact of_makes (fun _ hrun => makes_application hP hrun (.doc hfirst) (allDocs_docs hds))
    fun run => Build.application_docs run fun d hd => hP.settled (all d hd)

theorem Rule.definition (hsecond : P second) (hthird : P third) :
    P (.definition first second third) := by
  have settled : Build.AllSettled [first, second, third] := by
    simp only [Build.AllSettled, List.forall_mem_cons]
    exact ⟨hP.settled hfirst, hP.settled hsecond, hP.settled hthird, List.forall_mem_nil _⟩
  exact of_makes (fun _ hrun => makes_definition hP hrun (.doc hfirst) (.doc hsecond) (.doc hthird))
    fun run => Build.definition_docs run settled

theorem Rule.block (hds : ∀ d ∈ ds, P d) : P (.block first ds) :=
  of_makes (fun _ hrun => makes_block hP hrun (.doc hfirst) (allDocs_docs hds))
    fun run => Build.block_docs run fun d hd => hP.settled (hds d hd)

end Documents

end DocLayout
