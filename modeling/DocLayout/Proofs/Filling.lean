import DocLayout.Proofs.Construction
import DocLayout.Template.Fill

/-
  Filling a template keeps rules.

  A field leads from an argument to a part of it, and the parts of a value hold nothing that the value
  does not hold. The document of a template is made of its literal texts and of what its fields lead
  to, side by side and on top of each other, so it is as a rule says if the arguments are.

  Proved:
  * `Hereditary.lookup`: a field leads to nothing that the arguments do not hold.
  * `keeps_addPieces`, by induction on the pieces: a draft stays as the rule says.
  * `makes_fill`: so does the document of the template.
  * `fill_fillable`: a template whose fields lead to documents or texts of one line is always filled.
-/

namespace DocLayout

variable {κ : Type} {P : Doc (Value κ) → Prop}

open Template

/-- `T` holds of every argument of a template. -/
def Template.Arguments.All (T : Value κ → Prop) (a : Arguments κ) : Prop :=
  (∀ v ∈ a.positional, T v) ∧ ∀ entry ∈ a.named, T entry.2

/-- `P` holds of every document in the arguments of a template. -/
def Template.Arguments.AllDocs (P : Doc (Value κ) → Prop) (a : Arguments κ) : Prop :=
  (∀ v ∈ a.positional, v.AllDocs P) ∧ ∀ entry ∈ a.named, entry.2.AllDocs P

/-- `P` holds of every document in a draft. -/
def Template.Draft.AllDocs (P : Doc (Value κ) → Prop) (draft : Draft κ) : Prop :=
  (∀ d ∈ draft.lines, P d) ∧ ∀ d ∈ draft.parts, P d

/-! ## From arguments to their parts -/

section Parts

variable {T : Value κ → Prop} {a : Arguments κ}

theorem all_get (ha : a.All T) {key : Value.Key} {x : Value κ} (hx : a.get key = .ok x) : T x := by
  unfold Arguments.get at hx
  split at hx
  · split at hx
    · rename_i hget
      injection hx with hx
      exact hx ▸ ha.1 _ (List.mem_of_getElem? hget)
    · contradiction
  · split at hx
    · rename_i hlookup
      injection hx with hx
      exact hx ▸ ha.2 _ (mem_of_lookup hlookup)
    · contradiction

theorem Hereditary.follow (hT : Hereditary T) {v x : Value κ} (hv : T v) {steps : List Step}
    (hx : follow v steps = .ok x) : T x := by
  induction steps generalizing v with
  | nil =>
    injection hx with hx
    exact hx ▸ hv
  | cons step steps ih =>
    cases step with
    | member name =>
      obtain ⟨next, hm, hrest⟩ := exists_of_bind_eq_ok hx
      exact ih (hT.member hv hm) hrest
    | item key =>
      obtain ⟨next, hi, hrest⟩ := exists_of_bind_eq_ok hx
      exact ih (hT.item hv hi) hrest

/-- What is hereditary and true of the arguments is true of what the name of a field leads to. -/
theorem Hereditary.lookup (hT : Hereditary T) (ha : a.All T) {name : String} {x : Value κ}
    (hx : a.lookup name = .ok x) : T x := by
  obtain ⟨key, -, hx⟩ := exists_of_bind_eq_ok hx
  obtain ⟨start, hstart, hx⟩ := exists_of_bind_eq_ok hx
  obtain ⟨reached, hreached, hx⟩ := exists_of_bind_eq_ok hx
  have hr : T reached :=
    hT.follow (all_get ha (eq_ok_of_mapError hstart)) (eq_ok_of_mapError hreached)
  split at hx
  · contradiction
  · injection hx with hx
    exact hx ▸ hr

theorem Hereditary.resolve (hT : Hereditary T) (ha : a.All T) {n after : Numbering} {name : String}
    {x : Value κ} (hx : n.resolve a name = (after, .ok x)) : T x := by
  unfold Numbering.resolve at hx
  split at hx
  · simp at hx
  · injection hx with _ hx
    exact hT.lookup ha (eq_ok_of_mapError hx)

end Parts

/-! ## Drafts -/

theorem allDocs_putPart {draft : Draft κ} (h : draft.AllDocs P) {d : Doc (Value κ)} (hd : P d) :
    (draft.put d).AllDocs P :=
  ⟨h.1, List.forall_mem_append.mpr ⟨h.2, List.forall_mem_singleton.mpr hd⟩⟩

variable {run : Interpreter κ} (hP : Rule P)
include hP

/-- A line that is done is a document as the rule says. -/
theorem allDocs_breakLine {draft after : Draft κ} (h : draft.AllDocs P)
    (hafter : draft.breakLine = .ok after) : after.AllDocs P := by
  rw [Draft.breakLine, hP.joinHorzList h.2] at hafter
  injection hafter with hafter
  subst hafter
  refine ⟨List.forall_mem_append.mpr ⟨h.1, ?_⟩, List.forall_mem_nil _⟩
  exact List.forall_mem_singleton.mpr (hP.horzList h.2)

theorem allDocs_addLines {draft after : Draft κ} (h : draft.AllDocs P) {lines : List (List Char)}
    (hafter : draft.addLines lines = .ok after) : after.AllDocs P := by
  induction lines generalizing draft with
  | nil =>
    injection hafter with hafter
    exact hafter ▸ h
  | cons cs lines ih =>
    obtain ⟨broken, hbroken, hafter⟩ := exists_of_bind_eq_ok hafter
    obtain ⟨d, hd, hafter⟩ := exists_of_bind_eq_ok hafter
    exact ih (allDocs_putPart (allDocs_breakLine hP h hbroken) (hP.ofText hd)) hafter

theorem allDocs_addLiteral {draft after : Draft κ} (h : draft.AllDocs P) {literal : String}
    (hafter : draft.addLiteral literal = .ok after) : after.AllDocs P := by
  unfold Draft.addLiteral at hafter
  split at hafter
  · injection hafter with hafter
    exact hafter ▸ h
  · obtain ⟨d, hd, hafter⟩ := exists_of_bind_eq_ok hafter
    exact allDocs_addLines hP (allDocs_putPart h (hP.ofText hd)) hafter

section Keeping

variable (hrun : Heeds P run)
include hrun

theorem keeps_fieldDoc {a : Arguments κ} (ha : a.AllDocs P) (n : Numbering) (f : Field) :
    (fieldDoc run a n f).Keeps (Session.AllDocs P) fun made => P made.2 := by
  rw [fieldDoc]
  split
  · exact keeps_throw _
  · split
    · exact keeps_throw _
    · rename_i hresolve
      exact keeps_bind (makes_cast hP hrun ((hereditary_allDocs hP).resolve ha hresolve)) fun d hd =>
        keeps_pure hd

theorem keeps_addPieces {a : Arguments κ} (ha : a.AllDocs P) (pieces : List Piece) (n : Numbering)
    {draft : Draft κ} (hdraft : draft.AllDocs P) :
    (addPieces run a n draft pieces).Keeps (Session.AllDocs P) (Draft.AllDocs P) := by
  induction pieces generalizing n draft with
  | nil => exact keeps_pure hdraft
  | cons piece pieces ih =>
    rw [addPieces]
    refine keeps_bind (keeps_ofExcept fun after hafter => allDocs_addLiteral hP hdraft hafter)
      fun after hafter => ?_
    split
    · exact ih n hafter
    · refine keeps_bind (keeps_fieldDoc hP hrun ha n _) fun made hmade => ?_
      exact ih made.1 (allDocs_putPart hafter hmade)

theorem makes_fill {template : Value κ} {a : Arguments κ} (ha : a.AllDocs P) :
    Makes P (fill run template a) := by
  rw [fill]
  split
  · exact keeps_throw _
  · refine keeps_bind (keeps_ofExcept fun _ _ => trivial) fun pieces _ => ?_
    refine keeps_bind (keeps_addPieces hP hrun ha pieces .start
      ⟨List.forall_mem_nil _, List.forall_mem_nil _⟩) fun draft hdraft => ?_
    refine keeps_ofExcept fun d hd => ?_
    obtain ⟨broken, hbroken, hd⟩ := exists_of_bind_eq_ok hd
    injection hd with hd
    exact hd ▸ hP.vertList (allDocs_breakLine hP hdraft hbroken).1

end Keeping

/-! ## Templates that can be filled -/

/-- Pieces whose literal text holds no line boundary but line feeds, and whose fields ask for no
format and lead to documents or to texts of one line. -/
def Template.Fillable (a : Arguments κ) : Numbering → List Piece → Prop
  | _, [] => True
  | n, piece :: rest =>
    (∀ cs ∈ Text.splitNewlines piece.literal.toList, Text.Unbroken (String.ofList cs)) ∧
    match piece.field with
    | none => Fillable a n rest
    | some f => f.spec = "" ∧ f.conversion = none ∧
      ∃ after v, n.resolve a f.name = (after, .ok v) ∧ v.IsPlain ∧ Fillable a after rest

theorem exists_breakLine {draft : Draft κ} (h : draft.AllDocs P) :
    ∃ after, draft.breakLine = .ok after := by
  rw [Draft.breakLine, hP.joinHorzList h.2]
  exact ⟨_, rfl⟩

theorem exists_addLines {draft : Draft κ} (h : draft.AllDocs P) {lines : List (List Char)}
    (hlines : ∀ cs ∈ lines, Text.Unbroken (String.ofList cs)) :
    ∃ after, draft.addLines lines = .ok after := by
  induction lines generalizing draft with
  | nil => exact ⟨draft, rfl⟩
  | cons cs lines ih =>
    obtain ⟨hcs, hrest⟩ := List.forall_mem_cons.mp hlines
    obtain ⟨broken, hbroken⟩ := exists_breakLine hP h
    have hnext := allDocs_putPart (allDocs_breakLine hP h hbroken) (hP.text hcs)
    obtain ⟨after, hafter⟩ := ih hnext hrest
    refine ⟨after, ?_⟩
    rw [Draft.addLines, hbroken, ofText_unbroken hcs]
    exact hafter

theorem exists_addLiteral {draft : Draft κ} (h : draft.AllDocs P) {literal : String}
    (hlines : ∀ cs ∈ Text.splitNewlines literal.toList, Text.Unbroken (String.ofList cs)) :
    ∃ after, draft.addLiteral literal = .ok after := by
  unfold Draft.addLiteral
  split
  · exact ⟨draft, rfl⟩
  · rename_i first rest heq
    rw [heq] at hlines
    obtain ⟨hfirst, hrest⟩ := List.forall_mem_cons.mp hlines
    obtain ⟨after, hafter⟩ := exists_addLines hP (allDocs_putPart h (hP.text hfirst)) hrest
    refine ⟨after, ?_⟩
    rw [ofText_unbroken hfirst]
    exact hafter

omit hP in
/-- A field without a format makes of its argument what the argument stands for by itself. -/
theorem fieldDoc_plain (run : Interpreter κ) {a : Arguments κ} {n after : Numbering} {f : Field}
    (hspec : f.spec = "") (hconversion : f.conversion = none) {v : Value κ}
    (hv : n.resolve a f.name = (after, .ok v)) {d : Doc (Value κ)} (hd : v.plainDoc? = some d) :
    fieldDoc run a n f = pure (after, d) := by
  rw [fieldDoc, hspec, hconversion, hv]
  show (Build.cast run v >>= fun made => pure (after, made)) = _
  rw [Build.cast_plain run hd, pure_bind]

theorem exists_addPieces (run : Interpreter κ) {a : Arguments κ} (ha : a.AllDocs P)
    {pieces : List Piece} {n : Numbering} {draft : Draft κ} (hdraft : draft.AllDocs P)
    (h : Fillable a n pieces) :
    ∃ after, addPieces run a n draft pieces = pure after ∧ after.AllDocs P := by
  induction pieces generalizing n draft with
  | nil => exact ⟨draft, rfl, hdraft⟩
  | cons piece pieces ih =>
    obtain ⟨literal, field⟩ := piece
    obtain ⟨hlines, hfield⟩ := h
    obtain ⟨next, hnext⟩ := exists_addLiteral hP hdraft hlines
    have hliteral := allDocs_addLiteral hP hdraft hnext
    cases field with
    | none =>
      obtain ⟨last, hlast, hall⟩ := ih hliteral hfield
      refine ⟨last, ?_, hall⟩
      show (ofExcept (draft.addLiteral literal) >>= fun next => addPieces run a n next pieces) = _
      rw [hnext, Build.ofExcept_ok, pure_bind, hlast]
    | some f =>
      obtain ⟨hspec, hconversion, after, v, hv, ⟨d, hd⟩, hrest⟩ := hfield
      have hmade := fieldDoc_plain run hspec hconversion hv hd
      have hPd : P d := hP.plainDoc ((hereditary_allDocs hP).resolve ha hv) hd
      obtain ⟨last, hlast, hall⟩ := ih (allDocs_putPart hliteral hPd) hrest
      refine ⟨last, ?_, hall⟩
      show (ofExcept (draft.addLiteral literal) >>= fun next => fieldDoc run a n f >>= fun made =>
        addPieces run a made.1 (next.put made.2) pieces) = _
      rw [hnext, Build.ofExcept_ok, pure_bind, hmade, pure_bind, hlast]

omit hP in
/-- The document of a template is that of the draft that its pieces come to. -/
theorem fill_of_addPieces {s : String} {a : Arguments κ}
    (hname : a.named.any (·.1 == "template") = false) {pieces : List Piece}
    (hpieces : Template.pieces s.toList = .ok pieces) {draft : Draft κ}
    (hdraft : addPieces run a .start .empty pieces = pure draft) :
    fill run (.str s) a = ofExcept draft.finish := by
  have hof : piecesOf (.str s : Value κ) = .ok pieces := by
    rw [piecesOf, hpieces]
    rfl
  rw [fill, hname, hof]
  show (addPieces run a .start .empty pieces >>= fun draft => ofExcept draft.finish) = _
  rw [hdraft, pure_bind]

/-- Filling such a template never fails. -/
theorem fill_fillable {s : String} {a : Arguments κ} (ha : a.AllDocs P)
    (hname : a.named.any (·.1 == "template") = false) {pieces : List Piece}
    (hpieces : Template.pieces s.toList = .ok pieces) (h : Fillable a .start pieces) :
    ∃ d, fill run (.str s) a = pure d := by
  have hstart : (Draft.empty : Draft κ).AllDocs P := ⟨List.forall_mem_nil _, List.forall_mem_nil _⟩
  obtain ⟨draft, hdraft, hall⟩ := exists_addPieces hP run ha hstart h
  obtain ⟨done, hdone⟩ := exists_breakLine hP hall
  refine ⟨Doc.vertList done.lines, ?_⟩
  rw [fill_of_addPieces hname hpieces hdraft, Draft.finish, hdone]
  rfl

end DocLayout
