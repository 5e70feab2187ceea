import DocLayout.Proofs.Filling
import DocLayout.Proofs.Flow

/-
  What the pieces of a template come to.

  The pieces of a template are put into the lines of a draft one after the other: literal text is cut
  at its line feeds, and what a field stands for goes behind it. A draft is a flow, the one of the
  lines that are done and of the parts of the last one; so are characters, with a line break for
  every line feed. Neither how characters are cut into texts nor the empty texts that come of it make
  a difference.

  Proved:
  * `lines_charFlow`: the lines of characters are what line feeds leave between them.
  * `shows_addLiteral`: a literal text is put into a draft as its characters.
  * `shows_addPieces`, by induction on the pieces: what a draft is like with pieces put in.
  * `shows_finish`: the document of a draft is laid out as the draft is.
-/

namespace DocLayout.Template

open Text

variable {κ : Type}

/-! ## Characters as flows -/

/-- Text without any boundary but line feeds. -/
def FeedsOnly (cs : List Char) : Prop := ∀ c ∈ cs, c = '\n' ∨ isBoundary c = false

instance (cs : List Char) : Decidable (FeedsOnly cs) := List.decidableBAll _ cs

/-- A character that stands in a line, or none for a line feed. -/
def standing (c : Char) : Option Char := if c = '\n' then none else some c

theorem standing_eq_some {c x : Char} (h : standing c = some x) : x = c ∧ x ≠ '\n' := by
  rw [standing] at h
  split at h
  · contradiction
  · rename_i hc
    injection h with h
    exact ⟨h.symm, h ▸ hc⟩

/-- Cutting a text at its line feeds is cutting it into rows. -/
theorem splitNewlines_eq_rowsOf (cs : List Char) : splitNewlines cs = rowsOf (cs.map standing) := by
  induction cs with
  | nil => rfl
  | cons c cs ih =>
    obtain ⟨row, rows, h⟩ := exists_rowsOf_eq_cons (cs.map standing)
    rw [splitNewlines, List.map_cons, standing, ih]
    split
    · rfl
    · rw [rowsOf_cons h, h]

theorem mem_of_mem_line {cs line : List Char} (hline : line ∈ splitNewlines cs) {c : Char}
    (hc : c ∈ line) : c ∈ cs ∧ c ≠ '\n' := by
  rw [splitNewlines_eq_rowsOf] at hline
  obtain ⟨x, hx, hstanding⟩ := List.mem_map.mp (mem_of_mem_rowsOf hline hc)
  obtain ⟨rfl, hne⟩ := standing_eq_some hstanding
  exact ⟨hx, hne⟩

/-- A line of a text that breaks lines by line feeds alone holds no boundary. -/
theorem unbroken_line {cs line : List Char} (h : FeedsOnly cs) (hline : line ∈ splitNewlines cs) :
    Unbroken (String.ofList line) := by
  intro c hc
  rw [String.toList_ofList] at hc
  obtain ⟨hmem, hne⟩ := mem_of_mem_line hline hc
  exact (h c hmem).resolve_left hne

section Flows

variable {α : Type}

/-- Characters that stand in one line. -/
def lineFlow (cs : List Char) : List (Option (Doc α)) := cs.map fun c => some (.text c.toString)

/-- Characters one behind the other, with a line break for a line feed. -/
def charFlow (cs : List Char) : List (Option (Doc α)) :=
  cs.map fun c => (standing c).map fun c => .text c.toString

theorem charFlow_append (cs ds : List Char) :
    (charFlow (cs ++ ds) : List (Option (Doc α))) = charFlow cs ++ charFlow ds := List.map_append

/-- Characters without a line feed stand in one line. -/
theorem charFlow_line {cs : List Char} (h : '\n' ∉ cs) :
    (charFlow cs : List (Option (Doc α))) = lineFlow cs := by
  refine List.map_congr_left fun c hc => ?_
  have hne : c ≠ '\n' := fun heq => h (heq ▸ hc)
  rw [standing, if_neg hne, Option.map_some]

theorem rowsOf_charFlow (cs : List Char) :
    rowsOf (charFlow cs : List (Option (Doc α))) =
      (splitNewlines cs).map (List.map fun c => .text c.toString) := by
  rw [splitNewlines_eq_rowsOf, ← rowsOf_map, List.map_map]
  rfl

/-- Characters line by line. -/
theorem charFlow_eq {cs first : List Char} {rest : List (List Char)}
    (h : splitNewlines cs = first :: rest) :
    (charFlow cs : List (Option (Doc α))) =
      lineFlow first ++ rest.flatMap fun line => none :: lineFlow line := by
  have hrows := rowsOf_charFlow (α := α) cs
  rw [h, List.map_cons] at hrows
  rw [eq_of_rowsOf_eq_cons hrows, List.map_map, List.flatMap_map]
  simp only [List.map_map]
  rfl

end Flows

/-- The lines of characters are what line feeds leave between them. -/
theorem lines_charFlow {cs : List Char} (hcs : FeedsOnly cs) {margin : Margin (Value κ)}
    (hw : margin.width.Comparable) :
    (flow margin (charFlow cs) .empty 0).1.lines = (splitNewlines cs).map String.ofList := by
  have hdocs : ∀ d : Doc (Value κ), some d ∈ charFlow cs → d.WellFormed := by
    intro d hd
    obtain ⟨c, hc, hmap⟩ := List.mem_map.mp hd
    obtain ⟨x, hstanding, rfl⟩ := Option.map_eq_some_iff.mp hmap
    obtain ⟨rfl, hne⟩ := standing_eq_some hstanding
    intro y hy
    rw [Char.toString_eq_singleton, String.toList_singleton, List.mem_singleton] at hy
    exact hy ▸ (hcs x hc).resolve_left hne
  have hline : ∀ line : List Char,
      (flow margin ((line.map fun c => .text c.toString).map some) .empty 0).1.lines =
        [String.ofList line] := by
    intro line
    have hchars := flow_chars margin line .empty 0
    rw [List.map_map]
    show (flow margin (line.map fun c => some _) .empty 0).1.lines = _
    rw [hchars, Canvas.lines_write, Canvas.empty, String.empty_append]
    rfl
  rw [lines_flow hdocs hw, rowsOf_charFlow, List.flatMap_map, List.map_eq_flatMap]
  simp only [hline]

/-! ## Drafts -/

/-- A draft as a flow: the lines that are done, each with a line break behind it, and the parts of the
last one. -/
def Draft.flow (draft : Draft κ) : List (Option (Doc (Value κ))) :=
  draft.lines.flatMap (fun d => [some d, none]) ++ draft.parts.map some

/-- A draft of well formed documents that is like a flow. -/
structure Draft.Shows (draft : Draft κ) (xs : List (Option (Doc (Value κ)))) : Prop where
  wellFormed : draft.AllDocs Doc.WellFormed
  alike : FlowsAlike draft.flow xs

section Drafts

variable {draft : Draft κ} {xs : List (Option (Doc (Value κ)))}

theorem shows_empty : (Draft.empty : Draft κ).Shows [] :=
  ⟨⟨List.forall_mem_nil _, List.forall_mem_nil _⟩, .refl []⟩

theorem shows_put (h : draft.Shows xs) {d : Doc (Value κ)} (hd : d.WellFormed) :
    (draft.put d).Shows (xs ++ [some d]) where
  wellFormed := allDocs_putPart h.wellFormed hd
  alike := by
    rw [Draft.flow, Draft.put, List.map_append, ← List.append_assoc]
    exact .append h.alike (.refl _)

/-- The parts of the last line become a line, and a new one begins. -/
theorem shows_breakLine (h : draft.Shows xs) :
    ∃ after, draft.breakLine = .ok after ∧ after.Shows (xs ++ [none]) := by
  have hbreak : draft.breakLine = .ok ⟨draft.lines ++ [.horzList draft.parts], []⟩ := by
    rw [Draft.breakLine, rule_wellFormed.joinHorzList h.wellFormed.2]
    rfl
  refine ⟨_, hbreak, allDocs_breakLine rule_wellFormed h.wellFormed hbreak, ?_⟩
  have hline : FlowsAlike [some (.horzList draft.parts), none] (draft.parts.map some ++ [none]) :=
    .append (alike_horzList draft.parts) (.refl [none])
  rw [Draft.flow, List.flatMap_append, List.map_nil, List.append_nil]
  refine .trans ?_ (.append h.alike (.refl [none]))
  rw [Draft.flow, List.append_assoc]
  exact .append (.refl _) hline

/-- A text of one line is put into a draft as its characters. -/
theorem shows_putText (h : draft.Shows xs) {cs : List Char} (hcs : Unbroken (String.ofList cs)) :
    (draft.put (.text (String.ofList cs))).Shows (xs ++ lineFlow cs) where
  wellFormed := (shows_put h (d := .text _) hcs).wellFormed
  alike := by
    have htext := alike_text (α := Value κ) (String.ofList cs)
    rw [String.toList_ofList] at htext
    exact (shows_put h (d := .text _) hcs).alike.trans (.append (.refl xs) htext)

theorem shows_addLines (h : draft.Shows xs) {lines : List (List Char)}
    (hlines : ∀ cs ∈ lines, Unbroken (String.ofList cs)) :
    ∃ after, draft.addLines lines = .ok after ∧
      after.Shows (xs ++ lines.flatMap fun cs => none :: lineFlow cs) := by
  induction lines generalizing draft xs with
  | nil => exact ⟨draft, rfl, by rwa [List.flatMap_nil, List.append_nil]⟩
  | cons cs lines ih =>
    rw [List.forall_mem_cons] at hlines
    obtain ⟨broken, hbroken, hnext⟩ := shows_breakLine h
    obtain ⟨after, hafter, hshows⟩ := ih (shows_putText hnext hlines.1) hlines.2
    refine ⟨after, ?_, ?_⟩
    · rw [Draft.addLines, hbroken, ofText_unbroken hlines.1]
      exact hafter
    · rw [List.append_assoc, List.append_assoc] at hshows
      exact hshows

/-- A literal text is put into a draft as its characters, with a line break for every line feed. -/
theorem shows_addLiteral (h : draft.Shows xs) {s : String} (hs : FeedsOnly s.toList) :
    ∃ after, draft.addLiteral s = .ok after ∧ after.Shows (xs ++ charFlow s.toList) := by
  obtain ⟨first, rest, hlines⟩ := List.exists_cons_of_ne_nil (splitNewlines_ne_nil s.toList)
  have hunbroken : ∀ line ∈ first :: rest, Unbroken (String.ofList line) :=
    fun line hline => unbroken_line hs (hlines ▸ hline)
  rw [List.forall_mem_cons] at hunbroken
  obtain ⟨after, hafter, hshows⟩ := shows_addLines (shows_putText h hunbroken.1) hunbroken.2
  refine ⟨after, ?_, ?_⟩
  · rw [Draft.addLiteral, hlines]
    dsimp only
    rw [ofText_unbroken hunbroken.1]
    exact hafter
  · rw [charFlow_eq hlines, ← List.append_assoc]
    exact hshows

/-- The document of a draft is laid out as the flow that the draft is like. -/
theorem shows_finish (h : draft.Shows xs) :
    ∃ d, draft.finish = .ok d ∧ ∀ margin canvas, d.descend margin canvas 0 0 =
      flow margin xs canvas 0 := by
  have hjoin := rule_wellFormed.joinHorzList h.wellFormed.2
  refine ⟨.vertList (draft.lines ++ [.horzList draft.parts]), ?_, fun margin canvas => ?_⟩
  · rw [Draft.finish, Draft.breakLine, hjoin]
    rfl
  · rw [descend_vertList]
    have halike : FlowsAlike
        (draft.lines.flatMap (fun d => [some d, none]) ++ [some (.horzList draft.parts)]) xs :=
      .trans (.append (.refl _) (alike_horzList draft.parts)) h.alike
    rw [halike margin]

end Drafts

/-! ## Pieces -/

/-- Pieces that come to a flow, with the numbering that they are met with. -/
inductive Reads (run : Interpreter κ) (a : Arguments κ) :
    Numbering → List Piece → List (Option (Doc (Value κ))) → Prop
  | nil (n : Numbering) : Reads run a n [] []
  | literal {n : Numbering} {s : String} {rest : List Piece} {xs : List (Option (Doc (Value κ)))}
    (hs : FeedsOnly s.toList) (hrest : Reads run a n rest xs) :
    Reads run a n (⟨s, none⟩ :: rest) (charFlow s.toList ++ xs)
  | field {n after : Numbering} {s : String} {f : Field} {d : Doc (Value κ)} {rest : List Piece}
    {xs : List (Option (Doc (Value κ)))} (hs : FeedsOnly s.toList)
    (hf : fieldDoc run a n f = pure (after, d)) (hd : d.WellFormed)
    (hrest : Reads run a after rest xs) :
    Reads run a n (⟨s, some f⟩ :: rest) (charFlow s.toList ++ some d :: xs)

variable {run : Interpreter κ} {a : Arguments κ} {n : Numbering}

/-- A draft with pieces put in is like the flow that they come to. -/
theorem shows_addPieces {pieces : List Piece} {ys : List (Option (Doc (Value κ)))}
    (hpieces : Reads run a n pieces ys) {draft : Draft κ} {xs : List (Option (Doc (Value κ)))}
    (h : draft.Shows xs) :
    ∃ after, addPieces run a n draft pieces = pure after ∧ after.Shows (xs ++ ys) := by
  induction hpieces generalizing draft xs with
  | nil n => exact ⟨draft, rfl, by rwa [List.append_nil]⟩
  | literal hs _ ih =>
    obtain ⟨next, hnext, hshows⟩ := shows_addLiteral h hs
    obtain ⟨after, hafter, hall⟩ := ih hshows
    refine ⟨after, ?_, by rwa [List.append_assoc] at hall⟩
    rw [addPieces, hnext, Build.ofExcept_ok, pure_bind]
    exact hafter
  | field hs hf hd _ ih =>
    obtain ⟨next, hnext, hshows⟩ := shows_addLiteral h hs
    obtain ⟨after, hafter, hall⟩ := ih (shows_put hshows hd)
    refine ⟨after, ?_, ?_⟩
    · rw [addPieces, hnext, Build.ofExcept_ok, pure_bind]
      dsimp only
      rw [hf, pure_bind]
      exact hafter
    · rw [List.append_assoc, List.append_assoc] at hall
      exact hall

end DocLayout.Template
