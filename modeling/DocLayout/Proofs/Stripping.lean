import DocLayout.Proofs.Highlighting
import DocLayout.Proofs.PageText

/-
  Coloured text without its colours.

  `strip` takes the control sequences out of a text: an escape character, a bracket, digits and
  semicolons, and an `m`. It reads on from behind each of them and leaves everything else as it is.
  Text without an escape character passes through, and the code of a token goes away whole, so of the
  writes for a token nothing but its text is left, whatever is written behind it.

  The text is cut into tokens by any lexer, and the line ends of each token are put back by itself.
  Since line ends are single characters, it does not matter where the text is cut.

  Proved:
  * `strip_code`: codes leave nothing behind, at any depth of colour.
  * `strip_tokenWrites`, by induction on the tokens: what is left of the writes for tokens is their
    text.
  * `strip_writes`: what is left of coloured lines is the plain text of these lines, or the part of
    it before the first token that the style does not cover.
-/

namespace DocLayout.Color

/-! ## Control sequences -/

/-- Whether a character may stand between the bracket and the end of a control sequence. -/
def isParameter (c : Char) : Bool := c.isDigit || c = ';'

/-- What comes behind a control sequence whose bracket has just been read, if there is one. -/
def afterControl? (s : List Char) : Option (List Char) :=
  match s.dropWhile isParameter with
  | 'm' :: after => some after
  | _ => none

theorem length_afterControl? {s after : List Char} (h : afterControl? s = some after) :
    after.length < s.length := by
  rw [afterControl?] at h
  split at h
  · rename_i heq
    have hle := (List.dropWhile_suffix (l := s) isParameter).length_le
    rw [heq, List.length_cons] at hle
    injection h with h
    exact h ▸ hle
  · contradiction

/-- Characters without the control sequences among them. -/
def stripChars : List Char → List Char
  | [] => []
  | '\x1b' :: '[' :: rest =>
    match h : afterControl? rest with
    | some after =>
      have := length_afterControl? h
      stripChars after
    | none => '\x1b' :: stripChars ('[' :: rest)
  | c :: rest => c :: stripChars rest
termination_by s => s.length
decreasing_by all_goals simp; try omega

/-- A text without the control sequences in it. -/
def strip (s : String) : String := String.ofList (stripChars s.toList)

theorem stripChars_cons {c : Char} (hc : c ≠ '\x1b') (rest : List Char) :
    stripChars (c :: rest) = c :: stripChars rest := by
  rw [stripChars]
  exact fun _ h => absurd h hc

theorem stripChars_control {s after : List Char} (h : afterControl? s = some after) :
    stripChars ('\x1b' :: '[' :: s) = stripChars after := by
  rw [stripChars]
  split
  · rename_i heq
    rw [h, Option.some.injEq] at heq
    subst heq
    rfl
  · rename_i heq
    rw [h] at heq
    contradiction

/-- A text without an escape character is left as it is. -/
theorem strip_text {s : String} (h : EscapeFree s) (t : String) : strip (s ++ t) = s ++ strip t := by
  have chars : ∀ cs : List Char, '\x1b' ∉ cs →
      stripChars (cs ++ t.toList) = cs ++ stripChars t.toList := by
    intro cs
    induction cs with
    | nil => exact fun _ => rfl
    | cons c cs ih =>
      intro hcs
      rw [List.mem_cons, not_or] at hcs
      rw [List.cons_append, stripChars_cons (Ne.symm hcs.1), ih hcs.2, List.cons_append]
  rw [strip, String.toList_append, chars _ h, String.ofList_append, String.ofList_toList, strip]

theorem strip_empty : strip "" = "" := by
  rw [strip, String.toList_empty, stripChars]

theorem strip_eq_self {s : String} (h : EscapeFree s) : strip s = s := by
  have hstrip := strip_text h ""
  rwa [strip_empty, String.append_empty] at hstrip

theorem isParameter_toString (n : Nat) : ∀ c ∈ (toString n).toList, isParameter c := by
  intro c hc
  rw [isParameter, Text.isDigit_toString n c hc, Bool.true_or]

/-- Between the bracket and the end of a control sequence there are digits and semicolons only. -/
theorem isParameter_parameters (c : Control) : ∀ x ∈ c.parameters.toList, isParameter x := by
  have semicolon : ∀ x ∈ ";".toList, isParameter x := List.all_eq_true.mp (by decide)
  have channels : ∀ (start : String) (color : Rgb), (∀ x ∈ start.toList, isParameter x) →
      ∀ x ∈ (start ++ toString color.red ++ ";" ++ toString color.green ++ ";" ++
        toString color.blue).toList, isParameter x := by
    intro start color hstart
    simp only [String.toList_append, List.forall_mem_append]
    exact ⟨⟨⟨⟨⟨hstart, isParameter_toString _⟩, semicolon⟩, isParameter_toString _⟩, semicolon⟩,
      isParameter_toString _⟩
  cases c with
  | reset | bold | italic | underline => exact List.all_eq_true.mp (by decide)
  | foreground color => exact channels "38;2;" color (List.all_eq_true.mp (by decide))
  | background color => exact channels "48;2;" color (List.all_eq_true.mp (by decide))

/-- A control sequence goes away, whatever is written behind it. -/
theorem strip_control (c : Control) (t : String) : strip (c.text ++ t) = strip t := by
  have after : afterControl? (c.parameters.toList ++ 'm' :: t.toList) = some t.toList := by
    rw [afterControl?, List.dropWhile_append_of_pos (isParameter_parameters c)]
    rfl
  have chars : (c.text ++ t).toList = '\x1b' :: '[' :: (c.parameters.toList ++ 'm' :: t.toList) := by
    rw [Control.text, String.toList_append, String.toList_append, String.toList_append,
      List.append_assoc, List.append_assoc]
    rfl
  rw [strip, chars, stripChars_control after, strip]

theorem strip_code (d : Depth) (controls : List Control) (t : String) :
    strip (d.code controls ++ t) = strip t := by
  cases d with
  | none => rw [Depth.code, String.empty_append]
  | trueColor =>
    rw [Depth.code]
    induction controls with
    | nil =>
      show strip ("" ++ t) = _
      rw [String.empty_append]
    | cons c controls ih =>
      rw [List.map_cons, String.join_cons, String.append_assoc, strip_control, ih]

/-! ## Tokens -/

variable {s : Style} {newline : String}

/-- The style has an entry for a kind of token, and there are controls for what it says. -/
def Style.Covers (s : Style) (kind : String) : Prop :=
  ∃ entry controls, s.get kind = .ok entry ∧ entry.controls = .ok controls

theorem covers_iff {kind : String} : s.Covers kind ↔ ∃ a, s.look? kind = some a := by
  constructor
  · rintro ⟨entry, controls, hget, hcontrols⟩
    exact Option.isSome_iff_exists.mp (isSome_look_of_controls hget hcontrols)
  · rintro ⟨a, ha⟩
    obtain ⟨entry, hget, hlook⟩ := get_of_look ha
    refine ⟨entry, a.controls, hget, ?_⟩
    rw [TokenStyle.controls, StateT.run'_eq, opening_of_look hlook]
    rfl

/-- The text that tokens come to. -/
def tokenText (tokens : List Token) : String := String.join (tokens.map Token.value)

theorem withLineEnds_append (newline a b : String) :
    withLineEnds newline (a ++ b) = withLineEnds newline a ++ withLineEnds newline b := by
  rw [withLineEnds, String.toList_append, List.map_append, String.join_append]
  rfl

theorem tokenText_cons (t : Token) (tokens : List Token) :
    tokenText (t :: tokens) = t.value ++ tokenText tokens := by
  rw [tokenText, List.map_cons, String.join_cons, tokenText]

/-- Of the writes for tokens that the style covers nothing but their text is left, whatever tokens come
after them and whatever is written behind. -/
theorem strip_tokenWrites (hn : EscapeFree newline) {before : List Token}
    (ht : ∀ t ∈ before, EscapeFree t.value)
    (hcovers : ∀ t ∈ before, t.value ≠ "" → s.Covers t.kind) (d : Depth) (p : Palette)
    (after : List Token) :
    ∃ writes q, tokenWrites d s (.ok newline) p (before ++ after) =
        (writes ++ (tokenWrites d s (.ok newline) q after).1,
          (tokenWrites d s (.ok newline) q after).2) ∧
      ∀ u, strip (String.join writes ++ u) = withLineEnds newline (tokenText before) ++ strip u := by
  induction before generalizing p with
  | nil => exact ⟨[], p, rfl, fun u => rfl⟩
  | cons t before ih =>
    rw [List.forall_mem_cons] at ht hcovers
    rw [tokenText_cons, withLineEnds_append, List.cons_append]
    by_cases hempty : t.value = ""
    · obtain ⟨writes, q, hwrites, hstrip⟩ := ih ht.2 hcovers.2 p
      refine ⟨writes, q, ?_, fun u => ?_⟩
      · rw [tokenWrites_empty hempty, hwrites]
      · rw [hstrip, hempty]
        rfl
    · obtain ⟨a, ha⟩ := covers_iff.mp (hcovers.1 hempty)
      obtain ⟨writes, q, hwrites, hstrip⟩ := ih ht.2 hcovers.2 (a.entered p)
      refine ⟨d.code a.controls :: withLineEnds newline t.value :: writes, q, ?_, fun u => ?_⟩
      · rw [tokenWrites_cons hempty ha, hwrites]
        rfl
      · rw [String.join_cons, String.join_cons, String.append_assoc, String.append_assoc,
          strip_code, strip_text (escapeFree_withLineEnds hn ht.1), hstrip, String.append_assoc]

/-- A token that the style does not cover ends the writing before anything is written for it. -/
theorem tokenWrites_uncovered {t : Token} (ht : t.value ≠ "") (h : ¬ s.Covers t.kind) (d : Depth)
    (newline : String) (p : Palette) (after : List Token) :
    ∃ e, tokenWrites d s (.ok newline) p (t :: after) = ([], some e) ∧
      ∀ missing, s.get t.kind = .error missing → e = missing := by
  have fails : ∀ e, (do (← s.get t.kind).opening.run p) = .error e →
      tokenWrites d s (.ok newline) p (t :: after) = ([], some e) := by
    intro e he
    rw [tokenWrites.eq_def]
    dsimp only
    rw [if_neg (by simpa using ht), he]
  cases hget : s.get t.kind with
  | error e =>
    refine ⟨e, fails e ?_, fun missing hmissing => by injection hmissing⟩
    rw [hget]
    rfl
  | ok entry =>
    cases hopening : entry.opening.run p with
    | error e =>
      refine ⟨e, fails e ?_, fun missing hmissing => by contradiction⟩
      rw [hget]
      exact hopening
    | ok r =>
      obtain ⟨a, ha⟩ := Option.isSome_iff_exists.mp (isSome_look_of_opening hopening)
      refine absurd (covers_iff.mpr ⟨a, ?_⟩) h
      rw [Style.look?, hget]
      exact ha

/-! ## Lines -/

theorem joinLines_texts {κ : Type} (lines : List String) :
    joinLines (.list (lines.map .str) : Value κ) = pure ("\n".intercalate lines) := by
  have items : itemsOf .notJoinable (.list (lines.map .str) : Value κ) =
      (pure (lines.map .str) : Effect κ _) :=
    (List.mapM_pure (m := Effect κ) (f := id)).trans (by rw [List.map_id])
  have texts : ∀ n, lineTexts n (lines.map (.str : String → Value κ)) = .ok lines := by
    clear items
    induction lines with
    | nil => exact fun _ => rfl
    | cons line lines ih =>
      intro n
      rw [List.map_cons, lineTexts, ih]
      rfl
  rw [joinLines, items, pure_bind, texts]
  rfl

theorem written_texts {κ : Type} (texts : List String) :
    Page.written (texts.map (.str : String → Value κ)) = (String.join texts, none) := by
  induction texts with
  | nil => rfl
  | cons s texts ih =>
    rw [List.map_cons, Page.written, ih, String.join_cons]

theorem writes_texts {κ : Type} (lines : List String) (newline : String) :
    Page.writes (lines.map .str) (.str newline : Value κ) = (Page.writes lines newline).map .str := by
  rw [Page.writes, Page.writes]
  induction lines with
  | nil => rfl
  | cons line lines ih =>
    cases lines with
    | nil => rfl
    | cons next rest =>
      rw [List.map_cons, List.map_cons, List.intersperse_cons_cons, List.intersperse_cons_cons,
        ← List.map_cons, ih, List.map_cons, List.map_cons]

/-- Only line feeds are translated. -/
theorem withLineEnds_eq_self {value : String} (h : '\n' ∈ value.toList → newline = "\n") :
    withLineEnds newline value = value := by
  rw [← String.toList_inj, toList_withLineEnds]
  generalize value.toList = cs at h
  induction cs with
  | nil => rfl
  | cons c cs ih =>
    rw [List.flatMap_cons, ih fun hmem => h (List.mem_cons_of_mem c hmem)]
    split
    · rename_i hc
      rw [h (hc ▸ List.mem_cons_self), hc]
      rfl
    · rfl

/-- The text of lines with another line end is their text with its line feeds translated. -/
theorem join_writes (newline : String) {lines : List String}
    (h : ∀ line ∈ lines, '\n' ∉ line.toList) :
    String.join (Page.writes lines newline) = withLineEnds newline ("\n".intercalate lines) := by
  induction lines with
  | nil => rfl
  | cons line lines ih =>
    rw [List.forall_mem_cons] at h
    have hline : withLineEnds newline line = line :=
      withLineEnds_eq_self fun hmem => absurd hmem h.1
    cases lines with
    | nil =>
      rw [String.intercalate_singleton, hline, Page.writes, List.intersperse_singleton,
        String.join_cons]
      exact String.append_empty
    | cons next rest =>
      have hfeed : withLineEnds newline "\n" = newline := by
        show String.join [newline] = newline
        rw [String.join_cons]
        exact String.append_empty
      rw [String.intercalate_cons_cons, withLineEnds_append, withLineEnds_append, hline, hfeed,
        ← ih h.2, Page.writes, List.intersperse_cons_cons, String.join_cons, String.join_cons,
        String.append_assoc]
      rfl

/-- What is written for a text is what is written for its tokens, and behind it at most a reset. -/
theorem exists_highlight (d : Depth) (s : Style) (l : Lexer) (lineEnd : Except Failure String)
    (p : Palette) (source : String) :
    ∃ closing, highlight d s l lineEnd p source =
        ((tokenWrites d s lineEnd p (l.tokens source)).1 ++ closing,
          (tokenWrites d s lineEnd p (l.tokens source)).2) ∧
      ∀ u, strip (String.join closing ++ u) = strip u := by
  have nothing : ∀ u, strip (String.join [] ++ u) = strip u := fun u => rfl
  rw [highlight]
  split
  · rename_i failure h
    exact ⟨[], by rw [h]; rfl, nothing⟩
  · rename_i writes e _ h
    exact ⟨[], by rw [h, List.append_nil], nothing⟩
  · rename_i writes _ h
    refine ⟨_, by rw [h], fun u => ?_⟩
    rw [String.join_cons, String.append_assoc, strip_code]
    rfl

theorem writeLinesFrom_texts {κ : Type} (p : Palette) (d : Depth) (s : Style) (l : Lexer)
    (newline : String) (lines : List String) :
    writeLinesFrom p ⟨true, d, .ok s, .ok l, .ok newline⟩ (.list (lines.map .str) : Value κ) =
      pure (highlight d s l (.ok newline) p ("\n".intercalate lines)) := by
  have hrun : writeLinesFrom p ⟨true, d, .ok s, .ok l, .ok newline⟩
      (.list (lines.map .str) : Value κ) =
        (do return highlight d s l (.ok newline) p (← joinLines (.list (lines.map .str)))) := rfl
  rw [hrun, joinLines_texts, pure_bind]

theorem escapeFree_of_tokenText {tokens : List Token} (h : EscapeFree (tokenText tokens)) :
    ∀ t ∈ tokens, EscapeFree t.value := by
  intro t ht hmem
  refine h ?_
  rw [tokenText, String.toList_join, List.mem_flatMap]
  exact ⟨t.value, List.mem_map_of_mem ht, hmem⟩

/-- What is in no line is not in their text, unless it is the line feed between them. -/
theorem not_mem_intercalate {c : Char} (hc : c ≠ '\n') {lines : List String}
    (h : ∀ line ∈ lines, c ∉ line.toList) : c ∉ ("\n".intercalate lines).toList := by
  induction lines with
  | nil => exact List.not_mem_nil
  | cons line lines ih =>
    rw [List.forall_mem_cons] at h
    cases lines with
    | nil =>
      rw [String.intercalate_singleton]
      exact h.1
    | cons next rest =>
      rw [String.intercalate_cons_cons, String.toList_append, String.toList_append,
        List.mem_append, List.mem_append, not_or, not_or]
      exact ⟨⟨h.1, fun hmem => hc (List.mem_singleton.mp hmem)⟩, ih h.2⟩

/-- Coloured output over any palette and at any depth of colour, of lines without a line feed, from a
style and a lexer that may be any, as long as the tokens of the text add up to it. If neither the lines
nor the line end has an escape character in it, the control sequences can be taken out of what is
written. If the style covers every token that is not empty, the writing succeeds and what is left is the
plain text of the lines with that line end; if it does not, the writing fails at the first one that it
does not cover, and what is left is the text of the tokens before, with the line end in place of line
feeds. Where the style has no entry for that token, its own failure ends the writing. -/
theorem strip_writes {κ : Type} (p : Palette) (d : Depth) {s : Style} {l : Lexer} {newline : String}
    {lines : List String} (hfeed : ∀ line ∈ lines, '\n' ∉ line.toList)
    (hlines : ∀ line ∈ lines, EscapeFree line) (hnewline : EscapeFree newline)
    (htokens : tokenText (l.tokens ("\n".intercalate lines)) = "\n".intercalate lines) :
    ∃ (writes : List String) (failure : Option Failure),
      (writeLinesFrom p ⟨true, d, .ok s, .ok l, .ok newline⟩ (.list (lines.map .str)) :
        Effect κ Written) = pure (writes, failure) ∧
      ((∀ t ∈ l.tokens ("\n".intercalate lines), t.value ≠ "" → s.Covers t.kind) →
        failure = none ∧
        Page.written (Page.writes (lines.map .str) (.str newline : Value κ)) =
          (strip (String.join writes), none)) ∧
      ∀ before t after, l.tokens ("\n".intercalate lines) = before ++ t :: after →
        (∀ u ∈ before, u.value ≠ "" → s.Covers u.kind) → t.value ≠ "" → ¬ s.Covers t.kind →
        strip (String.join writes) = withLineEnds newline (tokenText before) ∧
        ∃ e, failure = some e ∧ ∀ missing, s.get t.kind = .error missing → e = missing := by
  have hsource : EscapeFree ("\n".intercalate lines) := not_mem_intercalate (by decide) hlines
  have hfree := escapeFree_of_tokenText (htokens.symm ▸ hsource)
  obtain ⟨closing, hwrites, hclosing⟩ :=
    exists_highlight d s l (.ok newline) p ("\n".intercalate lines)
  have hnone : strip (String.join closing) = "" := by
    rw [← String.append_empty (s := String.join closing), hclosing, strip_empty]
  refine ⟨_, _, by rw [writeLinesFrom_texts, hwrites], fun hcovers => ?_, ?_⟩
  · obtain ⟨writes, q, htoken, hstrip⟩ := strip_tokenWrites hnewline hfree hcovers d p []
    rw [List.append_nil, tokenWrites, List.append_nil] at htoken
    rw [htoken]
    refine ⟨rfl, ?_⟩
    rw [writes_texts, written_texts, join_writes newline hfeed, String.join_append, hstrip, hnone,
      htokens, String.append_empty]
  · intro before t after hsplit hcovers ht huncovered
    rw [hsplit] at hfree ⊢
    obtain ⟨writes, q, htoken, hstrip⟩ :=
      strip_tokenWrites hnewline (List.forall_mem_append.mp hfree).1 hcovers d p (t :: after)
    obtain ⟨e, he, hmissing⟩ := tokenWrites_uncovered ht huncovered d newline q after
    rw [he, List.append_nil] at htoken
    rw [htoken]
    refine ⟨?_, e, rfl, hmissing⟩
    rw [String.join_append, hstrip, hnone, String.append_empty]

/-- A style without an entry for quiet tokens. -/
def loudOnly : Style := .custom [
  ("Loud", ⟨some (.hex "ff0000"), some .unset, some true, some false, some false⟩)]

theorem strip_writes_loudThenQuiet :
    (∀ line ∈ ["ab", "c"], '\n' ∉ line.toList) ∧ (∀ line ∈ ["ab", "c"], EscapeFree line) ∧
    EscapeFree "\r\n" ∧
    tokenText (loudThenQuiet.tokens ("\n".intercalate ["ab", "c"])) = "\n".intercalate ["ab", "c"] ∧
    (∃ writes : List String,
      (writeLinesFrom ⟨some ⟨1, 2, 3⟩, none⟩
        ⟨true, .trueColor, .ok loudAndQuiet, .ok loudThenQuiet, .ok "\r\n"⟩
        (.list [.str "ab", .str "c"]) : Effect Empty Written) = pure (writes, none) ∧
      strip (String.join writes) = "ab\r\nc") ∧
    ∃ (writes : List String) (e : Failure),
      (writeLinesFrom .empty ⟨true, .trueColor, .ok loudOnly, .ok loudThenQuiet, .ok "\r\n"⟩
        (.list [.str "ab", .str "c"]) : Effect Empty Written) = pure (writes, some e) ∧
      strip (String.join writes) = "ab" := by
  have hfeed : ∀ line ∈ ["ab", "c"], '\n' ∉ line.toList := by decide
  have hlines : ∀ line ∈ ["ab", "c"], EscapeFree line := by decide
  have hnewline : EscapeFree "\r\n" := by decide
  have hcut : loudThenQuiet.tokens ("\n".intercalate ["ab", "c"]) =
      [⟨"Loud", "ab"⟩, ⟨"Absent", ""⟩] ++ ⟨"Quiet", "\nc"⟩ :: [⟨"Absent", ""⟩] := by decide
  have htokens : tokenText (loudThenQuiet.tokens ("\n".intercalate ["ab", "c"])) =
      "\n".intercalate ["ab", "c"] := by decide
  have hloud : loudOnly.Covers "Loud" := ⟨_, _, rfl, rfl⟩
  have hquiet : ¬ loudOnly.Covers "Quiet" := by
    rintro ⟨_, _, hget, -⟩
    cases hget
  obtain ⟨writes, failure, hwrites, hwhole, -⟩ := strip_writes (κ := Empty) ⟨some ⟨1, 2, 3⟩, none⟩
    .trueColor (s := loudAndQuiet) hfeed hlines hnewline htokens
  obtain ⟨part, ended, hpart, -, hcovered⟩ := strip_writes (κ := Empty) .empty .trueColor
    (s := loudOnly) hfeed hlines hnewline htokens
  have hcovers : ∀ t ∈ loudThenQuiet.tokens ("\n".intercalate ["ab", "c"]), t.value ≠ "" →
      loudAndQuiet.Covers t.kind := by
    rw [hcut]
    simp only [List.cons_append, List.nil_append, List.forall_mem_cons]
    exact ⟨fun _ => ⟨_, _, rfl, rfl⟩, fun h => absurd rfl h, fun _ => ⟨_, _, rfl, rfl⟩,
      fun h => absurd rfl h, List.forall_mem_nil _⟩
  obtain ⟨hnone, hplain⟩ := hwhole hcovers
  obtain ⟨hbefore, e, he, -⟩ := hcovered _ _ _ hcut (by
    rw [List.forall_mem_cons, List.forall_mem_singleton]
    exact ⟨fun _ => hloud, fun h => absurd rfl h⟩) (by decide) hquiet
  refine ⟨hfeed, hlines, hnewline, htokens, ⟨writes, hnone ▸ hwrites, ?_⟩, part, e, he ▸ hpart, ?_⟩
  · exact (congrArg Prod.fst hplain).symm.trans (by decide)
  · exact hbefore.trans (by decide)

end DocLayout.Color
