import DocLayout.Color.Highlight
import DocLayout.Proofs.Keeping
import DocLayout.Proofs.Terminal

/-
  Coloured text on a terminal.

  What is written for tokens is read by a terminal one write after the other, and what a token leaves
  selected is still selected when the next one begins. Likewise the palette holds the colours of the
  tokens before. Neither shows: every token begins with a reset, and enters the colours it uses.

  `look?` is what a style says of a kind of token, without controls, palettes or writes. It fails where
  the style has no entry, or one that leaves something out or names a colour that is none.

  Proved:
  * `opening_of_look`, `isSome_look_of_opening`: there are controls for a token exactly if it has a
    look, and they are those of the look over every palette.
  * `read_token`: one token is shown with its look, whatever was selected before.
  * `read_tokenWrites`: so are all tokens, one after the other.
  * `shown_as_styled`: so are the tokens of the lines that coloured output is asked for of.
  * `bold_behind_line_end`: what is put between lines is not looked at, and may select attributes.
-/

namespace DocLayout.Color

/-! ## What a style says of a token -/

/-- What an ink says of the colour of a character, if it says anything that can be shown. -/
def Ink.look? : Ink → Option (Option Rgb)
  | .unset => some none
  | .hex written => (Rgb.ofHex written).toOption.map some
  | .unfit _ => none

/-- What the tokens of a kind are to be shown with, if everything is said of it. -/
def TokenStyle.look? (s : TokenStyle) : Option Attributes := do
  let foreground ← (← s.foreground).look?
  let background ← (← s.background).look?
  return ⟨foreground, background, ← s.bold, ← s.italic, ← s.underline⟩

/-- What the tokens of a kind are to be shown with, if the style has an entry for it. -/
def Style.look? (s : Style) (kind : String) : Option Attributes := do
  (← (s.get kind).toOption).look?

/-- The controls that select attributes, whatever they were before. -/
def Attributes.controls (a : Attributes) : List Control :=
  .reset :: ((a.foreground.map .foreground).toList ++ (a.background.map .background).toList) ++
    flag .bold a.bold ++ flag .italic a.italic ++ flag .underline a.underline

/-- The reset takes away what was selected before; what is set after it is left to the end. -/
theorem set_controls (a before : Attributes) :
    a.controls.foldl (fun b c => c.set b) before = a := by
  obtain ⟨foreground, background, bold, italic, underline⟩ := a
  cases foreground <;> cases background <;> cases bold <;> cases italic <;> cases underline <;> rfl

/-! ## The palette -/

/-- The palette behind a token: a name that it has no colour for keeps the one of a token before. -/
def Attributes.entered (a : Attributes) (p : Palette) : Palette :=
  ⟨a.foreground.or p.foreground, a.background.or p.background⟩

theorem enter_of_look {ink : Ink} {color : Option Rgb} (h : ink.look? = some color)
    (entry : Rgb → Palette → Palette) (p : Palette) :
    (ink.enter entry).run p = .ok (color.isSome, color.elim p fun c => entry c p) := by
  cases ink with
  | unset =>
    cases h
    rfl
  | hex written =>
    rw [Ink.look?] at h
    rw [Ink.enter]
    cases hc : Rgb.ofHex written with
    | error e => simp [hc, Except.toOption] at h
    | ok c =>
      simp only [hc, Except.toOption, Option.map_some, Option.some.injEq] at h
      subst h
      rfl
  | unfit typeName => contradiction

theorem isSome_look_of_enter {ink : Ink} {entry : Rgb → Palette → Palette} {p : Palette}
    {r : Bool × Palette} (h : (ink.enter entry).run p = .ok r) : ink.look?.isSome := by
  cases ink with
  | unset => rfl
  | hex written =>
    rw [Ink.enter] at h
    rw [Ink.look?]
    cases hc : Rgb.ofHex written with
    | error e =>
      rw [hc] at h
      contradiction
    | ok c => rfl
  | unfit typeName => contradiction

/-- The colours of a token are entered before they are used, so what the palette held before does not
matter. -/
theorem colors_of_look {s : TokenStyle} {f b : Ink} {front back : Option Rgb}
    (hf : s.foreground = some f) (hfront : f.look? = some front) (hb : s.background = some b)
    (hback : b.look? = some back) (p : Palette) :
    s.colors.run p =
      .ok ((front.map .foreground).toList ++ (back.map .background).toList,
        ⟨front.or p.foreground, back.or p.background⟩) := by
  have entered : s.colors.run p =
      (do
        let (u, q) ← (f.enter Palette.enterForeground).run p
        let (v, r) ← (b.enter Palette.enterBackground).run q
        return (r.controls u v, r)) := by
    rw [TokenStyle.colors, hf, hb]
    rfl
  rw [entered, enter_of_look hfront]
  show (do
    let (v, r) ← (b.enter Palette.enterBackground).run _
    return (r.controls front.isSome v, r)) = _
  rw [enter_of_look hback]
  cases front <;> cases back <;> rfl

/-- The controls of a token are those of its look. -/
theorem opening_of_look {s : TokenStyle} {a : Attributes} (h : s.look? = some a) (p : Palette) :
    s.opening.run p = .ok (a.controls, a.entered p) := by
  simp only [TokenStyle.look?, Option.bind_eq_bind, Option.bind_eq_some_iff] at h
  obtain ⟨f, hf, front, hfront, b, hb, back, hback, bold, hbold, italic, hitalic, underline,
    hunderline, ha⟩ := h
  cases ha
  rw [TokenStyle.opening, StateT.run_bind, colors_of_look hf hfront hb hback, hbold, hitalic,
    hunderline]
  rfl

theorem some_of_asked {β : Type} {name : String} {said : Option β} {p : Palette} {r : β × Palette}
    (h : (liftM (asked name said) : StateT Palette (Except Failure) β).run p = .ok r) :
    said = some r.1 := by
  cases said with
  | none => contradiction
  | some x =>
    cases h
    rfl

/-- Where a token can begin, everything is said of its kind, and the colours that are named are some. -/
theorem isSome_look_of_opening {s : TokenStyle} {p : Palette} {r : List Control × Palette}
    (h : s.opening.run p = .ok r) : s.look?.isSome := by
  rw [TokenStyle.opening, TokenStyle.colors] at h
  obtain ⟨_, hcolors, h⟩ := exists_of_bind_eq_ok h
  obtain ⟨⟨f, _⟩, hf, hcolors⟩ := exists_of_bind_eq_ok hcolors
  obtain ⟨_, hfront, hcolors⟩ := exists_of_bind_eq_ok hcolors
  obtain ⟨⟨b, _⟩, hb, hcolors⟩ := exists_of_bind_eq_ok hcolors
  obtain ⟨_, hback, -⟩ := exists_of_bind_eq_ok hcolors
  obtain ⟨⟨bold, _⟩, hbold, h⟩ := exists_of_bind_eq_ok h
  obtain ⟨⟨italic, _⟩, hitalic, h⟩ := exists_of_bind_eq_ok h
  obtain ⟨⟨underline, _⟩, hunderline, -⟩ := exists_of_bind_eq_ok h
  obtain ⟨front, hfront⟩ := Option.isSome_iff_exists.mp (isSome_look_of_enter hfront)
  obtain ⟨back, hback⟩ := Option.isSome_iff_exists.mp (isSome_look_of_enter hback)
  simp only [TokenStyle.look?, some_of_asked hf, some_of_asked hb, some_of_asked hbold,
    some_of_asked hitalic, some_of_asked hunderline, Option.bind_eq_bind, Option.bind_some, hfront,
    hback]
  rfl

/-! ## Tokens -/

variable {s : Style} {newline : String}

/-- What is to be shown for a token: its text with the line ends that are asked for, and every
character of it with what the style says of the kind of the token. -/
def Token.shows (s : Style) (newline : String) (t : Token) : List (Char × Option Attributes) :=
  (withLineEnds newline t.value).toList.map (·, s.look? t.kind)

theorem toList_withLineEnds (newline value : String) :
    (withLineEnds newline value).toList =
      value.toList.flatMap fun c => if c = '\n' then newline.toList else [c] := by
  rw [withLineEnds, String.toList_join, List.flatMap_map]
  congr 1
  funext c
  split <;> simp

theorem escapeFree_withLineEnds {value : String} (hn : EscapeFree newline) (hv : EscapeFree value) :
    EscapeFree (withLineEnds newline value) := by
  intro h
  rw [toList_withLineEnds, List.mem_flatMap] at h
  obtain ⟨c, hc, h⟩ := h
  split at h
  · exact hn h
  · exact hv (List.mem_singleton.mp h ▸ hc)

theorem tokenWrites_empty {t : Token} (h : t.value = "") (d : Depth) (s : Style)
    (lineEnd : Except Failure String) (p : Palette) (rest : List Token) :
    tokenWrites d s lineEnd p (t :: rest) = tokenWrites d s lineEnd p rest := by
  have hempty : t.value.isEmpty := by rw [h]; rfl
  exact if_pos hempty

theorem get_of_look {kind : String} {a : Attributes} (h : s.look? kind = some a) :
    ∃ entry, s.get kind = .ok entry ∧ entry.look? = some a := by
  obtain ⟨entry, hentry, hlook⟩ := Option.bind_eq_some_iff.mp h
  cases hget : s.get kind with
  | error e => simp [hget, Except.toOption] at hentry
  | ok other =>
    simp only [hget, Except.toOption, Option.some.injEq] at hentry
    exact ⟨other, rfl, hentry ▸ hlook⟩

/-- A token whose look is known is written behind the controls of it. -/
theorem tokenWrites_cons {t : Token} (ht : t.value ≠ "") {a : Attributes}
    (ha : s.look? t.kind = some a) (d : Depth) (newline : String) (p : Palette)
    (rest : List Token) :
    tokenWrites d s (.ok newline) p (t :: rest) =
      (d.code a.controls :: withLineEnds newline t.value ::
        (tokenWrites d s (.ok newline) (a.entered p) rest).1,
        (tokenWrites d s (.ok newline) (a.entered p) rest).2) := by
  obtain ⟨entry, hget, hlook⟩ := get_of_look ha
  have hopening : (do (← s.get t.kind).opening.run p) = .ok (a.controls, a.entered p) := by
    rw [hget]
    exact opening_of_look hlook p
  rw [tokenWrites.eq_def]
  dsimp only
  rw [if_neg (by simpa using ht), hopening]

/-- A terminal, whatever it shows text with, shows a token with what the style says of it. -/
theorem read_token {t : Token} {a : Attributes} (ha : s.look? t.kind = some a)
    (hn : EscapeFree newline) (ht : EscapeFree t.value) (before : Attributes)
    (w : List (Char × Attributes)) :
    ∃ shown, shown.map (fun x => (x.1, some x.2)) = t.shows s newline ∧
      ((Terminal.showing before w).read (Depth.trueColor.code a.controls)).read
        (withLineEnds newline t.value) = .showing a (w ++ shown) := by
  refine ⟨(withLineEnds newline t.value).toList.map (·, a), ?_, ?_⟩
  · rw [Token.shows, List.map_map, ha]
    rfl
  · rw [Terminal.read_code, set_controls, Terminal.read_text (escapeFree_withLineEnds hn ht)]

/-- Whatever was written before, the characters of the tokens are shown with what the style says of
their tokens. -/
theorem read_tokenWrites (hn : EscapeFree newline) {tokens : List Token}
    (ht : ∀ t ∈ tokens, EscapeFree t.value)
    (hlook : ∀ t ∈ tokens, t.value ≠ "" → (s.look? t.kind).isSome) (p : Palette) :
    ∃ writes, tokenWrites .trueColor s (.ok newline) p tokens = (writes, none) ∧
      (writes = [] ↔ ∀ t ∈ tokens, t.value = "") ∧
      ∀ before w, ∃ after shown,
        (Terminal.showing before w).read (String.join writes) = .showing after (w ++ shown) ∧
        shown.map (fun x => (x.1, some x.2)) = tokens.flatMap (Token.shows s newline) := by
  -- what a token leaves behind is anything to the next: the palette, the attributes, what was shown
  induction tokens generalizing p with
  | nil =>
    refine ⟨[], rfl, by simp, fun before w => ⟨before, [], ?_, rfl⟩⟩
    rw [List.append_nil]
    rfl
  | cons t rest ih =>
    rw [List.forall_mem_cons] at ht hlook
    by_cases hempty : t.value = ""
    · obtain ⟨writes, hwrites, hnone, hread⟩ := ih ht.2 hlook.2 p
      refine ⟨writes, ?_, ?_, ?_⟩
      · rw [tokenWrites_empty hempty, hwrites]
      · rw [hnone, List.forall_mem_cons, and_iff_right hempty]
      · have hshows : t.shows s newline = [] := by
          rw [Token.shows, toList_withLineEnds, hempty]
          rfl
        intro before w
        rw [List.flatMap_cons, hshows]
        exact hread before w
    · obtain ⟨a, ha⟩ := Option.isSome_iff_exists.mp (hlook.1 hempty)
      obtain ⟨writes, hwrites, -, hread⟩ := ih ht.2 hlook.2 (a.entered p)
      have hcons := tokenWrites_cons hempty ha .trueColor newline p rest
      rw [hwrites] at hcons
      refine ⟨_, hcons, ?_, ?_⟩
      · rw [List.forall_mem_cons]
        exact ⟨fun h => absurd h (List.cons_ne_nil _ _), fun h => absurd h.1 hempty⟩
      · intro before w
        obtain ⟨shown, hshown, htoken⟩ := read_token ha hn ht.1 before w
        obtain ⟨after, others, hothers, hrest⟩ := hread a (w ++ shown)
        refine ⟨after, shown ++ others, ?_, ?_⟩
        · rw [String.join_cons, String.join_cons, Terminal.read_append, Terminal.read_append,
            htoken, hothers, List.append_assoc]
        · rw [List.map_append, hshown, hrest, List.flatMap_cons]

/-! ## Lexers -/

theorem mem_unixLineEnds {c : Char} {cs : List Char} (h : c ∈ unixLineEnds cs) :
    c ∈ cs ∨ c = '\n' := by
  induction cs using unixLineEnds.induct with
  | case1 => exact .inl h
  | case2 rest ih =>
    rw [unixLineEnds, List.mem_cons] at h
    rcases h with h | h
    · exact .inr h
    · exact (ih h).imp_left fun h => List.mem_cons_of_mem _ (List.mem_cons_of_mem _ h)
  | case3 other rest hother ih =>
    rw [unixLineEnds, List.mem_cons] at h
    · rcases h with h | h
      · split at h
        · exact .inr h
        · exact .inl (h ▸ List.mem_cons_self)
      · exact (ih h).imp_left (List.mem_cons_of_mem _)
    · exact hother

theorem mem_dropByteOrderMark {c : Char} {cs : List Char} (h : c ∈ dropByteOrderMark cs) :
    c ∈ cs := by
  rw [dropByteOrderMark.eq_def] at h
  split at h
  · exact List.mem_cons_of_mem _ h
  · exact h

theorem mem_cut {c : Char} {t : Token} {pieces : List (String × Nat)} {rest : String}
    {cs : List Char} (ht : t ∈ cut pieces rest cs) (hc : c ∈ t.value.toList) : c ∈ cs := by
  induction pieces generalizing cs with
  | nil =>
    rw [cut, List.mem_singleton] at ht
    simpa [ht] using hc
  | cons piece pieces ih =>
    rw [cut, List.mem_cons] at ht
    rcases ht with rfl | ht
    · exact List.mem_of_mem_take (String.toList_ofList ▸ hc)
    · exact List.mem_of_mem_drop (ih ht)

/-- Tokens are free of escape characters if the text is: nothing but a line feed may be new in them. -/
theorem escapeFree_text {source : String} (h : EscapeFree source) :
    ∀ t ∈ Lexer.text.tokens source, EscapeFree t.value := by
  intro t ht hc
  rw [List.mem_singleton.mp ht, String.toList_ofList] at hc
  rcases mem_unixLineEnds hc with hc | hc
  · exact h (mem_dropByteOrderMark hc)
  · exact absurd hc (by decide)

theorem escapeFree_chunks {source : String} (h : EscapeFree source) (pieces : List (String × Nat))
    (rest : String) : ∀ t ∈ (Lexer.chunks pieces rest).tokens source, EscapeFree t.value :=
  fun _ ht hc => h (mem_cut ht hc)

/-! ## Lines -/

/-- A style that has an entry for a kind, of which there are controls, says how its tokens look. -/
theorem isSome_look_of_controls {kind : String} {entry : TokenStyle} {controls : List Control}
    (hget : s.get kind = .ok entry) (hcontrols : entry.controls = .ok controls) :
    (s.look? kind).isSome := by
  have hlook : s.look? kind = entry.look? := by
    rw [Style.look?, hget]
    rfl
  obtain ⟨r, hr, -⟩ := exists_of_bind_eq_ok hcontrols
  rw [hlook]
  exact isSome_look_of_opening hr

/-- Behind the last token there is a reset. -/
theorem read_highlight (hn : EscapeFree newline) {l : Lexer} {source : String}
    (ht : ∀ t ∈ l.tokens source, EscapeFree t.value)
    (hlook : ∀ t ∈ l.tokens source, t.value ≠ "" → (s.look? t.kind).isSome) (p : Palette) :
    ∃ writes, highlight .trueColor s l (.ok newline) p source = (writes, none) ∧
      (writes = [] ↔ ∀ t ∈ l.tokens source, t.value = "") ∧
      (writes ≠ [] → ∀ before w, ∃ shown,
        (Terminal.showing before w).read (String.join writes) = .showing .plain (w ++ shown) ∧
        shown.map (fun x => (x.1, some x.2)) =
          (l.tokens source).flatMap (Token.shows s newline)) := by
  obtain ⟨writes, hwrites, hnone, hread⟩ := read_tokenWrites hn ht hlook p
  cases writes with
  | nil =>
    refine ⟨[], ?_, hnone, fun h => absurd rfl h⟩
    rw [highlight, hwrites]
  | cons first rest =>
    refine ⟨first :: rest ++ [Depth.trueColor.code [.reset]], ?_, ?_, ?_⟩
    · rw [highlight, hwrites]
    · rw [← hnone]
      simp
    · intro _ before w
      obtain ⟨after, shown, hshown, hmap⟩ := hread before w
      refine ⟨shown, ?_, hmap⟩
      rw [String.join_append, Terminal.read_append, hshown]
      rfl

/-- Coloured output over any palette, from a style and a lexer that may be any, of lines that stand for
a text. If neither the line end nor a token has an escape character in it, and the style has an entry
with controls for every token that is not empty, then the writing succeeds. A terminal that reads what
is written, whatever it showed text with before, then shows just the characters of the tokens, each
with what the style says of the kind of its token, and is left as after a reset; and nothing is written
if all tokens are empty. -/
theorem shown_as_styled {κ : Type} (p : Palette) {s : Style} {l : Lexer} {newline : String}
    {lines : Value κ} {source : String} {session after : Session κ}
    (hsource : (joinLines lines).run.run session = (.ok source, after))
    (hnewline : EscapeFree newline) (htokens : ∀ t ∈ l.tokens source, EscapeFree t.value)
    (hstyle : ∀ t ∈ l.tokens source, t.value ≠ "" →
      ∃ entry controls, s.get t.kind = .ok entry ∧ entry.controls = .ok controls) :
    ∃ writes : List String,
      (writeLinesFrom p ⟨true, .trueColor, .ok s, .ok l, .ok newline⟩ lines).run.run session =
        (.ok (writes, none), after) ∧
      ((∀ t ∈ l.tokens source, t.value = "") → writes = []) ∧
      ((∃ t ∈ l.tokens source, t.value ≠ "") → ∀ before w, ∃ shown,
        (Terminal.showing before w).read (String.join writes) = .showing .plain (w ++ shown) ∧
        shown.map (fun x => (x.1, some x.2)) =
          (l.tokens source).flatMap (Token.shows s newline)) := by
  have hlook : ∀ t ∈ l.tokens source, t.value ≠ "" → (s.look? t.kind).isSome := by
    intro t ht hvalue
    obtain ⟨entry, controls, hget, hcontrols⟩ := hstyle t ht hvalue
    exact isSome_look_of_controls hget hcontrols
  obtain ⟨writes, hwrites, hnone, hread⟩ := read_highlight hnewline htokens hlook p
  refine ⟨writes, ?_, hnone.mpr, ?_⟩
  · have hrun : writeLinesFrom p ⟨true, .trueColor, .ok s, .ok l, .ok newline⟩ lines =
        (do return highlight .trueColor s l (.ok newline) p (← joinLines lines)) := rfl
    rw [hrun, ExceptT.run_bind, StateT.run_bind, hsource]
    show (Except.ok (highlight .trueColor s l (.ok newline) p source), after) = _
    rw [hwrites]
  · rintro ⟨t, ht, hvalue⟩
    exact hread fun h => hvalue (hnone.mp h t ht)

/-- Two kinds of tokens that have no attribute in common. -/
def loudAndQuiet : Style := .custom [
  ("Loud", ⟨some (.hex "ff0000"), some (.hex "#fff"), some true, some false, some false⟩),
  ("Quiet", ⟨some .unset, some .unset, some false, some true, some true⟩)]

/-- A loud token, an empty one of a kind that there is no entry for, and a quiet one. -/
def loudThenQuiet : Lexer := .chunks [("Loud", 2), ("Absent", 0), ("Quiet", 2)] "Absent"

theorem shown_as_styled_loudThenQuiet :
    (joinLines (.list [.str "ab", .str "c"] : Value Empty)).run.run .empty =
      (.ok "ab\nc", .empty) ∧
    EscapeFree "\r\n" ∧ (∀ t ∈ loudThenQuiet.tokens "ab\nc", EscapeFree t.value) ∧
    (∀ t ∈ loudThenQuiet.tokens "ab\nc", t.value ≠ "" →
      ∃ entry controls, loudAndQuiet.get t.kind = .ok entry ∧ entry.controls = .ok controls) ∧
    ∃ writes : List String,
      (writeLinesFrom ⟨some ⟨1, 2, 3⟩, none⟩
        ⟨true, .trueColor, .ok loudAndQuiet, .ok loudThenQuiet, .ok "\r\n"⟩
        (.list [.str "ab", .str "c"] : Value Empty)).run.run .empty =
          (.ok (writes, none), .empty) ∧
      ∀ before w, ∃ shown,
        (Terminal.showing before w).read (String.join writes) = .showing .plain (w ++ shown) ∧
        shown.map (fun x => (x.1, some x.2)) =
          ['a', 'b'].map (·, some ⟨some ⟨255, 0, 0⟩, some ⟨15, 15, 15⟩, true, false, false⟩) ++
          ['\r', '\n', 'c'].map (·, some ⟨none, none, false, true, true⟩) := by
  have htokens : loudThenQuiet.tokens "ab\nc" =
      [⟨"Loud", "ab"⟩, ⟨"Absent", ""⟩, ⟨"Quiet", "\nc"⟩, ⟨"Absent", ""⟩] := by decide
  have hjoin : (joinLines (.list [.str "ab", .str "c"] : Value Empty)).run.run .empty =
    (.ok "ab\nc", .empty) := rfl
  have hnewline : EscapeFree "\r\n" := by decide
  have hfree : ∀ t ∈ loudThenQuiet.tokens "ab\nc", EscapeFree t.value := by
    rw [htokens]
    decide
  have hstyle : ∀ t ∈ loudThenQuiet.tokens "ab\nc", t.value ≠ "" →
      ∃ entry controls, loudAndQuiet.get t.kind = .ok entry ∧ entry.controls = .ok controls := by
    rw [htokens]
    simp only [List.forall_mem_cons, ne_eq, not_true_eq_false, false_implies, true_and]
    exact ⟨fun _ => ⟨_, _, rfl, rfl⟩, fun _ => ⟨_, _, rfl, rfl⟩, List.forall_mem_nil _⟩
  obtain ⟨writes, hwrites, -, hread⟩ :=
    shown_as_styled ⟨some ⟨1, 2, 3⟩, none⟩ hjoin hnewline hfree hstyle
  have hshows : (loudThenQuiet.tokens "ab\nc").flatMap (Token.shows loudAndQuiet "\r\n") =
      ['a', 'b'].map (·, some ⟨some ⟨255, 0, 0⟩, some ⟨15, 15, 15⟩, true, false, false⟩) ++
      ['\r', '\n', 'c'].map (·, some ⟨none, none, false, true, true⟩) := by
    rw [htokens]
    decide
  rw [hshows] at hread
  exact ⟨hjoin, hnewline, hfree, hstyle, writes, hwrites,
    hread ⟨⟨"Loud", "ab"⟩, by rw [htokens]; decide, by decide⟩⟩

/-- A line end is written as it is, so one with an escape character in it can select attributes: what
comes behind it is bold here, though the style says of the whole token that it is not. -/
theorem bold_behind_line_end :
    Style.look? (.custom [("Kw", .bare)]) "Kw" = some .plain ∧
    (Lexer.chunks [("Kw", 3)] "Rest").tokens "a\nb" = [⟨"Kw", "a\nb"⟩, ⟨"Rest", ""⟩] ∧
    ∃ writes : List String,
      (writeLines ⟨true, .trueColor, .ok (.custom [("Kw", .bare)]), .ok (.chunks [("Kw", 3)] "Rest"),
        .ok "\x1b[1m"⟩ (.list [.str "a", .str "b"] : Value Empty)).run.run .empty =
          (.ok (writes, none), .empty) ∧
      (Terminal.showing .plain []).read (String.join writes) =
        .showing .plain [('a', .plain), ('b', { Attributes.plain with bold := true })] := by
  refine ⟨rfl, by decide, ["\x1b[0m", "a\x1b[1mb", "\x1b[0m"], rfl, ?_⟩
  decide

end DocLayout.Color
