import DocLayout.Proofs.Filling
import DocLayout.Proofs.Numbering
import DocLayout.Proofs.TemplateReading

/-
  Numbers written into a template.

  A field without a number gets the next one, so a template can be rewritten to one where every such
  field has its number in front. What a scan takes up does not depend on the text after it, and digits in
  front of a name only become the beginning of the name, so the rewritten template has the same pieces up
  to the numbers. The two templates are filled side by side: one of them counts, in automatic numbering,
  and the other one names, in manual numbering, what the first one counts.

  Proved:
  * `scanField_local`: the field that a text begins with is read without the text behind it.
  * `pieces_numbered`: the pieces of the rewritten template.
  * `matches_addPieces`, by induction on the pieces: the two drafts stay the same, and fail together.
  * `fill_numbered`: so do the two documents.
-/

namespace DocLayout

namespace Template

/-! ## What a scan takes up -/

/-- What a scan for a name does at a character, whatever comes after it. -/
theorem scanName_cons (bracketed : Bool) (c : Char) :
    (∃ stop, ∀ s, scanName bracketed (c :: s) = .ok ([], stop, s)) ∨
    (∃ e, ∀ s, scanName bracketed (c :: s) = .error e) ∨
    ∃ next, ∀ s, scanName bracketed (c :: s) =
      (scanName next s).map fun (name, stop, rest) => (c :: name, stop, rest) := by
  cases bracketed with
  | true => exact .inr (.inr ⟨_, fun _ => rfl⟩)
  | false =>
    by_cases hopen : c = '\x7b'
    · subst hopen
      exact .inr (.inl ⟨_, fun _ => rfl⟩)
    by_cases hbrace : c = '\x7d'
    · subst hbrace
      exact .inl ⟨_, fun _ => rfl⟩
    by_cases hcolon : c = ':'
    · subst hcolon
      exact .inl ⟨_, fun _ => rfl⟩
    by_cases hmark : c = '!'
    · subst hmark
      exact .inl ⟨_, fun _ => rfl⟩
    refine .inr (.inr ⟨decide (c = '['), fun s => ?_⟩)
    rw [scanName]
    simp only [Bool.false_eq_true, if_false, hopen, hbrace, hcolon, hmark]

/-- What a scan for a specification does at a character, whatever comes after it. -/
theorem scanSpec_cons (depth : Nat) (c : Char) :
    (∀ s, scanSpec depth (c :: s) = .ok ([], s)) ∨
    ∃ next, ∀ s, scanSpec depth (c :: s) =
      (scanSpec next s).map fun (spec, rest) => (c :: spec, rest) := by
  by_cases hopen : c = '\x7b'
  · subst hopen
    exact .inr ⟨_, fun _ => rfl⟩
  by_cases hclose : c = '\x7d'
  · subst hclose
    cases depth with
    | zero => exact .inl fun _ => rfl
    | succ depth => exact .inr ⟨_, fun _ => rfl⟩
  refine .inr ⟨depth, fun s => ?_⟩
  rw [scanSpec.eq_def]
  simp only [hopen, hclose, if_false]

/-- The name of a field is read without the text behind what ends it. -/
theorem scanName_local {bracketed : Bool} {s name rest : List Char} {stop : NameEnd}
    (h : scanName bracketed s = .ok (name, stop, rest)) :
    ∃ used, s = used ++ rest ∧
      ∀ other, scanName bracketed (used ++ other) = .ok (name, stop, other) := by
  induction s generalizing bracketed name with
  | nil => contradiction
  | cons c s ih =>
    rcases scanName_cons bracketed c with ⟨stop', hstep⟩ | ⟨e, hstep⟩ | ⟨next, hstep⟩
    · rw [hstep] at h
      cases h
      exact ⟨[c], rfl, hstep⟩
    · rw [hstep] at h
      contradiction
    · rw [hstep] at h
      obtain ⟨⟨name', stop', rest'⟩, hs, heq⟩ := exists_of_map_eq_ok h
      cases heq
      obtain ⟨used, hused, hlocal⟩ := ih hs
      refine ⟨c :: used, congrArg (c :: ·) hused, fun other => ?_⟩
      rw [List.cons_append, hstep, hlocal]
      rfl

/-- A specification is read without the text behind the brace that closes it. -/
theorem scanSpec_local {depth : Nat} {s spec rest : List Char}
    (h : scanSpec depth s = .ok (spec, rest)) :
    ∃ used, s = used ++ rest ∧ ∀ other, scanSpec depth (used ++ other) = .ok (spec, other) := by
  induction s generalizing depth spec with
  | nil => contradiction
  | cons c s ih =>
    rcases scanSpec_cons depth c with hstep | ⟨next, hstep⟩
    · rw [hstep] at h
      cases h
      exact ⟨[c], rfl, hstep⟩
    · rw [hstep] at h
      obtain ⟨⟨spec', rest'⟩, hs, heq⟩ := exists_of_map_eq_ok h
      cases heq
      obtain ⟨used, hused, hlocal⟩ := ih hs
      refine ⟨c :: used, congrArg (c :: ·) hused, fun other => ?_⟩
      rw [List.cons_append, hstep, hlocal]
      rfl

/-- A field with a specification that begins here. -/
def specEnd (name : String) (conversion : Option Char) (s : List Char) :
    Except Malformation (Field × List Char) :=
  (scanSpec 0 s).map fun (spec, rest) => (⟨name, String.ofList spec, conversion⟩, rest)

/-- A field from what ends its name on. -/
def fieldEnd (name : String) : NameEnd → List Char → Except Malformation (Field × List Char)
  | .brace, rest => .ok (⟨name, "", none⟩, rest)
  | .colon, rest => specEnd name none rest
  | .mark, [] => .error .noConversion
  | .mark, [c] => specEnd name (conversionOf c) []
  | .mark, c :: '\x7d' :: rest => .ok (⟨name, "", conversionOf c⟩, rest)
  | .mark, c :: ':' :: rest => specEnd name (conversionOf c) rest
  | .mark, _ :: _ :: _ => .error .afterConversion

theorem scanField_eq (s : List Char) :
    scanField s = (do
      let (name, stop, rest) ← scanName false s
      fieldEnd (String.ofList name) stop rest) := by
  rw [scanField]
  refine bind_congr fun (name, stop, rest) => ?_
  unfold fieldEnd
  rfl

theorem specEnd_local {name : String} {conversion : Option Char} {s rest : List Char} {f : Field}
    (h : specEnd name conversion s = .ok (f, rest)) :
    ∃ used, s = used ++ rest ∧ ∀ other, specEnd name conversion (used ++ other) = .ok (f, other) := by
  obtain ⟨⟨spec, rest'⟩, hs, heq⟩ := exists_of_map_eq_ok h
  cases heq
  obtain ⟨used, hused, hlocal⟩ := scanSpec_local hs
  refine ⟨used, hused, fun other => ?_⟩
  rw [specEnd, hlocal]
  rfl

theorem fieldEnd_local {name : String} {stop : NameEnd} {s rest : List Char} {f : Field}
    (h : fieldEnd name stop s = .ok (f, rest)) :
    ∃ used, s = used ++ rest ∧ ∀ other, fieldEnd name stop (used ++ other) = .ok (f, other) := by
  unfold fieldEnd at h
  split at h
  · cases h
    exact ⟨[], rfl, fun _ => rfl⟩
  · exact specEnd_local h
  · contradiction
  · contradiction
  · cases h
    exact ⟨[_, '\x7d'], rfl, fun _ => rfl⟩
  · rename_i c s
    obtain ⟨used, hused, hlocal⟩ := specEnd_local h
    exact ⟨c :: ':' :: used, congrArg (c :: ':' :: ·) hused, hlocal⟩
  · contradiction

/-- The field that a text begins with is read without the text behind it. -/
theorem scanField_local {s rest : List Char} {f : Field} (h : scanField s = .ok (f, rest)) :
    ∃ used, s = used ++ rest ∧ ∀ other, scanField (used ++ other) = .ok (f, other) := by
  rw [scanField_eq] at h
  obtain ⟨⟨name, stop, tail⟩, hname, hfield⟩ := exists_of_bind_eq_ok h
  obtain ⟨usedName, htail, hnameLocal⟩ := scanName_local hname
  obtain ⟨usedEnd, hrest, hendLocal⟩ := fieldEnd_local hfield
  refine ⟨usedName ++ usedEnd, by rw [htail, hrest, List.append_assoc], fun other => ?_⟩
  rw [scanField_eq, List.append_assoc, hnameLocal]
  exact hendLocal other

/-! ## Digits in front of a name -/

theorem scanName_digit {c : Char} (hc : c.isDigit) (s : List Char) :
    scanName false (c :: s) =
      (scanName false s).map fun (name, stop, rest) => (c :: name, stop, rest) := by
  have hne {d : Char} (hd : d.isDigit = false) : c ≠ d := by
    rintro rfl
    rw [hd] at hc
    contradiction
  rw [scanName]
  simp only [Bool.false_eq_true, if_false, hne (d := '\x7b') rfl, hne (d := '\x7d') rfl,
    hne (d := ':') rfl, hne (d := '!') rfl, hne (d := '[') rfl, decide_false]

theorem scanName_digits {digits : List Char} (h : ∀ c ∈ digits, c.isDigit) (s : List Char) :
    scanName false (digits ++ s) =
      (scanName false s).map fun (name, stop, rest) => (digits ++ name, stop, rest) := by
  induction digits with
  | nil =>
    rw [List.nil_append]
    cases scanName false s with
    | error e => rfl
    | ok r => rfl
  | cons c digits ih =>
    rw [List.forall_mem_cons] at h
    rw [List.cons_append, scanName_digit h.1, ih h.2]
    cases scanName false s with
    | error e => rfl
    | ok r => rfl

/-- A field with a text in front of its name. -/
def Field.behind (front : String) (f : Field) : Field := { f with name := front ++ f.name }

theorem Field.behind_spec (front : String) (f : Field) : (f.behind front).spec = f.spec := rfl

theorem Field.behind_conversion (front : String) (f : Field) :
    (f.behind front).conversion = f.conversion := rfl

theorem specEnd_behind (front name : String) (conversion : Option Char) (s : List Char) :
    specEnd (front ++ name) conversion s =
      (specEnd name conversion s).map fun (f, rest) => (f.behind front, rest) := by
  rw [specEnd, specEnd]
  cases scanSpec 0 s with
  | error e => rfl
  | ok r => rfl

theorem fieldEnd_behind (front name : String) (stop : NameEnd) (s : List Char) :
    fieldEnd (front ++ name) stop s =
      (fieldEnd name stop s).map fun (f, rest) => (f.behind front, rest) := by
  unfold fieldEnd
  split
  · rfl
  · exact specEnd_behind _ _ _ _
  · rfl
  · exact specEnd_behind _ _ _ _
  · rfl
  · exact specEnd_behind _ _ _ _
  · rfl

/-- Digits in front of a field are the beginning of its name. -/
theorem scanField_digits {digits : String} (h : ∀ c ∈ digits.toList, c.isDigit) (s : List Char) :
    scanField (digits.toList ++ s) =
      (scanField s).map fun (f, rest) => (f.behind digits, rest) := by
  rw [scanField_eq, scanField_eq, scanName_digits h]
  cases scanName false s with
  | error e => rfl
  | ok r =>
    obtain ⟨name, stop, rest⟩ := r
    show fieldEnd (String.ofList (digits.toList ++ name)) stop rest =
      (fieldEnd (String.ofList name) stop rest).map _
    rw [String.ofList_append, String.ofList_toList, fieldEnd_behind]

/-! ## Templates with numbers -/

/-- The number that a field gets as the `k`-th one without a number, if it is one. -/
def Field.numeral (k : Nat) (f : Field) : String := if Automatic f.name then toString k else ""

/-- The number of fields without a number after a field that had `k` of them before it. -/
def Field.count (k : Nat) (f : Field) : Nat := if Automatic f.name then k + 1 else k

/-- A template with the numbers from `k` on in front of the names without one. What does not begin a
field stays as it is. -/
def numbered (k : Nat) : List Char → List Char
  | [] => []
  | '\x7b' :: '\x7b' :: rest => '\x7b' :: '\x7b' :: numbered k rest
  | '\x7d' :: '\x7d' :: rest => '\x7d' :: '\x7d' :: numbered k rest
  | '\x7b' :: tail =>
    match h : scanField tail with
    | .error _ => '\x7b' :: tail
    | .ok (f, rest) =>
      have := scanField_length h
      '\x7b' :: ((f.numeral k).toList ++ tail.take (tail.length - rest.length) ++
        numbered (f.count k) rest)
  | c :: rest => c :: numbered k rest
termination_by s => s.length
decreasing_by all_goals simp; try omega

/-- A template with a number in front of every name without one. -/
def numberedTemplate (s : String) : String := String.ofList (numbered 0 s.toList)

/-- Pieces with the numbers from `k` on in front of the names without one. -/
def numberPieces (k : Nat) : List Piece → List Piece
  | [] => []
  | p :: ps =>
    match p.field with
    | none => p :: numberPieces k ps
    | some f => ⟨p.literal, some (f.behind (f.numeral k))⟩ :: numberPieces (f.count k) ps

theorem isDigit_numeral (k : Nat) (f : Field) : ∀ c ∈ (f.numeral k).toList, c.isDigit := by
  rw [Field.numeral]
  split
  · exact Text.isDigit_toString k
  · exact List.forall_mem_nil _

theorem numberPieces_withChar (k : Nat) (c : Char) (ps : List Piece) :
    numberPieces k (withChar c ps) = withChar c (numberPieces k ps) := by
  cases ps with
  | nil => rfl
  | cons p ps =>
    obtain ⟨literal, field⟩ := p
    cases field with
    | none => rfl
    | some f => rfl

/-- A field with its number has the text of the field behind the number. -/
theorem numbered_field {used rest : List Char} {f : Field}
    (h : scanField (used ++ rest) = .ok (f, rest)) (k : Nat) :
    numbered k ('\x7b' :: (used ++ rest)) =
      '\x7b' :: ((f.numeral k).toList ++ (used ++ numbered (f.count k) rest)) := by
  have hopen : ∀ rest', used ++ rest ≠ '\x7b' :: rest' := by
    intro rest' heq
    rw [heq] at h
    contradiction
  have hused : (used ++ rest).take ((used ++ rest).length - rest.length) = used := by
    rw [List.length_append, Nat.add_sub_cancel, List.take_left]
  rw [numbered]
  · split
    · rename_i herror
      rw [h] at herror
      contradiction
    · rename_i hok
      rw [h] at hok
      cases hok
      dsimp only
      rw [hused, List.append_assoc]
  · exact hopen

/-- A character that is no brace is left in its place. -/
theorem numbered_cons {c : Char} (hc : isBrace c = false) (k : Nat) (s : List Char) :
    numbered k (c :: s) = c :: numbered k s := by
  rw [isBrace, Bool.or_eq_false_iff, decide_eq_false_iff_not, decide_eq_false_iff_not] at hc
  rw [numbered]
  · exact fun _ h => absurd h hc.1
  · exact fun _ h => absurd h hc.2
  · exact hc.1

/-- A template that can be read is read, with the numbers in it, as its pieces with the numbers. -/
theorem pieces_numbered {k : Nat} {s : List Char} {ps : List Piece} (h : pieces s = .ok ps) :
    pieces (numbered k s) = .ok (numberPieces k ps) := by
  induction k, s using numbered.induct generalizing ps with
  | case1 k =>
    rw [pieces_nil] at h
    cases h
    rw [numbered, pieces_nil, numberPieces]
  | case2 k rest ih =>
    rw [pieces_brace rfl] at h
    obtain ⟨ps, hps, rfl⟩ := exists_of_map_eq_ok h
    rw [numbered, pieces_brace rfl, ih hps]
    rfl
  | case3 k rest ih =>
    rw [pieces_brace rfl] at h
    obtain ⟨ps, hps, rfl⟩ := exists_of_map_eq_ok h
    rw [numbered, pieces_brace rfl, ih hps]
    rfl
  | case4 k tail hopen e hscan =>
    obtain ⟨e', herror⟩ := pieces_unscanned hscan hopen
    rw [herror] at h
    contradiction
  | case5 k tail hopen f rest hscan hlength ih =>
    rw [pieces_scan hscan] at h
    obtain ⟨ps, hps, rfl⟩ := exists_of_map_eq_ok h
    obtain ⟨used, rfl, hlocal⟩ := scanField_local hscan
    have hfield : scanField ((f.numeral k).toList ++ (used ++ numbered (f.count k) rest)) =
        .ok (f.behind (f.numeral k), numbered (f.count k) rest) := by
      rw [scanField_digits (isDigit_numeral k f), hlocal]
      rfl
    rw [numbered_field hscan, pieces_scan hfield, ih hps]
    rfl
  | case6 k c rest hopens hcloses hopen ih =>
    have hc : isBrace c = false := by
      refine Bool.eq_false_iff.mpr fun hbrace => ?_
      rw [isBrace, Bool.or_eq_true, decide_eq_true_eq, decide_eq_true_eq] at hbrace
      obtain rfl := hbrace.resolve_left hopen
      rw [pieces_close fun rest' => hcloses rest' rfl] at h
      contradiction
    rw [pieces_cons hc] at h
    obtain ⟨ps, hps, rfl⟩ := exists_of_map_eq_ok h
    rw [numbered_cons hc, pieces_cons hc, ih hps, numberPieces_withChar]
    rfl

/-! ## The two templates side by side -/

/-- One numbering counts, and has counted `k` fields, while the other one names. -/
structure InStep (k : Nat) (n n' : Numbering) : Prop where
  counts : n.mode ≠ some .manual
  counted : n.nextIndex = k
  names : n'.mode ≠ some .automatic

/-- Before any field, both have counted none. -/
theorem inStep_start : InStep 0 .start .start := ⟨nofun, rfl, nofun⟩

theorem digits_number {name : String} (h : Automatic name) (k : Nat) :
    Digits (toString k ++ name) := by
  refine digits_of_positional ?_
  have hdigits : firstPart (toString k ++ name).toList = (toString k).toList := by
    rw [String.toList_append, firstPart_number, h, List.append_nil]
  rw [Positional, hdigits]
  constructor
  · rw [Nat.toString_eq_repr, Nat.toList_repr]
    exact Nat.toDigits_ne_nil
  · intro c hc
    rw [Text.decimalValue?_of_isDigit (Text.isDigit_toString k c hc)]
    rfl

variable {κ : Type} {k : Nat} {n n' : Numbering} {f : Field}

/-- A field is answered alike with its number and without it. -/
theorem resolve_numbered (h : InStep k n n') (a : Arguments κ) (hf : ¬ Digits f.name) :
    InStep (f.count k) (n.resolve a f.name).1 (n'.resolve a (f.behind (f.numeral k)).name).1 ∧
      (n'.resolve a (f.behind (f.numeral k)).name).2 = (n.resolve a f.name).2 := by
  rw [Field.count, Field.behind, Field.numeral]
  split
  · rename_i hauto
    rw [resolve_automatic hauto h.counts, resolve_digits (digits_number hauto k) h.names, h.counted]
    exact ⟨⟨nofun, rfl, nofun⟩, rfl⟩
  · rename_i hauto
    rw [String.empty_append, resolve_named hauto hf, resolve_named hauto hf]
    exact ⟨h, rfl⟩

section Filling

variable (run : Interpreter κ) (a : Arguments κ)

/-- A field becomes the same document with its number and without it, or none in either case. -/
theorem matches_fieldDoc (h : InStep k n n') (hf : ¬ Digits f.name) :
    (fieldDoc run a n f).Matches
      (fun made made' => InStep (f.count k) made.1 made'.1 ∧ made.2 = made'.2)
      (fieldDoc run a n' (f.behind (f.numeral k))) := by
  obtain ⟨hstep, hsame⟩ := resolve_numbered h a hf
  rw [fieldDoc, fieldDoc, Field.behind_spec, Field.behind_conversion]
  -- the failures for a format name the field, and only their family is the same
  have refused (name : String) : (Failure.formattedField (Text.quote name)).family = .argument := rfl
  split
  · exact matches_throw ((refused _).trans (refused _).symm)
  · cases hresolve : n.resolve a f.name with
    | mk after answer =>
      cases hresolve' : n'.resolve a (f.behind (f.numeral k)).name with
      | mk after' answer' =>
        rw [hresolve, hresolve'] at hstep hsame
        dsimp only at hstep hsame
        subst hsame
        cases answer' with
        | error e => exact matches_throw rfl
        | ok v =>
          refine matches_bind (matches_refl _) fun d d' hd => ?_
          exact matches_pure ⟨hstep, hd⟩

theorem matches_addPieces {ps : List Piece} (h : InStep k n n')
    (hps : ∀ p ∈ ps, ∀ f, p.field = some f → ¬ Digits f.name) (draft : Draft κ) :
    (addPieces run a n draft ps).Matches Eq (addPieces run a n' draft (numberPieces k ps)) := by
  induction ps generalizing k n n' draft with
  | nil => exact matches_refl _
  | cons p ps ih =>
    obtain ⟨hp, hrest⟩ := List.forall_mem_cons.mp hps
    obtain ⟨literal, field⟩ := p
    cases field with
    | none =>
      refine matches_bind (matches_refl _) fun draft _ hdraft => ?_
      subst hdraft
      exact ih h hrest draft
    | some f =>
      refine matches_bind (matches_refl _) fun draft _ hdraft => ?_
      subst hdraft
      refine matches_bind (matches_fieldDoc run a h (hp f rfl)) fun made made' hmade => ?_
      obtain ⟨after, d⟩ := made
      obtain ⟨after', d'⟩ := made'
      obtain ⟨hstep, hd⟩ := hmade
      dsimp only at hstep hd
      subst hd
      exact ih hstep hrest _

/-- A template none of whose fields has a number can be read with a number written in front of every
name without one. With any arguments it is filled then with the same document, or fails alike. -/
theorem fill_numbered (s : String) {ps : List Piece} (hs : pieces s.toList = .ok ps)
    (hfields : ∀ p ∈ ps, ∀ f, p.field = some f → ¬ Digits f.name) :
    pieces (numberedTemplate s).toList = .ok (numberPieces 0 ps) ∧
      (fill run (.str s) a).Matches Eq (fill run (.str (numberedTemplate s)) a) := by
  have hnumbered : pieces (numberedTemplate s).toList = .ok (numberPieces 0 ps) := by
    rw [numberedTemplate, String.toList_ofList]
    exact pieces_numbered hs
  refine ⟨hnumbered, ?_⟩
  rw [fill, fill, piecesOf, piecesOf, hs, hnumbered]
  split
  · exact matches_throw rfl
  · show Effect.Matches Eq
      (addPieces run a .start .empty ps >>= fun draft => ofExcept draft.finish)
      (addPieces run a .start .empty (numberPieces 0 ps) >>= fun draft => ofExcept draft.finish)
    refine matches_bind (matches_addPieces run a inStep_start hfields .empty)
      fun draft draft' hdraft => ?_
    subst hdraft
    exact matches_refl _

end Filling

/-- A brace, a field without a number, a named one, and an item of the next argument. -/
def countedTemplate : String := "\x7b\x7b\x7b\x7d-\x7bk\x7d\x7b[0]\x7d"

/-- Its pieces. -/
def countedPieces : List Piece :=
  [⟨"\x7b", none⟩, ⟨"", some ⟨"", "", none⟩⟩, ⟨"-", some ⟨"k", "", none⟩⟩,
    ⟨"", some ⟨"[0]", "", none⟩⟩]

/-- A text and a list, and a text by name. -/
def countedArguments : Arguments Empty := ⟨[.str "a", .list [.str "b"]], [("k", .str "c")]⟩

/-- Its fields, each with the text from there on. -/
theorem scanField_countedTemplate :
    scanField ("\x7d".toList ++ "-\x7bk\x7d\x7b[0]\x7d".toList) =
      .ok (⟨"", "", none⟩, "-\x7bk\x7d\x7b[0]\x7d".toList) ∧
    scanField ("k\x7d".toList ++ "\x7b[0]\x7d".toList) =
      .ok (⟨"k", "", none⟩, "\x7b[0]\x7d".toList) ∧
    scanField ("[0]\x7d".toList ++ []) = .ok (⟨"[0]", "", none⟩, []) := ⟨rfl, rfl, rfl⟩

theorem pieces_countedTemplate : pieces countedTemplate.toList = .ok countedPieces := by
  obtain ⟨hfirst, hnamed, hlast⟩ := scanField_countedTemplate
  show pieces ('\x7b' :: '\x7b' :: '\x7b' ::
    ("\x7d".toList ++ "-\x7bk\x7d\x7b[0]\x7d".toList)) = _
  rw [pieces_brace rfl, pieces_scan hfirst]
  show ((pieces ('-' :: '\x7b' :: ("k\x7d".toList ++ "\x7b[0]\x7d".toList))).map _).map _ = _
  rw [pieces_cons rfl, pieces_scan hnamed]
  show ((((pieces ('\x7b' :: ("[0]\x7d".toList ++ []))).map _).map _).map _).map _ = _
  rw [pieces_scan hlast, pieces_nil]
  rfl

theorem numberedTemplate_countedTemplate :
    numberedTemplate countedTemplate = "\x7b\x7b\x7b0\x7d-\x7bk\x7d\x7b1[0]\x7d" := by
  obtain ⟨hfirst, hnamed, hlast⟩ := scanField_countedTemplate
  have hrest : numbered 1 "-\x7bk\x7d\x7b[0]\x7d".toList = "-\x7bk\x7d\x7b1[0]\x7d".toList := by
    show numbered 1 ('-' :: '\x7b' :: ("k\x7d".toList ++ "\x7b[0]\x7d".toList)) = _
    rw [numbered_cons rfl, numbered_field hnamed]
    show '-' :: '\x7b' :: 'k' :: '\x7d' :: numbered 1 ('\x7b' :: ("[0]\x7d".toList ++ [])) = _
    rw [numbered_field hlast, numbered]
    rfl
  have hdone : numbered 0 countedTemplate.toList =
      "\x7b\x7b\x7b0\x7d-\x7bk\x7d\x7b1[0]\x7d".toList := by
    show numbered 0 ('\x7b' :: '\x7b' :: '\x7b' ::
      ("\x7d".toList ++ "-\x7bk\x7d\x7b[0]\x7d".toList)) = _
    rw [numbered, numbered_field hfirst]
    show '\x7b' :: '\x7b' :: '\x7b' :: '0' :: '\x7d' ::
      numbered 1 "-\x7bk\x7d\x7b[0]\x7d".toList = _
    rw [hrest]
    rfl
  rw [numberedTemplate, hdone, String.ofList_toList]

theorem fill_numbered_countedTemplate :
    pieces countedTemplate.toList = .ok countedPieces ∧
    (∀ p ∈ countedPieces, ∀ f, p.field = some f → ¬ Digits f.name) ∧
    pieces "\x7b\x7b\x7b0\x7d-\x7bk\x7d\x7b1[0]\x7d".toList = .ok (numberPieces 0 countedPieces) ∧
    (fill Empty.elim (.str countedTemplate) countedArguments).Matches Eq
      (fill Empty.elim (.str "\x7b\x7b\x7b0\x7d-\x7bk\x7d\x7b1[0]\x7d") countedArguments) := by
  have hfields : ∀ p ∈ countedPieces, ∀ f, p.field = some f → ¬ Digits f.name := by
    decide +kernel
  obtain ⟨hread, hfill⟩ :=
    fill_numbered Empty.elim countedArguments countedTemplate pieces_countedTemplate hfields
  rw [numberedTemplate_countedTemplate] at hread hfill
  exact ⟨pieces_countedTemplate, hfields, hread, hfill⟩

end Template

end DocLayout
