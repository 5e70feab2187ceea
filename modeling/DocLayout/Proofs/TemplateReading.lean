import DocLayout.Template.Fill

/-
  How templates and the names of fields are read.

  A template is read up to its next brace, and what the brace stands for depends on what follows it. A
  character that is no brace goes in front of whatever the rest of the template begins with
  (`pieces_cons`), so what a template is read as can be found from its last character to its first.

  The name of a field that asks for no argument gets a number in front. That number is read back as the
  position that it was written for, as long as it is not too great for one (`keyOf_toString`).

  Proved:
  * `pieces_cons`, `pieces_brace`, `pieces_field`, `pieces_scan`: a template by what it begins with.
  * `pieces_close`, `pieces_unscanned`: what a brace cannot begin.
  * `lookup_number`: a field with a number in front leads to the argument in that place.
-/

namespace DocLayout

open Template

/-! ## Templates -/

namespace Template

/-- The pieces of a template that begins with a literal text, from the brace on that ends it. -/
def afterLiteral (literal : List Char) : List Char → Except Malformation (List Piece)
  | [] => .ok (if literal.isEmpty then [] else [⟨String.ofList literal, none⟩])
  | '\x7d' :: '\x7d' :: rest => do
    return ⟨String.ofList (literal ++ ['\x7d']), none⟩ :: (← pieces rest)
  | '\x7d' :: _ => .error .loneClose
  | [_] => .error .loneOpen
  | _ :: '\x7b' :: rest => do
    return ⟨String.ofList (literal ++ ['\x7b']), none⟩ :: (← pieces rest)
  | _ :: tail => do
    let (f, rest) ← scanField tail
    return ⟨String.ofList literal, some f⟩ :: (← pieces rest)

theorem pieces_eq (s : List Char) :
    pieces s = afterLiteral (s.takeWhile (!isBrace ·)) (s.dropWhile (!isBrace ·)) := by
  rw [pieces]
  dsimp only
  split
  · rename_i h
    rw [h, afterLiteral]
  · rename_i h
    rw [h, afterLiteral]
  · rename_i hsingle h
    rw [h, afterLiteral]
    exact hsingle
  · rename_i hopen h
    rw [h, afterLiteral]
    exact hopen
  · rename_i hopen h
    rw [h, afterLiteral]
    exact hopen
  · rename_i h
    rw [h, afterLiteral]
    · split
      · rename_i hfield
        rw [hfield]
        rfl
      · rename_i hfield
        rw [hfield]
        rfl
    all_goals assumption

/-- Pieces with one more character in front of their first literal text. -/
def withChar (c : Char) : List Piece → List Piece
  | [] => [⟨String.ofList [c], none⟩]
  | p :: ps => { p with literal := String.ofList (c :: p.literal.toList) } :: ps

theorem map_withChar (c : Char) (literal : List Char) (f : Option Field)
    (rest : Except Malformation (List Piece)) :
    (do return ⟨String.ofList (c :: literal), f⟩ :: (← rest)) =
      (do return ⟨String.ofList literal, f⟩ :: (← rest) : Except Malformation _).map
        (withChar c) := by
  cases rest with
  | error e => rfl
  | ok ps =>
    show Except.ok _ = Except.ok (withChar c (_ :: ps))
    rw [withChar, String.toList_ofList]

theorem afterLiteral_cons (c : Char) (literal rest : List Char) :
    afterLiteral (c :: literal) rest = (afterLiteral literal rest).map (withChar c) := by
  rw [afterLiteral.eq_def, afterLiteral.eq_def]
  split
  · cases literal with
    | nil => rfl
    | cons next literal =>
      show Except.ok _ = Except.ok (withChar c [_])
      rw [withChar, String.toList_ofList]
      rfl
  · exact map_withChar c _ none _
  · rfl
  · rfl
  · exact map_withChar c _ none _
  · rename_i tail _ _ _ _
    cases scanField tail with
    | error e => rfl
    | ok r => exact map_withChar c _ _ _

/-- A character that is no brace belongs to the literal text that comes next. -/
theorem pieces_cons {c : Char} (hc : isBrace c = false) (s : List Char) :
    pieces (c :: s) = (pieces s).map (withChar c) := by
  have hbrace : (!isBrace c) = true := by rw [hc, Bool.not_false]
  have htake : (c :: s).takeWhile (!isBrace ·) = c :: s.takeWhile (!isBrace ·) :=
    List.takeWhile_cons_of_pos hbrace
  have hdrop : (c :: s).dropWhile (!isBrace ·) = s.dropWhile (!isBrace ·) :=
    List.dropWhile_cons_of_pos hbrace
  rw [pieces_eq, htake, hdrop, afterLiteral_cons, ← pieces_eq]

/-- A doubled brace is a brace in a piece of its own. -/
theorem pieces_brace {c : Char} (hc : isBrace c) (s : List Char) :
    pieces (c :: c :: s) = (pieces s).map fun ps => ⟨String.ofList [c], none⟩ :: ps := by
  rw [isBrace, Bool.or_eq_true, decide_eq_true_eq, decide_eq_true_eq] at hc
  rcases hc with rfl | rfl
  · rw [pieces]
    rfl
  · rw [pieces]
    rfl

/-- Two braces with nothing between them are a field without a name. -/
theorem pieces_field (s : List Char) :
    pieces ('\x7b' :: '\x7d' :: s) =
      (pieces s).map fun ps => ⟨"", some ⟨"", "", none⟩⟩ :: ps := by
  rw [pieces]
  rfl

theorem pieces_nil : pieces [] = .ok [] := by
  rw [pieces]
  rfl

/-- An opening brace by itself begins a field. -/
theorem pieces_open {c : Char} (hc : c ≠ '\x7b') (s : List Char) :
    pieces ('\x7b' :: c :: s) = (do
      let (f, rest) ← scanField (c :: s)
      return ⟨"", some f⟩ :: (← pieces rest)) := by
  rw [pieces_eq]
  show afterLiteral [] ('\x7b' :: c :: s) = _
  have hne : ('\x7b' : Char) ≠ '\x7d' := by decide
  rw [afterLiteral]
  · exact fun _ h => absurd h hne
  · exact hne
  · exact fun h => absurd h (List.cons_ne_nil c s)
  · intro rest heq
    injection heq with heq
    exact hc heq

/-- A closing brace by itself is none. -/
theorem pieces_close {s : List Char} (hs : ∀ rest, s ≠ '\x7d' :: rest) :
    pieces ('\x7d' :: s) = .error .loneClose := by
  rw [pieces_eq]
  show afterLiteral [] ('\x7d' :: s) = _
  rw [afterLiteral]
  exact hs

/-- What can be read as a field behind a brace is a piece. -/
theorem pieces_scan {tail rest : List Char} {f : Field} (h : scanField tail = .ok (f, rest)) :
    pieces ('\x7b' :: tail) = (pieces rest).map fun ps => ⟨"", some f⟩ :: ps := by
  cases tail with
  | nil => contradiction
  | cons c tail =>
    have hc : c ≠ '\x7b' := by
      rintro rfl
      contradiction
    rw [pieces_open hc, h]
    rfl

/-- What cannot is nothing. -/
theorem pieces_unscanned {tail : List Char} {e : Malformation} (h : scanField tail = .error e)
    (hopen : ∀ rest, tail ≠ '\x7b' :: rest) : ∃ e', pieces ('\x7b' :: tail) = .error e' := by
  cases tail with
  | nil =>
    refine ⟨.loneOpen, ?_⟩
    rw [pieces]
    rfl
  | cons c tail =>
    have hc : c ≠ '\x7b' := fun hc => hopen tail (congrArg (· :: tail) hc)
    refine ⟨e, ?_⟩
    rw [pieces_open hc, h]
    rfl

end Template

/-! ## Numbers in names -/

namespace Template

theorem le_ofDigitChars (cs : List Char) (value : Nat) : value ≤ Nat.ofDigitChars 10 cs value := by
  induction cs generalizing value with
  | nil => exact Nat.le_refl _
  | cons c cs ih =>
    rw [Nat.ofDigitChars_cons]
    exact Nat.le_trans (by omega) (ih _)

/-- The value of digits is read if it is not too great for a position. -/
theorem readPosition_digits {cs : List Char} (h : ∀ c ∈ cs, c.isDigit) (value : Nat)
    (hle : Nat.ofDigitChars 10 cs value ≤ greatestPosition) :
    readPosition value cs = .ok (some (Nat.ofDigitChars 10 cs value)) := by
  induction cs generalizing value with
  | nil => rfl
  | cons c cs ih =>
    rw [List.forall_mem_cons] at h
    rw [Nat.ofDigitChars_cons] at hle ⊢
    have hvalue := Nat.le_trans (le_ofDigitChars cs _) hle
    rw [readPosition, Text.decimalValue?_of_isDigit h.1]
    dsimp only
    rw [if_neg (by omega), Nat.mul_comm value 10]
    exact ih h.2 _ hle

theorem keyOf_toString {k : Nat} (hk : k ≤ greatestPosition) :
    keyOf (toString k).toList = .ok (.position k) := by
  have hvalue := Text.ofDigitChars_toString k
  have hne : (toString k).toList.isEmpty = false := by
    rw [List.isEmpty_eq_false_iff, Nat.toString_eq_repr, Nat.toList_repr]
    exact Nat.toDigits_ne_nil
  rw [keyOf, hne, readPosition_digits (Text.isDigit_toString k) 0 (by rwa [hvalue]), hvalue]
  rfl

theorem beginsStep_of_isDigit {c : Char} (h : c.isDigit) : (!beginsStep c) = true := by
  rw [beginsStep, Bool.not_eq_true', Bool.or_eq_false_iff, decide_eq_false_iff_not,
    decide_eq_false_iff_not]
  constructor
  · rintro rfl
    exact absurd h (by decide)
  · rintro rfl
    exact absurd h (by decide)

/-- A number in front of a name belongs to the first part of it. -/
theorem firstPart_number (k : Nat) (name : List Char) :
    firstPart ((toString k).toList ++ name) = (toString k).toList ++ firstPart name :=
  List.takeWhile_append_of_pos fun c hc => beginsStep_of_isDigit (Text.isDigit_toString k c hc)

theorem dropWhile_number (k : Nat) (name : List Char) :
    ((toString k).toList ++ name).dropWhile (!beginsStep ·) = name.dropWhile (!beginsStep ·) :=
  List.dropWhile_append_of_pos fun c hc => beginsStep_of_isDigit (Text.isDigit_toString k c hc)

variable {κ : Type} {a : Arguments κ} {v : Value κ}

/-- A number by itself leads to the argument in its place. -/
theorem lookup_number {k : Nat} (hk : k ≤ greatestPosition) (hv : a.positional[k]? = some v) :
    a.lookup (toString k ++ "") = .ok v := by
  have hget : a.get (.position k) = .ok v := by
    rw [Arguments.get, hv]
  rw [Arguments.lookup, String.toList_append, firstPart_number, dropWhile_number,
    String.toList_empty, firstPart, List.takeWhile_nil, List.append_nil, keyOf_toString hk,
    List.dropWhile_nil, pathOf]
  show Except.mapError _ (a.get (.position k)) >>= _ = _
  rw [hget]
  rfl

/-- A field without a name leads to the next argument, where fields are not numbered by hand. -/
theorem resolve_next {n : Numbering} (hmode : n.mode ≠ some .manual)
    (hk : n.nextIndex ≤ greatestPosition) (hv : a.positional[n.nextIndex]? = some v) :
    n.resolve a "" = (⟨some .automatic, n.nextIndex + 1⟩, .ok v) := by
  have hnumber : n.number "" =
      .ok (⟨some .automatic, n.nextIndex + 1⟩, toString n.nextIndex ++ "") := by
    obtain ⟨mode, index⟩ := n
    cases mode with
    | none => rfl
    | some mode =>
      cases mode with
      | automatic => rfl
      | manual => exact absurd rfl hmode
  rw [Numbering.resolve, hnumber]
  dsimp only
  rw [lookup_number hk hv]
  rfl

end Template

end DocLayout
