/-
  Templates as pieces.

  A template is literal text with fields between braces. A doubled brace stands for one brace and
  ends a piece without a field. In a field, the name reaches up to a closing brace, a colon or an
  exclamation mark, except that everything between brackets belongs to it. An exclamation mark is
  followed by one character of conversion, a colon by the format specification, which may hold
  braces in pairs.
-/

namespace DocLayout.Template

/-- What is between the braces of a field. A specification that is not there is empty. -/
structure Field where
  name : String
  spec : String
  conversion : Option Char
  deriving Repr, DecidableEq

/-- Literal text, and the field that follows it. -/
structure Piece where
  literal : String
  field : Option Field
  deriving Repr, DecidableEq

/-- Why a text is no template. -/
inductive Malformation where
  | loneOpen
  | loneClose
  | openInName
  | unclosedField
  | unclosedSpec
  | noConversion
  | afterConversion
  deriving Repr, DecidableEq

def Malformation.message : Malformation → String
  | loneOpen => "Single '\x7b' encountered in format string"
  | loneClose => "Single '\x7d' encountered in format string"
  | openInName => "unexpected '\x7b' in field name"
  | unclosedField => "expected '\x7d' before end of string"
  | unclosedSpec => "unmatched '\x7b' in format spec"
  | noConversion => "end of string while looking for conversion specifier"
  | afterConversion => "expected ':' after conversion specifier"

/-- Whether a character is a brace. -/
def isBrace (c : Char) : Bool := c = '\x7b' || c = '\x7d'

/-- What ends the name of a field. -/
inductive NameEnd where
  | brace
  | colon
  | mark

/-- The name of a field, what ends it, and the text after that. `bracketed` says that the scan is
between brackets, where only the closing bracket counts. -/
def scanName (bracketed : Bool) : List Char → Except Malformation (List Char × NameEnd × List Char)
  | [] => .error .unclosedField
  | c :: rest =>
    let more (bracketed : Bool) : Except Malformation (List Char × NameEnd × List Char) :=
      (scanName bracketed rest).map fun (name, stop, rest) => (c :: name, stop, rest)
    if bracketed then more (c != ']')
    else if c = '\x7b' then .error .openInName
    else if c = '\x7d' then .ok ([], .brace, rest)
    else if c = ':' then .ok ([], .colon, rest)
    else if c = '!' then .ok ([], .mark, rest)
    else more (c = '[')

/-- The format specification up to the brace that closes the field, and the text after that.
`depth` is the number of braces inside the specification that are still open. -/
def scanSpec (depth : Nat) : List Char → Except Malformation (List Char × List Char)
  | [] => .error .unclosedSpec
  | c :: rest =>
    let more (depth : Nat) : Except Malformation (List Char × List Char) :=
      (scanSpec depth rest).map fun (spec, rest) => (c :: spec, rest)
    if c = '\x7b' then more (depth + 1)
    else if c = '\x7d' then match depth with
      | 0 => .ok ([], rest)
      | depth + 1 => more depth
    else more depth

/-- The conversion that a character asks for; the null character asks for none. -/
def conversionOf (c : Char) : Option Char := if c = '\x00' then none else some c

/-- The field that begins after an opening brace, and the text after it. -/
def scanField (s : List Char) : Except Malformation (Field × List Char) := do
  let (name, stop, rest) ← scanName false s
  let name := String.ofList name
  let withSpec (conversion : Option Char) (rest : List Char) :
      Except Malformation (Field × List Char) :=
    (scanSpec 0 rest).map fun (spec, rest) => (⟨name, String.ofList spec, conversion⟩, rest)
  match stop, rest with
  | .brace, rest => return (⟨name, "", none⟩, rest)
  | .colon, rest => withSpec none rest
  | .mark, [] => throw .noConversion
  | .mark, [c] => withSpec (conversionOf c) []
  | .mark, c :: '\x7d' :: rest => return (⟨name, "", conversionOf c⟩, rest)
  | .mark, c :: ':' :: rest => withSpec (conversionOf c) rest
  | .mark, _ :: _ :: _ => throw .afterConversion

theorem scanName_length {bracketed : Bool} {s name rest : List Char} {stop : NameEnd}
    (h : scanName bracketed s = .ok (name, stop, rest)) : rest.length < s.length := by
  induction s generalizing bracketed name with
  | nil => simp [scanName] at h
  | cons c s ih =>
    have step : ∀ b, Except.map (fun (name, stop, rest) => (c :: name, stop, rest)) (scanName b s)
        = .ok (name, stop, rest) → rest.length < (c :: s).length := by
      intro b hb
      cases hs : scanName b s with
      | error e => simp [hs, Except.map] at hb
      | ok r =>
        obtain ⟨n, st, r⟩ := r
        simp only [hs, Except.map, Except.ok.injEq, Prod.mk.injEq] at hb
        obtain ⟨rfl, rfl, rfl⟩ := hb
        exact Nat.lt_succ_of_lt (ih hs)
    simp only [scanName] at h
    repeat' split at h
    all_goals first
      | contradiction
      | exact step _ h
      | (simp only [Except.ok.injEq, Prod.mk.injEq] at h; obtain ⟨-, -, rfl⟩ := h; simp)

theorem scanSpec_length {depth : Nat} {s spec rest : List Char}
    (h : scanSpec depth s = .ok (spec, rest)) : rest.length < s.length := by
  induction s generalizing depth spec with
  | nil => simp [scanSpec] at h
  | cons c s ih =>
    have step : ∀ d, Except.map (fun (spec, rest) => (c :: spec, rest)) (scanSpec d s)
        = .ok (spec, rest) → rest.length < (c :: s).length := by
      intro d hd
      cases hs : scanSpec d s with
      | error e => simp [hs, Except.map] at hd
      | ok r =>
        obtain ⟨n, r⟩ := r
        simp only [hs, Except.map, Except.ok.injEq, Prod.mk.injEq] at hd
        obtain ⟨rfl, rfl⟩ := hd
        exact Nat.lt_succ_of_lt (ih hs)
    simp only [scanSpec] at h
    repeat' split at h
    all_goals first
      | contradiction
      | exact step _ h
      | (simp only [Except.ok.injEq, Prod.mk.injEq] at h; obtain ⟨-, rfl⟩ := h; simp)

/-- A field takes up some of the text. -/
theorem scanField_length {s rest : List Char} {f : Field} (h : scanField s = .ok (f, rest)) :
    rest.length < s.length := by
  unfold scanField at h
  cases hn : scanName false s with
  | error e => simp [hn, bind, Except.bind] at h
  | ok r =>
    obtain ⟨name, stop, tail⟩ := r
    have ht := scanName_length hn
    have spec : ∀ {conv : Option Char} {t : List Char}, t.length ≤ tail.length →
        Except.map (fun (spec, rest) => (Field.mk (String.ofList name) (String.ofList spec) conv,
          rest)) (scanSpec 0 t) = .ok (f, rest) → rest.length < s.length := by
      intro conv t hle hs
      cases hsp : scanSpec 0 t with
      | error e => simp [hsp, Except.map] at hs
      | ok r =>
        have := scanSpec_length hsp
        simp only [hsp, Except.map, Except.ok.injEq, Prod.mk.injEq] at hs
        obtain ⟨-, rfl⟩ := hs
        omega
    simp only [hn, bind, Except.bind] at h
    split at h
    · cases h; exact ht
    · exact spec (Nat.le_refl _) h
    · contradiction
    · exact spec (by simp) h
    · cases h; simp at ht; omega
    · exact spec (by simp; omega) h
    · contradiction

theorem length_le_of_dropWhile {p : Char → Bool} {s t : List Char} (h : s.dropWhile p = t) :
    t.length ≤ s.length := h ▸ (List.dropWhile_suffix p).length_le

/-- The pieces of a template. Only the last one can be literal text that no brace ends. -/
def pieces (s : List Char) : Except Malformation (List Piece) :=
  let literal := s.takeWhile (!isBrace ·)
  match h : s.dropWhile (!isBrace ·) with
  | [] => .ok (if literal.isEmpty then [] else [⟨String.ofList literal, none⟩])
  | '\x7d' :: '\x7d' :: rest => do
    have := length_le_of_dropWhile h
    return ⟨String.ofList (literal ++ ['\x7d']), none⟩ :: (← pieces rest)
  | '\x7d' :: _ => .error .loneClose
  | [_] => .error .loneOpen
  | _ :: '\x7b' :: rest => do
    have := length_le_of_dropWhile h
    return ⟨String.ofList (literal ++ ['\x7b']), none⟩ :: (← pieces rest)
  | _ :: tail =>
    have := length_le_of_dropWhile h
    match hf : scanField tail with
    | .error e => .error e
    | .ok (f, rest) => do
      have := scanField_length hf
      return ⟨String.ofList literal, some f⟩ :: (← pieces rest)
termination_by s.length
decreasing_by all_goals simp at *; omega

end DocLayout.Template
