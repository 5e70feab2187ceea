import DocLayout.Color.Style

/-
  A terminal, as far as the attributes of what it shows go.

  It reads one character at a time. A character outside of control sequences is shown with the
  attributes that are in force; a sequence of an escape character, a bracket, numbers between
  semicolons and an `m` selects attributes. Of the numbers only those that have to do with the five
  attributes mean something here, and a colour is given by its three channels. A sequence that ends
  otherwise has no effect.

  Proved:
  * `read_text`: a text without an escape character is shown as it is, with what is in force.
  * `read_code`: control sequences that are written as text do what they are there for.
-/

namespace DocLayout.Color

/-- A text without an escape character. -/
def EscapeFree (s : String) : Prop := '\x1b' ∉ s.toList

instance (s : String) : Decidable (EscapeFree s) := inferInstanceAs (Decidable ('\x1b' ∉ s.toList))

/-- What a character is shown with. -/
structure Attributes where
  foreground : Option Rgb
  background : Option Rgb
  bold : Bool
  italic : Bool
  underline : Bool
  deriving Repr, DecidableEq

/-- What a terminal shows text with from a reset on. -/
def Attributes.plain : Attributes := ⟨none, none, false, false, false⟩

/-- Attributes after the numbers of a control sequence, which take effect from left to right. -/
def Attributes.select (a : Attributes) : List Nat → Attributes
  | 38 :: 2 :: r :: g :: b :: rest => select { a with foreground := some ⟨r, g, b⟩ } rest
  | 48 :: 2 :: r :: g :: b :: rest => select { a with background := some ⟨r, g, b⟩ } rest
  | 0 :: rest => select .plain rest
  | 1 :: rest => select { a with bold := true } rest
  | 3 :: rest => select { a with italic := true } rest
  | 4 :: rest => select { a with underline := true } rest
  | 22 :: rest => select { a with bold := false } rest
  | 23 :: rest => select { a with italic := false } rest
  | 24 :: rest => select { a with underline := false } rest
  | 39 :: rest => select { a with foreground := none } rest
  | 49 :: rest => select { a with background := none } rest
  | _ :: rest => select a rest
  | [] => a

/-- What a control is there for. -/
def Control.set (c : Control) (a : Attributes) : Attributes :=
  match c with
  | reset => .plain
  | bold => { a with bold := true }
  | italic => { a with italic := true }
  | underline => { a with underline := true }
  | foreground c => { a with foreground := some c }
  | background c => { a with background := some c }

/-- Where a terminal is in what it reads. -/
inductive Mode where
  /-- Outside of control sequences. -/
  | text
  /-- Behind an escape character. -/
  | escape
  /-- In a control sequence, with the numbers before the last semicolon and the one behind it. -/
  | sequence (numbers : List Nat) (current : Nat)
  deriving Repr, DecidableEq

/-- A terminal, and what it has shown. -/
structure Terminal where
  mode : Mode
  attributes : Attributes
  shown : List (Char × Attributes)
  deriving Repr, DecidableEq

namespace Terminal

/-- A terminal outside of control sequences. -/
def showing (a : Attributes) (shown : List (Char × Attributes)) : Terminal := ⟨.text, a, shown⟩

/-- A terminal that has read one more character. -/
def step (t : Terminal) (c : Char) : Terminal :=
  match t.mode with
  | .text =>
    if c = '\x1b' then { t with mode := .escape }
    else { t with shown := t.shown ++ [(c, t.attributes)] }
  | .escape => { t with mode := if c = '[' then .sequence [] 0 else .text }
  | .sequence numbers current =>
    if c.isDigit then { t with mode := .sequence numbers (10 * current + (c.toNat - '0'.toNat)) }
    else if c = ';' then { t with mode := .sequence (numbers ++ [current]) 0 }
    else if c = 'm' then
      { t with mode := .text, attributes := t.attributes.select (numbers ++ [current]) }
    else { t with mode := .text }

/-- A terminal that has read a text. -/
def read (t : Terminal) (s : String) : Terminal := s.toList.foldl step t

variable {a : Attributes} {w : List (Char × Attributes)}

theorem read_append (t : Terminal) (s u : String) : t.read (s ++ u) = (t.read s).read u := by
  rw [read, String.toList_append, List.foldl_append]
  rfl

/-! ## Text -/

theorem step_showing {c : Char} (h : c ≠ '\x1b') :
    (showing a w).step c = showing a (w ++ [(c, a)]) :=
  if_neg h

/-- A text without an escape character is shown with the attributes in force, and leaves them so. -/
theorem read_text {s : String} (h : EscapeFree s) :
    (showing a w).read s = showing a (w ++ s.toList.map (·, a)) := by
  rw [EscapeFree] at h
  rw [read]
  generalize s.toList = cs at h
  induction cs generalizing w with
  | nil => rw [List.map_nil, List.append_nil, List.foldl_nil]
  | cons c cs ih =>
    rw [List.mem_cons, not_or] at h
    rw [List.foldl_cons, step_showing (Ne.symm h.1), ih h.2, List.append_assoc]
    rfl

/-! ## Control sequences -/

theorem foldl_digits (numbers : List Nat) {cs : List Char} (h : ∀ c ∈ cs, c.isDigit) (k : Nat) :
    cs.foldl step ⟨.sequence numbers k, a, w⟩ =
      ⟨.sequence numbers (Nat.ofDigitChars 10 cs k), a, w⟩ := by
  induction cs generalizing k with
  | nil => rfl
  | cons c cs ih =>
    rw [List.forall_mem_cons] at h
    rw [List.foldl_cons, step]
    dsimp only
    rw [if_pos h.1, ih h.2]
    rfl

/-- A number that is written out is read back. -/
theorem read_number (numbers : List Nat) (n : Nat) :
    (Terminal.mk (.sequence numbers 0) a w).read (toString n) = ⟨.sequence numbers n, a, w⟩ := by
  rw [read, foldl_digits numbers (Text.isDigit_toString n), Text.ofDigitChars_toString]

/-- The end of a number is the beginning of the next one. -/
theorem read_semicolon (numbers : List Nat) (n : Nat) :
    (Terminal.mk (.sequence numbers n) a w).read ";" = ⟨.sequence (numbers ++ [n]) 0, a, w⟩ := rfl

theorem read_end (numbers : List Nat) (n : Nat) :
    (Terminal.mk (.sequence numbers n) a w).read "m" =
      showing (a.select (numbers ++ [n])) w := rfl

/-- A control sequence does what the control is there for, and shows nothing. -/
theorem read_control (c : Control) : (showing a w).read c.text = showing (c.set a) w := by
  cases c with
  | reset | bold | italic | underline => rfl
  | foreground c =>
    have start : ((showing a w).read "\x1b[").read "38;2;" = ⟨.sequence [38, 2] 0, a, w⟩ := rfl
    show (showing a w).read ("\x1b[" ++ ("38;2;" ++ toString c.red ++ ";" ++ toString c.green ++
      ";" ++ toString c.blue) ++ "m") = _
    simp only [read_append, start, read_number, read_semicolon, read_end]
    rfl
  | background c =>
    have start : ((showing a w).read "\x1b[").read "48;2;" = ⟨.sequence [48, 2] 0, a, w⟩ := rfl
    show (showing a w).read ("\x1b[" ++ ("48;2;" ++ toString c.red ++ ";" ++ toString c.green ++
      ";" ++ toString c.blue) ++ "m") = _
    simp only [read_append, start, read_number, read_semicolon, read_end]
    rfl

theorem read_code (controls : List Control) :
    (showing a w).read (Depth.trueColor.code controls) =
      showing (controls.foldl (fun b c => c.set b) a) w := by
  rw [Depth.code]
  induction controls generalizing a with
  | nil => rfl
  | cons c controls ih =>
    rw [List.map_cons, String.join_cons, read_append, read_control, ih]
    rfl

end Terminal

end DocLayout.Color
