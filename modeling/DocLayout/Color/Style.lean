import DocLayout.Failure

/-
  Styles: how the tokens of a text are coloured.

  A style says for each kind of token which attributes of the terminal it is shown with. The code
  of a token resets the terminal and then sets those attributes, foreground before background, so
  nothing of the token before shows through. A style may leave out what it says of a kind; that
  only matters when it is asked for.

  Colours are used by name only, and one palette of names serves all tokens: the colours of a token
  are entered under the two names that there are, in place of those of the token before. A colour is
  written in hexadecimal with six digits, two for each of red, green and blue, or with three, where a
  digit is the whole of a channel. Number signs in front are dropped.
-/

namespace DocLayout.Color

/-- A colour by its three channels. -/
structure Rgb where
  red : Nat
  green : Nat
  blue : Nat
  deriving Repr, DecidableEq

/-- The value of a hexadecimal digit. -/
def hexValue? (c : Char) : Option Nat :=
  if '0' ≤ c && c ≤ '9' then some (c.toNat - 48)
  else if 'a' ≤ c && c ≤ 'f' then some (c.toNat - 87)
  else if 'A' ≤ c && c ≤ 'F' then some (c.toNat - 55)
  else none

/-- The colour that a text stands for. -/
def Rgb.ofHex (written : String) : Except HexError Rgb :=
  let digits := written.toList.dropWhile (· = '#')
  if digits.length ≠ 3 && digits.length ≠ 6 then .error (.length (String.ofList digits))
  else match digits.mapM hexValue? with
    | some [r, g, b] => .ok ⟨r, g, b⟩
    | some [r, r', g, g', b, b'] => .ok ⟨16 * r + r', 16 * g + g', 16 * b + b'⟩
    | _ => .error (.digit (String.ofList digits))

/-- A control sequence that sets attributes of a terminal. -/
inductive Control where
  | reset
  | bold
  | italic
  | underline
  | foreground (c : Rgb)
  | background (c : Rgb)
  deriving Repr, DecidableEq

/-- The parameters of a control sequence. -/
def Control.parameters : Control → String
  | reset => "0"
  | bold => "1"
  | italic => "3"
  | underline => "4"
  | foreground c => s!"38;2;{c.red};{c.green};{c.blue}"
  | background c => s!"48;2;{c.red};{c.green};{c.blue}"

/-- A control sequence as text. -/
def Control.text (c : Control) : String := "\x1b[" ++ c.parameters ++ "m"

/-- Whether colours are written: as control sequences, or not at all. -/
inductive Depth where
  | none
  | trueColor
  deriving Repr, DecidableEq

/-- What is written for control sequences. -/
def Depth.code (d : Depth) (controls : List Control) : String :=
  match d with
  | .none => ""
  | .trueColor => String.join (controls.map Control.text)

/-- What a style says of a colour. -/
inductive Ink where
  /-- There is none. -/
  | unset
  | hex (written : String)
  /-- Something of the named type, which is no colour. -/
  | unfit (typeName : String)
  deriving Repr, DecidableEq

/-- The colour that a value stands for; one that is empty or zero stands for none. -/
def Ink.ofValue {κ : Type} (v : Value κ) : Ink :=
  if !v.isTruthy then .unset
  else match v with
    | .str s => .hex s
    | v => .unfit v.typeName

/-- What a style says of a kind of token. What it does not say is `none`. -/
structure TokenStyle where
  foreground : Option Ink
  background : Option Ink
  bold : Option Bool
  italic : Option Bool
  underline : Option Bool
  deriving Repr, DecidableEq

/-- A part of what a style says, by the name that is asked for. -/
def asked {β : Type} (name : String) : Option β → Except Failure β
  | some x => .ok x
  | none => .error (.styleKey (Text.quote name))

/-- The colours that the two names of a palette stand for. A name that was never entered stands for
none. -/
structure Palette where
  foreground : Option Rgb
  background : Option Rgb
  deriving Repr, DecidableEq

/-- The palette before anything is entered. -/
def Palette.empty : Palette := ⟨none, none⟩

def Palette.enterForeground (c : Rgb) (p : Palette) : Palette := { p with foreground := some c }

def Palette.enterBackground (c : Rgb) (p : Palette) : Palette := { p with background := some c }

/-- The controls of the names that are used. -/
def Palette.controls (p : Palette) (front back : Bool) : List Control :=
  (if front then (p.foreground.map .foreground).toList else []) ++
    if back then (p.background.map .background).toList else []

/-- Enters a colour in the palette, unless there is none; the answer is whether there was one. A colour
is written behind a number sign, which nothing but a text can follow. -/
def Ink.enter (entry : Rgb → Palette → Palette) : Ink → StateT Palette (Except Failure) Bool
  | .unset => return false
  | .hex written => match Rgb.ofHex written with
    | .ok c => do
      modify (entry c)
      return true
    | .error e => throw (.hex e)
  | .unfit typeName => throw (.operand (.joinsOnly "str" typeName))

/-- The controls of both colours, by the names that were entered for them. The foreground is asked for
and entered before the background is. -/
def TokenStyle.colors (s : TokenStyle) : StateT Palette (Except Failure) (List Control) := do
  let front ← (← asked "color" s.foreground).enter Palette.enterForeground
  let back ← (← asked "bgcolor" s.background).enter Palette.enterBackground
  return (← get).controls front back

/-- A control that is set or not. -/
def flag (control : Control) (on : Bool) : List Control := if on then [control] else []

/-- The controls that a token begins with. -/
def TokenStyle.opening (s : TokenStyle) : StateT Palette (Except Failure) (List Control) := do
  let colors ← s.colors
  let bold ← asked "bold" s.bold
  let italic ← asked "italic" s.italic
  let underline ← asked "underline" s.underline
  return .reset :: colors ++ flag .bold bold ++ flag .italic italic ++ flag .underline underline

/-- The controls that a token begins with where nothing was entered before. -/
def TokenStyle.controls (s : TokenStyle) : Except Failure (List Control) := s.opening.run' .empty

/-- What is said of a kind of token that has a colour and nothing else. -/
def TokenStyle.plain (foreground : String) : TokenStyle :=
  ⟨some (.hex foreground), some .unset, some false, some false, some false⟩

/-- What is said of a kind of token that is shown as the terminal shows text. -/
def TokenStyle.bare : TokenStyle :=
  ⟨some .unset, some .unset, some false, some false, some false⟩

/-- What is said of the kinds of tokens. -/
inductive Style where
  /-- One of the styles that come with this library, whose kinds of tokens are a fixed set. -/
  | known (entries : List (String × TokenStyle))
  /-- A style that was made for the occasion. -/
  | custom (entries : List (String × TokenStyle))

/-- What a style says of a kind of token. -/
def Style.get (s : Style) (kind : String) : Except Failure TokenStyle :=
  match s with
  | known entries => match entries.lookup kind with
    | some t => .ok t
    | none => .error (.styleKey ("Token." ++ kind))
  | custom entries => match entries.lookup kind with
    | some t => .ok t
    | none => .error (.styleKey (Text.quote kind))

/-- Light text on a dark page. -/
def Style.monokai : Style := .known [
  ("Text", .plain "f8f8f2"),
  ("Keyword", .plain "66d9ef"),
  ("Comment", .plain "959077"),
  ("Name.Function", .plain "a6e22e"),
  ("Literal.String", .plain "e6db74"),
  ("Literal.Number", .plain "ae81ff"),
  ("Operator", .plain "ff4689"),
  ("Error", { TokenStyle.plain "ed007e" with background := some (.hex "1e0010") })]

/-- Dark text on a light page. -/
def Style.standard : Style := .known [
  ("Text", .bare),
  ("Keyword", { TokenStyle.plain "008000" with bold := some true }),
  ("Comment", { TokenStyle.plain "3D7B7B" with italic := some true }),
  ("Name.Function", .plain "0000FF"),
  ("Literal.String", .plain "BA2121"),
  ("Literal.Number", .plain "666666"),
  ("Operator", .plain "666666"),
  ("Error", .bare)]

/-- Muted text on a dark page. -/
def Style.native : Style := .known [
  ("Text", .plain "d0d0d0"),
  ("Keyword", { TokenStyle.plain "6ebf26" with bold := some true }),
  ("Comment", { TokenStyle.plain "ababab" with italic := some true }),
  ("Name.Function", .plain "71adff"),
  ("Literal.String", .plain "ed9d13"),
  ("Literal.Number", .plain "51b2fd"),
  ("Operator", .plain "d0d0d0"),
  ("Error", { TokenStyle.plain "a61717" with background := some (.hex "e3d2d2") })]

/-- The style of a name. -/
def Style.named (name : String) : Except Failure Style :=
  match name with
  | "monokai" => .ok Style.monokai
  | "default" => .ok Style.standard
  | "native" => .ok Style.native
  | _ => .error (.unknownStyle (Text.quote ("pygments.styles." ++ name)))

end DocLayout.Color
