import DocLayout.Color.Style
import DocLayout.Page

/-
  Coloured output.

  The lines of a page are joined and cut into tokens, and every token that is not empty is written
  behind the code of its style. Line ends are put back as the caller wants them, and the terminal
  is reset at the end if anything was coloured. A style that fails at a token leaves what was
  written before.
-/

namespace DocLayout.Color

/-- A piece of text with its kind. -/
structure Token where
  kind : String
  value : String
  deriving Repr, DecidableEq

/-- What cuts a text into tokens. -/
structure Lexer where
  tokens : String → List Token

/-- A text with a line feed for every line end, whether it was written as a carriage return, a
line feed or both. -/
def unixLineEnds : List Char → List Char
  | [] => []
  | '\r' :: '\n' :: rest => '\n' :: unixLineEnds rest
  | c :: rest => (if c = '\r' then '\n' else c) :: unixLineEnds rest

/-- A text without the byte order mark that it may begin with. -/
def dropByteOrderMark : List Char → List Char
  | '\ufeff' :: rest => rest
  | s => s

/-- Pieces of the given lengths, and what is left. -/
def cut : List (String × Nat) → String → List Char → List Token
  | [], rest, s => [⟨rest, String.ofList s⟩]
  | (kind, n) :: pieces, rest, s =>
    ⟨kind, String.ofList (s.take n)⟩ :: cut pieces rest (s.drop n)

/-- The whole text is one token of kind `Text`. -/
def Lexer.text : Lexer where
  tokens source := [⟨"Text", String.ofList (unixLineEnds (dropByteOrderMark source.toList))⟩]

/-- The text is cut into pieces of the given lengths, and what is left is of the last kind. -/
def Lexer.chunks (pieces : List (String × Nat)) (rest : String) : Lexer where
  tokens source := cut pieces rest source.toList

/-- The lexer of a name, in capitals or not. -/
def Lexer.named (name : String) : Except Failure Lexer :=
  if name.toLower = "text" then .ok .text else .error (.unknownLexer (Text.quote name))

/-- A text with other line ends. -/
def withLineEnds (lineEnd : String) (s : String) : String :=
  String.join (s.toList.map fun c => if c = '\n' then lineEnd else c.toString)

/-- The line end that a value stands for, which has to be a text. -/
def lineEndOf {κ : Type} (v : Value κ) : Except Failure String :=
  match v with
  | .str s => .ok s
  | .null => .error (.lineEndType "None")
  | v => .error (.lineEndType (Text.clip 50 v.typeName))

/-- What has been written, and the failure that ended the writing. -/
abbrev Written := List String × Option Failure

/-- What is written for tokens. The line end is looked at when the code of a token is written. -/
def tokenWrites (d : Depth) (s : Style) (lineEnd : Except Failure String) (p : Palette) :
    List Token → Written
  | [] => ([], none)
  | t :: rest =>
    if t.value.isEmpty then tokenWrites d s lineEnd p rest
    else match (do (← s.get t.kind).opening.run p), lineEnd with
      | .error e, _ => ([], some e)
      | .ok (controls, _), .error e => ([d.code controls], some e)
      | .ok (controls, entered), .ok lineFeed =>
        let (writes, failure) := tokenWrites d s lineEnd entered rest
        (d.code controls :: withLineEnds lineFeed t.value :: writes, failure)

/-- What is written for a text: its tokens, and a reset if any of them was. -/
def highlight (d : Depth) (s : Style) (l : Lexer) (lineEnd : Except Failure String) (p : Palette)
    (source : String) : Written :=
  match tokenWrites d s lineEnd p (l.tokens source) with
  | ([], failure) => ([], failure)
  | (writes, some e) => (writes, some e)
  | (writes, none) => (writes ++ [d.code [.reset]], none)

/-- The texts of lines, each of which has to be one; `position` is the position of the first. -/
def lineTexts {κ : Type} (position : Nat) : List (Value κ) → Except Failure (List String)
  | [] => .ok []
  | .str s :: rest => (lineTexts (position + 1) rest).map (s :: ·)
  | v :: _ => .error (.lineType position v.typeName)

/-- Lines as one text, with line feeds between them. -/
def joinLines {κ : Type} (lines : Value κ) : Effect κ String := do
  let items ← itemsOf .notJoinable lines
  return "\n".intercalate (← ofExcept (lineTexts 0 items))

/-- What coloured output is asked for with: whether it can be had at all, the colours of the
terminal, and the style, the lexer and the line end, each of which may turn out to be none. -/
structure Request where
  available : Bool
  depth : Depth
  style : Except Failure Style
  lexer : Except Failure Lexer
  lineEnd : Except Failure String

/-- What is written for lines, with the palette as earlier writing left it. The style is looked for
before the lines are joined, and the lexer after. -/
def writeLinesFrom {κ : Type} (p : Palette) (r : Request) (lines : Value κ) :
    Effect κ Written := do
  if !r.available then throw .noColor
  let style ← ofExcept r.style
  let source ← joinLines lines
  let lexer ← ofExcept r.lexer
  return highlight r.depth style lexer r.lineEnd p source

/-- What is written for lines by the first that writes. -/
def writeLines {κ : Type} (r : Request) (lines : Value κ) : Effect κ Written :=
  writeLinesFrom .empty r lines

/-- What is written for the document that a value stands for, with an end if nothing failed. A
failure before the first token leaves nothing written. -/
def print {κ : Type} (run : Interpreter κ) (r : Request) (v width last : Value κ) :
    Effect κ (List (Value κ) × Option Failure) := do
  let lines ← Page.display run v width
  match ← writeLines r (.list (lines.map .str)) with
  | (writes, some e) => return (writes.map .str, some e)
  | (writes, none) => return (writes.map .str ++ Page.ending last, none)

end DocLayout.Color
