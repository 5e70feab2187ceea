import DocLayout.Build

/-
  Templates filled with values.

  Every line of a template becomes its literal text and its values side by side, and the lines
  stand on top of each other, so a value of several lines hangs at the column where it starts. The
  whole template is read before the first field is looked at. A line is put together when the next
  one begins.
-/

namespace DocLayout.Template

variable {κ : Type}

/-- A template in the making: the lines that are done, and the parts of the line that is not. -/
structure Draft (κ : Type) where
  lines : List (Doc (Value κ))
  parts : List (Doc (Value κ))

namespace Draft

/-- A draft without a line that is done. -/
def empty : Draft κ := ⟨[], []⟩

/-- A draft with one more part of its last line. -/
def put (draft : Draft κ) (d : Doc (Value κ)) : Draft κ :=
  { draft with parts := draft.parts ++ [d] }

/-- A draft whose last line is done. -/
def breakLine (draft : Draft κ) : Except Failure (Draft κ) :=
  return ⟨draft.lines ++ [← Join.horzList draft.parts], []⟩

/-- The document of a draft. -/
def finish (draft : Draft κ) : Except Failure (Doc (Value κ)) :=
  return Doc.vertList (← draft.breakLine).lines

/-- A draft with texts, each of which stands on a line of its own after the one before. -/
def addLines (draft : Draft κ) : List (List Char) → Except Failure (Draft κ)
  | [] => .ok draft
  | cs :: rest => do
    addLines ((← draft.breakLine).put (← Doc.ofText (String.ofList cs))) rest

/-- A draft with a literal text, which goes on in its last line and may break it. -/
def addLiteral (draft : Draft κ) (literal : String) : Except Failure (Draft κ) :=
  match Text.splitNewlines literal.toList with
  | [] => .ok draft
  | first :: rest => do (draft.put (← Doc.ofText (String.ofList first))).addLines rest

end Draft

/-- The document of a field, and the numbering after it. -/
def fieldDoc (run : Interpreter κ) (a : Arguments κ) (n : Numbering) (f : Field) :
    Effect κ (Numbering × Doc (Value κ)) := do
  if f.spec ≠ "" || f.conversion.isSome then throw (.formattedField (Text.quote f.name))
  match n.resolve a f.name with
  | (_, .error e) => throw (.field e)
  | (after, .ok v) => return (after, ← Build.cast run v)

/-- A draft with the pieces of a template. -/
def addPieces (run : Interpreter κ) (a : Arguments κ) :
    Numbering → Draft κ → List Piece → Effect κ (Draft κ)
  | _, draft, [] => return draft
  | n, draft, piece :: rest => do
    let draft ← ofExcept (draft.addLiteral piece.literal)
    match piece.field with
    | none => addPieces run a n draft rest
    | some f =>
      let (after, d) ← fieldDoc run a n f
      addPieces run a after (draft.put d) rest

/-- The pieces of a value that has to be a template. -/
def piecesOf : Value κ → Except Failure (List Piece)
  | .str s => (pieces s.toList).mapError (.malformed (Text.quote s))
  | v => .error (.templateType v.typeName)

/-- The document of a template and its arguments. No argument can have the template's own name. -/
def fill (run : Interpreter κ) (template : Value κ) (a : Arguments κ) :
    Effect κ (Doc (Value κ)) := do
  if a.named.any (·.1 == "template") then throw .templateTwice
  let pieces ← ofExcept (piecesOf template)
  ofExcept (← addPieces run a .start .empty pieces).finish

end DocLayout.Template
