import DocLayout.Join
import DocLayout.Layout
import DocLayout.Session

/-
  Documents from values.

  A document stands for itself, a text for the document of the text, and an object for what its
  method makes of it, every time anew. Each way of composing documents takes values for its parts,
  makes documents of them in the order in which they stand, and joins them as soon as both sides of
  a join are there.
-/

namespace DocLayout

variable {κ : Type}

/-- The document of a text. -/
def Doc.ofText (s : String) : Except Failure (Doc (Value κ)) :=
  match Doc.text? s with
  | some d => .ok d
  | none => .error (.brokenText (Text.quote s))

namespace Value

/-- The document of a value that has to be a text. -/
def toText : Value κ → Except Failure (Doc (Value κ))
  | str s => Doc.ofText s
  | v => .error (v.told (.notText · v.typeName))

/-- Whether a value is a document or a text. -/
def isDoc : Value κ → Bool
  | doc _ | str _ => true
  | _ => false

end Value

namespace Build

variable (run : Interpreter κ)

/-- What separates things on a line if nothing else is said. -/
def defaultSeparator : Value κ := .str " "

/-- What ends a line if nothing else is said. -/
def defaultLineEnd : Value κ := .str ""

/-- What an object makes of itself. An attribute in the place of its method hides the method, and
is none. -/
def castObject (v : Value κ) (attributes : List (String × Value κ)) (method : Option κ) :
    Effect κ (Doc (Value κ)) := do
  match attributes.lookup "__pretty__", method with
  | some (.displayOf _), _ => throw .noWidth
  | none, some code =>
    match ← run code with
    | .doc d => return d
    | made => throw (made.told (.madeNoDocument v.typeName · made.typeName))
  | _, _ => throw (v.told (.notDocument · v.typeName))

/-- The document that a value stands for. -/
def cast (v : Value κ) : Effect κ (Doc (Value κ)) :=
  match v with
  | .doc d => return d
  | .str s => ofExcept (Doc.ofText s)
  | .object _ _ attributes method => castObject run v attributes method
  | v => throw (v.told (.notDocument · v.typeName))

/-- The documents that the items of a value stand for. -/
def castAll (items : Value κ) : Effect κ (List (Doc (Value κ))) :=
  eachItem (.notIterable items.typeName) items (cast run)

/-- The documents of a sequence side by side. -/
def horzList (items : Value κ) : Effect κ (Doc (Value κ)) := do
  ofExcept (Join.horzList (← castAll run items))

/-- The documents of a sequence on top of each other. -/
def vertList (items : Value κ) : Effect κ (Doc (Value κ)) :=
  return Doc.vertList (← castAll run items)

/-- The documents of a sequence one after the other. -/
def concatList (items : Value κ) : Effect κ (Doc (Value κ)) := do
  ofExcept (Join.concatList (← castAll run items))

/-- The documents of some values side by side. -/
def horz (items : List (Value κ)) : Effect κ (Doc (Value κ)) := horzList run (.tuple items)

/-- The documents of some values on top of each other. -/
def vert (items : List (Value κ)) : Effect κ (Doc (Value κ)) := vertList run (.tuple items)

/-- The documents of some values one after the other. -/
def concat (items : List (Value κ)) : Effect κ (Doc (Value κ)) := concatList run (.tuple items)

/-- The document of one value where it fits, that of another elsewhere. -/
def choice (flat broken : Value κ) : Effect κ (Doc (Value κ)) := do
  let flat ← cast run flat
  ofExcept (Join.choice flat (← cast run broken))

/-- A document that counts as unfit for a single line. -/
def fullLine (v : Value κ) : Effect κ (Doc (Value κ)) := return .fullLine (← cast run v)

/-- A paragraph with one more word. The separator and the line end are made anew. -/
def fillWord (separator lineEnd : Value κ) (paragraph word : Doc (Value κ)) :
    Effect κ (Doc (Value κ)) := do
  let flat ← ofExcept (Join.horz (← cast run separator) word)
  let broken := .vert (← cast run lineEnd) word
  ofExcept (do Join.concat paragraph (← Join.choice flat broken))

/-- A paragraph of words. -/
def wrap (words separator lineEnd : Value κ) : Effect κ (Doc (Value κ)) := do
  match ← castAll run words with
  | [] => return .nil
  | first :: rest => rest.foldlM (fillWord run separator lineEnd) first

/-- Items on one line or one on each line. The separator and the line end are made anew for every
gap, all ends before the separators. -/
def sepBy (items separator lineEnd : Value κ) : Effect κ (Doc (Value κ)) := do
  let items ← castAll run items
  let ended ← items.dropLast.mapM fun item => do ofExcept (Join.horz item (← cast run lineEnd))
  let separated ← items.tail.mapM fun item => return [← cast run separator, item]
  let flat ← ofExcept (Join.horzList (items.head?.toList ++ separated.flatten))
  ofExcept (Join.choice flat (Doc.vertList (ended ++ items.getLast?.toList)))

/-- A document between parentheses. -/
def parens (v : Value κ) : Effect κ (Doc (Value κ)) := do ofExcept (Join.parens (← cast run v))

/-- The parts of an s-expression between parentheses, with spaces between them on one line. -/
def flatForm (items : List (Value κ)) : Effect κ (Doc (Value κ)) := do
  ofExcept (Join.parens (← sepBy run (.list items) defaultSeparator defaultLineEnd))

/-- An application. All arguments are read before the function is made a document. -/
def application (function arguments : Value κ) : Effect κ (Doc (Value κ)) := do
  let arguments ← itemsOf (.notSpreadable arguments.typeName) arguments
  flatForm run (function :: arguments)

/-- A definition. Its parts are made for the layout on one line first, and then once more. -/
def definition (keyword head body : Value κ) : Effect κ (Doc (Value κ)) := do
  let flat ← flatForm run [keyword, head, body]
  let first ← horz run [keyword, .str " ", head]
  let second ← horz run [.str " ", body]
  ofExcept (do Join.choice flat (← Join.parens (.vert first second)))

/-- A block. The bodies are made before the keyword. -/
def block (keyword bodies : Value κ) : Effect κ (Doc (Value κ)) := do
  let bodies ← vertList run bodies
  let below ← ofExcept (Join.horz (.text " ") bodies)
  ofExcept (Join.parens (.vert (← cast run keyword) below))

end Build

/-- The failure of a layout that ran into an obstacle. -/
def Failure.ofObstacle : Obstacle (Value κ) → Failure
  | .foreign x => x.told (.unrenderable · x.typeName)
  | .operand e => .operand e

/-- The page width that a value stands for. -/
def Width.ofValue (v : Value κ) : Width :=
  match v with
  | .int n => .columns n
  | .bool b => .columns b.toInt
  | .float x => match x.floor?, x with
    | some n, _ => .columns n
    | none, .infinite false => .unbounded
    | none, _ => .empty
  | v => .incomparable v.typeName

/-- The margin of a page as wide as a value says. The width that something claims is added to the
column where it starts. -/
def Margin.ofValue (width : Value κ) : Margin (Value κ) where
  width := .ofValue width
  admitsClaim column claim := do (← (Value.int column).add claim).numberAtMost width

/-- The lines of a document on a page as wide as a value says. -/
def Doc.lines (d : Doc (Value κ)) (width : Value κ) : Except Failure (List String) :=
  (d.display (.ofValue width)).mapError .ofObstacle

/-- The lines that a value lays itself out to. -/
def Value.lines (v width : Value κ) : Except Failure (List String) :=
  match v.member "display" with
  | .ok (.displayOf d) => d.lines width
  | .ok other => .error (.notCallable other.typeName)
  | .error e => .error (.access e)

end DocLayout
