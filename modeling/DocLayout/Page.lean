import DocLayout.Build

/-
  Pages: the lines of a document as text, and as what is written to a stream of text.

  A line end is written between lines and none after the last one. What follows the last line is
  up to the caller.
-/

namespace DocLayout.Page

variable {κ : Type}

/-- The width of a page that no width is given for. -/
def defaultWidth : Int := 79

/-- What is written for lines: each line, and a line end between two of them. -/
def writes {β : Type} (lines : List β) (lineEnd : β) : List β := lines.intersperse lineEnd

/-- The text that comes of writing values, up to a value that is no text and cannot be written. -/
def written : List (Value κ) → String × Option Failure
  | [] => ("", none)
  | .str s :: rest => let (text, failure) := written rest; (s ++ text, failure)
  | v :: _ => ("", some (.notWritable v.typeName))

/-- Lines as one text. -/
def text (lines : List String) : String := String.join (writes lines "\n")

/-- What is written at the end of a page: a value, unless there is none or it is empty. -/
def ending (last : Value κ) : List (Value κ) := if last.isTruthy then [last] else []

/-- What is written for a page: its lines, and an end if there is one. -/
def pageWrites (lines : List String) (last : Value κ) : List (Value κ) :=
  (writes lines "\n").map .str ++ ending last

/-- The lines of the document that a value stands for. -/
def display (run : Interpreter κ) (v width : Value κ) : Effect κ (List String) := do
  ofExcept ((← Build.cast run v).lines width)

/-- The document that a value stands for as one text. -/
def format (run : Interpreter κ) (v width : Value κ) : Effect κ String :=
  return text (← display run v width)

/-- What is written for the document that a value stands for. -/
def print (run : Interpreter κ) (v width last : Value κ) : Effect κ (List (Value κ)) :=
  return pageWrites (← display run v width) last

/-- The number that a value stands for in a message; a fraction is cut off. -/
def countOf (v : Value κ) : Except Failure Int :=
  match v with
  | .int n => if TooLong n then .error (.unshown .digits) else .ok n
  | .bool b => .ok b.toInt
  | .float x => match x, x.truncate? with
    | _, some n => .ok n
    | .infinite _, none => .error .infiniteNumber
    | _, none => .error .undefinedNumber
  | v => .error (.notNumber v.typeName)

/-- An entry of a log. -/
structure LogRecord where
  logger : String
  level : String
  message : String
  deriving Repr, DecidableEq

/-- What is logged when a page is done. -/
def logRecord (lines : List String) (width : Value κ) : Except Failure LogRecord := do
  let columns ← countOf width
  return ⟨"prettydoc.render", "DEBUG",
    s!"Rendered doc to {lines.length} line(s) at width {columns}"⟩

end DocLayout.Page
