import DocLayout.Template.Numbering
import DocLayout.Template.Piece

/-
  Everything that can go wrong, by its cause.

  `Failure.message` is the one place where causes are put into words, and `Failure.family` sorts
  them by what a caller can do about them. A failure that tells of a value shows it, and where that
  fails the failure is that one (`Value.told`).
-/

namespace DocLayout

namespace Color

/-- Why a text is no colour. -/
inductive HexError where
  /-- Neither three digits nor six. -/
  | length (written : String)
  /-- A character that is no hexadecimal digit. -/
  | digit (written : String)
  deriving Repr, DecidableEq

def HexError.message : HexError → String
  | length written => s!"Hex string #{written} is too long"
  | digit written => s!"Invalid Hex String: #{written}"

end Color

/-- The cause of a failure. Values are told by their literal form and the name of their type. -/
inductive Failure where
  /-- A value that should have been a text. -/
  | notText (shown typeName : String)
  /-- A text, in its literal form, that does not stay within one line. -/
  | brokenText (shown : String)
  /-- A value that no document can be made of. -/
  | notDocument (shown typeName : String)
  /-- An object whose method made something other than a document. -/
  | madeNoDocument (className shown typeName : String)
  /-- A value that should have been told of and cannot be shown. -/
  | unshown (fault : ShowFault)
  /-- A layout that reached a value in the place of a document. -/
  | unrenderable (shown typeName : String)
  /-- Widths that have no sum or no order. -/
  | operand (e : OperandError)
  /-- A part that a value does not have. -/
  | access (e : AccessError)
  /-- A part of a document node, in its literal form, that was to be changed. -/
  | immutable (typeName shown : String)
  /-- A value without items where a sequence is read. -/
  | notIterable (typeName : String)
  /-- A value without items where a sequence of arguments is read. -/
  | notSpreadable (typeName : String)
  /-- A value that cannot be a key. -/
  | unfitKey (typeName : String)
  /-- A value in the place of a method that cannot be called. -/
  | notCallable (typeName : String)
  /-- A document that is to be laid out without a width. -/
  | noWidth
  /-- The name of a class with a null character. -/
  | nullInName
  /-- A template that is no text. -/
  | templateType (typeName : String)
  /-- A named argument with the name of the template itself. -/
  | templateTwice
  /-- A text, in its literal form, that is no template. -/
  | malformed (shown : String) (m : Template.Malformation)
  /-- A field without a value. -/
  | field (e : Template.FieldError)
  /-- A field, in its literal form, with a format specification or a conversion. -/
  | formattedField (shown : String)
  /-- A value written where only text can be written. -/
  | notWritable (typeName : String)
  /-- A value without items where lines are joined. -/
  | notJoinable
  /-- A line that is no text, by its position. -/
  | lineType (position : Nat) (typeName : String)
  /-- Lines that are to end with what is no text; `shown` is the name of its type. -/
  | lineEndType (shown : String)
  /-- A message with a place for a number that got something else. -/
  | notNumber (typeName : String)
  /-- A message with a place for a whole number that got infinity. -/
  | infiniteNumber
  /-- A message with a place for a whole number that got what is no number. -/
  | undefinedNumber
  /-- Coloured output without the packages that it takes. -/
  | noColor
  /-- A style, in its literal form, that there is none of. -/
  | unknownStyle (shown : String)
  /-- The alias of a lexer, in its literal form, that there is none of. -/
  | unknownLexer (shown : String)
  /-- A key, in its literal form, that a style has no entry for. -/
  | styleKey (shown : String)
  /-- A colour that is none. -/
  | hex (e : Color.HexError)
  deriving Repr, DecidableEq

namespace Failure

/-- A failure in words. -/
def message : Failure → String
  | notText shown typeName => s!"Got {shown} of type {typeName}, expected 'str'"
  | brokenText shown => s!"Text can't contain line breaks, got {shown}"
  | notDocument shown typeName =>
    "Expected a Doc, a str or an object with a __pretty__ method, got " ++
      s!"{shown} of type {typeName}"
  | madeNoDocument className shown typeName =>
    s!"__pretty__ of {className} returned {shown} of type {typeName}, expected a Doc"
  | unshown fault => fault.message
  | unrenderable shown typeName => s!"Can't render {shown} of type {typeName}, expected a Doc"
  | operand e => e.message
  | access e => e.message
  | immutable typeName shown => s!"{typeName} is immutable, can't set {shown}"
  | notIterable typeName => "'" ++ clippedName typeName ++ "' object is not iterable"
  | notSpreadable typeName => "Value after * must be an iterable, not " ++ clippedName typeName
  | unfitKey typeName => "unhashable type: '" ++ clippedName typeName ++ "'"
  | notCallable typeName => "'" ++ clippedName typeName ++ "' object is not callable"
  | noWidth => "Doc.display() missing 1 required positional argument: 'width'"
  | nullInName => "type name must not contain null characters"
  | templateType typeName => s!"expected str, got {typeName}"
  | templateTwice => "pretty() got multiple values for argument 'template'"
  | malformed shown m => s!"Malformed template {shown}: " ++ m.message
  | field (.mixed inUse asked) =>
    s!"cannot switch from {inUse.name} field numbering to {asked.name} field numbering"
  | field (.lookup _ (.path fault)) => fault.message
  | field (.lookup name (.access e)) =>
    "No value for template field " ++ Text.quote name ++ ": " ++ e.message
  | formattedField shown => s!"Template field {shown} can't have a format spec or a conversion"
  | notWritable typeName => s!"string argument expected, got '{typeName}'"
  | notJoinable => "can only join an iterable"
  | lineType position typeName =>
    s!"sequence item {position}: expected str instance, " ++ Text.clip 80 typeName ++ " found"
  | lineEndType shown => s!"replace() argument 2 must be str, not {shown}"
  | notNumber typeName => "%d format: a real number is required, not " ++ clippedName typeName
  | infiniteNumber => "cannot convert float infinity to integer"
  | undefinedNumber => "cannot convert float NaN to integer"
  | noColor => "'pygments' and 'colorful' packages must be installed to use colored output."
  | unknownStyle shown => s!"Could not find style module {shown}."
  | unknownLexer shown => s!"no lexer for alias {shown} found"
  | styleKey shown => shown
  | hex e => e.message

/-- The families of failures. -/
inductive Family where
  /-- A text with a line break. -/
  | text
  /-- An argument that this library refuses. -/
  | argument
  | wrongType
  | wrongValue
  /-- A number too large for what it is used for. -/
  | overflow
  /-- Parts within parts, too many levels down. -/
  | tooDeep
  | noMember
  | noPosition
  | noKey
  | noPackage
  | noName
  deriving Repr, DecidableEq

/-- The family of a part that cannot be had. -/
def accessFamily : AccessError → Family
  | .noMember _ _ | .noTypeMember _ _ => .noMember
  | .pastEnd _ => .noPosition
  | .notPosition _ => .wrongType
  | .missingKey _ => .noKey
  | .noItems _ | .noTypeItems _ => .wrongType

/-- The family of an operation without a result. -/
def operandFamily : OperandError → Family
  | .tooLarge => .overflow
  | _ => .wrongType

/-- The family of what keeps a value from being shown. -/
def showFamily : ShowFault → Family
  | .digits => .wrongValue
  | .depth => .tooDeep

/-- The family of a failure. A field whose value is missing is a bad argument, one whose name is no
path a bad value. -/
def family : Failure → Family
  | brokenText _ => .text
  | notText _ _ | notDocument _ _ | madeNoDocument _ _ _ | unrenderable _ _ | malformed _ _
  | formattedField _ | field (.mixed _ _) | field (.lookup _ (.access _)) => .argument
  | field (.lookup _ (.path _)) | hex _ | nullInName | undefinedNumber => .wrongValue
  | infiniteNumber => .overflow
  | unshown fault => showFamily fault
  | operand e => operandFamily e
  | access e => accessFamily e
  | immutable _ _ => .noMember
  | notIterable _ | notSpreadable _ | unfitKey _ | notCallable _ | noWidth | templateType _
  | templateTwice | notWritable _ | notJoinable | lineType _ _ | lineEndType _ | notNumber _ =>
    .wrongType
  | noColor => .noPackage
  | unknownStyle _ | unknownLexer _ => .noName
  | styleKey _ => .noKey

end Failure

/-- The failure that tells of a value by its literal form, or the one that it cannot be shown. -/
def Value.told {κ : Type} (v : Value κ) (failure : String → Failure) : Failure :=
  match v.fault? with
  | some fault => .unshown fault
  | none => failure v.literal

end DocLayout
