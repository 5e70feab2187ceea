import DocLayout.Text.Printable

/-
  Texts as messages show them: quoted, or clipped.

  A text is quoted between apostrophes, or between double quotes if it holds an apostrophe and no
  double quote. The quote in use and the backslash are written after a backslash, a line feed, a
  carriage return and a tab by their letters, and every other character without a visible form by
  its code point in hexadecimal: two digits after `\x`, four after `\u`, or eight after `\U`,
  whichever is the first to hold it. Bytes are quoted by the same rules, with everything outside
  visible ASCII written after `\x`.

  A text is clipped to a number of bytes: in UTF-8 a character takes one to four of them, the text is
  cut after so many, and a character that the cut falls into is shown as U+FFFD.
-/

namespace DocLayout.Text

/-- The last `digits` hexadecimal digits of a number. -/
def hexDigits : (digits : Nat) → Nat → List Char
  | 0, _ => []
  | k + 1, n => hexDigits k (n / 16) ++ [Nat.digitChar (n % 16)]

/-- The character that a text is quoted between. -/
def quoteMark (s : List Char) : Char :=
  if s.contains '\'' && !s.contains '"' then '"' else '\''

/-- A character that has to be told by its code point. -/
def escapeCode (n : Nat) : List Char :=
  if n < 0x100 then '\\' :: 'x' :: hexDigits 2 n
  else if n < 0x10000 then '\\' :: 'u' :: hexDigits 4 n
  else '\\' :: 'U' :: hexDigits 8 n

/-- A character as it is written between `mark`s. -/
def escapeChar (mark c : Char) : List Char :=
  if c = mark || c = '\\' then ['\\', c]
  else if c = '\n' then ['\\', 'n']
  else if c = '\r' then ['\\', 'r']
  else if c = '\t' then ['\\', 't']
  else if isPrintable c then [c]
  else escapeCode c.toNat

/-- The quoted form of a text, as characters. -/
def quoteChars (s : List Char) : List Char :=
  let mark := quoteMark s
  mark :: s.flatMap (escapeChar mark) ++ [mark]

/-- The quoted form of a text. -/
def quote (s : String) : String := String.ofList (quoteChars s.toList)

/-- A byte as it is written between `mark`s. -/
def escapeByte (mark : Char) (b : UInt8) : List Char :=
  if b < 0x80 then escapeChar mark (Char.ofNat b.toNat) else escapeCode b.toNat

/-- The quoted form of a series of bytes. -/
def quoteBytes (bytes : List UInt8) : String :=
  let mark := quoteMark (bytes.map fun b => Char.ofNat b.toNat)
  String.ofList ('b' :: mark :: bytes.flatMap (escapeByte mark) ++ [mark])

/-- The characters within a number of bytes, and U+FFFD for one that is only begun there. -/
def clipChars (bytes : Nat) : List Char → List Char
  | [] => []
  | c :: rest =>
    if c.utf8Size ≤ bytes then c :: clipChars (bytes - c.utf8Size) rest
    else if bytes = 0 then [] else ['\ufffd']

/-- A text clipped to a number of bytes. -/
def clip (bytes : Nat) (s : String) : String := String.ofList (clipChars bytes s.toList)

end DocLayout.Text
