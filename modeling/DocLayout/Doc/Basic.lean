import DocLayout.Text.Lines
import DocLayout.Text.Quoted

/-
  Documents.

  A document describes several layouts of one text. It is a tree of six kinds of node over pieces
  of text, and of leaves that are no document at all: a tree put together by hand may hold any
  value of a type `α` where a document belongs, and only a layout that reaches such a leaf finds
  out. A well formed document has no such leaf, and its texts stay within one line.

  Every node knows its flat width, the number of characters it takes on a single line. Where that
  hangs on the widths of its parts it is worked out once and kept in the node, so that documents
  which share subtrees stay cheap. `horz`, `concat` and `choice` make nodes that keep to the rules;
  a well formed document is made of no others. A leaf that is no document may claim any value for its
  width, and claims are added and compared as values: `OperandError` is what comes of claims that have
  no sum or no order.
-/

namespace DocLayout

/-- The width of something on a single line. -/
inductive FlatWidth (α : Type) where
  /-- It can not stand on a single line. -/
  | never
  | columns (n : Nat)
  /-- What a leaf that is no document says about itself, or what comes of that: any value. -/
  | claimed (value : α)
  deriving Repr, DecidableEq

namespace FlatWidth

variable {α : Type}

/-- The width of two things on one line, if both can stand there. -/
def add : FlatWidth α → FlatWidth α → FlatWidth α
  | columns m, columns n => columns (m + n)
  | _, _ => never

/-- The narrower of two widths, or the one that there is. -/
def narrower : FlatWidth α → FlatWidth α → FlatWidth α
  | columns m, columns n => columns (min m n)
  | columns m, _ => columns m
  | _, columns n => columns n
  | _, _ => never

/-- A width that goes back to no claim. -/
def Settled : FlatWidth α → Prop
  | claimed _ => False
  | _ => True

theorem settled_add (v w : FlatWidth α) : (v.add w).Settled := by
  cases v <;> cases w <;> trivial

theorem settled_narrower (v w : FlatWidth α) : (v.narrower w).Settled := by
  cases v <;> cases w <;> trivial

end FlatWidth

/-- Why an operation has no result, with the types of its operands. -/
inductive OperandError where
  /-- Two types that have no order between them; `sign` is the sign of the comparison. -/
  | unordered (sign left right : String)
  /-- Two types that an operation is not made for; `sign` is the sign of the operation. -/
  | unsupported (sign left right : String)
  /-- A value of another type put behind a sequence of the kind. -/
  | joinsOnly (kind other : String)
  /-- A value of another type put behind bytes. -/
  | bytesOnly (other : String)
  /-- A whole number beyond all floating point numbers. -/
  | tooLarge
  deriving Repr, DecidableEq

/-- The name of a type where two are compared or added. -/
def operandName (typeName : String) : String := Text.clip 100 typeName

/-- The name of a type in most messages. -/
def clippedName (typeName : String) : String := Text.clip 200 typeName

def OperandError.message : OperandError → String
  | unordered sign left right =>
    "'" ++ sign ++ "' not supported between instances of '" ++ operandName left ++ "' and '" ++
      operandName right ++ "'"
  | unsupported sign left right =>
    "unsupported operand type(s) for " ++ sign ++ ": '" ++ operandName left ++ "' and '" ++
      operandName right ++ "'"
  | joinsOnly kind other =>
    "can only concatenate " ++ kind ++ " (not \"" ++ clippedName other ++ "\") to " ++ kind
  | bytesOnly other => "can't concat " ++ operandName other ++ " to bytes"
  | tooLarge => "int too large to convert to float"

/-- A document whose foreign leaves hold values of `α`. -/
inductive Doc (α : Type) where
  /-- A piece of text. -/
  | text (value : String)
  /-- The second document starts where the first ends, and its lines return to that column. -/
  | horzNode (width : FlatWidth α) (first second : Doc α)
  /-- The second document starts where the first ends, and its lines return to the indentation
  of the whole. -/
  | concatNode (width : FlatWidth α) (first second : Doc α)
  /-- The second document starts on a new line. -/
  | vert (first second : Doc α)
  /-- The first alternative where it fits on the rest of the line, the second elsewhere. -/
  | choiceNode (width : FlatWidth α) (flat broken : Doc α)
  /-- A document that counts as unfit for a single line. -/
  | fullLine (doc : Doc α)
  /-- A value that is no document, with the flat width that it claims for itself. -/
  | foreign (value : α) (width : FlatWidth α)

namespace Doc

variable {α : Type}

/-- The width of a document on a single line. -/
def flatWidth : Doc α → FlatWidth α
  | text s => .columns s.length
  | horzNode w _ _ | concatNode w _ _ | choiceNode w _ _ => w
  | vert _ _ | fullLine _ => .never
  | foreign _ w => w

/-- Two documents side by side, the second one hanging at the column where the first ends. -/
def horz (first second : Doc α) : Doc α :=
  horzNode (first.flatWidth.add second.flatWidth) first second

/-- Two documents one after the other at the same indentation. -/
def concat (first second : Doc α) : Doc α :=
  concatNode (first.flatWidth.add second.flatWidth) first second

/-- A choice between two layouts. -/
def choice (flat broken : Doc α) : Doc α :=
  choiceNode (flat.flatWidth.narrower broken.flatWidth) flat broken

@[simp] theorem flatWidth_text (s : String) : (text (α := α) s).flatWidth = .columns s.length := rfl

@[simp] theorem flatWidth_horz (a b : Doc α) :
    (horz a b).flatWidth = a.flatWidth.add b.flatWidth := rfl

@[simp] theorem flatWidth_concat (a b : Doc α) :
    (concat a b).flatWidth = a.flatWidth.add b.flatWidth := rfl

@[simp] theorem flatWidth_vert (a b : Doc α) : (vert a b).flatWidth = .never := rfl

@[simp] theorem flatWidth_choice (a b : Doc α) :
    (choice a b).flatWidth = a.flatWidth.narrower b.flatWidth := rfl

@[simp] theorem flatWidth_fullLine (a : Doc α) : (fullLine a).flatWidth = .never := rfl

@[simp] theorem flatWidth_foreign (x : α) (w : FlatWidth α) : (foreign x w).flatWidth = w := rfl

instance : Inhabited (Doc α) := ⟨text ""⟩

/-- A document all of whose leaves are texts without a line boundary, and whose nodes keep the
widths that their parts give them. -/
def WellFormed : Doc α → Prop
  | text s => Text.Unbroken s
  | horzNode w a b | concatNode w a b =>
    w = a.flatWidth.add b.flatWidth ∧ a.WellFormed ∧ b.WellFormed
  | vert a b => a.WellFormed ∧ b.WellFormed
  | choiceNode w a b => w = a.flatWidth.narrower b.flatWidth ∧ a.WellFormed ∧ b.WellFormed
  | fullLine a => a.WellFormed
  | foreign _ _ => False

/-- A well formed document makes no claim about its width. -/
theorem WellFormed.settled {d : Doc α} (h : d.WellFormed) : d.flatWidth.Settled := by
  cases d with
  | text _ | vert _ _ | fullLine _ => trivial
  | horzNode w a b | concatNode w a b => exact h.1 ▸ FlatWidth.settled_add _ _
  | choiceNode w a b => exact h.1 ▸ FlatWidth.settled_narrower _ _
  | foreign x w => exact h.elim

/-- The document of a text that may stand in one line. -/
def text? (s : String) : Option (Doc α) := if Text.oneLine s then some (text s) else none

end Doc

end DocLayout
