import DocLayout.Doc.Basic
import DocLayout.Number.Binary64

/-
  Values.

  Documents are built from values that come from elsewhere: texts, documents, sequences of them,
  and objects that have a method for turning themselves into a document. What such a method does
  is up to whoever made the object, so its code is a parameter `κ` that this library never looks
  into.

  Most values are plain data. A stream is the exception: it can be read once, so a value only
  holds the handle under which the session keeps what is left of it.
-/

namespace DocLayout

/-- What a stream was made from: the items of a sequence, or a rule that makes items on demand. -/
inductive StreamKind where
  | iterator
  | generator
  deriving Repr, DecidableEq

/-- A value; `κ` is the code of the methods of objects. -/
inductive Value (κ : Type) where
  | null
  | bool (b : Bool)
  | int (n : Int)
  | float (x : Binary64)
  | str (s : String)
  | bytes (bytes : List UInt8)
  | list (items : List (Value κ))
  | tuple (items : List (Value κ))
  /-- Keys with their values, in the order in which the keys came. -/
  | dict (entries : List (Value κ × Value κ))
  | doc (d : Doc (Value κ))
  /-- An object of a named class. It is shown as the given text, and `method` is the code that
  makes a document of it. -/
  | object (className shown : String) (attributes : List (String × Value κ)) (method : Option κ)
  | stream (kind : StreamKind) (handle : Nat)
  /-- What lays a document out, as a value of its own. -/
  | displayOf (owner : Doc (Value κ))
  /-- A type by its name and the place that it comes from. -/
  | type (home name : String)

namespace Value

variable {κ : Type}

instance : Inhabited (Value κ) := ⟨null⟩

/-- The value that stands at the root of a tree: the document, or the foreign value itself. -/
def ofDoc : Doc (Value κ) → Value κ
  | .foreign x _ => x
  | d => .doc d

mutual

/-- The name of the type of a value. -/
def typeName : Value κ → String
  | null => "NoneType"
  | bool _ => "bool"
  | int _ => "int"
  | float _ => "float"
  | str _ => "str"
  | bytes _ => "bytes"
  | list _ => "list"
  | tuple _ => "tuple"
  | dict _ => "dict"
  | doc d => rootTypeName d
  | object className _ _ _ => className
  | stream .iterator _ => "list_iterator"
  | stream .generator _ => "generator"
  | displayOf _ => "method"
  | type _ _ => "type"

/-- The name of the type of the root of a tree. -/
def rootTypeName : Doc (Value κ) → String
  | .text _ => "Text"
  | .horzNode _ _ _ => "Horz"
  | .concatNode _ _ _ => "Concat"
  | .vert _ _ => "Vert"
  | .choiceNode _ _ _ => "IfFlat"
  | .fullLine _ => "FullLine"
  | .foreign x _ => x.typeName

end

/-- The place that the type of a value comes from. -/
def typeHome : Value κ → String
  | doc _ => "prettydoc.doc"
  | object _ _ _ _ => "__main__"
  | _ => "builtins"

/-- The type of a value. -/
def typeOf (v : Value κ) : Value κ := type v.typeHome v.typeName

/-- A flat width as a value. -/
def ofFlatWidth : FlatWidth (Value κ) → Value κ
  | .never => null
  | .columns n => int n
  | .claimed v => v

/-- The flat width that a value stands for. -/
def toFlatWidth : Value κ → FlatWidth (Value κ)
  | null => .never
  | int (.ofNat n) => .columns n
  | v => .claimed v

end Value

end DocLayout
