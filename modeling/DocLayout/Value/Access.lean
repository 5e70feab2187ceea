import DocLayout.Value.Compare
import DocLayout.Value.Literal

/-
  Parts of values: attributes, items of sequences, and entries of dictionaries.

  The attributes of a document node are its parts, its flat width and its display, those of an
  object the ones it was made with, and every value has its type. A sequence is indexed by position
  and a dictionary by key; keys that are equal are the same key.
-/

namespace DocLayout

variable {κ : Type}

/-- The sequences whose items have positions. -/
inductive SequenceKind where
  | text
  | bytes
  | list
  | tuple
  deriving Repr, DecidableEq

/-- Why a part of a value cannot be had. -/
inductive AccessError where
  /-- A value of the type has no part of that name. -/
  | noMember (typeName name : String)
  /-- The type itself has no part of that name. -/
  | noTypeMember (typeName name : String)
  /-- A position past the end of a sequence. -/
  | pastEnd (kind : SequenceKind)
  /-- A name where a sequence takes positions. -/
  | notPosition (kind : SequenceKind)
  /-- A key, in its literal form, that there is no entry for. -/
  | missingKey (shown : String)
  /-- A value of the type has no items. -/
  | noItems (typeName : String)
  /-- The type itself has no items. -/
  | noTypeItems (typeName : String)
  deriving Repr, DecidableEq

/-- The name of a type in messages about its parts. -/
def ownerName (typeName : String) : String := Text.clip 50 typeName

def AccessError.message : AccessError → String
  | noMember typeName name => "'" ++ ownerName typeName ++ s!"' object has no attribute '{name}'"
  | noTypeMember typeName name =>
    "type object '" ++ ownerName typeName ++ s!"' has no attribute '{name}'"
  | pastEnd .text => "string index out of range"
  | pastEnd .bytes => "index out of range"
  | pastEnd .list => "list index out of range"
  | pastEnd .tuple => "tuple index out of range"
  | notPosition .text => "string indices must be integers, not 'str'"
  | notPosition .bytes => "byte indices must be integers or slices, not str"
  | notPosition .list => "list indices must be integers or slices, not str"
  | notPosition .tuple => "tuple indices must be integers or slices, not str"
  | missingKey shown => shown
  | noItems typeName => "'" ++ clippedName typeName ++ "' object is not subscriptable"
  | noTypeItems typeName => "type '" ++ clippedName typeName ++ "' is not subscriptable"

namespace Value

/-- The parts of a document node by their names. -/
def nodeParts : Doc (Value κ) → List (String × Value κ)
  | .text s => [("value", str s)]
  | .horzNode _ a b | .concatNode _ a b | .vert a b => [("first", ofDoc a), ("second", ofDoc b)]
  | .choiceNode _ flat broken => [("when_flat", ofDoc flat), ("when_broken", ofDoc broken)]
  | .fullLine a => [("doc", ofDoc a)]
  | .foreign _ _ => []

/-- What a value is made of, by names: an object of its attributes, a number of its real and its
imaginary part and of numerator and denominator where it is whole. -/
def parts : Value κ → List (String × Value κ)
  | doc d =>
    nodeParts d ++ [("flat_width", ofFlatWidth d.flatWidth), ("display", displayOf d),
      ("__slots__", tuple ((nodeParts d).map fun part => str part.1)),
      ("__module__", str (typeHome (doc d)))]
  | object _ _ attributes _ => attributes
  | int n => [("real", int n), ("imag", int 0), ("numerator", int n), ("denominator", int 1)]
  | bool b =>
    [("real", int b.toInt), ("imag", int 0), ("numerator", int b.toInt), ("denominator", int 1)]
  | float x => [("real", float x), ("imag", float (.finite false 0 (-1074)))]
  | displayOf d =>
    [("__self__", doc d), ("__name__", str "display"), ("__qualname__", str "Doc.display"),
      ("__module__", str (typeHome (doc d)))]
  | type home name =>
    [("__name__", str name), ("__qualname__", str name), ("__module__", str home)]
  | _ => []

/-- Why a value has no part of a name. -/
def noMember (v : Value κ) (name : String) : AccessError :=
  match v with
  | type _ typeName => .noTypeMember typeName name
  | displayOf _ => .noMember "function" name
  | v => .noMember v.typeName name

/-- The part of a value with a name. -/
def member (v : Value κ) (name : String) : Except AccessError (Value κ) :=
  match (v.parts ++ [("__class__", v.typeOf)]).lookup name with
  | some value => .ok value
  | none => .error (v.noMember name)

/-- The flat width that a value has or claims for itself. -/
def flatWidth (v : Value κ) : Except AccessError (FlatWidth (Value κ)) :=
  match v with
  | doc d => .ok d.flatWidth
  | v => return (← v.member "flat_width").toFlatWidth

/-- A value in the place of a document. -/
def toDoc (v : Value κ) : Doc (Value κ) :=
  match v with
  | doc d => d
  | v => .foreign v (v.flatWidth.toOption.getD .never)

mutual

/-- The type of a value, or of the first value inside a tuple, that cannot be a key. -/
def unfitKey? : Value κ → Option String
  | list _ => some "list"
  | dict _ => some "dict"
  | tuple xs => firstUnfitKey? xs
  | _ => none

def firstUnfitKey? : List (Value κ) → Option String
  | [] => none
  | x :: xs => unfitKey? x <|> firstUnfitKey? xs

end

/-- The entries with a value put under a key. A key that is there already keeps its place. -/
def putEntry (entries : List (Value κ × Value κ)) (key value : Value κ) :
    List (Value κ × Value κ) :=
  match entries with
  | [] => [(key, value)]
  | (k, v) :: rest =>
    if same k key then (k, value) :: rest else (k, v) :: putEntry rest key value

/-- The value under a key. -/
def entry (entries : List (Value κ × Value κ)) (key : Value κ) : Except AccessError (Value κ) :=
  match entries.find? fun e => same e.1 key with
  | some e => .ok e.2
  | none => .error (.missingKey key.literal)

/-- How an item is asked for: by its position, or by a name. -/
inductive Key where
  | position (n : Nat)
  | name (s : String)
  deriving Repr, DecidableEq

def Key.toValue : Key → Value κ
  | .position n => int n
  | .name s => str s

/-- The items of a value that have positions. -/
def sequence? : Value κ → Option (SequenceKind × List (Value κ))
  | str s => some (.text, s.toList.map fun c => str c.toString)
  | bytes bs => some (.bytes, bs.map fun b => int b.toNat)
  | list xs => some (.list, xs)
  | tuple xs => some (.tuple, xs)
  | _ => none

/-- An item of a value. -/
def item (v : Value κ) (key : Key) : Except AccessError (Value κ) :=
  match v with
  | dict entries => entry entries key.toValue
  | type _ typeName => .error (.noTypeItems typeName)
  | v => match v.sequence?, key with
    | none, _ => .error (.noItems v.typeName)
    | some (kind, _), .name _ => .error (.notPosition kind)
    | some (kind, items), .position n => match items[n]? with
      | some x => .ok x
      | none => .error (.pastEnd kind)

end Value

end DocLayout
