import DocLayout.Join

/-
  Nodes and dictionaries put together by hand.

  The parts of a node are taken as they are, documents or not. All that is asked of them is a flat
  width, and only where the node's own width hangs on it. Once it is made, no node can be changed.
-/

namespace DocLayout.Node

variable {κ : Type}

/-- The flat width of a part of a node. -/
def partWidth (v : Value κ) : Except Failure (FlatWidth (Value κ)) := v.flatWidth.mapError .access

/-- Asks two parts for widths to be added; the second one only if the first can stand on a
line. -/
def askWidths (first second : Value κ) : Except Failure Unit := do
  match ← partWidth first with
  | .never => return ()
  | _ => let _ ← partWidth second

def horz (first second : Value κ) : Except Failure (Doc (Value κ)) := do
  askWidths first second
  Join.horz first.toDoc second.toDoc

def concat (first second : Value κ) : Except Failure (Doc (Value κ)) := do
  askWidths first second
  Join.concat first.toDoc second.toDoc

def vert (first second : Value κ) : Doc (Value κ) := .vert first.toDoc second.toDoc

def choice (flat broken : Value κ) : Except Failure (Doc (Value κ)) := do
  let _ ← partWidth flat
  let _ ← partWidth broken
  Join.choice flat.toDoc broken.toDoc

def fullLine (v : Value κ) : Doc (Value κ) := .fullLine v.toDoc

/-- The failure to change a part of a value. -/
def refuseChange (v : Value κ) (name : String) : Failure :=
  match v with
  | .doc d => .immutable (Value.rootTypeName d) (Text.quote name)
  | v => .access (.noMember v.typeName name)

/-- A dictionary with a value put under a key. -/
def put (entries : List (Value κ × Value κ)) (key value : Value κ) :
    Except Failure (List (Value κ × Value κ)) :=
  match key.unfitKey? with
  | some typeName => .error (.unfitKey typeName)
  | none => .ok (Value.putEntry entries key value)

/-- An object with its attributes and perhaps a method that makes a document of it. A class has no
null character in its name. -/
def object (className shown : String) (attributes : List (String × Value κ)) (method : Option κ) :
    Except Failure (Value κ) :=
  if className.contains '\x00' then .error .nullInName
  else .ok (.object className shown attributes method)

end DocLayout.Node
