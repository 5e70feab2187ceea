import DocLayout.Template.FieldName

/-
  The numbering of fields.

  A field whose name starts with nothing takes the next positional argument, one whose name starts
  with digits takes the argument that it names. A template keeps to one of the two. The state is
  which of them has been used, and the number that the next unnumbered field gets; a field that is
  refused changes neither, and one whose value cannot be found still counts.
-/

namespace DocLayout.Template

/-- How the positional fields of a template get their numbers. -/
inductive Mode where
  | automatic
  | manual
  deriving Repr, DecidableEq

def Mode.name : Mode → String
  | automatic => "automatic"
  | manual => "manual"

/-- The mode in use, if any field has settled it, and the number of the next unnumbered field. -/
structure Numbering where
  mode : Option Mode
  nextIndex : Nat
  deriving Repr, DecidableEq

/-- Why a field has no value. -/
inductive FieldError where
  /-- The field asks for a numbering other than the one in use. -/
  | mixed (inUse asked : Mode)
  /-- The name, with its number filled in, leads nowhere. -/
  | lookup (name : String) (e : LookupError)
  deriving Repr, DecidableEq

/-- The numbering of a template none of whose fields has been seen. -/
def Numbering.start : Numbering := ⟨none, 0⟩

/-- The mode that a name asks for; one that starts with a word asks for none. -/
def modeOf (name : List Char) : Option Mode :=
  let first := firstPart name
  if first.isEmpty then some .automatic
  else if Text.allDigits first then some .manual
  else none

/-- The name of a field with its number filled in, and the numbering after it. -/
def Numbering.number (n : Numbering) (name : String) :
    Except FieldError (Numbering × String) :=
  match modeOf name.toList with
  | none => .ok (n, name)
  | some asked =>
    if n.mode.any (· ≠ asked) then .error (.mixed (n.mode.getD asked) asked)
    else match asked with
      | .automatic => .ok (⟨some .automatic, n.nextIndex + 1⟩, toString n.nextIndex ++ name)
      | .manual => .ok (⟨some .manual, n.nextIndex⟩, name)

/-- The value of a field, and the numbering after it. -/
def Numbering.resolve {κ : Type} (n : Numbering) (a : Arguments κ) (name : String) :
    Numbering × Except FieldError (Value κ) :=
  match n.number name with
  | .error e => (n, .error e)
  | .ok (after, numbered) => (after, (a.lookup numbered).mapError (.lookup numbered))

end DocLayout.Template
