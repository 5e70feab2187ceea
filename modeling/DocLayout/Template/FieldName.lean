import DocLayout.Text.Digit
import DocLayout.Value.Access

/-
  The name of a field as a path to a value.

  A name begins with the argument it starts from, up to the first point or bracket, and goes on
  with steps: a point and the name of a part, or an item between brackets. A first part or an item
  that is made of decimal digits is a position, anything else is a name.

  A path that stops being well formed is still followed up to there, so the fault is kept behind
  the steps before it.
-/

namespace DocLayout.Template

/-- Why the name of a field is no path. -/
inductive PathFault where
  | emptyPart
  | unclosedBracket
  | strayCharacter
  | tooManyDigits
  deriving Repr, DecidableEq

def PathFault.message : PathFault → String
  | emptyPart => "Empty attribute in format string"
  | unclosedBracket => "Missing ']' in format string"
  | strayCharacter => "Only '.' or '[' may follow ']' in format field specifier"
  | tooManyDigits => "Too many decimal digits in format string"

/-- The greatest position that a name can hold. -/
def greatestPosition : Nat := 9223372036854775807

/-- Reads a number on from the value of the digits before. The digits before one that makes the
number too great are all that is looked at. -/
def readPosition (value : Nat) : List Char → Except PathFault (Option Nat)
  | [] => .ok (some value)
  | c :: rest =>
    match Text.decimalValue? c with
    | none => .ok none
    | some digit =>
      if (greatestPosition - digit) / 10 < value then .error .tooManyDigits
      else readPosition (value * 10 + digit) rest

/-- A part of a name as a key: a position if it is made of decimal digits, of one at least. -/
def keyOf (s : List Char) : Except PathFault Value.Key :=
  if s.isEmpty then .ok (.name "")
  else (readPosition 0 s).map fun
    | some n => .position n
    | none => .name (String.ofList s)

/-- A step from a value to a part of it. -/
inductive Step where
  | member (name : String)
  | item (key : Value.Key)
  deriving Repr, DecidableEq

/-- Steps, and the fault that follows them if the rest of the name is none. -/
structure Path where
  steps : List Step
  fault : Option PathFault
  deriving Repr, DecidableEq

namespace Path

def stop (fault : PathFault) : Path := ⟨[], some fault⟩

def cons (s : Step) (p : Path) : Path := { p with steps := s :: p.steps }

end Path

/-- Whether a character begins a step. -/
def beginsStep (c : Char) : Bool := c = '.' || c = '['

theorem length_dropWhile_le (p : Char → Bool) (s : List Char) :
    (s.dropWhile p).length ≤ s.length := (List.dropWhile_suffix p).length_le

/-- The steps that follow the first part of a name. -/
def pathOf : List Char → Path
  | [] => ⟨[], none⟩
  | '.' :: rest =>
    let name := rest.takeWhile (!beginsStep ·)
    have := length_dropWhile_le (!beginsStep ·) rest
    if name.isEmpty then .stop .emptyPart
    else (pathOf (rest.dropWhile (!beginsStep ·))).cons (.member (String.ofList name))
  | '[' :: rest =>
    let name := rest.takeWhile (· ≠ ']')
    match h : rest.dropWhile (· ≠ ']') with
    | [] => .stop .unclosedBracket
    | _ :: after =>
      have : after.length < rest.length := by
        have := length_dropWhile_le (· ≠ ']') rest
        rwa [h] at this
      match keyOf name with
      | .error fault => .stop fault
      | .ok key =>
        if name.isEmpty then .stop .emptyPart else (pathOf after).cons (.item key)
  | _ :: _ => .stop .strayCharacter
termination_by s => s.length
decreasing_by all_goals simp; omega

/-- The first part of a name. -/
def firstPart (name : List Char) : List Char := name.takeWhile (!beginsStep ·)

/-- The value at the end of a path. -/
def follow {κ : Type} (v : Value κ) : List Step → Except AccessError (Value κ)
  | [] => .ok v
  | .member name :: steps => do follow (← v.member name) steps
  | .item key :: steps => do follow (← v.item key) steps

/-- The arguments of a template. -/
structure Arguments (κ : Type) where
  positional : List (Value κ)
  named : List (String × Value κ)

/-- The argument that a key stands for. -/
def Arguments.get {κ : Type} (a : Arguments κ) (key : Value.Key) : Except AccessError (Value κ) :=
  match key with
  | .position n => match a.positional[n]? with
    | some v => .ok v
    | none => .error (.pastEnd .tuple)
  | .name s => match a.named.lookup s with
    | some v => .ok v
    | none => .error (.missingKey (Text.quote s))

/-- Why a name leads to no value. -/
inductive LookupError where
  /-- The name is no path. -/
  | path (fault : PathFault)
  /-- There is no such argument, or no such part of it. -/
  | access (e : AccessError)
  deriving Repr, DecidableEq

/-- The value that a name leads to. A fault of the name counts once the steps before it are
taken. -/
def Arguments.lookup {κ : Type} (a : Arguments κ) (name : String) :
    Except LookupError (Value κ) := do
  let key ← (keyOf (firstPart name.toList)).mapError .path
  let path := pathOf (name.toList.dropWhile (!beginsStep ·))
  let v ← (a.get key).mapError .access
  let v ← (follow v path.steps).mapError .access
  match path.fault with
  | some fault => throw (.path fault)
  | none => return v

end DocLayout.Template
