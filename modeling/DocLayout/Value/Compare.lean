import DocLayout.Value.Basic

/-
  Equality, order, sums and multiples of values.

  Whole numbers, truth values and floating point numbers are compared and added as numbers,
  whichever of the three they are; a truth value counts as one or zero. Texts, bytes, lists and
  tuples are ordered by the first items that differ and joined end to end. Documents, objects and
  dictionaries have no order and no sum.
-/

namespace DocLayout

variable {κ : Type}

namespace Value

/-- The whole number that a value stands for. -/
def asInt? : Value κ → Option Int
  | int n => some n
  | bool b => some b.toInt
  | _ => none

/-- Where a value lies among all numbers, if it is one. -/
def place? : Value κ → Option Place
  | float x => some x.place
  | v => v.asInt?.map Place.ofInt

/-- Whether two values without items are equal. -/
def sameAtom : Value κ → Value κ → Bool
  | null, null => true
  | str s, str t => s == t
  | bytes s, bytes t => s == t
  | stream _ m, stream _ n => m == n
  | type home name, type home' name' => home == home' && name == name'
  | v, w => match v.place?, w.place? with
    | some p, some q => p.same q
    | _, _ => false

mutual

/-- Whether two values are equal. A document or an object is equal to no other. -/
def same : Value κ → Value κ → Bool
  | list xs, w => match w with
    | list ys => sameItems xs ys
    | _ => false
  | tuple xs, w => match w with
    | tuple ys => sameItems xs ys
    | _ => false
  | dict entries, w => match w with
    | dict others => entries.length == others.length && sameEntries entries others
    | _ => false
  | v, w => sameAtom v w

/-- Whether two sequences are equal item by item. -/
def sameItems : List (Value κ) → List (Value κ) → Bool
  | [], [] => true
  | x :: xs, y :: ys => same x y && sameItems xs ys
  | _, _ => false

/-- Whether each of some entries has its like among others. -/
def sameEntries : List (Value κ × Value κ) → List (Value κ × Value κ) → Bool
  | [], _ => true
  | (key, value) :: rest, others =>
    others.any (fun other => same key other.1 && same value other.2) && sameEntries rest others

end

/-- Whether a list of numbers is less than another one at the first that differ, or is the start of
it. -/
def numbersLess : List Nat → List Nat → Bool
  | _, [] => false
  | [], _ :: _ => true
  | m :: ms, n :: ns => if m = n then numbersLess ms ns else m < n

/-- Whether a value is less than another one, where neither is a list or a tuple. Texts are compared
by the code points of their characters. -/
def atomLess (v w : Value κ) : Except OperandError Bool :=
  match v, w with
  | str s, str t => .ok (numbersLess (s.toList.map (·.toNat)) (t.toList.map (·.toNat)))
  | bytes s, bytes t => .ok (numbersLess (s.map (·.toNat)) (t.map (·.toNat)))
  | v, w => match v.place?, w.place? with
    | some p, some q => .ok (p.lessThan q)
    | _, _ => .error (.unordered "<" v.typeName w.typeName)

mutual

/-- Whether a value is less than another one. -/
def lessThan : Value κ → Value κ → Except OperandError Bool
  | list xs, w => match w with
    | list ys => itemsLess xs ys
    | w => .error (.unordered "<" "list" w.typeName)
  | tuple xs, w => match w with
    | tuple ys => itemsLess xs ys
    | w => .error (.unordered "<" "tuple" w.typeName)
  | v, w => atomLess v w

/-- Whether a sequence is less than another one: at the first items that differ, or as the shorter
one if none do. -/
def itemsLess : List (Value κ) → List (Value κ) → Except OperandError Bool
  | _, [] => .ok false
  | [], _ :: _ => .ok true
  | x :: xs, y :: ys => if same x y then itemsLess xs ys else lessThan x y

end

/-- Whether a number is at most another one. -/
def numberAtMost (v w : Value κ) : Except OperandError Bool :=
  match v.place?, w.place? with
  | some p, some q => .ok (p.same q || p.lessThan q)
  | _, _ => .error (.unordered "<=" v.typeName w.typeName)

/-- A number as a floating point number. -/
def toBinary64? : Value κ → Option (Except OperandError Binary64)
  | float x => some (.ok x)
  | v => v.asInt?.map fun n => match Binary64.ofInt? n with
    | some x => .ok x
    | none => .error .tooLarge

/-- The sum of two numbers. It is a whole number if both are. -/
def addNumbers (v w : Value κ) : Except OperandError (Value κ) :=
  match v.asInt?, w.asInt? with
  | some m, some n => .ok (int (m + n))
  | _, _ => match v.toBinary64?, w.toBinary64? with
    | some x, some y => do return float ((← x).add (← y))
    | _, _ => .error (.unsupported "+" v.typeName w.typeName)

/-- The sum of two values: that of two numbers, or two sequences of one kind joined. -/
def add (v w : Value κ) : Except OperandError (Value κ) :=
  match v, w with
  | str s, str t => .ok (str (s ++ t))
  | str _, w => .error (.joinsOnly "str" w.typeName)
  | list xs, list ys => .ok (list (xs ++ ys))
  | list _, w => .error (.joinsOnly "list" w.typeName)
  | tuple xs, tuple ys => .ok (tuple (xs ++ ys))
  | tuple _, w => .error (.joinsOnly "tuple" w.typeName)
  | bytes s, bytes t => .ok (bytes (s ++ t))
  | bytes _, w => .error (.bytesOnly w.typeName)
  | v, w => addNumbers v w

/-- A sequence repeated so many times, and not at all if the number is negative. A number is
multiplied. -/
def times (v : Value κ) (n : Int) : Except OperandError (Value κ) :=
  let repeated {β : Type} (xs : List β) : List β := (List.replicate n.toNat xs).flatten
  match v with
  | str s => .ok (str (String.ofList (repeated s.toList)))
  | bytes s => .ok (bytes (repeated s))
  | list xs => .ok (list (repeated xs))
  | tuple xs => .ok (tuple (repeated xs))
  | v => match v.asInt? with
    | some m => .ok (int (m * n))
    | none => .error (.unsupported "*" v.typeName "int")

/-- Whether a value counts as true: what is empty, zero or nothing does not. -/
def isTruthy : Value κ → Bool
  | null => false
  | bool b => b
  | int n => n != 0
  | float x => !x.place.same (.ofInt 0)
  | str s => s != ""
  | bytes s => !s.isEmpty
  | list xs | tuple xs => !xs.isEmpty
  | dict entries => !entries.isEmpty
  | _ => true

end Value

end DocLayout
