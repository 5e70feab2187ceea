/-
  Floating point numbers with 53 bits of precision, as exact values.

  A finite number is a mantissa times a power of two, with a sign that zero has too. Nothing is
  computed in floating point here. Every finite number is a whole multiple of the smallest positive
  one, so floors, comparisons and sums are taken on whole numbers of that unit. `Place` says where
  a number lies among all numbers, which is what comparisons of numbers of all kinds go by.

  The sum of two finite numbers is taken exactly and then rounded to the nearest number with 53
  bits, to the one with an even mantissa if two are equally near. What is rounded past the greatest
  finite number is infinite.
-/

namespace DocLayout

/-- A floating point number. -/
inductive Binary64 where
  /-- The number `± mantissa · 2 ^ exponent`; the exponent is -1074 at least. -/
  | finite (negative : Bool) (mantissa : Nat) (exponent : Int)
  | infinite (negative : Bool)
  | notANumber
  deriving Repr, DecidableEq, Inhabited

/-- A power of two. -/
def twoTo (e : Nat) : Nat := Nat.pow 2 e

/-- The number of the smallest positive floating point numbers that make one. -/
def unitsPerOne : Nat := twoTo 1074

/-- Where a number lies among all numbers, finite ones in units of the smallest positive floating
point number. -/
inductive Place where
  | lowest
  | units (n : Int)
  | highest
  /-- The place of what is no number, which is neither below nor at nor above any other. -/
  | nowhere
  deriving Repr, DecidableEq

namespace Place

/-- The place of a whole number. -/
def ofInt (n : Int) : Place := units (n * unitsPerOne)

/-- Whether two numbers are equal. -/
def same : Place → Place → Bool
  | lowest, lowest | highest, highest => true
  | units m, units n => m == n
  | _, _ => false

/-- Whether a number is less than another one. -/
def lessThan : Place → Place → Bool
  | lowest, units _ | lowest, highest | units _, highest => true
  | units m, units n => m < n
  | _, _ => false

end Place

namespace Binary64

/-- The number that the 64 bits of a float stand for. -/
def ofBits (bits : UInt64) : Binary64 :=
  let n := bits.toNat
  let negative := n / twoTo 63 == 1
  let biased : Nat := n / twoTo 52 % twoTo 11
  let fraction : Nat := n % twoTo 52
  if biased == 2047 then (if fraction == 0 then infinite negative else notANumber)
  else if biased == 0 then finite negative fraction (-1074)
  else finite negative (twoTo 52 + fraction) ((biased : Int) - 1075)

/-- The number that a float stands for. -/
def ofFloat (x : Float) : Binary64 := ofBits x.toBits

/-- A number of units with a sign. -/
def signed (negative : Bool) (n : Nat) : Int := if negative then -n else n

/-- A finite number in units. -/
def toUnits (negative : Bool) (mantissa : Nat) (exponent : Int) : Int :=
  signed negative (mantissa * twoTo (exponent + 1074).toNat)

/-- Where a number lies. -/
def place : Binary64 → Place
  | finite negative m e => .units (toUnits negative m e)
  | infinite negative => if negative then .lowest else .highest
  | notANumber => .nowhere

/-- The greatest integer that is not above a finite number. -/
def floor? : Binary64 → Option Int
  | finite negative m e => some ((toUnits negative m e).fdiv unitsPerOne)
  | _ => none

/-- A finite number without its fraction. -/
def truncate? : Binary64 → Option Int
  | finite negative m e => some ((toUnits negative m e).tdiv unitsPerOne)
  | _ => none

/-! ## Sums -/

/-- The number of binary digits of a mantissa. -/
def precision : Nat := 53

/-- The greatest exponent of a finite number. -/
def greatestExponent : Int := 971

/-- A quotient rounded to the nearest whole number, a half to the even one. -/
def nearest (num den : Nat) : Nat :=
  let rest := num % den
  let low := num / den
  if 2 * rest < den || (2 * rest == den && low % 2 == 0) then low else low + 1

/-- A whole number of units rounded to a number with a mantissa of 53 binary digits at most. A
mantissa that is rounded up to one digit more is a power of two, and loses nothing when it is
halved. -/
def round (negative : Bool) (units : Nat) : Binary64 :=
  let dropped := units.log2 + 1 - precision
  let mantissa := nearest units (twoTo dropped)
  let (mantissa, dropped) :=
    if mantissa = twoTo precision then (mantissa / 2, dropped + 1) else (mantissa, dropped)
  let exponent : Int := (dropped : Int) - 1074
  if greatestExponent < exponent then infinite negative else finite negative mantissa exponent

/-- The sum of two numbers. Of two zeros it is negative if both are, and infinities of both signs
have none. -/
def add : Binary64 → Binary64 → Binary64
  | finite s m e, finite s' m' e' =>
    let sum := toUnits s m e + toUnits s' m' e'
    round (if sum = 0 then s && s' else sum < 0) sum.natAbs
  | infinite s, infinite s' => if s = s' then infinite s else notANumber
  | infinite s, finite _ _ _ | finite _ _ _, infinite s => infinite s
  | notANumber, _ | _, notANumber => notANumber

/-- The number nearest to a whole number, if it is finite. -/
def ofInt? (n : Int) : Option Binary64 :=
  match round (n < 0) (n.natAbs * unitsPerOne) with
  | finite s m e => some (finite s m e)
  | _ => none

end Binary64

end DocLayout
