import DocLayout.Number.Binary64

/-
  The shortest decimal that reads back as a number.

  Reading rounds to the nearest number with 53 bits, so every number owns an interval of reals:
  half way to its two neighbours, ends included if its mantissa is even. Among the decimals inside,
  those with the fewest digits are looked for, and the nearest of them to the number is taken, the
  even one of two that are equally near. A decimal with `k` digits inside the interval exists only
  if one of the two that enclose the number is inside, so these two are all that is tried.

  All of it is arithmetic on natural numbers: the number and the ends of its interval are multiples
  of a quarter of the last place of the mantissa.
-/

namespace DocLayout

/-- A positive decimal number `digits · 10 ^ exponent`. -/
structure Decimal where
  digits : Nat
  exponent : Int
  deriving Repr, DecidableEq

namespace Decimal

/-- A power of ten. -/
def tenTo (e : Nat) : Nat := Nat.pow 10 e

/-- A quotient divided by a power of ten. -/
def scale (num den : Nat) : Int → Nat × Nat
  | .ofNat e => (num, den * tenTo e)
  | .negSucc e => (num * tenTo (e + 1), den)

/-- The number of decimal digits of a natural number; zero has one. -/
def digitCount (n : Nat) : Nat := (Nat.toDigits 10 n).length

/-- The exponent of the first digit of a quotient below one: the least power of ten that lifts it
to one, sought from the power `tried` on. -/
def leadBelowOne (num den : Nat) : (fuel tried : Nat) → Int
  | 0, tried => -tried
  | fuel + 1, tried =>
    if den ≤ num * tenTo tried then -tried else leadBelowOne num den fuel (tried + 1)

/-- The exponent of the first decimal digit of the positive quotient `num / den`. -/
def lead (num den : Nat) : Int :=
  if den ≤ num then (digitCount (num / den) : Int) - 1 else leadBelowOne num den 400 1

/-- The interval of reals that read back as a number, in quarters of its last place: the number
itself, the two ends, and whether the ends belong to it. -/
structure Interval where
  value : Nat
  low : Nat
  high : Nat
  closed : Bool
  /-- The power of two that a quarter of the last place stands for. -/
  exponent : Int

/-- The interval of a positive finite number. Below a power of two the neighbours are twice as
close as above it. -/
def Interval.around (mantissa : Nat) (exponent : Int) : Interval where
  value := 4 * mantissa
  low := if mantissa = twoTo 52 ∧ -1074 < exponent then 4 * mantissa - 1 else 4 * mantissa - 2
  high := 4 * mantissa + 2
  closed := mantissa % 2 == 0
  exponent := exponent - 2

/-- Quarters of a last place as a quotient. -/
def Interval.ratio (i : Interval) (quarters : Nat) : Nat × Nat :=
  match i.exponent with
  | .ofNat e => (quarters * twoTo e, 1)
  | .negSucc e => (quarters, twoTo (e + 1))

/-- Whether `digits · 10 ^ exponent` lies in an interval. -/
def Interval.contains (i : Interval) (d : Decimal) : Bool :=
  let below (x y : Nat × Nat) : Bool :=
    if i.closed then x.1 * y.2 ≤ y.1 * x.2 else x.1 * y.2 < y.1 * x.2
  let scaled (quarters : Nat) := let (n, m) := i.ratio quarters; scale n m d.exponent
  below (scaled i.low) (d.digits, 1) && below (d.digits, 1) (scaled i.high)

/-- The decimal with `count` digits that stands for the interval, if there is one: the nearer one
of the two neighbours of the number, or the one of them that lies inside. -/
def Interval.withDigits (i : Interval) (first : Int) (count : Nat) : Option Decimal :=
  let exponent := first - count + 1
  let (num, den) := let (n, m) := i.ratio i.value; scale n m exponent
  let lower : Decimal := ⟨num / den, exponent⟩
  let upper : Decimal := ⟨num / den + 1, exponent⟩
  let rest := num % den
  match i.contains lower, i.contains upper with
  | true, true =>
    if 2 * rest < den || (2 * rest == den && lower.digits % 2 == 0) then some lower else some upper
  | true, false => some lower
  | false, true => some upper
  | false, false => none

/-- The digits without the zeros at their end. -/
def strip : (fuel : Nat) → Decimal → Decimal
  | 0, d => d
  | fuel + 1, d =>
    if d.digits % 10 == 0 && d.digits != 0 then strip fuel ⟨d.digits / 10, d.exponent + 1⟩ else d

/-- The shortest decimal that reads back as the positive number `mantissa · 2 ^ exponent`.
Seventeen digits always suffice. -/
def shortest (mantissa : Nat) (exponent : Int) : Decimal :=
  let i := Interval.around mantissa exponent
  let (num, den) := i.ratio i.value
  let first := lead num den
  let found := (List.range 17).findSome? fun k => i.withDigits first (k + 1)
  strip 20 (found.getD ⟨num / den, 0⟩)

/-- How decimals are written: as plain digits if the exponent of the first digit lies between the
two bounds, with the mark `e`, a sign and at least two digits of exponent elsewhere. -/
structure Format where
  leastPlain : Int
  greatestPlain : Int

/-- The places of a number from ten thousandth up to the sixteenth before the point are written
out. -/
def Format.standard : Format := ⟨-4, 15⟩

def zeros (n : Nat) : List Char := List.replicate n '0'

/-- A decimal as text. Plain digits have a point and at least one digit after it. -/
def write (f : Format) (d : Decimal) : String :=
  let digits := Nat.toDigits 10 d.digits
  let first := d.exponent + digits.length - 1
  if f.leastPlain ≤ first ∧ first ≤ f.greatestPlain then
    if first < 0 then
      String.ofList ('0' :: '.' :: zeros (-first - 1).toNat ++ digits)
    else
      let places := first.toNat + 1
      let whole := digits.take places ++ zeros (places - digits.length)
      let fraction := digits.drop places
      String.ofList (whole ++ '.' :: (if fraction.isEmpty then ['0'] else fraction))
  else
    let magnitude := Nat.toDigits 10 first.natAbs
    let padded := if magnitude.length < 2 then '0' :: magnitude else magnitude
    let fraction := digits.drop 1
    String.ofList (digits.take 1 ++ (if fraction.isEmpty then [] else '.' :: fraction)
      ++ 'e' :: (if first < 0 then '-' else '+') :: padded)

end Decimal

namespace Binary64

/-- A number as text: the shortest decimal that reads back as it. -/
def text : Binary64 → String
  | notANumber => "nan"
  | infinite negative => if negative then "-inf" else "inf"
  | finite negative m e =>
    (if negative then "-" else "") ++
      (if m = 0 then "0.0" else (Decimal.shortest m e).write .standard)

end Binary64

end DocLayout
