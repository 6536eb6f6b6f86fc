/-
  ClientGen.Number.Decimal

  The shortest decimal that reads back as a given double, and the text of
  numbers: integers in plain decimal, doubles with the fewest digits.
-/
import ClientGen.Number.Binary

namespace ClientGen.Number

/-! ## Shortest decimals -/

/-- The non-negative decimal `coefficient * 10 ^ exponent`. -/
structure Decimal where
  coefficient : Nat
  exponent : Int
deriving DecidableEq, Repr

/-- The number of decimal digits of `n`; zero has one. -/
def digitCount (n : Nat) : Nat := (Nat.toDigits 10 n).length

namespace Binary

/-- The power of ten of the leading digit of a magnitude above zero. -/
def decimalExponent (b : Binary) : Int :=
  let (num, den) := b.unitOver 0
  let value := b.mantissa * num
  if den ≤ value then (digitCount (value / den) : Int) - 1
  else
    let places := digitCount (den / value) - 1
    if den ≤ value * Nat.pow 10 places then -(places : Int) else -(places + 1 : Int)

/-- The multiple of `10 ^ k` nearest to the magnitude among its two neighbours on
    that grid that round to it; on a tie the even one. -/
def nearestOn? (b : Binary) (k : Int) : Option Decimal :=
  let (num, den) := b.unitOver k
  let value := b.mantissa * num
  let below := value / den
  let above := below + 1
  match b.admits k below, b.admits k above with
  | false, false => none
  | true, false => some ⟨below, k⟩
  | false, true => some ⟨above, k⟩
  | true, true =>
    let upToBelow := value - below * den
    let upToAbove := above * den - value
    if upToBelow < upToAbove ∨ (upToBelow = upToAbove ∧ below % 2 = 0) then some ⟨below, k⟩
    else some ⟨above, k⟩

/-- The decimal of the fewest digits that rounds to the magnitude, found on the
    coarsest of the grids `top, top - 1, …` that has one. -/
def shortestFrom (b : Binary) (top : Int) : Nat → Decimal
  | 0 => ⟨0, 0⟩
  | tries + 1 =>
    match b.nearestOn? top with
    | some d => d
    | none => b.shortestFrom (top - 1) tries

/-- The shortest decimal that rounds to the magnitude.  Seventeen digits tell any
    two doubles apart, so seventeen grids are enough. -/
def shortest (b : Binary) : Decimal :=
  if b.mantissa = 0 then ⟨0, 0⟩ else b.shortestFrom b.decimalExponent 17

end Binary

/-! ## Notations -/

/-- How a double is written. -/
structure DoubleStyle where
  /-- The least exponent of scientific notation that is still written plainly. -/
  plainFrom : Int
  /-- The greatest exponent of scientific notation that is still written plainly. -/
  plainTo : Int

/-- Plain notation serves from `0.00001` up to sixteen digits before the point. -/
def DoubleStyle.literal : DoubleStyle := ⟨-5, 15⟩

/-- The digits of a coefficient without trailing zeros, and how many were dropped. -/
def significantDigits (n : Nat) : List Char × Nat :=
  let digits := Nat.toDigits 10 n
  let kept := (digits.reverse.dropWhile (· == '0')).reverse
  (kept, digits.length - kept.length)

/-- Plain notation of `0.digits * 10 ^ point`, with at least one digit on either
    side of the point. -/
def plainChars (digits : List Char) (point : Int) : List Char :=
  if point ≤ 0 then
    '0' :: '.' :: (List.replicate (-point).toNat '0' ++ digits)
  else
    let whole := digits.take point.toNat
    let padding := List.replicate (point.toNat - digits.length) '0'
    let fraction := digits.drop point.toNat
    whole ++ padding ++ '.' :: (if fraction.isEmpty then ['0'] else fraction)

/-- Scientific notation with the given exponent, whose sign is always written. -/
def scientificChars (digits : List Char) (exponent : Int) : List Char :=
  let mark := 'e' :: (if exponent < 0 then '-' else '+') :: Nat.toDigits 10 exponent.natAbs
  match digits with
  | [] => '0' :: mark
  | [d] => d :: mark
  | d :: rest => d :: '.' :: rest ++ mark

/-- The characters of a magnitude. -/
def DoubleStyle.chars (style : DoubleStyle) (d : Decimal) : List Char :=
  let (digits, dropped) := significantDigits d.coefficient
  if digits.isEmpty then ['0', '.', '0']
  else
    let exponent : Int := d.exponent + dropped + digits.length - 1
    if style.plainFrom ≤ exponent ∧ exponent ≤ style.plainTo then
      plainChars digits (exponent + 1)
    else scientificChars digits exponent

/-! ## Numbers -/

/-- The text of a finite double. -/
def doubleText (x : Float) : String :=
  let b := Binary.ofFloat x
  let chars := DoubleStyle.literal.chars b.shortest
  String.ofList (if b.negative then '-' :: chars else chars)

/-- The text of an integer. -/
def integerText (n : Int) : String :=
  let digits := Nat.toDigits 10 n.natAbs
  String.ofList (if n < 0 then '-' :: digits else digits)

end ClientGen.Number

namespace ClientGen

/-- A number of a document: an integer, or else a finite double. -/
inductive Number where
  | integer (value : Int)
  | double (value : Float)
deriving Repr

/-- How a number is written as a literal. -/
def Number.text : Number → String
  | .integer n => Number.integerText n
  | .double x => Number.doubleText x

end ClientGen
