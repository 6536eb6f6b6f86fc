/-
  ClientGen.Number.Scaled

  Reading the digits of a decimal number into a double by scaling a 64-bit
  significand.  The digits are gathered while they fit 64 bits; the others only
  move the point.  The result is rounded at most twice, once per operation.
-/
import ClientGen.Number.Decimal

namespace ClientGen.Number

/-- The value of a decimal digit. -/
def digitValue (c : Char) : Nat := c.toNat - '0'.toNat

/-- The value of a sequence of decimal digits. -/
def digitsValue (digits : List Char) : Nat :=
  digits.foldl (fun n c => n * 10 + digitValue c) 0

/-- The greatest significand. -/
def significandMax : Nat := Nat.pow 2 64 - 1

/-- A significand with the power of ten that scales it. -/
structure Scaled where
  significand : Nat
  exponent : Int
deriving DecidableEq, Repr

namespace Scaled

/-- Gathers digits before the point.  From the first digit that does not fit on,
    every digit counts as one more power of ten. -/
def whole (significand : Nat) : List Char → Scaled
  | [] => ⟨significand, 0⟩
  | c :: rest =>
    let next := significand * 10 + digitValue c
    if significandMax < next then ⟨significand, (rest.length + 1 : Nat)⟩ else whole next rest

/-- Gathers digits after the point, up to the first that does not fit. -/
def withFraction (n : Scaled) : List Char → Scaled
  | [] => n
  | c :: rest =>
    let next := n.significand * 10 + digitValue c
    if significandMax < next then n else withFraction ⟨next, n.exponent - 1⟩ rest

/-- The least power of ten that is divided out in one step. -/
def step : Nat := 308

/-- `value * 10 ^ exponent`, or `none` beyond the range of doubles.  A very small
    power is divided out in several steps, until nothing is left. -/
def scale (value : Float) (exponent : Int) : Nat → Option Float
  | 0 => some value
  | tries + 1 =>
    if exponent.natAbs ≤ step then
      if 0 ≤ exponent then
        let x := value * Float.ofScientific 1 false exponent.natAbs
        if x.isInf then none else some x
      else some (value / Float.ofScientific 1 false exponent.natAbs)
    else if value == 0.0 then some value
    else if 0 ≤ exponent then none
    else scale (value / Float.ofScientific 1 false step) (exponent + step) tries

/-- The double that a scaled significand is read as.  Three steps leave nothing of
    any significand, so four are enough. -/
def toDouble? (n : Scaled) : Option Float :=
  scale n.significand.toUInt64.toFloat n.exponent 4

end Scaled

/-! ## Decimal numbers in parts -/

/-- The parts of a decimal number: digits before and after the point, and the
    exponent with its sign. -/
structure DecimalParts where
  negative : Bool := false
  whole : List Char
  fraction : Option (List Char) := none
  /-- Whether the exponent is negative, and its digits. -/
  exponent : Option (Bool × List Char) := none
deriving DecidableEq, Repr

namespace DecimalParts

/-- The greatest exponent that is told apart from an endless one. -/
def exponentMax : Nat := Nat.pow 2 31 - 1

/-- An exponent between `-2 ^ 31` and `2 ^ 31 - 1`. -/
def clampExponent (e : Int) : Int := max (-(exponentMax + 1 : Int)) (min exponentMax e)

/-- The magnitude as a double. -/
def magnitude? (p : DecimalParts) : Option Float :=
  let n := (Scaled.whole 0 p.whole).withFraction (p.fraction.getD [])
  match p.exponent with
  | none => n.toDouble?
  | some (below, digits) =>
    let e := digitsValue digits
    if exponentMax < e then
      if n.significand ≠ 0 ∧ !below then none else some 0.0
    else
      let exponent := if below then n.exponent - e else n.exponent + e
      Scaled.toDouble? ⟨n.significand, clampExponent exponent⟩

/-- Whether the number is written without a point and an exponent. -/
def isWhole (p : DecimalParts) : Bool := p.fraction.isNone && p.exponent.isNone

/-- The number that the parts denote: a whole number that fits 64 bits, with or
    without a sign, is an integer, and negative zero a double.  `none` says that the
    number is beyond the range of doubles. -/
def toNumber? (p : DecimalParts) : Option Number :=
  let n := digitsValue p.whole
  if p.isWhole && (if p.negative then 0 < n && n ≤ Nat.pow 2 63 else n ≤ significandMax) then
    some (.integer (if p.negative then -n else n))
  else p.magnitude?.map fun x => .double (if p.negative then -x else x)

end DecimalParts

end ClientGen.Number
