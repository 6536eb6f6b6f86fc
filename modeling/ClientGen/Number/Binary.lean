/-
  ClientGen.Number.Binary

  Finite double-precision numbers as exact products of a natural number and a
  power of two, with the interval of reals that round to each.
-/

namespace ClientGen.Number

/-- The magnitude `mantissa * 2 ^ exponent` of a finite double, with its sign. -/
structure Binary where
  negative : Bool
  mantissa : Nat
  exponent : Int
  /-- Whether the next double below is only half as far away as the next above,
      as it is at a power of two. -/
  narrowBelow : Bool
deriving DecidableEq, Repr

namespace Binary

/-- The parts of the 64 bits of a double. -/
def ofBits (bits : UInt64) : Binary :=
  let n := bits.toNat
  let fraction := n % Nat.pow 2 52
  let scale := n / Nat.pow 2 52 % Nat.pow 2 11
  { negative := n / Nat.pow 2 63 == 1
    mantissa := if scale = 0 then fraction else fraction + Nat.pow 2 52
    exponent := (max scale 1 : Nat) - 1075
    narrowBelow := fraction == 0 && 1 < scale }

/-- The exact value of a double. -/
def ofFloat (x : Float) : Binary := ofBits x.toBits

/-- Numerator and denominator of `2 ^ exponent / 10 ^ k`. -/
def unitOver (b : Binary) (k : Int) : Nat × Nat :=
  (Nat.pow 2 b.exponent.toNat * Nat.pow 10 (-k).toNat,
    Nat.pow 2 (-b.exponent).toNat * Nat.pow 10 k.toNat)

/-- Whether `c * 10 ^ k` rounds to the magnitude of `b`: it lies between the
    midpoints to both neighbours, which themselves count for an even mantissa. -/
def admits (b : Binary) (k : Int) (c : Nat) : Bool :=
  let (num, den) := b.unitOver k
  let low := (4 * b.mantissa - if b.narrowBelow then 1 else 2) * num
  let high := (4 * b.mantissa + 2) * num
  let point := 4 * c * den
  if b.mantissa % 2 = 0 then low ≤ point && point ≤ high
  else low < point && point < high

end Binary

end ClientGen.Number
