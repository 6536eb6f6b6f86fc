/-
  ClientGen.Markup.Yaml.Typed

  The types of YAML scalars that no field asks to be texts: null, booleans,
  integers and floating-point numbers are recognised by their spelling when
  they are plain, and by their tag otherwise.
-/
import ClientGen.Markup.Json

namespace ClientGen.Markup.Yaml

/-! ## Null and booleans -/

/-- Whether a spelling is the null value. -/
def isNull (s : String) : Bool := ["null", "Null", "NULL", "~"].contains s

/-- The boolean of a spelling. -/
def boolean? (s : String) : Option Bool :=
  if ["true", "True", "TRUE"].contains s then some true
  else if ["false", "False", "FALSE"].contains s then some false
  else none

/-! ## Integers -/

/-- The value of a digit in a base up to sixteen. -/
def baseDigit? (base : Nat) (c : Char) : Option Nat :=
  (Json.hexDigit? c).filter (· < base)

/-- The number written by digits of a base; there is at least one. -/
def baseNumber? (base : Nat) (cs : List Char) : Option Nat :=
  if cs.isEmpty then none
  else cs.foldlM (fun n c => (baseDigit? base c).map (n * base + ·)) 0

/-- A spelling without its sign. -/
def unsigned : List Char → List Char
  | c :: cs => if c = '-' ∨ c = '+' then cs else c :: cs
  | [] => []

/-- Whether decimal digits follow a leading zero, which makes them no number. -/
def isZeroLed (cs : List Char) : Bool :=
  match unsigned cs with
  | '0' :: c :: rest => (c :: rest).all Char.isDigit
  | _ => false

/-- A magnitude after its sign: decimal, or in the base that its beginning names. -/
def magnitude? : List Char → Option Nat
  | '0' :: 'x' :: cs => baseNumber? 16 cs
  | '0' :: 'o' :: cs => baseNumber? 8 cs
  | '0' :: 'b' :: cs => baseNumber? 2 cs
  | cs => if isZeroLed cs then none else baseNumber? 10 cs

/-- The integer of a spelling, of any size. -/
def integer? : List Char → Option Int
  | '+' :: cs => (magnitude? cs).map Int.ofNat
  | '-' :: cs => (magnitude? cs).map fun n => -(n : Int)
  | cs => (magnitude? cs).map Int.ofNat

/-- Whether an integer fits 64 bits, with or without a sign. -/
def fitsWord (n : Int) : Bool := -(Nat.pow 2 63 : Int) ≤ n && n < (Nat.pow 2 64 : Int)

/-- Whether an integer fits 128 bits, with or without a sign. -/
def fitsDoubleWord (n : Int) : Bool := -(Nat.pow 2 127 : Int) ≤ n && n < (Nat.pow 2 128 : Int)

/-! ## Floating-point numbers -/

/-- The double nearest to `n * 10 ^ exponent`, or `none` when that is infinite. -/
def nearestDouble? (n : Nat) (exponent : Int) : Option Float :=
  if n = 0 then some 0.0
  else
    let size := (Number.digitCount n : Int) + exponent
    if size < -330 then some 0.0
    else if 310 < size then none
    else
      let x := if exponent < 0 then Float.ofScientific n true exponent.natAbs
        else Float.ofScientific (n * Nat.pow 10 exponent.natAbs) false 0
      if x.isInf then none else some x

/-- A finite magnitude: digits on at least one side of a point, and perhaps an
    exponent. -/
def double? (cs : List Char) : Option Float := do
  let (whole, cs) := Json.digits cs
  let (fraction, cs) := match cs with
    | '.' :: cs => Json.digits cs
    | cs => ([], cs)
  if whole.isEmpty && fraction.isEmpty then none
  let (mark, rest) ← Json.exponent? cs
  if !rest.isEmpty then none
  let exponent : Int := match mark with
    | none => 0
    | some (below, digits) =>
      if below then -(Number.digitsValue digits : Int) else Number.digitsValue digits
  nearestDouble? (Number.digitsValue (whole ++ fraction)) (exponent - fraction.length)

/-- The floating-point number of a spelling. -/
def float? (s : String) : Option Float :=
  if [".inf", ".Inf", ".INF", "+.inf", "+.Inf", "+.INF"].contains s then some (1.0 / 0.0)
  else if ["-.inf", "-.Inf", "-.INF"].contains s then some (-1.0 / 0.0)
  else if [".nan", ".NaN", ".NAN"].contains s then some (0.0 / 0.0)
  else match s.toList with
    | '+' :: cs => double? cs
    | '-' :: cs => (double? cs).map (-·)
    | cs => double? cs

/-! ## Scalars -/

/-- The value of an integer: `none` when there is no word for it. -/
def integerScalar? (n : Int) : Option Scalar :=
  if fitsWord n then some (.number (.integer n)) else none

/-- The value of a plain scalar without a tag.  An integer beyond all words is read
    as a floating-point number. -/
def plainScalar? (s : String) : Option Scalar :=
  if s.isEmpty || isNull s then some .null
  else match boolean? s with
    | some b => some (.boolean b)
    | none =>
      match (integer? s.toList).filter fitsDoubleWord with
      | some n => integerScalar? n
      | none =>
        match if isZeroLed s.toList then none else float? s with
        | some x => some (.number (.double x))
        | none => some (.text s)

/-- What the tags of the core types begin with. -/
def coreTag (type : String) : String := "tag:yaml.org,2002:" ++ type

/-- The value of a scalar by its style, tag and spelling; `none` when the spelling
    does not fit the tag, or the tag is a private one. -/
def scalar? (style : ScalarStyle) (tag : Option String) (s : String) : Option Scalar :=
  match tag with
  | none => if style = .plain then plainScalar? s else some (.text s)
  | some tag =>
    if Text.startsWith "!" tag then none
    else if tag = coreTag "bool" then (boolean? s).map .boolean
    else if tag = coreTag "int" then
      ((integer? s.toList).filter fitsDoubleWord).bind integerScalar?
    else if tag = coreTag "float" then (float? s).map fun x => .number (.double x)
    else if tag = coreTag "null" then if isNull s then some .null else none
    else some (.text s)

end ClientGen.Markup.Yaml
