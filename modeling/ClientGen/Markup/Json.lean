/-
  ClientGen.Markup.Json

  Reading strict JSON text as a node.  Key order and repeated keys are kept.
-/
import ClientGen.Markup.Node
import ClientGen.Number.Scaled

namespace ClientGen.Markup.Json

/-! ## White space and punctuation -/

/-- White space between tokens. -/
def isSpace (c : Char) : Bool := c == ' ' || c == '\n' || c == '\t' || c == '\r'

/-- What follows leading white space. -/
def skipSpace (cs : List Char) : List Char := cs.dropWhile isSpace

/-- What follows white space and the character `c`. -/
def expect? (c : Char) (cs : List Char) : Option (List Char) :=
  match skipSpace cs with
  | d :: rest => if d = c then some rest else none
  | [] => none

/-- What follows a word. -/
def afterWord? (word : String) (cs : List Char) : Option (List Char) :=
  if word.toList.isPrefixOf cs then some (cs.drop word.toList.length) else none

/-! ## Texts -/

/-- The value of a hexadecimal digit. -/
def hexDigit? (c : Char) : Option Nat :=
  if c.isDigit then some (c.toNat - '0'.toNat)
  else if 'a' ≤ c ∧ c ≤ 'f' then some (c.toNat - 'a'.toNat + 10)
  else if 'A' ≤ c ∧ c ≤ 'F' then some (c.toNat - 'A'.toNat + 10)
  else none

/-- The number written by `count` hexadecimal digits, and what follows them. -/
def hexNumber? (value : Nat) : Nat → List Char → Option (Nat × List Char)
  | 0, cs => some (value, cs)
  | _ + 1, [] => none
  | count + 1, c :: rest => do hexNumber? (value * 16 + (← hexDigit? c)) count rest

/-- The character that an escape letter stands for. -/
def simpleEscape? (c : Char) : Option Char :=
  if c = '"' ∨ c = '\\' ∨ c = '/' then some c
  else if c = 'b' then some '\x08'
  else if c = 'f' then some '\x0c'
  else if c = 'n' then some '\n'
  else if c = 'r' then some '\r'
  else if c = 't' then some '\t'
  else none

/-- Whether a code unit opens a pair. -/
def opensPair (unit : Nat) : Bool := 0xD800 ≤ unit && unit ≤ 0xDBFF

/-- Whether a code unit closes a pair. -/
def closesPair (unit : Nat) : Bool := 0xDC00 ≤ unit && unit ≤ 0xDFFF

/-- The character of a pair of code units. -/
def pairChar (first second : Nat) : Char :=
  Char.ofNat (0x10000 + (first - 0xD800) * 0x400 + (second - 0xDC00))

/-- The second unit of a pair, when it is the next escape. -/
def secondUnit? : List Char → Option (Nat × List Char)
  | '\\' :: 'u' :: cs => do
    let (unit, rest) ← hexNumber? 0 4 cs
    if closesPair unit then some (unit, rest) else none
  | _ => none

/-- The character of an escaped code unit, taking the second unit of a pair from
    the rest; `none` for a unit that stands alone in vain. -/
def unitChar (unit : Nat) (rest : List Char) : Option Char × List Char :=
  if opensPair unit then
    match secondUnit? rest with
    | some (second, rest) => (some (pairChar unit second), rest)
    | none => (none, rest)
  else if closesPair unit then (none, rest)
  else (some (Char.ofNat unit), rest)

/-- The rest of a text after its opening quote, with what follows the closing
    quote.  `read` holds the characters so far in reverse, and `sound` tells that
    none of the escapes so far lacked a character. -/
def textFrom (sound : Bool) (read : List Char) :
    Nat → List Char → Option (Scalar × List Char)
  | 0, _ => none
  | _ + 1, [] => none
  | fuel + 1, c :: rest =>
    if c = '"' then
      some (if sound then .text (String.ofList read.reverse) else .valueless, rest)
    else if c = '\\' then
      match rest with
      | 'u' :: digits => do
        let (unit, rest) ← hexNumber? 0 4 digits
        match unitChar unit rest with
        | (some d, rest) => textFrom sound (d :: read) fuel rest
        | (none, rest) => textFrom false read fuel rest
      | e :: rest => do textFrom sound ((← simpleEscape? e) :: read) fuel rest
      | [] => none
    else if c < ' ' then none
    else textFrom sound (c :: read) fuel rest

/-- A text after its opening quote. -/
def text? (cs : List Char) : Option (Scalar × List Char) := textFrom true [] (cs.length + 1) cs

/-! ## Numbers -/

/-- The longest run of digits, and what follows it. -/
def digits (cs : List Char) : List Char × List Char := cs.span Char.isDigit

/-- Digits before the point: a zero stands alone. -/
def whole? (cs : List Char) : Option (List Char × List Char) :=
  match digits cs with
  | ([], _) => none
  | ('0' :: _ :: _, _) => none
  | found => some found

/-- The digits after a point, when there is one; it needs at least one. -/
def fraction? : List Char → Option (Option (List Char) × List Char)
  | '.' :: cs =>
    match digits cs with
    | ([], _) => none
    | (found, rest) => some (some found, rest)
  | cs => some (none, cs)

/-- The sign and digits of an exponent after its mark. -/
def exponentDigits? (negative : Bool) (cs : List Char) :
    Option (Option (Bool × List Char) × List Char) :=
  match digits cs with
  | ([], _) => none
  | (found, rest) => some (some (negative, found), rest)

/-- The exponent, when there is one. -/
def exponent? : List Char → Option (Option (Bool × List Char) × List Char)
  | c :: cs =>
    if c = 'e' ∨ c = 'E' then
      match cs with
      | '+' :: cs => exponentDigits? false cs
      | '-' :: cs => exponentDigits? true cs
      | cs => exponentDigits? false cs
    else some (none, c :: cs)
  | [] => some (none, [])

/-- A number after its sign. -/
def number? (negative : Bool) (cs : List Char) : Option (Scalar × List Char) := do
  let (whole, cs) ← whole? cs
  let (fraction, cs) ← fraction? cs
  let (exponent, cs) ← exponent? cs
  let parts : Number.DecimalParts := ⟨negative, whole, fraction, exponent⟩
  some (match parts.toNumber? with
    | some n => .number n
    | none => .valueless, cs)

/-! ## Values -/

/-- A scalar at the front of a text. -/
def scalar? : List Char → Option (Scalar × List Char)
  | '"' :: cs => text? cs
  | '-' :: cs => number? true cs
  | 'n' :: cs => (afterWord? "ull" cs).map (.null, ·)
  | 't' :: cs => (afterWord? "rue" cs).map (.boolean true, ·)
  | 'f' :: cs => (afterWord? "alse" cs).map (.boolean false, ·)
  | cs => number? false cs

/-- What separates two members, or ends them with `close`: the text after a comma,
    or else after the closing bracket. -/
inductive Separator where
  | more (rest : List Char)
  | done (rest : List Char)

/-- The separator at the front of a text. -/
def separator? (close : Char) (cs : List Char) : Option Separator :=
  match expect? ',' cs with
  | some rest => some (.more rest)
  | none => (expect? close cs).map .done

mutual

/-- A value at the front of a text. -/
def value? : Nat → List Char → Option (Node × List Char)
  | 0, _ => none
  | fuel + 1, cs =>
    match skipSpace cs with
    | '[' :: cs =>
      match expect? ']' cs with
      | some rest => some (.list none [], rest)
      | none => items? fuel [] cs
    | '\x7b' :: cs =>
      match expect? '\x7d' cs with
      | some rest => some (.map none [], rest)
      | none => entries? fuel [] cs
    | cs => (scalar? cs).map fun (s, rest) => (.scalar s, rest)

/-- The items of a list, after those in `read` in reverse. -/
def items? : Nat → List Node → List Char → Option (Node × List Char)
  | 0, _, _ => none
  | fuel + 1, read, cs => do
    let (item, cs) ← value? fuel cs
    match ← separator? ']' cs with
    | .more cs => items? fuel (item :: read) cs
    | .done cs => some (.list none (item :: read).reverse, cs)

/-- The entries of a map, after those in `read` in reverse. -/
def entries? : Nat → List (Node × Node) → List Char → Option (Node × List Char)
  | 0, _, _ => none
  | fuel + 1, read, cs => do
    let (key, cs) ← text? (← expect? '"' cs)
    let (value, cs) ← value? fuel (← expect? ':' cs)
    match ← separator? '\x7d' cs with
    | .more cs => entries? fuel ((.scalar key, value) :: read) cs
    | .done cs => some (.map none ((.scalar key, value) :: read).reverse, cs)

end

/-- The node of a JSON text, which holds one value and nothing else. -/
def read? (text : String) : Option Node := do
  let cs := text.toList
  let (node, rest) ← value? (2 * cs.length + 2) cs
  if (skipSpace rest).isEmpty then some node else none

end ClientGen.Markup.Json
