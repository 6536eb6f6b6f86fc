/-
  ClientGen.TypeScript.Literal

  Literals of generated TypeScript: single-quoted strings, property keys and
  the literal types of constant values.
-/
import ClientGen.Number.Decimal
import ClientGen.TypeScript.Identifier

namespace ClientGen.TypeScript

/-! ## Quoted strings -/

/-- How a character is written between single quotes. -/
def quotedChar (c : Char) : List Char :=
  if c = '\\' then ['\\', '\\']
  else if c = '\x27' then ['\\', '\x27']
  else if c = '\n' then ['\\', 'n']
  else if c = '\r' then ['\\', 'r']
  else [c]

/-- The characters of a single-quoted literal. -/
def quotedChars (cs : List Char) : List Char :=
  '\x27' :: (cs.flatMap quotedChar ++ ['\x27'])

/-- A text as a single-quoted literal. -/
def stringLiteral (s : String) : String := String.ofList (quotedChars s.toList)

/-- A property name as it stands in a type: bare when it is an identifier. -/
def propertyKey (name : String) : String :=
  if isIdentifier name then name else stringLiteral name

end ClientGen.TypeScript

namespace ClientGen

/-- A constant value of a schema.  Lists and maps have no literal form, so
    nothing is kept of them. -/
inductive Constant where
  | null
  | boolean (value : Bool)
  | number (value : Number)
  | text (value : String)
  | compound
deriving Repr

/-- The literal type of a constant value. -/
def Constant.literal : Constant → String
  | .null => "null"
  | .boolean b => if b then "true" else "false"
  | .number n => n.text
  | .text s => TypeScript.stringLiteral s
  | .compound => "any"

end ClientGen
