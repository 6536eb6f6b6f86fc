/-
  ClientGen.TypeScript.TypeExpr

  Type expressions as texts: the operators that a text has outside brackets,
  and how arrays, unions, intersections and nullable types are composed.
-/
import ClientGen.Text.Split

namespace ClientGen.TypeScript

/-- The type wherever a schema has no usable shape. -/
def anyType : String := "any"

/-- The type of an object that declares no properties at all. -/
def emptyObjectType : String := "Record<string, never>"

/-- The type of the null value. -/
def nullType : String := "null"

/-! ## Operators outside brackets -/

/-- Where a walk along a type expression stands: inside a quotation, closed by the
    character that opened it, or outside, at a depth of brackets. -/
inductive Place where
  | quoted (quote : Char) (depth : Int)
  | bare (depth : Int)
deriving DecidableEq, Repr

/-- The place after a character. -/
def Place.after : Place → Char → Place
  | .quoted quote depth, c => if c = quote then .bare depth else .quoted quote depth
  | .bare depth, c =>
    if c = '\x27' ∨ c = '"' then .quoted c depth
    else if c = '(' ∨ c = '<' ∨ c = '{' ∨ c = '[' then .bare (depth + 1)
    else if c = ')' ∨ c = '>' ∨ c = '}' ∨ c = ']' then .bare (depth - 1)
    else .bare depth

/-- Whether a `|` or `&` stands outside all brackets and quotations, in a walk
    that has come to `place`. -/
def operatorFrom (place : Place) : List Char → Bool
  | [] => false
  | c :: rest => (place = .bare 0 && (c == '|' || c == '&')) || operatorFrom (place.after c) rest

/-- Whether a type expression has a `|` or `&` outside all brackets. -/
def hasTopLevelOperator (expr : String) : Bool := operatorFrom (.bare 0) expr.toList

/-! ## Composition -/

/-- The type of arrays of `element`, which is put in parentheses when it has an
    operator outside brackets. -/
def arrayType (element : String) : String :=
  if hasTopLevelOperator element then "(" ++ element ++ ")[]" else element ++ "[]"

/-- The element type of an array type; any other type is its own. -/
def elementType (expr : String) : String :=
  if hasTopLevelOperator expr then expr
  else match Text.beforeEnd? "[]" expr with
    | none => expr
    | some inner =>
      ((Text.afterStart? "(" inner).bind (Text.beforeEnd? ")")).getD inner

/-- Member types joined by an operator, always in parentheses. -/
def joinTypes (separator : String) (members : List String) : String :=
  if members.isEmpty then anyType else "(" ++ separator.intercalate members ++ ")"

/-- A type widened by null, unless its text shows that null is in it already. -/
def withNull (expr : String) : String :=
  if expr = nullType ∨ expr = anyType ∨ Text.endsWith "| null" expr then expr
  else expr ++ " | null"

end ClientGen.TypeScript
