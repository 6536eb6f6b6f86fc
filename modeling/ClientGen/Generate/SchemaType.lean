/-
  ClientGen.Generate.SchemaType

  The type expression of a schema.  A reference is the name of the model that
  it means, whose own schema is not looked into, so that circles of references
  do no harm; what is nested in place is followed to a limit.
-/
import ClientGen.Generate.Traced
import ClientGen.OpenApi.Document
import ClientGen.TypeScript.Declaration
import ClientGen.TypeScript.Import
import ClientGen.TypeScript.TypeExpr

namespace ClientGen

open TypeScript

/-- The deepest nesting that is followed. -/
def nestingLimit : Nat := 64

/-- A computation that notes the imports that its result needs. -/
abbrev Importing := Traced Import

/-- The type of a primitive type name. -/
def primitiveType (name : String) : String :=
  if name = "string" then "string"
  else if name = "number" ∨ name = "integer" then "number"
  else if name = "boolean" then "boolean"
  else if name = "null" then nullType
  else anyType

/-- The union of primitive types, each once. -/
def primitiveUnion (names : List String) : String :=
  let types := (names.map primitiveType).eraseDups
  if types.isEmpty then anyType else " | ".intercalate types

/-- The type of a reference: the name of the model that it means. -/
def referenceType (d : Document) (referrer pointer : String) : Importing String := do
  let (key, _) ← .ofExcept (d.resolveSchema pointer referrer)
  let model := ModelName.ofReference key
  .note (.model model)
  return model.name

/-- The type of an optional schema, which may be anything when it is not there. -/
def typeOr (type : Schema → Importing String) : Option Schema → Importing String
  | some s => type s
  | none => return anyType

/-- A property as a member of an object type. -/
def memberType (type : Schema → Importing String) (required : List String)
    (property : String × Schema) : Importing PropertyDecl := do
  return {
    name := property.1
    typeExpr := ← type property.2
    optional := !required.contains property.1 }

/-- The type of the values under further keys, when those are allowed. -/
def indexType (type : Schema → Importing String) (s : Schema) : Importing (Option String) :=
  match s.additional with
  | some (.schema values) => some <$> type values
  | some (.allowed true) => return some anyType
  | _ => return none

/-- An object type written in place. -/
def objectType (members : List PropertyDecl) (index : Option String) : String :=
  let texts := members.map (·.signature) ++ (index.map ("[key: string]: " ++ ·)).toList
  if texts.isEmpty then emptyObjectType else "\x7b " ++ "; ".intercalate texts ++ " \x7d"

/-- The type of a schema apart from null, where `inner` gives the types of what is
    nested in it. -/
def typeByKind (d : Document) (referrer : String) (inner : Schema → Importing String)
    (s : Schema) : Importing String :=
  match s.kind with
  | .reference pointer => referenceType d referrer pointer
  | .map values => do return "Record<string, " ++ (← typeOr inner values) ++ ">"
  | .const value => return value.literal
  | .enum members => return " | ".intercalate (members.map stringLiteral)
  | .composition composition members => do
    return joinTypes composition.operator (← members.mapM inner)
  | .array items => do return arrayType (← typeOr inner items)
  | .object properties => do
    let members ← properties.mapM (memberType inner s.required)
    return objectType members (← indexType inner s)
  | .primitive names => return primitiveUnion names
  | .unknown => return anyType

/-- A type that admits null when the schema says so. -/
def admitNull (s : Schema) (type : String) : String := if s.nullable then withNull type else type

/-- The type of a schema whose nesting may go `levels` deep, itself included.
    `referrer` is what the type is for. -/
def typeWithin (d : Document) (referrer : String) : Nat → Schema → Importing String
  | 0, _ => .fail (.tooDeep referrer nestingLimit)
  | levels + 1, s => admitNull s <$> typeByKind d referrer (typeWithin d referrer levels) s

/-- The type of a schema. -/
def typeOf (d : Document) (referrer : String) (s : Schema) : Importing String :=
  typeWithin d referrer (nestingLimit + 1) s

end ClientGen
