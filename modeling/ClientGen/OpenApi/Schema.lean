/-
  ClientGen.OpenApi.Schema

  Schemas, and the single kind that each schema is of.  The order in which the
  kinds are tried is the precedence that the generated types follow.
-/
import ClientGen.Map.Ordered
import ClientGen.Text.Split
import ClientGen.TypeScript.Literal

namespace ClientGen

/-! ## Schemas -/

/-- The `type` keyword: one type name, or a list of them. -/
inductive TypeNames where
  | single (name : String)
  | several (names : List String)
deriving DecidableEq, Repr, Inhabited

/-- All type names in order. -/
def TypeNames.toList : TypeNames → List String
  | .single name => [name]
  | .several names => names

/-- The `additionalProperties` keyword: whether further properties are allowed, or
    the schema of their values. -/
inductive Additional (σ : Type) where
  | allowed (allowed : Bool)
  | schema (schema : σ)
deriving Inhabited

/-- A schema.  Keywords that are not there are `none`, empty or `false`. -/
structure Schema where
  reference : Option String := none
  title : Option String := none
  description : Option String := none
  type : Option TypeNames := none
  format : Option String := none
  enumValues : Option (List Constant) := none
  constValue : Option Constant := none
  /-- The entries of `properties` as they come, with repeated names. -/
  propertyEntries : Option (List (String × Schema)) := none
  required : List String := []
  additional : Option (Additional Schema) := none
  items : Option Schema := none
  allOf : Option (List Schema) := none
  anyOf : Option (List Schema) := none
  oneOf : Option (List Schema) := none
  nullable : Bool := false
  deprecated : Bool := false
deriving Inhabited

/-- What precedes the key in a pointer to a component schema. -/
def schemaPointerStart : String := "#/components/schemas/"

/-- The component key that a schema pointer means. -/
def schemaKey? (pointer : String) : Option String := Text.afterStart? schemaPointerStart pointer

/-- How member types are composed. -/
inductive Composition where
  | allOf
  | anyOf
  | oneOf
deriving DecidableEq, Repr, Inhabited

/-- The operator between the types of the members. -/
def Composition.operator : Composition → String
  | .allOf => " & "
  | .anyOf | .oneOf => " | "

namespace Schema

/-- A schema that refers to a component. -/
def referenceTo (key : String) : Schema := { reference := some (schemaPointerStart ++ key) }

/-- The component key to which a schema refers. -/
def referencedKey? (s : Schema) : Option String := s.reference.bind schemaKey?

/-- The declared properties; a repeated name keeps its first place and takes its
    last schema. -/
def properties? (s : Schema) : Option (List (String × Schema)) :=
  s.propertyEntries.map Entries.collapse

theorem nodup_properties {s : Schema} {ps : List (String × Schema)}
    (h : s.properties? = some ps) : (Entries.keys ps).Nodup := by
  obtain ⟨entries, -, rfl⟩ := Option.map_eq_some_iff.1 h
  exact Entries.nodup_collapse entries

/-! ## Classes of schemas -/

/-- The texts of an enumeration in order, without empty ones. -/
def enumMembers (s : Schema) : List String :=
  ((s.enumValues.getD []).filterMap fun
    | .text t => some t
    | _ => none).filter (!·.isEmpty)

/-- Whether the schema is a reference. -/
def isReference (s : Schema) : Bool := s.reference.isSome

/-- Whether the schema enumerates texts. -/
def isEnum (s : Schema) : Bool := !s.enumMembers.isEmpty

/-- Whether the schema declares properties, or that there are none. -/
def isObject (s : Schema) : Bool := s.propertyEntries.isSome

/-- Whether the schema has the one type `array`. -/
def isArray (s : Schema) : Bool :=
  match s.type with
  | some (.single name) => name == "array"
  | _ => false

/-- Whether further properties are allowed. -/
def isOpen (s : Schema) : Bool :=
  match s.additional with
  | some (.allowed b) => b
  | some (.schema _) => true
  | none => false

/-- Whether the schema has no properties but those under arbitrary keys. -/
def isMap (s : Schema) : Bool := !s.isObject && s.isOpen

/-- The schema of the values under arbitrary keys. -/
def additionalSchema? (s : Schema) : Option Schema :=
  match s.additional with
  | some (.schema inner) => some inner
  | _ => none

/-- The members of a keyword, unless there are none. -/
def members? (members : Option (List Schema)) : Option (List Schema) :=
  members.filter (!·.isEmpty)

/-- Whether the schema is an intersection. -/
def isAllOf (s : Schema) : Bool := (members? s.allOf).isSome

/-- Whether the schema is a union. -/
def isUnion (s : Schema) : Bool := (members? s.anyOf).isSome || (members? s.oneOf).isSome

/-- Whether the schema is composed of members. -/
def isComposition (s : Schema) : Bool := s.isAllOf || s.isUnion

/-- The names of the types that need no declaration. -/
def primitiveNames : List String := ["string", "number", "integer", "boolean", "null"]

/-- Whether the schema has types, all of which are primitive. -/
def isPrimitive (s : Schema) : Bool :=
  match s.type with
  | some type => !type.toList.isEmpty && type.toList.all primitiveNames.contains
  | none => false

/-- The first composition keyword that has members. -/
def composition? (s : Schema) : Option (Composition × List Schema) :=
  ((members? s.allOf).map (.allOf, ·)).or
    (((members? s.anyOf).map (.anyOf, ·)).or ((members? s.oneOf).map (.oneOf, ·)))

end Schema

/-! ## Kinds -/

/-- The kind of a schema. -/
inductive SchemaKind where
  | reference (pointer : String)
  /-- A map; without a schema its values are of any type. -/
  | map (values : Option Schema)
  | const (value : Constant)
  | enum (members : List String)
  | composition (composition : Composition) (members : List Schema)
  /-- An array; without a schema its items are of any type. -/
  | array (items : Option Schema)
  | object (properties : List (String × Schema))
  | primitive (names : List String)
  | unknown
deriving Inhabited

/-- The kind of a schema: the first that fits. -/
def Schema.kind (s : Schema) : SchemaKind :=
  match s.reference with
  | some pointer => .reference pointer
  | none =>
    if s.isMap then .map s.additionalSchema?
    else match s.constValue with
      | some value => .const value
      | none =>
        if s.isEnum then .enum s.enumMembers
        else match s.composition? with
          | some (composition, members) => .composition composition members
          | none =>
            if s.isArray then .array s.items
            else match s.properties? with
              | some properties => .object properties
              | none =>
                if s.isPrimitive then .primitive ((s.type.map TypeNames.toList).getD [])
                else .unknown

end ClientGen
