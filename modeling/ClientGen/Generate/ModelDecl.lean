/-
  ClientGen.Generate.ModelDecl

  The declarations of one schema: an enum, an interface, an interface that
  extends another model, or a type alias.  Object properties of an interface
  that are written in place are lifted: each becomes an interface of its own,
  which takes its name from the interface and the property.
-/
import ClientGen.Generate.SchemaType

namespace ClientGen

open TypeScript

/-! ## What declarations need -/

/-- The claim of a lifted interface to its name. -/
structure Claim where
  model : ModelName
  /-- The key and the property out of which the interface was lifted. -/
  owner : String
deriving DecidableEq, Repr, Inhabited

/-- Something that the declarations of a schema need. -/
inductive Need where
  | import (needed : Import)
  | claim (claim : Claim)
deriving DecidableEq, Repr

/-- A computation that notes imports and claims. -/
abbrev Declaring := Traced Need

/-- The imports among the needs. -/
def importsOf (needs : List Need) : List Import :=
  needs.filterMap fun
    | .import needed => some needed
    | .claim _ => none

/-- The claims among the needs. -/
def claimsOf (needs : List Need) : List Claim :=
  needs.filterMap fun
    | .claim claim => some claim
    | .import _ => none

/-- The type of a schema inside the declarations of `key`. -/
def declaredType (d : Document) (key : String) (s : Schema) : Declaring String :=
  (typeOf d key s).mapNotes .import

/-! ## Classes of schemas -/

/-- The documentation of a schema. -/
def Schema.docs (s : Schema) : List String := docLines s.title s.description

/-- Whether a property of this schema is lifted: an object with properties that is
    written in place. -/
def Schema.isLiftable (s : Schema) : Bool :=
  match s.kind with
  | .object properties => !properties.isEmpty
  | _ => false

/-- Whether a model may extend the model of a schema whose references and members are
    followed for `levels`. -/
def Schema.isExtensibleWithin (d : Document) : Nat → Schema → Bool
  | 0, _ => false
  | levels + 1, s =>
    match s.referencedKey? with
    | some key => (d.schema? key).any (isExtensibleWithin d levels)
    | none =>
      s.isObject ||
        match Schema.members? s.allOf with
        | some members => !s.isUnion && members.all (isExtensibleWithin d levels)
        | none => false

/-- Whether a model may extend the model of a schema. -/
def Schema.isExtensible (d : Document) (s : Schema) : Bool :=
  s.isExtensibleWithin d (nestingLimit + 1)

/-- The reference and the object of an intersection that has one of each, in either
    order, and no other member. -/
def Schema.extension? (s : Schema) : Option (String × Schema) :=
  match s.allOf with
  | some [a, b] =>
    match a.reference, b.reference with
    | some pointer, none => if b.isObject then some (pointer, b) else none
    | none, some pointer => if a.isObject then some (pointer, a) else none
    | _, _ => none
  | _ => none

/-! ## Enums -/

/-- Members with one for a further value, unless its name is taken. -/
def addMember (members : List (String × String)) (value : String) : List (String × String) :=
  let name := enumMemberName value
  if members.any (·.1 == name) then members else members ++ [(name, stringLiteral value)]

/-- The enum of a schema. -/
def enumDecl (name : String) (s : Schema) : EnumDecl :=
  { name, docs := s.docs, members := s.enumMembers.foldl addMember [] }

/-! ## Interfaces -/

/-- The model of an interface that is lifted out of a property. -/
def ModelName.lifted (m : ModelName) (property : String) : ModelName :=
  ⟨m.name ++ Text.pascalCase property, m.path⟩

/-- The type of a property, and the interfaces lifted out of it.  `lift` gives the
    interfaces of an object under a name. -/
def propertyType (d : Document) (key : String) (model : ModelName)
    (lift : ModelName → Schema → Declaring (List InterfaceDecl)) (property : String × Schema) :
    Declaring (List InterfaceDecl × String) := do
  let (name, s) := property
  if s.isLiftable then
    let target := model.lifted name
    .note (.claim ⟨target, key ++ "#" ++ name⟩)
    return (← lift target s, admitNull s target.name)
  else return ([], ← declaredType d key s)

/-- The declaration of a property of a type. -/
def propertyDecl (required : List String) (property : String × Schema) (type : String) :
    PropertyDecl :=
  { name := property.1
    typeExpr := type
    optional := !required.contains property.1
    docs := markDeprecated property.2.deprecated property.2.docs }

/-- The interface of an object schema, preceded by those lifted out of it.  Lifting
    may go `levels` deep, the interface itself included. -/
def interfacesWithin (d : Document) (key : String) :
    Nat → List String → List String → ModelName → Schema → Declaring (List InterfaceDecl)
  | 0, _, _, _, _ => .fail (.tooDeep key nestingLimit)
  | levels + 1, docs, parents, model, s => do
    let lift := fun target inner => interfacesWithin d key levels inner.docs [] target inner
    let declared := s.properties?.getD []
    let types ← declared.mapM (propertyType d key model lift)
    let indexType ← (indexType (typeOf d key) s).mapNotes .import
    let properties := declared.zipWith (propertyDecl s.required) (types.map (·.2))
    return types.flatMap (·.1) ++ [{ name := model.name, docs, parents, properties, indexType }]

/-- The interface of an object schema, preceded by those lifted out of it. -/
def interfaces (d : Document) (key : String) (docs parents : List String) (model : ModelName)
    (s : Schema) : Declaring (List Declaration) :=
  (·.map .interface) <$> interfacesWithin d key (nestingLimit + 1) docs parents model s

/-! ## Models -/

/-- The type alias of a schema. -/
def aliasOf (d : Document) (key : String) (model : ModelName) (s : Schema) :
    Declaring (List Declaration) := do
  return [.alias { name := model.name, docs := s.docs, typeExpr := ← declaredType d key s }]

/-- The interface of an intersection that extends the model of a reference, or an
    alias when that model is not extensible. -/
def extendingInterface (d : Document) (key : String) (model : ModelName) (s : Schema)
    (pointer : String) (own : Schema) : Declaring (List Declaration) := do
  let (_, parent) ← .ofExcept (d.resolveSchema pointer key)
  if parent.isExtensible d then
    let name ← (referenceType d key pointer).mapNotes .import
    interfaces d key s.docs [name] model own
  else aliasOf d key model s

/-- The declarations of the schema of a key, the last of which is its model. -/
def modelDecls (d : Document) (key : String) (s : Schema) : Declaring (List Declaration) :=
  let model := ModelName.ofKey key
  if s.isEnum then return [.enum (enumDecl model.name s)]
  else if s.isObject then interfaces d key s.docs [] model s
  else match s.extension? with
    | some (pointer, own) => extendingInterface d key model s pointer own
    | none => aliasOf d key model s

end ClientGen
