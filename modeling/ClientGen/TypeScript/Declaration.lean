/-
  ClientGen.TypeScript.Declaration

  The top-level declarations of generated files and their texts.
-/
import ClientGen.TypeScript.DocComment
import ClientGen.TypeScript.Literal

namespace ClientGen.TypeScript

/-! ## Declarations of models -/

/-- An exported enum; a member is an identifier with a literal value. -/
structure EnumDecl where
  name : String
  docs : List String := []
  members : List (String × String) := []
deriving DecidableEq, Repr, Inhabited

/-- A property of an interface. -/
structure PropertyDecl where
  name : String
  typeExpr : String
  optional : Bool := false
  docs : List String := []
deriving DecidableEq, Repr, Inhabited

/-- An exported interface. -/
structure InterfaceDecl where
  name : String
  docs : List String := []
  parents : List String := []
  properties : List PropertyDecl := []
  /-- The type of the values under further keys, when those are allowed. -/
  indexType : Option String := none
deriving DecidableEq, Repr, Inhabited

/-- An exported type alias. -/
structure AliasDecl where
  name : String
  docs : List String := []
  typeExpr : String
deriving DecidableEq, Repr, Inhabited

/-- An exported constant. -/
structure ConstDecl where
  name : String
  docs : List String := []
  declaredType : Option String := none
  initializer : String
deriving DecidableEq, Repr, Inhabited

/-! ## Declarations of classes -/

/-- A method parameter, with the decorator that binds it. -/
structure ParameterDecl where
  decorator : Option String := none
  name : String
  typeExpr : String
  optional : Bool := false
deriving DecidableEq, Repr, Inhabited

/-- A class method. -/
structure MethodDecl where
  name : String
  docs : List String := []
  decorators : List String := []
  parameters : List ParameterDecl := []
  returnType : String
  body : List String := []
deriving DecidableEq, Repr, Inhabited

/-- An exported class. -/
structure ClassDecl where
  name : String
  docs : List String := []
  decorators : List String := []
  implemented : List String := []
  /-- The parameter list of a constructor with an empty body. -/
  constructorParameters : Option String := none
  methods : List MethodDecl := []
deriving DecidableEq, Repr, Inhabited

/-- Whether a class has a method of this name. -/
def ClassDecl.hasMethod (c : ClassDecl) (name : String) : Bool :=
  c.methods.any (·.name == name)

/-- The class with one more method. -/
def ClassDecl.addMethod (c : ClassDecl) (m : MethodDecl) : ClassDecl :=
  { c with methods := c.methods ++ [m] }

/-- A top-level declaration. -/
inductive Declaration where
  | enum (decl : EnumDecl)
  | interface (decl : InterfaceDecl)
  | alias (decl : AliasDecl)
  | const (decl : ConstDecl)
  | class (decl : ClassDecl)
deriving DecidableEq, Repr, Inhabited

/-- The exported name of a declaration. -/
def Declaration.name : Declaration → String
  | .enum d => d.name
  | .interface d => d.name
  | .alias d => d.name
  | .const d => d.name
  | .class d => d.name

/-! ## Texts -/

/-- The mark of an optional property or parameter. -/
def optionalMark (optional : Bool) : String := if optional then "?" else ""

/-- A clause with comma-separated names, left out when there are none. -/
def clause (keyword : String) (names : List String) : String :=
  if names.isEmpty then "" else " " ++ keyword ++ " " ++ ", ".intercalate names

/-- A property in front of its closing semicolon. -/
def PropertyDecl.signature (p : PropertyDecl) : String :=
  propertyKey p.name ++ optionalMark p.optional ++ ": " ++ p.typeExpr

/-- The text of an enum. -/
def EnumDecl.render (d : EnumDecl) : String :=
  renderDocs "" d.docs ++ "export enum " ++ d.name ++ " \x7b\n"
    ++ String.join (d.members.map fun m => "  " ++ m.1 ++ " = " ++ m.2 ++ ",\n") ++ "\x7d\n"

/-- The text of a property inside its interface. -/
def PropertyDecl.render (p : PropertyDecl) : String :=
  renderDocs "  " p.docs ++ "  " ++ p.signature ++ ";\n"

/-- The text of an interface. -/
def InterfaceDecl.render (d : InterfaceDecl) : String :=
  renderDocs "" d.docs ++ "export interface " ++ d.name ++ clause "extends" d.parents ++ " \x7b\n"
    ++ String.join (d.properties.map PropertyDecl.render)
    ++ (match d.indexType with
        | some value => "  [key: string]: " ++ value ++ ";\n"
        | none => "")
    ++ "\x7d\n"

/-- The text of a type alias. -/
def AliasDecl.render (d : AliasDecl) : String :=
  renderDocs "" d.docs ++ "export type " ++ d.name ++ " = " ++ d.typeExpr ++ ";\n"

/-- The text of a constant. -/
def ConstDecl.render (d : ConstDecl) : String :=
  renderDocs "" d.docs ++ "export const " ++ d.name
    ++ (match d.declaredType with
        | some type => ": " ++ type
        | none => "")
    ++ " = " ++ d.initializer ++ ";\n"

/-- The text of a parameter in its parameter list. -/
def ParameterDecl.render (p : ParameterDecl) : String :=
  (match p.decorator with
   | some decorator => decorator ++ " "
   | none => "")
    ++ p.name ++ optionalMark p.optional ++ ": " ++ p.typeExpr

/-- The text of a method inside its class. -/
def MethodDecl.render (m : MethodDecl) : String :=
  renderDocs "  " m.docs
    ++ String.join (m.decorators.map fun d => "  " ++ d ++ "\n")
    ++ "  " ++ m.name ++ "(" ++ ", ".intercalate (m.parameters.map ParameterDecl.render) ++ "): "
    ++ m.returnType ++ " \x7b\n"
    ++ String.join (m.body.map fun line => "    " ++ line ++ "\n") ++ "  \x7d\n"

/-- The texts of the members of a class: its constructor, then its methods. -/
def ClassDecl.renderMembers (d : ClassDecl) : List String :=
  (d.constructorParameters.map fun p => "  constructor(" ++ p ++ ") \x7b\x7d\n").toList
    ++ d.methods.map MethodDecl.render

/-- The text of a class; an empty line parts its members. -/
def ClassDecl.render (d : ClassDecl) : String :=
  renderDocs "" d.docs ++ String.join (d.decorators.map (· ++ "\n"))
    ++ "export class " ++ d.name ++ clause "implements" d.implemented ++ " \x7b\n"
    ++ "\n".intercalate d.renderMembers ++ "\x7d\n"

/-- The text of a declaration. -/
def Declaration.render : Declaration → String
  | .enum d => d.render
  | .interface d => d.render
  | .alias d => d.render
  | .const d => d.render
  | .class d => d.render

end ClientGen.TypeScript
