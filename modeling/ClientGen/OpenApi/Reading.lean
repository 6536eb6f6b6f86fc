/-
  ClientGen.OpenApi.Reading

  Reading documents and schemas from nodes.  The names of each structure stand
  in the order in which a list may give its fields.
-/
import ClientGen.Markup.Reading
import ClientGen.OpenApi.Document

namespace ClientGen

open Markup

/-! ## Schemas -/

/-- Reads type names: one text, or a list of texts. -/
def TypeNames.read (depth : Nat) (n : Node) : Reading TypeNames :=
  readTyped (fun depth n =>
    readEither (do return .single (← readText n))
      (do return .several (← readList (fun _ => readText) depth n))) depth n

/-- The fields of a schema. -/
def Schema.fieldNames : List String :=
  ["$ref", "title", "description", "type", "format", "enum", "const", "properties", "required",
   "additionalProperties", "items", "allOf", "anyOf", "oneOf", "nullable", "deprecated"]

/-- Reads a schema.  `fuel` exceeds the depth. -/
def Schema.readFrom : Nat → Nat → Node → Reading Schema
  | 0, _, _ => failure
  | fuel + 1, depth, n => do
    let (depth, f) ← readFields Schema.fieldNames depth n
    let members := readList (Schema.readFrom fuel) depth
    return {
      reference := ← f.get? "$ref" readText
      title := ← f.get? "title" readText
      description := ← f.get? "description" readText
      type := ← f.get? "type" (TypeNames.read depth)
      format := ← f.get? "format" readText
      enumValues := ← f.get? "enum" (readList readConstant depth)
      constValue := ← f.get? "const" (readConstant depth)
      propertyEntries := ← f.get? "properties" (readEntries (Schema.readFrom fuel) depth)
      required := ← f.getD "required" [] (readList (fun _ => readText) depth)
      additional := ← f.get? "additionalProperties" (readTyped (fun depth n =>
        readEither (do return .allowed (← readBoolean n))
          (do return .schema (← Schema.readFrom fuel depth n))) depth)
      items := ← f.get? "items" (Schema.readFrom fuel depth)
      allOf := ← f.get? "allOf" members
      anyOf := ← f.get? "anyOf" members
      oneOf := ← f.get? "oneOf" members
      nullable := ← f.getD "nullable" false readBoolean
      deprecated := ← f.getD "deprecated" false readBoolean
    }

/-- Reads a schema. -/
def Schema.read (depth : Nat) (n : Node) : Reading Schema :=
  Schema.readFrom (depth + n.height + 2) depth n

/-! ## Items and references -/

/-- Reads a reference, of whose fields only the pointer counts. -/
def RefOr.readReference {α : Type} (depth : Nat) (n : Node) : Reading (RefOr α) := do
  match n with
  | .map .. =>
    let (_, f) ← readFields ["$ref"] depth n
    return .reference (← f.require "$ref" readText)
  | _ => failure

/-- Reads a reference, or else an item. -/
def RefOr.read {α : Type} (item : Nat → Node → Reading α) (depth : Nat) (n : Node) :
    Reading (RefOr α) :=
  readTyped (fun depth n =>
    readEither (RefOr.readReference depth n) (do return .item (← item depth n))) depth n

/-! ## Operations -/

/-- The location of a name. -/
def ParameterLocation.ofName? (name : String) : Option ParameterLocation :=
  [ParameterLocation.path, .query, .header, .cookie].find? (·.name == name)

/-- The location that a followed node names: a text, a private tag with nothing
    behind it, or a map from the name to null. -/
def ParameterLocation.of? (depth : Nat) : Node → Option ParameterLocation
  | .scalar (.written style tag s) =>
    match tag.bind (Text.afterStart? "!") with
    | some name =>
      if style = .plain ∧ (s.isEmpty ∨ Yaml.isNull s) then ofName? name else none
    | none => ofName? s
  | .scalar (.text s) => ofName? s
  | .map _ [(.scalar (.text name), .scalar .null)] => if depth = 0 then none else ofName? name
  | .map _ [(.scalar (.number (.integer n)), .scalar .null)] =>
    if n < 0 then none else [path, query, header, cookie][n.toNat]?
  | _ => none

/-- Reads a location. -/
def ParameterLocation.read (depth : Nat) (n : Node) : Reading ParameterLocation := do
  match ParameterLocation.of? depth (← follow n) with
  | some location => return location
  | none => failure

/-- Reads a parameter. -/
def Parameter.read (depth : Nat) (n : Node) : Reading Parameter := do
  let (depth, f) ← readFields ["name", "in", "required", "description", "schema"] depth n
  return {
    name := ← f.require "name" readText
    location := ← f.require "in" (ParameterLocation.read depth)
    required := ← f.getD "required" false readBoolean
    description := ← f.get? "description" readText
    schema := ← f.get? "schema" (Schema.read depth)
  }

/-- Reads the content of a media type. -/
def MediaType.read (depth : Nat) (n : Node) : Reading MediaType := do
  let (depth, f) ← readFields ["schema"] depth n
  return { schema := ← f.get? "schema" (Schema.read depth) }

/-- Reads a request body. -/
def RequestBody.read (depth : Nat) (n : Node) : Reading RequestBody := do
  let (depth, f) ← readFields ["description", "required", "content"] depth n
  return {
    description := ← f.get? "description" readText
    required := ← f.getD "required" false readBoolean
    content := ← f.getD "content" {} (readMap MediaType.read depth)
  }

/-- Reads a response. -/
def Response.read (depth : Nat) (n : Node) : Reading Response := do
  let (depth, f) ← readFields ["description", "content"] depth n
  return {
    description := ← f.get? "description" readText
    content := ← f.getD "content" {} (readMap MediaType.read depth)
  }

/-- Reads an operation. -/
def Operation.read (depth : Nat) (n : Node) : Reading Operation := do
  let (depth, f) ← readFields
    ["operationId", "summary", "description", "tags", "parameters", "requestBody", "responses",
     "deprecated"] depth n
  return {
    operationId := ← f.get? "operationId" readText
    summary := ← f.get? "summary" readText
    description := ← f.get? "description" readText
    tags := ← f.getD "tags" [] (readList (fun _ => readText) depth)
    parameters := ← f.getD "parameters" [] (readList (RefOr.read Parameter.read) depth)
    requestBody := ← f.get? "requestBody" (RefOr.read RequestBody.read depth)
    responses := ← f.getD "responses" {} (readMap (RefOr.read Response.read) depth)
    deprecated := ← f.getD "deprecated" false readBoolean
  }

/-- Reads the operations of a path. -/
def PathItem.read (depth : Nat) (n : Node) : Reading PathItem := do
  let (depth, f) ← readFields
    ["summary", "description", "get", "put", "post", "delete", "patch", "head", "options",
     "parameters"] depth n
  let summary ← f.get? "summary" readText
  let description ← f.get? "description" readText
  let operations ← HttpMethod.all.mapM fun method => do
    return (method, ← f.get? method.name (Operation.read depth))
  let parameters ← f.getD "parameters" [] (readList (RefOr.read Parameter.read) depth)
  return {
    summary, description, parameters
    operation? := fun method => (operations.lookup method).join
  }

/-! ## Documents -/

/-- The field that holds the alias of the bounded context. -/
def contextAliasField : String := "x-wow-context-alias"

/-- Reads what a document says of itself. -/
def Info.read (depth : Nat) (n : Node) : Reading Info := do
  let (_, f) ← readFields ["title", "version", "description", contextAliasField] depth n
  return {
    title := ← f.getD "title" "" readText
    version := ← f.getD "version" "" readText
    description := ← f.get? "description" readText
    contextAlias := ← f.get? contextAliasField readText
  }

/-- Reads a tag. -/
def Tag.read (depth : Nat) (n : Node) : Reading Tag := do
  let (_, f) ← readFields ["name", "description"] depth n
  return {
    name := ← f.require "name" readText
    description := ← f.get? "description" readText
  }

/-- Reads components, none of which is a reference. -/
def Components.read (depth : Nat) (n : Node) : Reading Components := do
  let (depth, f) ← readFields ["schemas", "parameters", "requestBodies", "responses"] depth n
  return {
    schemas := ← f.getD "schemas" {} (readMap Schema.read depth)
    parameters := ← f.getD "parameters" {} (readMap Parameter.read depth)
    requestBodies := ← f.getD "requestBodies" {} (readMap RequestBody.read depth)
    responses := ← f.getD "responses" {} (readMap Response.read depth)
  }

/-- Reads a document. -/
def Document.read (depth : Nat) (n : Node) : Reading Document := do
  let (depth, f) ← readFields
    ["openapi", "info", "tags", "paths", "components", contextAliasField] depth n
  return {
    openapi := ← f.getD "openapi" "" readText
    info := ← f.getD "info" {} (Info.read depth)
    tags := ← f.getD "tags" [] (readList Tag.read depth)
    paths := ← f.getD "paths" {} (readMap PathItem.read depth)
    components := ← f.getD "components" {} (Components.read depth)
    contextAlias := ← f.get? contextAliasField readText
  }

/-- The document of a text in JSON or YAML. -/
def Document.parse (text source : String) : Except GenerationError Document :=
  if (Text.nonBlank? text).isNone then .error (.unreadableDocument source .empty)
  else match readText? Document.read text with
    | some d => .ok d
    | none => .error (.unreadableDocument source .malformed)

end ClientGen
