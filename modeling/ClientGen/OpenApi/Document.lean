/-
  ClientGen.OpenApi.Document

  The part of an OpenAPI document that generation reads, with its maps in
  document order, and the resolution of references into its components.
-/
import ClientGen.Error
import ClientGen.OpenApi.Schema

namespace ClientGen

/-! ## Operations -/

/-- The HTTP methods, in the order in which the operations of a path are visited. -/
inductive HttpMethod where
  | get
  | put
  | post
  | delete
  | patch
  | head
  | options
deriving DecidableEq, Repr, Inhabited

namespace HttpMethod

/-- All methods in order. -/
def all : List HttpMethod := [.get, .put, .post, .delete, .patch, .head, .options]

/-- The name of a method. -/
def name : HttpMethod → String
  | .get => "get"
  | .put => "put"
  | .post => "post"
  | .delete => "delete"
  | .patch => "patch"
  | .head => "head"
  | .options => "options"

/-- The decorator of a method: its name, but `delete` is a reserved word. -/
def decorator : HttpMethod → String
  | .delete => "del"
  | m => m.name

/-- Whether a request of this method may carry a command. -/
def isWrite : HttpMethod → Bool
  | .post | .put | .delete | .patch => true
  | .get | .head | .options => false

end HttpMethod

/-- Where a parameter is bound. -/
inductive ParameterLocation where
  | path
  | query
  | header
  | cookie
deriving DecidableEq, Repr, Inhabited

/-- The name of a location. -/
def ParameterLocation.name : ParameterLocation → String
  | .path => "path"
  | .query => "query"
  | .header => "header"
  | .cookie => "cookie"

/-- A parameter of an operation. -/
structure Parameter where
  name : String
  location : ParameterLocation
  required : Bool := false
  description : Option String := none
  schema : Option Schema := none
deriving Inhabited

/-- The content of one media type. -/
structure MediaType where
  schema : Option Schema := none
deriving Inhabited

/-- The body of a request. -/
structure RequestBody where
  description : Option String := none
  required : Bool := false
  content : OrderedMap MediaType := {}
deriving Inhabited

/-- A response. -/
structure Response where
  description : Option String := none
  content : OrderedMap MediaType := {}
deriving Inhabited

/-- An item, or a reference to a component. -/
inductive RefOr (α : Type) where
  | reference (pointer : String)
  | item (item : α)
deriving Inhabited

/-- An operation. -/
structure Operation where
  operationId : Option String := none
  summary : Option String := none
  description : Option String := none
  tags : List String := []
  parameters : List (RefOr Parameter) := []
  requestBody : Option (RefOr RequestBody) := none
  responses : OrderedMap (RefOr Response) := {}
  deprecated : Bool := false
deriving Inhabited

/-- The operations of a path, at most one for each method. -/
structure PathItem where
  summary : Option String := none
  description : Option String := none
  operation? : HttpMethod → Option Operation := fun _ => none
  /-- Parameters of every operation of the path. -/
  parameters : List (RefOr Parameter) := []
deriving Inhabited

/-! ## Documents -/

/-- What a document says of itself. -/
structure Info where
  title : String := ""
  version : String := ""
  description : Option String := none
  contextAlias : Option String := none
deriving DecidableEq, Repr, Inhabited

/-- A tag, by which operations are grouped. -/
structure Tag where
  name : String
  description : Option String := none
deriving DecidableEq, Repr, Inhabited

/-- The components to which references point. -/
structure Components where
  schemas : OrderedMap Schema := {}
  parameters : OrderedMap Parameter := {}
  requestBodies : OrderedMap RequestBody := {}
  responses : OrderedMap Response := {}
deriving Inhabited

/-- An OpenAPI document. -/
structure Document where
  openapi : String := ""
  info : Info := {}
  tags : List Tag := []
  paths : OrderedMap PathItem := {}
  components : Components := {}
  contextAlias : Option String := none
deriving Inhabited

/-- An operation with the path and method under which it stands. -/
structure Endpoint where
  path : String
  method : HttpMethod
  item : PathItem
  operation : Operation
deriving Inhabited

/-- The endpoints of a path in the order of methods. -/
def PathItem.endpoints (item : PathItem) (path : String) : List Endpoint :=
  HttpMethod.all.filterMap fun method =>
    (item.operation? method).map fun operation => { path, method, item, operation }

/-- What an operation is called in reports: its id, or its method and path. -/
def Endpoint.label (e : Endpoint) : String :=
  match e.operation.operationId with
  | some id => id
  | none => String.ofList (e.method.name.toList.map Char.toUpper) ++ " " ++ e.path

namespace Document

/-- The alias of the bounded context, from the document or else from its info. -/
def alias? (d : Document) : Option String :=
  (d.contextAlias.or d.info.contextAlias).bind Text.nonBlank?

/-- All endpoints in document order. -/
def endpoints (d : Document) : List Endpoint :=
  d.paths.entries.flatMap fun (path, item) => item.endpoints path

/-- The tag of a name; one that the document does not describe is bare. -/
def tag (d : Document) (name : String) : Tag :=
  (d.tags.find? (·.name == name)).getD { name }

/-! ## References -/

/-- A component schema. -/
def schema? (d : Document) (key : String) : Option Schema := d.components.schemas.get? key

/-- The key and the body of the component schema that a pointer means. -/
def resolveSchema (d : Document) (pointer referrer : String) :
    Except GenerationError (String × Schema) :=
  match schemaKey? pointer with
  | none => .error (.unresolvedReference pointer referrer)
  | some key =>
    match d.schema? key with
    | none => .error (.unresolvedReference pointer referrer)
    | some schema => .ok (key, schema)

/-- An item, or the component that a reference to it means. -/
def resolveComponent {α : Type} (components : OrderedMap α) (start : String)
    (item : RefOr α) (referrer : String) : Except GenerationError α :=
  match item with
  | .item a => .ok a
  | .reference pointer =>
    match (Text.afterStart? start pointer).bind components.get? with
    | some a => .ok a
    | none => .error (.unresolvedReference pointer referrer)

/-- The parameter that an item means. -/
def parameter (d : Document) : RefOr Parameter → String → Except GenerationError Parameter :=
  resolveComponent d.components.parameters "#/components/parameters/"

/-- The request body that an item means. -/
def requestBody (d : Document) : RefOr RequestBody → String → Except GenerationError RequestBody :=
  resolveComponent d.components.requestBodies "#/components/requestBodies/"

/-- The response that an item means. -/
def response (d : Document) : RefOr Response → String → Except GenerationError Response :=
  resolveComponent d.components.responses "#/components/responses/"

end Document

end ClientGen
