/-
  ClientGen.Generate.Method

  The methods of clients.  A method has a signature and decorators only: its
  body throws, and the decorators perform the request at run time.
-/
import ClientGen.Generate.MethodName
import ClientGen.Generate.SchemaType
import ClientGen.Service.Aggregate
import ClientGen.Text.Template

namespace ClientGen

open TypeScript

/-! ## Packages -/

/-- The package of the decorators. -/
def decoratorModule : String := "@ahoo-wang/fetcher-decorator"

/-- The package of event streams. -/
def eventStreamModule : String := "@ahoo-wang/fetcher-eventstream"

/-- The type of a response that streams events. -/
def eventStreamName : String := "JsonServerSentEventStream"

/-- The media type of event streams. -/
def eventStreamType : String := "text/event-stream"

/-- The import of the type of event streams. -/
def eventStreamImport : Import := .name eventStreamModule eventStreamName

/-- The imports of names of the decorator package. -/
def decoratorImports (names : List String) : List Import := names.map (.name decoratorModule)

/-! ## Responses -/

/-- The types that an operation responds with. -/
structure ResponseTypes where
  /-- The type of a plain response. -/
  plain : Option String := none
  /-- The type of one event of a streamed response. -/
  event : Option String := none
deriving DecidableEq, Repr, Inhabited

/-- A promise of a type. -/
def promiseOf (type : String) : String := "Promise<" ++ type ++ ">"

/-- A promise of a stream of events. -/
def promiseOfStream (event : String) : String := promiseOf (eventStreamName ++ "<" ++ event ++ ">")

namespace ResponseTypes

/-- The type that a plain method returns: the plain response if there is one. -/
def returnType (r : ResponseTypes) : String :=
  match r.plain, r.event with
  | some type, _ => promiseOf type
  | none, some event => promiseOfStream event
  | none, none => promiseOf anyType

/-- The type that a streaming method returns: a stream of the events, or else of the
    elements of the plain response. -/
def streamReturnType (r : ResponseTypes) : String :=
  promiseOfStream ((r.event.or (r.plain.map elementType)).getD anyType)

/-- Whether there are both a plain and a streamed response. -/
def hasBoth (r : ResponseTypes) : Bool := r.plain.isSome && r.event.isSome

/-- The types with those of one more media type; the first of each sort counts. -/
def add (d : Document) (referrer : String) (r : ResponseTypes) (media : String × MediaType) :
    Importing ResponseTypes :=
  match media.2.schema with
  | none => return r
  | some s =>
    if Text.startsWith eventStreamType media.1 then
      match r.event with
      | some _ => return r
      | none => do return { r with event := some (elementType (← typeOf d referrer s)) }
    else
      match r.plain with
      | some _ => return r
      | none => do return { r with plain := some (← typeOf d referrer s) }

end ResponseTypes

/-- The types of an operation's response of success. -/
def responseTypes (d : Document) (op : ResolvedOperation) : Importing ResponseTypes :=
  match op.successResponse? with
  | none => return {}
  | some response =>
    response.content.entries.foldlM (ResponseTypes.add d op.identifier) {}

/-! ## Bodies -/

/-- How the body of a request is bound. -/
inductive Body where
  | json (type : String) (required : Bool)
  | form (required : Bool)
deriving DecidableEq, Repr, Inhabited

namespace Body

/-- The name of the parameter. -/
def name : Body → String
  | .json .. => "request"
  | .form _ => "body"

/-- Whether the parameter is required. -/
def required : Body → Bool
  | .json _ required | .form required => required

/-- The parameter that binds a body. -/
def parameter (b : Body) : ParameterDecl :=
  { decorator := some ("@" ++ b.name ++ "()")
    name := b.name
    typeExpr := match b with
      | .json type _ => "ParameterRequest<" ++ type ++ ">"
      | .form _ => "FormData"
    optional := !b.required }

/-- The names that the parameter needs of the decorator package. -/
def decorators : Body → List String
  | .json .. => ["request", "ParameterRequest"]
  | .form _ => ["body"]

end Body

/-- The schema of a body that is not a form: of the first kind of JSON, or else of the
    first media type. -/
def RequestBody.schema? (b : RequestBody) : Option Schema :=
  ((b.content.entries.find? (isJsonType ·.1)).or b.content.entries.head?).bind (·.2.schema)

/-- How the body of an operation is bound. -/
def bodyOf (d : Document) (op : ResolvedOperation) : Importing (Option Body) :=
  match op.requestBody with
  | none => return none
  | some b =>
    if b.content.contains multipartType then return some (.form b.required)
    else do return some (.json (← typeOr (typeOf d op.identifier) b.schema?) b.required)

/-! ## Methods -/

/-- What a method is made from. -/
structure MethodPlan where
  name : String
  operation : ResolvedOperation
  /-- The route in the method's decorator. -/
  route : String
  body : Option Body
  returnType : String
  /-- The path parameters that are supplied at run time. -/
  ignored : List String

/-- The name of the parameter that holds attributes. -/
def attributesName : String := "attributes"

/-- The parameter that holds attributes, which comes last. -/
def attributesParameter : ParameterDecl :=
  { decorator := some "@attribute()", name := attributesName
    typeExpr := "Record<string, any>", optional := true }

/-- The type of a path parameter, which is a text unless its schema says more. -/
def pathParameterType (d : Document) (op : ResolvedOperation) (name : String) :
    Importing String :=
  match ((op.parametersIn .path).find? (·.name == name)).bind (·.schema) with
  | none => return "string"
  | some s => do
    let type ← typeOf d op.identifier s
    return if type = anyType then "string" else type

namespace MethodPlan

/-- The placeholders of the route for which the caller gives a value. -/
def placeholders (p : MethodPlan) : List String :=
  (Text.placeholders p.route).filter (!p.ignored.contains ·)

/-- The query parameters. -/
def queries (p : MethodPlan) : List Parameter := p.operation.parametersIn .query

/-- The parameter names that no placeholder and no query parameter may take. -/
def takenNames (p : MethodPlan) : List String := (p.body.map (·.name)).toList ++ [attributesName]

/-- The parameter names of the placeholders, followed by those of the query
    parameters. -/
def names (p : MethodPlan) : List String :=
  parameterNames p.takenNames (p.placeholders ++ p.queries.map (·.name))

/-- The parameter that binds a placeholder. -/
def pathParameter (d : Document) (p : MethodPlan) (bound : String × String) :
    Importing ParameterDecl := do
  return {
    decorator := some ("@path(" ++ stringLiteral bound.1 ++ ")")
    name := bound.2
    typeExpr := ← pathParameterType d p.operation bound.1 }

/-- The parameter that binds a query parameter. -/
def queryParameter (d : Document) (p : MethodPlan) (bound : Parameter × String) :
    Importing ParameterDecl := do
  return {
    decorator := some ("@query(" ++ stringLiteral bound.1.name ++ ")")
    name := bound.2
    typeExpr := ← typeOr (typeOf d p.operation.identifier) bound.1.schema
    optional := true }

/-- The parameters of a method: required ones before optional ones. -/
def parameters (d : Document) (p : MethodPlan) : Importing (List ParameterDecl) := do
  let path ← (p.placeholders.zip p.names).mapM (p.pathParameter d)
  let query ← (p.queries.zip (p.names.drop p.placeholders.length)).mapM (p.queryParameter d)
  let body := (p.body.map (·.parameter)).toList
  return path ++ body.filter (!·.optional) ++ body.filter (·.optional) ++ query
    ++ [attributesParameter]

/-- The names that a method needs of the decorator package. -/
def decorators (p : MethodPlan) : List String :=
  [p.operation.method.decorator, "attribute", "autoGeneratedError"]
    ++ p.placeholders.map (fun _ => "path")
    ++ (p.body.map (·.decorators)).getD []
    ++ p.queries.map (fun _ => "query")

/-- The documentation of a method. -/
def docs (p : MethodPlan) : List String :=
  markDeprecated p.operation.deprecated
    (docLines p.operation.summary p.operation.description)

/-- The method of a plan. -/
def build (d : Document) (p : MethodPlan) : Importing MethodDecl := do
  let parameters ← p.parameters d
  .noteAll (decoratorImports p.decorators)
  return {
    name := p.name
    docs := p.docs
    decorators := ["@" ++ p.operation.method.decorator ++ "(" ++ stringLiteral p.route ++ ")"]
    parameters
    returnType := p.returnType
    body := ["throw autoGeneratedError(" ++ ", ".intercalate (parameters.map (·.name)) ++ ");"] }

end MethodPlan

end ClientGen
