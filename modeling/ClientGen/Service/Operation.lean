/-
  ClientGen.Service.Operation

  Operations with every reference to a component replaced by what it means, and
  what can be read off one operation alone: its identifier, whether it is a
  query, and the response that it gives when it succeeds.
-/
import ClientGen.OpenApi.Document

namespace ClientGen

/-- An operation without references to parameters, bodies or responses. -/
structure ResolvedOperation where
  operationId : Option String := none
  method : HttpMethod
  path : String
  summary : Option String := none
  description : Option String := none
  tags : List String := []
  /-- No two parameters have both name and location in common. -/
  parameters : List Parameter := []
  requestBody : Option RequestBody := none
  responses : OrderedMap Response := {}
  deprecated : Bool := false
deriving Inhabited

/-! ## Resolution -/

/-- Whether two parameters bind the same thing. -/
def Parameter.sameBinding (p q : Parameter) : Bool :=
  p.name == q.name && p.location == q.location

/-- A parameter list with one more parameter, which replaces any other that binds
    the same thing. -/
def overrideParameter (parameters : List Parameter) (p : Parameter) : List Parameter :=
  parameters.filter (!·.sameBinding p) ++ [p]

namespace Endpoint

/-- The parameters of an endpoint: those of its path, overridden by its own. -/
def parameters (e : Endpoint) (d : Document) : Except GenerationError (List Parameter) := do
  let all ← (e.item.parameters ++ e.operation.parameters).mapM (d.parameter · e.label)
  return all.foldl overrideParameter []

/-- The request body of an endpoint. -/
def requestBody (e : Endpoint) (d : Document) : Except GenerationError (Option RequestBody) :=
  match e.operation.requestBody with
  | none => .ok none
  | some body => some <$> d.requestBody body e.label

/-- The operation of an endpoint with its references resolved, or the first
    reference that means nothing. -/
def resolve (e : Endpoint) (d : Document) : Except GenerationError ResolvedOperation := do
  let parameters ← e.parameters d
  let requestBody ← e.requestBody d
  let responses ← e.operation.responses.traverse (d.response · e.label)
  return {
    operationId := e.operation.operationId
    method := e.method
    path := e.path
    summary := e.operation.summary
    description := e.operation.description
    tags := e.operation.tags
    parameters
    requestBody
    responses
    deprecated := e.operation.deprecated }

end Endpoint

/-! ## Reading an operation -/

/-- The last path segments that make an operation a query whatever its method. -/
def querySegments : List String := ["list", "paged", "single", "count", "query"]

namespace ResolvedOperation

/-- The segments of the path that are not empty. -/
def segments (op : ResolvedOperation) : List String :=
  (Text.splitOn (· == '/') op.path).filter (!·.isEmpty)

/-- The identifier after which methods are named: the operation's id, or its method
    and the fixed segments of its path. -/
def identifier (op : ResolvedOperation) : String :=
  match op.operationId.filter (!·.isEmpty) with
  | some id => id
  | none => ".".intercalate (op.method.name :: op.segments.filter (!Text.startsWith "\x7b" ·))

/-- The parameters bound at a location. -/
def parametersIn (op : ResolvedOperation) (location : ParameterLocation) : List Parameter :=
  op.parameters.filter (·.location == location)

/-- Whether an operation of an aggregate reads and does not write. -/
def isQuery (op : ResolvedOperation) : Bool :=
  op.method == .get || op.segments.getLast?.any querySegments.contains

/-- The response of success: that of status `200`, or else the first of a status
    that begins with `2`, or else the default one. -/
def successResponse? (op : ResolvedOperation) : Option Response :=
  ((op.responses.get? "200").or
    ((op.responses.entries.find? fun entry => Text.startsWith "2" entry.1).map Prod.snd)).or
    (op.responses.get? "default")

end ResolvedOperation

end ClientGen
