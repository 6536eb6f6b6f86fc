/-
  ClientGen.Service.Aggregate

  Aggregates with their commands, queries and events, and the tags of all other
  operations.
-/
import ClientGen.Model.Name
import ClientGen.Service.Attribution
import ClientGen.Service.Operation

namespace ClientGen

/-- A command that an aggregate accepts. -/
structure Command where
  /-- The model name of the body. -/
  name : String
  /-- The component key of the body. -/
  schemaKey : String
  /-- The operation that came first. -/
  operation : ResolvedOperation
  /-- Every route that accepts the command, in document order. -/
  routes : List String
  /-- Whether the body is sent as a form. -/
  multipart : Bool
deriving Inhabited

/-- A domain event that an aggregate emits. -/
structure Event where
  /-- The model name of the body. -/
  name : String
  schemaKey : String
  schema : Schema
deriving Inhabited

/-- An aggregate of a bounded context. -/
structure Aggregate where
  context : String
  name : String
  tag : Tag
  commands : List Command := []
  queries : List ResolvedOperation := []
  events : List Event := []
  /-- The component key of the state. -/
  state : Option String := none
  /-- The component key of the enumeration of fields. -/
  fields : Option String := none
deriving Inhabited

/-- The operations under a tag that names no aggregate. -/
structure ApiTag where
  tag : Tag
  operations : List ResolvedOperation := []
deriving Inhabited

/-- The route that a command's method is bound to: the first that is in the scope of
    the attribution, or else the first of all. -/
def Command.route (c : Command) (attribution : Attribution) : String :=
  let inScope := attribution.routeStart?.bind fun start => c.routes.find? (Text.startsWith start)
  (inScope.or c.routes.head?).getD c.operation.path

/-- The attribution for which the routes of all commands vote. -/
def Aggregate.attribution (a : Aggregate) : Attribution :=
  Attribution.ofRoutes (a.commands.flatMap (·.routes))

/-! ## Commands -/

/-- The media type of forms. -/
def multipartType : String := "multipart/form-data"

/-- Whether a media type is a kind of JSON. -/
def isJsonType (mediaType : String) : Bool := Text.contains "json" mediaType

/-- What an operation of an aggregate is to it. -/
inductive Role where
  | query
  /-- A command, with the component key of its body. -/
  | command (schemaKey : String) (multipart : Bool)
  | neither
deriving DecidableEq, Repr, Inhabited

/-- The reference of the command that an operation takes, and whether it is a form:
    the first media type of the body that is a form or JSON and refers to a schema.
    Operations that do not write take no command. -/
def ResolvedOperation.commandReference? (op : ResolvedOperation) : Option (String × Bool) :=
  if op.method.isWrite then
    op.requestBody.bind fun body => body.content.entries.findSome? fun (mediaType, media) =>
      if mediaType == multipartType || isJsonType mediaType then
        (media.schema.bind (·.reference)).map (·, mediaType == multipartType)
      else none
  else none

/-- The role of an operation; it fails when its command means no schema. -/
def ResolvedOperation.role (op : ResolvedOperation) (d : Document) :
    Except GenerationError Role :=
  if op.isQuery then .ok .query
  else match op.commandReference? with
    | none => .ok .neither
    | some (pointer, multipart) =>
      (fun target => .command target.1 multipart) <$> d.resolveSchema pointer op.identifier

/-- A command with one more route, unless it has it already. -/
def Command.addRoute (c : Command) (route : String) : Command :=
  if c.routes.contains route then c else { c with routes := c.routes ++ [route] }

/-- Commands to which an operation is added: as a further route of the command with
    its key, or as a new command. -/
def addCommand (op : ResolvedOperation) (schemaKey : String) (multipart : Bool) :
    List Command → List Command
  | [] =>
    [{ name := (ModelName.ofReference schemaKey).name, schemaKey, operation := op,
       routes := [op.path], multipart }]
  | c :: rest =>
    if c.schemaKey = schemaKey then c.addRoute op.path :: rest
    else c :: addCommand op schemaKey multipart rest

/-- The aggregate with one more operation in its role. -/
def Aggregate.add (a : Aggregate) (op : ResolvedOperation) : Role → Aggregate
  | .query => { a with queries := a.queries ++ [op] }
  | .command schemaKey multipart =>
    { a with commands := addCommand op schemaKey multipart a.commands }
  | .neither => a

/-! ## State, fields and events -/

namespace Aggregate

/-- What the keys of an aggregate's own schemas begin with. -/
def keyStart (a : Aggregate) : String := a.context ++ "." ++ a.name ++ "."

/-- The schemas of an aggregate, in document order. -/
def schemas (a : Aggregate) (d : Document) : List (String × Schema) :=
  d.components.schemas.entries.filter fun entry => Text.startsWith a.keyStart entry.1

/-- Whether the model of a schema key has a name that ends so. -/
def named (ending : String) (entry : String × Schema) : Bool :=
  Text.endsWith ending (ModelName.ofKey entry.1).name

/-- The component key of the state: the first model whose name ends so. -/
def stateKey? (a : Aggregate) (d : Document) : Option String :=
  ((a.schemas d).find? (named "State")).map Prod.fst

/-- The component key of the enumeration of fields. -/
def fieldsKey? (a : Aggregate) (d : Document) : Option String :=
  ((a.schemas d).find? (named "AggregatedFields")).map Prod.fst

/-- The references to events, each with the key of the union that holds it. -/
def eventReferences (a : Aggregate) (d : Document) : List (String × String) :=
  ((a.schemas d).filter fun entry => named "DomainEvent" entry && entry.2.isUnion).flatMap
    fun (key, schema) =>
      ((schema.composition?.map (·.2)).getD []).filterMap fun member =>
        member.reference.map (key, ·)

/-- Events with one more, unless one of its key is there. -/
def addEvent (events : List Event) (target : String × Schema) : List Event :=
  if events.any (·.schemaKey == target.1) then events
  else events ++
    [{ name := (ModelName.ofReference target.1).name, schemaKey := target.1, schema := target.2 }]

/-- The events to which the references lead, each once. -/
def resolvedEvents (a : Aggregate) (d : Document) : List Event :=
  ((a.eventReferences d).filterMap fun (key, pointer) =>
    (d.resolveSchema pointer key).toOption).foldl addEvent []

/-- The records of the event references that lead nowhere. -/
def skippedEvents (a : Aggregate) (d : Document) : List Skipped :=
  (a.eventReferences d).filterMap fun (key, pointer) =>
    match d.resolveSchema pointer key with
    | .ok _ => none
    | .error e => some (.because key e)

/-- The aggregate with the state, fields and events that the document has for it. -/
def withSchemas (a : Aggregate) (d : Document) : Aggregate :=
  { a with
    state := a.stateKey? d
    fields := a.fieldsKey? d
    events := a.resolvedEvents d }

end Aggregate

end ClientGen
