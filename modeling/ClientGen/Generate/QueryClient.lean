/-
  ClientGen.Generate.QueryClient

  The query clients of an aggregate, in one file with the types of its state,
  fields and events and with the options that address it.
-/
import ClientGen.Configuration
import ClientGen.Generate.Client
import ClientGen.Generate.Report
import ClientGen.Service.ClientFile

namespace ClientGen

open TypeScript

/-- What the names of an aggregate's declarations begin with. -/
def Aggregate.start (a : Aggregate) : String := Text.pascalCase a.name

/-- The documentation of the classes for a tag. -/
def Tag.docs (t : Tag) : List String := docLines none t.description

/-! ## Types and options -/

/-- The type of the model of a component key. -/
def modelType (d : Document) (referrer key : String) : Importing String :=
  referenceType d referrer (schemaPointerStart ++ key)

/-- The type of the model of a component key that may be missing. -/
def modelTypeOr (d : Document) (referrer default : String) : Option String → Importing String
  | some key => modelType d referrer key
  | none => return default

/-- The union of the models of events. -/
def eventsType (d : Document) (referrer : String) (events : List Event) : Importing String :=
  if events.isEmpty then return "never"
  else do return " | ".intercalate (← events.mapM (modelType d referrer ·.schemaKey))

/-- The types of an aggregate's state, fields and events. -/
def aggregateTypes (d : Document) (a : Aggregate) : Importing (List Declaration) := do
  let referrer := a.tag.name
  let state ← modelTypeOr d referrer anyType a.state
  let fields ← modelTypeOr d referrer "string" a.fields
  let events ← eventsType d referrer a.events
  return [
    .alias { name := a.start ++ "StateType", typeExpr := state },
    .alias { name := a.start ++ "AggregatedFieldsType", typeExpr := fields },
    .alias { name := a.start ++ "DomainEventType", typeExpr := events }]

/-- The options by which queries address an aggregate with resources of an attribution. -/
def queryOptionsAs (d : Document) (attribution : Attribution) (a : Aggregate) : ConstDecl :=
  { name := Text.upperSnakeCase a.name ++ "_QUERY_CLIENT_OPTIONS"
    declaredType := some "QueryClientOptions"
    initializer :=
      "\x7b\n  contextAlias: " ++ stringLiteral (d.alias?.getD a.context)
        ++ ",\n  aggregateName: " ++ stringLiteral a.name
        ++ ",\n  resourceAttribution: " ++ attribution.constant ++ ",\n\x7d" }

/-- The options by which queries address an aggregate. -/
def queryOptions (d : Document) (a : Aggregate) : ConstDecl := queryOptionsAs d a.attribution a

/-- The imports of the options. -/
def queryOptionsImports : List Import :=
  [.name frameworkModule "QueryClientOptions", .name frameworkModule "ResourceAttributionPathSpec"]

/-! ## Clients -/

/-- Whether a query has a streaming method: it streams, or it lists something. -/
def ResponseTypes.streamsQuery (r : ResponseTypes) : Bool :=
  r.event.isSome || r.plain.any (Text.endsWith "[]")

/-- The methods of a query. -/
def queryMethods (d : Document) (ignored : List String) (c : ClientPair)
    (op : ResolvedOperation) : Importing (MethodDecl × Option MethodDecl) := do
  let types ← responseTypes d op
  let body ← bodyOf d op
  .noteAll (if types.streamsQuery then [eventStreamImport] else [])
  let (plain, stream) := plansOf op body ignored types c
  return (← plain.build d, ← buildIf d types.streamsQuery stream)

/-- The query clients with the methods of one more query. -/
def addQuery (d : Document) (ignored : List String) (c : ClientPair) (op : ResolvedOperation) :
    ClientPair :=
  c.addBuilt op.identifier (queryMethods d ignored c op)

/-- The query clients of an aggregate. -/
def queryClients (d : Document) (config : Configuration) (a : Aggregate) : ClientPair :=
  a.queries.foldl (addQuery d (config.ignoredPathParameters a.tag.name))
    (.empty a.start "QueryClient" "StreamQueryClient" a.tag.docs)

/-- Adds the query client file of an aggregate with resources of an attribution. -/
def addQueryFileAs (d : Document) (config : Configuration) (attribution : Attribution)
    (g : Generation) (a : Aggregate) : Except GenerationError Generation := do
  let types := aggregateTypes d a
  let typeDecls ← types.result
  let clients := queryClients d config a
  return ((g.skip clients.skipped).declare a.queryFile
    (types.notes ++ queryOptionsImports ++ clientImports ++ clients.needs)
    (typeDecls ++ [.const (queryOptionsAs d attribution a), .class clients.plain,
      .class clients.stream])).count
      fun r => { r with queryClients := r.queryClients + 1 }

/-- Adds the query client file of an aggregate. -/
def addQueryFile (d : Document) (config : Configuration) (g : Generation) (a : Aggregate) :
    Except GenerationError Generation :=
  addQueryFileAs d config a.attribution g a

end ClientGen
