/-
  ClientGen.Service.Resolve

  How the operations of a document are parted: those with the tag of an
  aggregate belong to it, all others to their first tag.  An operation that
  cannot be resolved is recorded and left out.
-/
import ClientGen.Map.Sorted
import ClientGen.Service.Aggregate

namespace ClientGen

/-- What a document describes. -/
structure Service where
  /-- The aggregates by context and name. -/
  contexts : SortedMap (SortedMap Aggregate) := {}
  /-- The other tags, in the order in which they first came. -/
  apiTags : OrderedMap ApiTag := {}
  skipped : List Skipped := []
deriving Inhabited

namespace Service

/-- The aggregates, by context and then by name. -/
def aggregates (s : Service) : List Aggregate := s.contexts.values.flatMap (·.values)

/-- Records an operation as left out. -/
def skip (s : Service) (item : String) (error : GenerationError) : Service :=
  { s with skipped := s.skipped ++ [.because item error] }

/-- Changes an aggregate; a new one begins as `fresh`. -/
def alterAggregate (s : Service) (fresh : Aggregate) (change : Aggregate → Aggregate) : Service :=
  { s with
    contexts := s.contexts.alter fresh.context fun aggregates =>
      (aggregates.getD {}).alter fresh.name fun found => change (found.getD fresh) }

/-- Adds an operation to a tag that names no aggregate. -/
def addToTag (s : Service) (tag : Tag) (op : ResolvedOperation) : Service :=
  let found := (s.apiTags.get? tag.name).getD { tag }
  { s with
    apiTags := s.apiTags.put tag.name { found with operations := found.operations ++ [op] } }

end Service

/-- The context and the name of the aggregate that a tag names: two segments parted
    by a dot, the first of which is the alias when the document has one. -/
def Document.aggregateTag? (d : Document) (tag : String) : Option (String × String) :=
  match Text.splitOn (· == '.') tag with
  | [context, name] =>
    if context.isEmpty || name.isEmpty then none
    else if d.alias?.all (· == context) then some (context, name)
    else none
  | _ => none

/-- The aggregate that the first aggregate tag of an operation names, as yet without
    operations. -/
def ResolvedOperation.aggregate? (op : ResolvedOperation) (d : Document) : Option Aggregate :=
  op.tags.findSome? fun tag =>
    (d.aggregateTag? tag).map fun (context, name) => { context, name, tag := d.tag tag }

/-- Adds an endpoint to the service.  The aggregate of an operation whose role is
    unknown exists all the same; an operation without tags belongs nowhere. -/
def Service.addEndpoint (d : Document) (s : Service) (e : Endpoint) : Service :=
  match e.resolve d with
  | .error error => s.skip e.label error
  | .ok op =>
    match op.aggregate? d with
    | some fresh =>
      match op.role d with
      | .ok role => s.alterAggregate fresh (·.add op role)
      | .error error => (s.alterAggregate fresh id).skip e.label error
    | none =>
      match op.tags.head? with
      | some name => s.addToTag (d.tag name) op
      | none => s

/-- The operations of a document, parted, before the schemas of aggregates are found. -/
def Document.parted (d : Document) : Service := d.endpoints.foldl (Service.addEndpoint d) {}

/-- The service that a document describes. -/
def Document.service (d : Document) : Service :=
  let s := d.parted
  { s with
    contexts := s.contexts.map (·.map (·.withSchemas d))
    skipped := s.skipped ++ s.aggregates.flatMap (·.skippedEvents d) }

end ClientGen
