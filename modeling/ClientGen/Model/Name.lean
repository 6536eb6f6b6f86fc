/-
  ClientGen.Model.Name

  Where the model of a schema lives: its exported name and its directory, read
  off the schema's key.  Keys of the shared framework keep the names that the
  framework package exports.
-/
import ClientGen.Text.Words
import ClientGen.Text.FilePath

namespace ClientGen

/-- The module from which shared framework types are imported. -/
def frameworkModule : String := "@ahoo-wang/fetcher-wow"

/-- What the keys of framework schemas begin with. -/
def reservedStart : String := "wow."

/-- The framework schemas whose exported names do not follow from their keys. -/
def pinnedNames : List (String × String) :=
  [("wow.command.CommandResult", "CommandResult"),
   ("wow.command.CommandResultArray", "CommandResultArray"),
   ("wow.command.CommandStage", "CommandStage"),
   ("wow.command.SimpleWaitSignal", "WaitSignal"),
   ("wow.MessageHeaderSqlType", "MessageHeaderSqlType"),
   ("wow.api.BindingError", "BindingError"),
   ("wow.api.DefaultErrorInfo", "ErrorInfo"),
   ("wow.api.RecoverableType", "RecoverableType"),
   ("wow.api.command.DefaultDeleteAggregate", "DeleteAggregate"),
   ("wow.api.command.DefaultRecoverAggregate", "RecoverAggregate"),
   ("wow.api.messaging.FunctionInfoData", "FunctionInfo"),
   ("wow.api.messaging.FunctionKind", "FunctionKind"),
   ("wow.api.modeling.AggregateId", "AggregateId"),
   ("wow.api.query.Condition", "Condition"),
   ("wow.api.query.ConditionOptions", "ConditionOptions"),
   ("wow.api.query.ListQuery", "ListQuery"),
   ("wow.api.query.Operator", "Operator"),
   ("wow.api.query.PagedQuery", "PagedQuery"),
   ("wow.api.query.PagedList", "PagedList"),
   ("wow.api.query.Pagination", "Pagination"),
   ("wow.api.query.Projection", "Projection"),
   ("wow.api.query.SingleQuery", "SingleQuery"),
   ("wow.api.query.Sort", "FieldSort"),
   ("wow.api.query.Sort.Direction", "SortDirection"),
   ("wow.configuration.Aggregate", "Aggregate"),
   ("wow.configuration.BoundedContext", "BoundedContext"),
   ("wow.configuration.WowMetadata", "WowMetadata"),
   ("wow.modeling.DomainEvent", "DomainEvent"),
   ("wow.openapi.BatchResult", "BatchResult"),
   ("wow.messaging.CompensationTarget", "CompensationTarget")]

/-- The exported name of a model, and either its directory in the output tree,
    which begins with a slash, or the module that exports it. -/
structure ModelName where
  name : String
  path : String
deriving DecidableEq, Repr, Inhabited

namespace ModelName

/-- Whether the type comes from a package and not from the output tree. -/
def isExternal (m : ModelName) : Bool := !Text.startsWith "/" m.path

/-- The pinned name of a framework schema. -/
def pinned? (key : String) : Option ModelName :=
  (pinnedNames.lookup key).map fun name => ⟨name, frameworkModule⟩

/-- Whether a key belongs to the framework, for which nothing is generated. -/
def isReserved (key : String) : Bool := Text.startsWith reservedStart key

/-- Whether a segment of a key begins the type name. -/
def opensName (segment : String) : Bool := segment.toList.head?.any Char.isUpper

/-- The type name made of the segments of a key. -/
def ofSegments (segments : List String) : String := String.join (segments.map Text.pascalCase)

/-- The model of a schema key.  The segments before the first one that begins
    with an upper-case letter are the directory, the others the name; a key
    without such a segment is all name. -/
def ofKey (key : String) : ModelName :=
  if key.isEmpty then ⟨"", "/"⟩
  else match pinned? key with
    | some model => model
    | none =>
      let segments := Text.splitOn (· == '.') key
      let directory := segments.takeWhile (!opensName ·)
      let name := segments.dropWhile (!opensName ·)
      if name.isEmpty then ⟨ofSegments segments, "/"⟩
      else ⟨ofSegments name, "/" ++ "/".intercalate directory⟩

/-- The model that a reference to a schema key means: reserved keys are always
    imported from the framework. -/
def ofReference (key : String) : ModelName :=
  let model := ofKey key
  if isReserved key && !model.isExternal then ⟨model.name, frameworkModule⟩ else model

/-- The file in which the model is declared. -/
def file (m : ModelName) : String := FilePath.modelFile m.path

end ModelName

end ClientGen
