/-
  ClientGen.Generate.Client

  Client classes, which come in pairs: a plain client, and a client that reads
  responses as streams of events.  A method that cannot be built is recorded and
  leaves no trace in its classes.
-/
import ClientGen.Generate.Method

namespace ClientGen

open TypeScript

/-- The options of a decorator by which responses are read as streams of events. -/
def streamOptions : String :=
  "\x7b headers: \x7b Accept: " ++ stringLiteral eventStreamType ++ " \x7d \x7d"

/-- The decorator of a client class. -/
def apiDecorator (streams : Bool) : String :=
  if streams then "@api('', " ++ streamOptions ++ ")" else "@api()"

/-- The imports that every client class needs. -/
def clientImports : List Import := decoratorImports ["api", "ApiMetadata", "ApiMetadataCapable"]

/-- A client class without methods. -/
def clientClass (name : String) (docs : List String) (streams : Bool) : ClassDecl :=
  { name
    docs
    decorators := [apiDecorator streams]
    implemented := ["ApiMetadataCapable"]
    constructorParameters := some "public readonly apiMetadata?: ApiMetadata" }

/-- A plain and a streaming client under construction. -/
structure ClientPair where
  plain : ClassDecl
  stream : ClassDecl
  /-- The imports that the methods need. -/
  needs : List Import := []
  skipped : List Skipped := []
deriving Inhabited

namespace ClientPair

/-- Two clients without methods; their names begin with `start` and end as told. -/
def empty (start plainEnding streamEnding : String) (docs : List String) : ClientPair :=
  { plain := clientClass (start ++ plainEnding) docs false
    stream := clientClass (start ++ streamEnding) docs true }

/-- The names of the plain client's methods. -/
def plainNames (c : ClientPair) : List String := c.plain.methods.map (·.name)

/-- The names of the streaming client's methods. -/
def streamNames (c : ClientPair) : List String := c.stream.methods.map (·.name)

/-- The clients with a method for the plain one, and perhaps one for the other. -/
def addMethods (c : ClientPair) (plain : MethodDecl) (stream : Option MethodDecl) : ClientPair :=
  { c with
    plain := c.plain.addMethod plain
    stream := stream.elim c.stream c.stream.addMethod }

/-- Adds the methods that were built, or else records that `item` was left out. -/
def addBuilt (c : ClientPair) (item : String)
    (built : Importing (MethodDecl × Option MethodDecl)) : ClientPair :=
  match built.result with
  | .ok (plain, stream) => { c.addMethods plain stream with needs := c.needs ++ built.notes }
  | .error e => { c with skipped := c.skipped ++ [.because item e] }

end ClientPair

/-- The plans of the two methods of an operation that is reached at its own path.  They
    differ in their names and in what they return. -/
def plansOf (op : ResolvedOperation) (body : Option Body) (ignored : List String)
    (types : ResponseTypes) (c : ClientPair) : MethodPlan × MethodPlan :=
  ({ name := methodName c.plainNames op.identifier, operation := op, route := op.path, body
     returnType := types.returnType, ignored },
   { name := methodName c.streamNames op.identifier, operation := op, route := op.path, body
     returnType := types.streamReturnType, ignored })

/-- The streaming method of a plan, if the operation streams. -/
def buildIf (d : Document) (streams : Bool) (p : MethodPlan) : Importing (Option MethodDecl) :=
  if streams then some <$> p.build d else return none

end ClientGen
