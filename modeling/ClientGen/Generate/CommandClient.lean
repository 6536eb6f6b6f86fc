/-
  ClientGen.Generate.CommandClient

  The command clients of an aggregate: one method for every command, in the
  plain client and in the streaming one alike.
-/
import ClientGen.Generate.QueryClient

namespace ClientGen

open TypeScript

/-- The type of what every command results in. -/
def commandResult : String := "CommandResult"

/-- The imports of every command client file. -/
def commandImports : List Import := [.name frameworkModule commandResult, eventStreamImport]

/-- How the body of a command is bound. -/
def Command.body (d : Document) (c : Command) : Importing Body :=
  if c.multipart then return .form true
  else do return .json (← modelType d c.operation.identifier c.schemaKey) true

/-- The plan of a command's method, among methods of the names `taken`. -/
def Command.plan (c : Command) (attribution : Attribution) (ignored : List String) (body : Body)
    (taken : List String) (returnType : String) : MethodPlan :=
  { name := methodName taken c.operation.identifier
    operation := c.operation
    route := c.route attribution
    body := some body
    returnType
    ignored }

/-- A method without documentation takes that of the command's schema. -/
def withSchemaDocs (d : Document) (c : Command) (documented : List String) (m : MethodDecl) :
    MethodDecl :=
  if documented.isEmpty then
    match d.schema? c.schemaKey with
    | some s => { m with docs := docLines s.title s.description }
    | none => m
  else m

/-- The methods of a command. -/
def commandMethods (d : Document) (attribution : Attribution) (ignored : List String)
    (clients : ClientPair) (c : Command) : Importing (MethodDecl × Option MethodDecl) := do
  let body ← c.body d
  let plain ← (c.plan attribution ignored body clients.plainNames
    (promiseOf commandResult)).build d
  let stream ← (c.plan attribution ignored body clients.streamNames
    (promiseOfStream commandResult)).build d
  return (withSchemaDocs d c plain.docs plain, some (withSchemaDocs d c plain.docs stream))

/-- The command clients with the methods of one more command. -/
def addCommandMethods (d : Document) (attribution : Attribution) (ignored : List String)
    (clients : ClientPair) (c : Command) : ClientPair :=
  clients.addBuilt c.schemaKey (commandMethods d attribution ignored clients c)

/-- The command clients of an aggregate with resources of an attribution. -/
def commandClientsAs (d : Document) (config : Configuration) (attribution : Attribution)
    (a : Aggregate) : ClientPair :=
  a.commands.foldl
    (addCommandMethods d attribution (config.ignoredPathParameters a.tag.name))
    (.empty a.start "CommandClient" "StreamCommandClient" a.tag.docs)

/-- The command clients of an aggregate. -/
def commandClients (d : Document) (config : Configuration) (a : Aggregate) : ClientPair :=
  commandClientsAs d config a.attribution a

/-- Adds the command client file of an aggregate with resources of an attribution. -/
def addCommandFileAs (d : Document) (config : Configuration) (attribution : Attribution)
    (g : Generation) (a : Aggregate) : Generation :=
  let clients := commandClientsAs d config attribution a
  ((g.skip clients.skipped).declare a.commandFile
    (commandImports ++ clientImports ++ clients.needs)
    [.class clients.plain, .class clients.stream]).count
      fun r => { r with commandClients := r.commandClients + 1 }

/-- Adds the command client file of an aggregate. -/
def addCommandFile (d : Document) (config : Configuration) (g : Generation) (a : Aggregate) :
    Generation :=
  addCommandFileAs d config a.attribution g a

end ClientGen
