/-
  ClientGen.Generate.ApiClient

  The clients of tags that name no aggregate.  A streaming client is declared
  only when it has methods.
-/
import ClientGen.Generate.QueryClient

namespace ClientGen

open TypeScript

/-- The imports of streamed responses, if a method returns them. -/
def ResponseTypes.streamImports (r : ResponseTypes) : List Import :=
  if r.event.isSome then [eventStreamImport] else []

/-- The methods of an operation; the streaming one is there when there is a plain
    response beside the streamed one. -/
def apiMethods (d : Document) (ignored : List String) (c : ClientPair)
    (op : ResolvedOperation) : Importing (MethodDecl × Option MethodDecl) := do
  let types ← responseTypes d op
  let body ← bodyOf d op
  .noteAll types.streamImports
  let (plain, stream) := plansOf op body ignored types c
  return (← plain.build d, ← buildIf d types.hasBoth stream)

/-- The clients with the methods of one more operation. -/
def addApiOperation (d : Document) (ignored : List String) (c : ClientPair)
    (op : ResolvedOperation) : ClientPair :=
  c.addBuilt op.identifier (apiMethods d ignored c op)

/-- The clients of a tag. -/
def apiClients (d : Document) (config : Configuration) (t : ApiTag) : ClientPair :=
  t.operations.foldl (addApiOperation d (config.ignoredPathParameters t.tag.name))
    (.empty t.classStart "ApiClient" "StreamApiClient" t.tag.docs)

/-- The clients of a pair that are declared. -/
def ClientPair.apiDecls (c : ClientPair) : List Declaration :=
  if c.stream.methods.isEmpty then [.class c.plain] else [.class c.plain, .class c.stream]

/-- Adds the client file of a tag. -/
def addApiFile (d : Document) (config : Configuration) (g : Generation) (t : ApiTag) :
    Generation :=
  let clients := apiClients d config t
  ((g.skip clients.skipped).declare (t.file d) (clientImports ++ clients.needs)
    clients.apiDecls).count fun r => { r with apiClients := r.apiClients + 1 }

end ClientGen
