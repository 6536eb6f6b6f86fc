/-
  ClientGen.Generate.Code

  All files of a document: its models, then the query, command and API clients
  of its service.
-/
import ClientGen.Generate.ApiClient
import ClientGen.Generate.CommandClient
import ClientGen.Generate.Model

namespace ClientGen

open TypeScript

/-- Generated files by path, and the report of them. -/
structure GeneratedCode where
  files : List (String × String) := []
  report : Report := {}
deriving DecidableEq, Repr, Inhabited

/-- The files of a project that declare something, in the order of their paths. -/
def renderedFiles (p : Project) : List (String × String) :=
  (p.entries.filter (!·.2.declarations.isEmpty)).map fun (path, file) => (path, file.render)

/-- The declarations of a document and its service. -/
def generation (d : Document) (s : Service) (config : Configuration) :
    Except GenerationError Generation := do
  let models ← generateModels d
  let queries ← s.aggregates.foldlM (addQueryFile d config) models
  let commands := s.aggregates.foldl (addCommandFile d config) queries
  return s.apiTags.values.foldl (addApiFile d config) commands

/-- The files of a document and its service. -/
def generate (d : Document) (s : Service) (config : Configuration) :
    Except GenerationError GeneratedCode := do
  let g ← generation d s config
  return { files := renderedFiles g.project, report := g.report }

end ClientGen
