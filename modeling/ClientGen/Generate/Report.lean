/-
  ClientGen.Generate.Report

  What has been generated so far: the files, and the report of what they hold
  and what was left out.
-/
import ClientGen.Error
import ClientGen.TypeScript.SourceFile

namespace ClientGen

open TypeScript

/-- Counts of what was generated, and records of what was not. -/
structure Report where
  models : Nat := 0
  queryClients : Nat := 0
  commandClients : Nat := 0
  apiClients : Nat := 0
  skipped : List Skipped := []
deriving DecidableEq, Repr, Inhabited

/-- Files under construction, and the report of them. -/
structure Generation where
  project : Project := {}
  report : Report := {}
deriving Inhabited

namespace Generation

/-- Adds declarations to a file, together with the imports that they need there. -/
def declare (g : Generation) (path : String) (needs : List Import) (decls : List Declaration) :
    Generation :=
  { g with
    project := g.project.update path fun file =>
      (file.mergeImports ((ImportScope.forFile path).needAll needs)).declareAll decls }

/-- Records items as left out. -/
def skip (g : Generation) (items : List Skipped) : Generation :=
  { g with report := { g.report with skipped := g.report.skipped ++ items } }

/-- Changes the report. -/
def count (g : Generation) (change : Report → Report) : Generation :=
  { g with report := change g.report }

end Generation

end ClientGen
