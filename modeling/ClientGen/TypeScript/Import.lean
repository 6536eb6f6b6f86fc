/-
  ClientGen.TypeScript.Import

  Imports of generated files: the names imported from each module, and the
  scope that collects them while one declaration is built.  A scope is a value
  of its own, so a declaration that fails leaves nothing in the file.
-/
import ClientGen.Map.Sorted
import ClientGen.Model.Name

namespace ClientGen.TypeScript

/-- The names imported from each module. -/
abbrev Imports := SortedMap NameSet

namespace Imports

/-- One more imported name. -/
def add (imports : Imports) (module name : String) : Imports :=
  SortedMap.alter imports module fun names => NameSet.add (names.getD {}) name

/-- All imports of `imports` and `others`. -/
def union (imports others : Imports) : Imports :=
  others.entries.foldl
    (fun acc entry => SortedMap.alter acc entry.1 fun names =>
      NameSet.addAll (names.getD {}) entry.2.keys)
    imports

/-- One import statement. -/
def renderStatement (module : String) (names : List String) : String :=
  "import \x7b " ++ ", ".intercalate names ++ " \x7d from '" ++ module ++ "';\n"

/-- The import block of a file, closed by an empty line unless it is empty. -/
def render (imports : Imports) : String :=
  if imports.isEmpty then ""
  else String.join (imports.entries.map fun entry => renderStatement entry.1 entry.2.keys) ++ "\n"

end Imports

/-- Something that a declaration needs: a model, wherever it is declared, or a name
    of a package. -/
inductive Import where
  | model (model : ModelName)
  | name (module name : String)
deriving DecidableEq, Repr

/-- The imports that the declarations of one file have asked for so far. -/
structure ImportScope where
  /-- The file in which the imports will stand. -/
  file : String := ""
  imports : Imports := {}
deriving Inhabited

namespace ImportScope

/-- An empty scope for the file at `path`. -/
def forFile (path : String) : ImportScope := { file := path }

/-- Imports a name from a module. -/
def add (scope : ImportScope) (module name : String) : ImportScope :=
  { scope with imports := scope.imports.add module name }

/-- Imports a model type, unless it is declared in the scope's own file. -/
def addModel (scope : ImportScope) (model : ModelName) : ImportScope :=
  if model.isExternal then scope.add model.path model.name
  else
    let target := FilePath.modelFile model.path
    if target = scope.file then scope
    else scope.add (FilePath.relativeModule scope.file target) model.name

/-- Imports what a declaration needs. -/
def need (scope : ImportScope) : Import → ImportScope
  | .model model => scope.addModel model
  | .name module name => scope.add module name

/-- Imports all that declarations need. -/
def needAll (scope : ImportScope) (needs : List Import) : ImportScope := needs.foldl need scope

/-- Takes over every import of another scope. -/
def extend (scope other : ImportScope) : ImportScope :=
  { scope with imports := scope.imports.union other.imports }

/-- Whether nothing was imported. -/
def isEmpty (scope : ImportScope) : Bool := scope.imports.isEmpty

end ImportScope

end ClientGen.TypeScript
