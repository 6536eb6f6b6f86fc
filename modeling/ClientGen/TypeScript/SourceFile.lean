/-
  ClientGen.TypeScript.SourceFile

  Generated files and the project that holds them.  A file is its imports and
  its declarations; a project lists files in the order of their paths.
-/
import ClientGen.TypeScript.Declaration
import ClientGen.TypeScript.Import

namespace ClientGen.TypeScript

/-- The line at the top of every generated file. -/
def fileHeader : String := "// Generated by fetchgen. Do not edit."

/-- A generated file. -/
structure SourceFile where
  imports : Imports := {}
  declarations : List Declaration := []
deriving Inhabited

namespace SourceFile

/-- Adds one import. -/
def addImport (f : SourceFile) (module name : String) : SourceFile :=
  { f with imports := f.imports.add module name }

/-- Adds every import of a scope. -/
def mergeImports (f : SourceFile) (scope : ImportScope) : SourceFile :=
  { f with imports := f.imports.union scope.imports }

/-- Appends a declaration. -/
def declare (f : SourceFile) (decl : Declaration) : SourceFile :=
  { f with declarations := f.declarations ++ [decl] }

/-- Appends declarations in order. -/
def declareAll (f : SourceFile) (decls : List Declaration) : SourceFile :=
  { f with declarations := f.declarations ++ decls }

/-- The first declaration of a name. -/
def declaration? (f : SourceFile) (name : String) : Option Declaration :=
  f.declarations.find? (·.name == name)

/-- The text of a file. -/
def render (f : SourceFile) : String :=
  fileHeader ++ "\n\n" ++ f.imports.render ++ "\n".intercalate (f.declarations.map (·.render))

end SourceFile

/-- Files by their normal paths. -/
abbrev Project := SortedMap SourceFile

namespace Project

/-- Changes the file at a path, which is created when it was not there. -/
def update (p : Project) (path : String) (change : SourceFile → SourceFile) : Project :=
  SortedMap.alter p (FilePath.normalize path) fun f => change (f.getD {})

/-- The project with a file at the path, created empty when it was not there. -/
def touch (p : Project) (path : String) : Project := p.update path id

/-- The file at a path. -/
def file? (p : Project) (path : String) : Option SourceFile :=
  SortedMap.get? p (FilePath.normalize path)

end Project

end ClientGen.TypeScript
