/-
  ClientGen.Service.ClientFile

  The files in which clients are declared.  They follow from the names of
  contexts, aggregates and tags alone.
-/
import ClientGen.Service.Aggregate

namespace ClientGen

/-- The directory of an aggregate's clients. -/
def Aggregate.directory (a : Aggregate) : String := FilePath.normalize (a.context ++ "/" ++ a.name)

/-- The file of an aggregate's query clients. -/
def Aggregate.queryFile (a : Aggregate) : String := a.directory ++ "/queryClient.ts"

/-- The file of an aggregate's command clients. -/
def Aggregate.commandFile (a : Aggregate) : String := a.directory ++ "/commandClient.ts"

/-- The file of the API client whose class name begins with `start`, in the directory
    of the alias if there is one. -/
def apiClientFile (alias? : Option String) (start : String) : String :=
  let file := start ++ "ApiClient.ts"
  match alias? with
  | some directory => FilePath.normalize (directory ++ "/" ++ file)
  | none => file

/-- What the class names of a tag's clients begin with. -/
def ApiTag.classStart (t : ApiTag) : String := Text.pascalCase t.tag.name

/-- The file of a tag's clients. -/
def ApiTag.file (t : ApiTag) (d : Document) : String := apiClientFile d.alias? t.classStart

end ClientGen
