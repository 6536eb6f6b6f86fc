/-
  ClientGen.Program.Job

  One run of the generator: the document and the configuration are read, the
  service is resolved and checked, its files are generated and then written.  A
  run that fails before writing leaves every file as it was.
-/
import ClientGen.Files.Access
import ClientGen.Generate.Code
import ClientGen.OpenApi.Reading
import ClientGen.Program.Input

namespace ClientGen

/-- The directory into which files are written where nothing else is said. -/
def defaultOutput : String := "src/generated"

/-- The configuration file, which may be missing when no other is asked for. -/
def defaultConfigFile : String := "fetchgen.config.json"

/-- What a run is asked to do. -/
structure Job where
  input : Input := .file "openapi.json"
  output : String := defaultOutput
  configFile : String := defaultConfigFile
  /-- Generates everything and writes nothing. -/
  dryRun : Bool := false
deriving DecidableEq, Repr, Inhabited

/-- What a run has done. -/
structure Summary where
  models : Nat := 0
  aggregates : Nat := 0
  apiClients : Nat := 0
  /-- The paths of the generated files in the output directory. -/
  files : List String := []
  skipped : List Skipped := []
deriving DecidableEq, Repr, Inhabited

/-! ## Generation -/

/-- The files of a document and the summary of them. -/
structure Compiled where
  summary : Summary
  code : GeneratedCode
deriving DecidableEq, Repr, Inhabited

/-- Generates the files of a document. -/
def compile (d : Document) (config : Configuration) : Except GenerationError Compiled := do
  let service := d.service
  service.check d
  let code ← generate d service config
  return {
    code
    summary :=
      { models := code.report.models
        aggregates := service.aggregates.length
        apiClients := code.report.apiClients
        files := code.files.map Prod.fst
        skipped := service.skipped ++ code.report.skipped } }

/-! ## Files -/

variable {m : Type → Type} [Monad m]

/-- A step of a run, which may fail. -/
abbrev Run (m : Type → Type) := ExceptT GenerationError m

/-- Fails unless something succeeded. -/
def orInaccessible (path : String) (action : m Bool) : Run m Unit := do
  if !(← action) then throw (.inaccessible path)

/-- The document of a file. -/
def loadDocument (files : FileAccess m) (input : Input) : Run m Document := do
  match input with
  | .address url => throw (.notFetched url)
  | .file path =>
    match ← files.read? path with
    | some text => ExceptT.mk (pure (Document.parse text path))
    | none => throw (.inaccessible path)

/-- Whether a path names the configuration file that may be missing. -/
def isDefaultConfigFile (path : String) : Bool :=
  FilePath.components path == FilePath.components defaultConfigFile

/-- The configuration of a file. -/
def loadConfiguration (files : FileAccess m) (path : String) : Run m Configuration := do
  if ← files.isPresent path then
    match ← files.read? path with
    | some text => ExceptT.mk (pure (Configuration.parse text path))
    | none => throw (.invalidConfig path .malformed)
  else if isDefaultConfigFile path then return {}
  else throw (.invalidConfig path .missing)

/-- The path of a file in a directory. -/
def pathIn (directory file : String) : String :=
  if directory.isEmpty then file
  else if Text.endsWith "/" directory then directory ++ file
  else directory ++ "/" ++ file

/-- Writes one generated file. -/
def writeFile (files : FileAccess m) (output : String) (file : String × String) : Run m Unit := do
  match FilePath.directoryPart? file.1 with
  | some directory =>
    let parent := pathIn output directory
    orInaccessible parent (files.createDirectories parent)
  | none => pure ()
  let path := pathIn output file.1
  orInaccessible path (files.write path file.2)

/-- Writes generated files. -/
def writeFiles (files : FileAccess m) (output : String) (generated : List (String × String)) :
    Run m Unit := do
  orInaccessible output (files.createDirectories output)
  generated.forM (writeFile files output)

namespace Job

/-- Runs a job on a document. -/
def runDocument (files : FileAccess m) (job : Job) (d : Document) : Run m Summary := do
  let config ← loadConfiguration files job.configFile
  let compiled ← ExceptT.mk (pure (compile d config))
  if !job.dryRun then writeFiles files job.output compiled.code.files
  return compiled.summary

/-- Runs a job on the text of its input. -/
def runText (files : FileAccess m) (job : Job) (text : String) : Run m Summary := do
  job.runDocument files (← ExceptT.mk (pure (Document.parse text job.input.name)))

/-- Runs a job. -/
def run (files : FileAccess m) (job : Job) : Run m Summary := do
  job.runDocument files (← loadDocument files job.input)

end Job

end ClientGen
