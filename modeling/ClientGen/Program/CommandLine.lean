/-
  ClientGen.Program.CommandLine

  The program as it is called: what it writes to the standard output, and the
  exit code with which it ends.
-/
import ClientGen.Program.Arguments

namespace ClientGen

/-- The version of the program. -/
def programVersion : String := "0.1.0"

/-! ## Texts -/

/-- The help on the program. -/
def helpLines : List String :=
  ["Generate TypeScript clients from Wow OpenAPI documents",
   "",
   "Usage: fetchgen <COMMAND>",
   "",
   "Commands:",
   "  generate  Generate models and clients",
   "  help      Print this message or the help of the given subcommand(s)",
   "",
   "Options:",
   "  -h, --help     Print help",
   "  -V, --version  Print version"]

/-- The help on generation. -/
def generateHelpLines : List String :=
  ["Generate models and clients",
   "",
   "Usage: fetchgen generate [OPTIONS] --input <INPUT>",
   "",
   "Options:",
   "  -i, --input <INPUT>    OpenAPI document: a local JSON/YAML file or an http(s) URL",
   "  -o, --output <OUTPUT>  Output directory for generated files [default: src/generated]",
   "  -c, --config <CONFIG>  Generator configuration file [default: fetchgen.config.json]",
   "  -v, --verbose          Log generator decisions",
   "      --dry-run          Render everything without writing files",
   "  -h, --help             Print help"]

/-- What is written before a generation. -/
def headerLines : List String := ["  ◆ fetchgen " ++ programVersion, ""]

/-- What is written after a generation that took so many milliseconds. -/
def doneLine (milliseconds : String) : String := "  ◇ Done in " ++ milliseconds ++ "ms"

/-! ## Summary -/

/-- The names of files by their directories; files outside of all directories are in
    the directory `.`. -/
def filesByDirectory (files : List String) : SortedMap (List String) :=
  files.foldl
    (fun groups file =>
      let directory := (FilePath.directoryPart? file).getD "."
      let name := (Text.splitOn (· == '/') file).getLastD ""
      groups.alter directory fun names => names.getD [] ++ [name])
    {}

/-- The line of a directory. -/
def directoryLine (indent name : String) : String := "  " ++ indent ++ "▸ " ++ name ++ "/"

/-- The lines of the files of a directory. -/
def fileLines : List String → List String
  | [] => []
  | [name] => ["        ╰──  " ++ name]
  | name :: rest => ("        ├──  " ++ name) :: fileLines rest

/-- The generated files as a tree. -/
def treeLines (output : String) (files : List String) : List String :=
  directoryLine "" output ::
    (filesByDirectory files).entries.flatMap fun (directory, names) =>
      directoryLine "   " directory :: fileLines names

/-- What was left out. -/
def skippedLines (skipped : List Skipped) : List String :=
  if skipped.isEmpty then []
  else ("  Skipped " ++ toString skipped.length ++ ":") ::
    skipped.map (fun s => "  ◇ " ++ s.item ++ " " ++ s.reason) ++ [""]

/-- The counts of a summary. -/
def countsLine (dryRun : Bool) (s : Summary) : String :=
  "  ◉ " ++ (if dryRun then "Would generate " else "Generated ")
    ++ toString s.files.length ++ " files · " ++ toString s.models ++ " models · "
    ++ toString s.aggregates ++ " aggregates · " ++ toString s.apiClients ++ " API clients"

/-- What is written of a summary. -/
def summaryLines (options : GenerateOptions) (s : Summary) : List String :=
  [countsLine options.dryRun s, ""] ++ treeLines options.output s.files ++ [""]
    ++ skippedLines s.skipped

/-! ## Program -/

/-- How a call of the program ends. -/
structure Ending where
  exitCode : Nat
  /-- The lines of the standard output. -/
  lines : List String := []
  /-- Whether a last line tells how long it took. -/
  timed : Bool := false
  error : Option GenerationError := none
deriving DecidableEq, Repr, Inhabited

/-- The exit code of a failure. -/
def GenerationError.exitCode (e : GenerationError) : Nat := if e.isInvalidInput then 2 else 1

/-- The ending of a failure after `lines` were written. -/
def Ending.failed (lines : List String) (e : GenerationError) : Ending :=
  { exitCode := e.exitCode, lines, error := some e }

/-- The exit code of arguments that are not understood. -/
def usageExitCode : Nat := 2

variable {m : Type → Type} [Monad m]

/-- Generates as the options say. -/
def GenerateOptions.run (files : FileAccess m) (options : GenerateOptions) : m Ending := do
  match Input.parse options.input with
  | .error e => return .failed [] e
  | .ok input =>
    let job : Job :=
      { input, output := options.output, configFile := options.configFile
        dryRun := options.dryRun }
    match ← (job.run files).run with
    | .ok summary =>
      return { exitCode := 0, lines := headerLines ++ summaryLines options summary, timed := true }
    | .error e => return .failed headerLines e

/-- Runs the program with its arguments. -/
def runProgram (files : FileAccess m) (arguments : List String) : m Ending :=
  match Invocation.parse arguments with
  | some (.generate options) => options.run files
  | some .version => return { exitCode := 0, lines := ["fetchgen " ++ programVersion] }
  | some .help => return { exitCode := 0, lines := helpLines }
  | some .generateHelp => return { exitCode := 0, lines := generateHelpLines }
  | none => return { exitCode := usageExitCode }

end ClientGen
