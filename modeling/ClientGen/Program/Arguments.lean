/-
  ClientGen.Program.Arguments

  The arguments of the program.  An option may come once; its value is attached
  to it or is the next argument.
-/
import ClientGen.Program.Job

namespace ClientGen

/-- The options of a generation as they were given. -/
structure GenerateOptions where
  input : String
  output : String := defaultOutput
  configFile : String := defaultConfigFile
  verbose : Bool := false
  dryRun : Bool := false
deriving DecidableEq, Repr, Inhabited

/-- What the program is asked for. -/
inductive Invocation where
  | generate (options : GenerateOptions)
  | version
  | help
  | generateHelp
deriving DecidableEq, Repr, Inhabited

namespace Arguments

/-! ## Options -/

/-- The options that have a value. -/
inductive Setting where
  | input
  | output
  | configFile
deriving DecidableEq, Repr

/-- The options that have none. -/
inductive Switch where
  | verbose
  | dryRun
deriving DecidableEq, Repr

/-- What has been given so far: values, and switches. -/
structure Given where
  values : List (Setting × String) := []
  switches : List Switch := []
deriving DecidableEq, Repr, Inhabited

/-- What is given after one more value.  A file name is not empty. -/
def Given.set (g : Given) (s : Setting) (value : String) : Option Given :=
  if (g.values.lookup s).isSome || (s != .input && value.isEmpty) then none
  else some { g with values := (s, value) :: g.values }

/-- What is given after one more switch. -/
def Given.switch (g : Given) (s : Switch) : Option Given :=
  if g.switches.contains s then none else some { g with switches := s :: g.switches }

/-- The invocation of what was given, which has an input. -/
def Given.invocation? (g : Given) : Option Invocation :=
  (g.values.lookup .input).map fun input => .generate {
    input
    output := (g.values.lookup .output).getD defaultOutput
    configFile := (g.values.lookup .configFile).getD defaultConfigFile
    verbose := g.switches.contains .verbose
    dryRun := g.switches.contains .dryRun }

/-- The setting of a long name. -/
def longSetting? (name : String) : Option Setting :=
  [("input", .input), ("output", .output), ("config", .configFile)].lookup name

/-- The switch of a long name. -/
def longSwitch? (name : String) : Option Switch :=
  [("verbose", .verbose), ("dry-run", .dryRun)].lookup name

/-- The setting of a letter. -/
def shortSetting? (letter : Char) : Option Setting :=
  [('i', .input), ('o', .output), ('c', .configFile)].lookup letter

/-! ## Single arguments -/

/-- What an argument asks for next. -/
inductive Next where
  | more (given : Given)
  /-- The next argument is the value of a setting. -/
  | value (given : Given) (setting : Setting)
  | help
deriving DecidableEq, Repr

/-- An attached value without the equals sign that may precede it. -/
def attached : List Char → String
  | '=' :: rest => String.ofList rest
  | cs => String.ofList cs

/-- Reads letters behind a single dash. -/
def readLetters (g : Given) : List Char → Option Next
  | [] => some (.more g)
  | 'v' :: rest => (g.switch .verbose).bind (readLetters · rest)
  | 'h' :: _ => some .help
  | letter :: rest =>
    (shortSetting? letter).bind fun s =>
      if rest.isEmpty then some (.value g s) else (g.set s (attached rest)).map .more

/-- Reads what follows two dashes. -/
def readLong (g : Given) (text : String) : Option Next :=
  let name := text.toList.takeWhile (· != '=')
  let rest := text.toList.dropWhile (· != '=')
  let name := String.ofList name
  match longSetting? name with
  | some s => if rest.isEmpty then some (.value g s) else (g.set s (attached rest)).map .more
  | none =>
    if !rest.isEmpty then none
    else if name = "help" then some .help
    else (longSwitch? name).bind fun s => (g.switch s).map .more

/-- Reads an argument that is not a value. -/
def readArgument (g : Given) (argument : String) : Option Next :=
  match Text.afterStart? "--" argument with
  | some text => readLong g text
  | none =>
    match argument.toList with
    | '-' :: letter :: rest => readLetters g (letter :: rest)
    | _ => none

/-! ## All arguments -/

/-- Whether an argument can be a value: it does not look like an option. -/
def isValue (argument : String) : Bool := argument == "-" || !Text.startsWith "-" argument

/-- Reads the arguments of a generation.  `waiting` is the setting whose value is the
    next argument. -/
def readAll (g : Given) (waiting : Option Setting) : List String → Option Invocation
  | [] => if waiting.isSome then none else g.invocation?
  | argument :: rest =>
    match waiting with
    | some s =>
      if isValue argument then (g.set s argument).bind (readAll · none rest) else none
    | none =>
      if argument = "--" then if rest.isEmpty then g.invocation? else none
      else match readArgument g argument with
        | none => none
        | some .help => some .generateHelp
        | some (.more g) => readAll g none rest
        | some (.value g s) => readAll g (some s) rest

end Arguments

/-- The invocation that arguments stand for, if they are understood. -/
def Invocation.parse : List String → Option Invocation
  | [] => none
  | "generate" :: rest => Arguments.readAll {} none rest
  | ["help"] => some .help
  | ["help", "generate"] => some .generateHelp
  | "--version" :: _ => some .version
  | "--help" :: _ => some .help
  | argument :: _ =>
    match argument.toList with
    | '-' :: 'V' :: _ => some .version
    | '-' :: 'h' :: _ => some .help
    | _ => none

end ClientGen
