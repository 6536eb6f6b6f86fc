/-
  ClientGen.Error

  The ways in which generation fails, the texts that report them, and the
  records of what was left out of the output.
-/

namespace ClientGen

/-- Why a document cannot be read. -/
inductive DocumentFault where
  | empty
  | malformed
deriving DecidableEq, Repr, Inhabited

/-- Why a generator configuration cannot be used. -/
inductive ConfigFault where
  | missing
  | malformed
deriving DecidableEq, Repr, Inhabited

/-- A failure of generation. -/
inductive GenerationError where
  /-- A file or directory could not be read or written. -/
  | inaccessible (path : String)
  /-- The input names neither a file nor an address. -/
  | invalidInput (input : String)
  /-- The input is an address, whose document has to be fetched first. -/
  | notFetched (url : String)
  | unreadableDocument (source : String) (fault : DocumentFault)
  | invalidConfig (path : String) (fault : ConfigFault)
  /-- A reference means no component. -/
  | unresolvedReference (reference referrer : String)
  /-- Two schemas would be declared by the same name in the same directory. -/
  | namingCollision (name path first second : String)
  /-- An inline schema is nested deeper than is followed. -/
  | tooDeep (referrer : String) (depth : Nat)
deriving DecidableEq, Repr, Inhabited

/-- The text of a document fault. -/
def DocumentFault.message : DocumentFault → String
  | .empty => "document is empty"
  | .malformed => "not a document in JSON or YAML"

/-- The text of a configuration fault. -/
def ConfigFault.message : ConfigFault → String
  | .missing => "file not found"
  | .malformed => "not a configuration in JSON or YAML"

namespace GenerationError

/-- The report of a failure. -/
def message : GenerationError → String
  | .inaccessible path => "Failed to access '" ++ path ++ "': not accessible"
  | .invalidInput input =>
    "Invalid input '" ++ input ++ "': expected an http(s) URL or a file path"
  | .notFetched url =>
    "Failed to fetch '" ++ url ++ "': remote documents must be fetched before compiling"
  | .unreadableDocument source fault =>
    "Failed to parse '" ++ source ++ "': " ++ fault.message
  | .invalidConfig path fault =>
    "Invalid generator config '" ++ path ++ "': " ++ fault.message
  | .unresolvedReference reference referrer =>
    "Unresolved reference '" ++ reference ++ "' in " ++ referrer
  | .namingCollision name path first second =>
    "Schemas '" ++ first ++ "' and '" ++ second ++ "' both resolve to '" ++ name ++ "' in '"
      ++ path ++ "'"
  | .tooDeep referrer depth =>
    "Cyclic inline schema in " ++ referrer ++ " (nesting deeper than " ++ toString depth ++ ")"

/-- The code by which a failure is looked up. -/
def code : GenerationError → String
  | .inaccessible _ => "fetchgen::io::access_failed"
  | .invalidInput _ => "fetchgen::input::invalid"
  | .notFetched _ => "fetchgen::input::fetch_failed"
  | .unreadableDocument .. => "fetchgen::input::parse_failed"
  | .invalidConfig .. => "fetchgen::config::invalid"
  | .unresolvedReference .. => "fetchgen::schema::unresolved_reference"
  | .namingCollision .. => "fetchgen::schema::naming_collision"
  | .tooDeep .. => "fetchgen::schema::cyclic"

/-- What can be done about a failure. -/
def help? : GenerationError → Option String
  | .inaccessible _ | .notFetched _ | .invalidConfig .. => none
  | .invalidInput _ => some "Pass --input with a local OpenAPI file or an http(s) URL"
  | .unreadableDocument .. => some "The document must be valid JSON or YAML"
  | .unresolvedReference .. => some "Every $ref must point at an entry of the document's components"
  | .namingCollision .. => some "Rename one of the schemas so their generated names differ"
  | .tooDeep .. =>
    some "Replace the recursive inline object with a $ref to a component schema"

/-- Whether the failure lies in what the user asked for. -/
def isInvalidInput : GenerationError → Bool
  | .invalidInput _ => true
  | _ => false

end GenerationError

/-- A schema or operation that was left out of the output, and why. -/
structure Skipped where
  item : String
  reason : String
deriving DecidableEq, Repr, Inhabited

/-- The record of an item left out because of a failure. -/
def Skipped.because (item : String) (error : GenerationError) : Skipped := ⟨item, error.message⟩

end ClientGen
