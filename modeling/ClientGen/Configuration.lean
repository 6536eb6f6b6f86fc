/-
  ClientGen.Configuration

  The options of the generator, read from a configuration file: for every tag,
  the path parameters for which the caller of a method gives no value.
-/
import ClientGen.Error
import ClientGen.Map.Sorted
import ClientGen.Markup.Reading

namespace ClientGen

open Markup

/-- The options of one tag. -/
structure TagOptions where
  ignorePathParameters : Option (List String) := none
deriving DecidableEq, Repr, Inhabited

/-- The options of the generator. -/
structure Configuration where
  apiClients : SortedMap TagOptions := {}
deriving Inhabited

/-- The path parameters that are supplied at run time where nothing else is said. -/
def defaultIgnoredPathParameters : List String := ["tenantId", "ownerId"]

/-- The path parameters left out of the methods for a tag. -/
def Configuration.ignoredPathParameters (c : Configuration) (tag : String) : List String :=
  ((c.apiClients.get? tag).bind (·.ignorePathParameters)).getD defaultIgnoredPathParameters

/-- Reads the options of a tag. -/
def TagOptions.read (depth : Nat) (n : Node) : Reading TagOptions := do
  let (depth, f) ← readFields ["ignorePathParameters"] depth n
  return {
    ignorePathParameters :=
      ← f.get? "ignorePathParameters" (readList (fun _ => readText) depth) }

/-- Reads the options of the generator. -/
def Configuration.read (depth : Nat) (n : Node) : Reading Configuration := do
  let (depth, f) ← readFields ["apiClients"] depth n
  let entries ← f.getD "apiClients" [] (readEntries TagOptions.read depth)
  return { apiClients := .ofList entries }

/-- The configuration of a text in JSON or YAML, which is found at `path`.  A blank text
    leaves every option as it is. -/
def Configuration.parse (text path : String) : Except GenerationError Configuration :=
  if (Text.nonBlank? text).isNone then .ok {}
  else match readText? Configuration.read text with
    | some c => .ok c
    | none => .error (.invalidConfig path .malformed)

end ClientGen
