/-
  ClientGen.Program.Input

  Where the document comes from: a file, or an address from which it has to be
  fetched.
-/
import ClientGen.Error
import ClientGen.Text.Split

namespace ClientGen

/-- The source of a document. -/
inductive Input where
  | file (path : String)
  | address (url : String)
deriving DecidableEq, Repr, Inhabited

namespace Input

/-- What addresses begin with, in any letter case. -/
def schemes : List String := ["http://", "https://"]

/-- The rest of a text after a scheme, in any letter case. -/
def afterScheme? (text scheme : String) : Option (List Char) :=
  let cs := text.toList
  let n := scheme.toList.length
  if (cs.take n).map Char.toLower = scheme.toList then some (cs.drop n) else none

/-- The source that a text names, blank ends apart.  An address has something after
    its scheme. -/
def parse (text : String) : Except GenerationError Input :=
  match Text.nonBlank? text with
  | none => .error (.invalidInput text)
  | some trimmed =>
    match schemes.findSome? (afterScheme? trimmed) with
    | some [] => .error (.invalidInput text)
    | some _ => .ok (.address trimmed)
    | none => .ok (.file trimmed)

/-- The name of a source in messages. -/
def name : Input → String
  | .file path => path
  | .address url => url

end Input

end ClientGen
