/-
  ClientGen.Text.FilePath

  Relative file paths of the output tree: the normal form in which two paths
  name the same file exactly when they are equal, and the module specifier by
  which one file imports another.
-/
import ClientGen.Text.Split

namespace ClientGen.FilePath

/-! ## Normal form -/

/-- Either slash separates the segments of a path. -/
def isSlash (c : Char) : Bool := c == '/' || c == '\\'

/-- One step of a walk along a path, on the directories entered so far (the
    innermost first): an empty segment and `.` stay, `..` leaves the innermost
    directory, or stays at the root. -/
def enter (entered : List String) (segment : String) : List String :=
  if segment = "" ∨ segment = "." then entered
  else if segment = ".." then entered.tail
  else segment :: entered

/-- The segments of a path after its empty, `.` and `..` segments are walked. -/
def walk (segments : List String) : List String := (segments.foldl enter []).reverse

/-- The normal form of a path: walked segments joined by `/`. -/
def normalize (path : String) : String := "/".intercalate (walk (Text.splitOn isSlash path))

/-- The file that holds the models of a model directory. -/
def modelFile (directory : String) : String := normalize (directory ++ "/types.ts")

/-- The directory of a path, unless the path is a mere name. -/
def directoryPart? (path : String) : Option String :=
  match (Text.splitOn (· == '/') path).dropLast with
  | [] => none
  | segments => some ("/".intercalate segments)

/-! ## Relative modules -/

/-- A part of a path that is read as it is written. -/
inductive Component where
  | root
  | here
  | up
  | name (segment : String)
deriving DecidableEq, Repr

/-- The component that a segment after the first stands for. -/
def Component.ofSegment? (segment : String) : Option Component :=
  if segment = "" ∨ segment = "." then none
  else if segment = ".." then some .up
  else some (.name segment)

/-- The components of a path: a slash in front is the root, a `.` counts only in
    front, and empty segments do not count. -/
def components (path : String) : List Component :=
  match Text.splitOn (· == '/') path with
  | [] => []
  | first :: rest =>
    let front : List Component :=
      if first = "" then (if rest.isEmpty then [] else [.root])
      else if first = "." then [.here]
      else (Component.ofSegment? first).toList
    front ++ rest.filterMap Component.ofSegment?

/-- The directory of a path: all components but the last; the root has none. -/
def directory (path : String) : List Component :=
  let all := components path
  if all = [.root] then [] else all.dropLast

/-- The walk from the directory `base` to `target`, or `none` when `base` has a
    `..` whose name would be needed.  `moved` says that a step was taken: only
    before that may equal components be left out. -/
def walkBetween (moved : Bool) : List Component → List Component → Option (List Component)
  | [], [] => some []
  | target, [] => some target
  | [], _ :: base => (walkBetween true [] base).map (.up :: ·)
  | a :: target, b :: base =>
    if !moved && a == b then walkBetween false target base
    else if b = .here then (walkBetween true target base).map (a :: ·)
    else if b = .up then none
    else some (.up :: base.map (fun _ => .up) ++ a :: target)

/-- The components that lead from the directory `base` to `target`.  A target
    that cannot be reached is given as it stands. -/
def relativeTo (base target : List Component) : List Component :=
  if (target.head? == some .root) != (base.head? == some .root) then target
  else (walkBetween false target base).getD target

/-- How a component is written in a module specifier. -/
def Component.specifier? : Component → Option String
  | .up => some ".."
  | .name segment => some segment
  | .root | .here => none

/-- The module specifier for importing the file `target` in the file `source`. -/
def relativeModule (source target : String) : String :=
  let stem := (Text.beforeEnd? ".ts" target).getD target
  let path := "/".intercalate
    ((relativeTo (directory source) (components stem)).filterMap Component.specifier?)
  if Text.startsWith ".." path then path else "./" ++ path

end ClientGen.FilePath
