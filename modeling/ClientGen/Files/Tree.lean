/-
  ClientGen.Files.Tree

  A file system as a value: directories and files below a root, a working
  directory, and the walk along a path from one to the other.
-/
import ClientGen.Files.Access
import ClientGen.Map.Sorted
import ClientGen.Text.Split

namespace ClientGen

/-- What there is at a place of a file system. -/
inductive FileEntry where
  | directory
  | file (text : String)
deriving DecidableEq, Repr, Inhabited

/-- A file system.  A place is the list of names on the way from the root; its entry
    is listed under these names joined by slashes. -/
structure FileTree where
  entries : SortedMap FileEntry := {}
  /-- The working directory. -/
  here : List String := []
deriving Inhabited

namespace FileTree

/-- The key under which a place is listed. -/
def key (place : List String) : String := "/".intercalate place

/-- What there is at a place; the root is a directory. -/
def entry? (t : FileTree) (place : List String) : Option FileEntry :=
  if place.isEmpty then some .directory else t.entries.get? (key place)

/-- Whether a place is a directory. -/
def isDirectory (t : FileTree) (place : List String) : Bool := t.entry? place == some .directory

/-- The file system with an entry set. -/
def put (t : FileTree) (place : List String) (entry : FileEntry) : FileTree :=
  { t with entries := t.entries.insert (key place) entry }

/-! ## Paths -/

/-- The most bytes that a name may have. -/
def nameLimit : Nat := 255

/-- The most bytes that a path may have. -/
def pathLimit : Nat := 4095

/-- Whether a file or directory may have a name. -/
def isName (name : String) : Bool := name.utf8ByteSize ≤ nameLimit

/-- Whether a text is taken as a path. -/
def isPath (path : String) : Bool :=
  path.utf8ByteSize ≤ pathLimit && !path.toList.contains '\x00'

/-- The segments of a path. -/
def segments (path : String) : List String := Text.splitOn (· == '/') path

/-- Where the walk along a path begins. -/
def start (t : FileTree) (path : String) : List String :=
  if Text.startsWith "/" path then [] else t.here

/-- One step of a walk.  It leads out of directories only. -/
def step (t : FileTree) (place : List String) (segment : String) : Option (List String) :=
  if !t.isDirectory place then none
  else if segment = "" ∨ segment = "." then some place
  else if segment = ".." then some place.dropLast
  else some (place ++ [segment])

/-- The place to which a path leads; there need not be anything. -/
def place? (t : FileTree) (path : String) : Option (List String) :=
  if path.isEmpty || !isPath path then none
  else (segments path).foldlM t.step (t.start path)

/-! ## Access -/

/-- What there is at a path. -/
def lookup? (t : FileTree) (path : String) : Option FileEntry := (t.place? path).bind t.entry?

/-- The text of the file at a path. -/
def read? (t : FileTree) (path : String) : Option String :=
  match t.lookup? path with
  | some (.file text) => some text
  | _ => none

/-- One step of a walk that creates the directories that are not there. -/
def stepCreating (t : FileTree) (place : List String) (segment : String) :
    FileTree × Option (List String) :=
  match t.step place segment with
  | none => (t, none)
  | some next =>
    match t.entry? next with
    | some .directory => (t, some next)
    | some (.file _) => (t, none)
    | none => if isName segment then (t.put next .directory, some next) else (t, none)

/-- Creates the directories along the segments of a path. -/
def createAlong (t : FileTree) (place : List String) : List String → FileTree × Bool
  | [] => (t, true)
  | segment :: rest =>
    match t.stepCreating place segment with
    | (t, none) => (t, false)
    | (t, some next) => createAlong t next rest

/-- Creates the directories of a path. -/
def createDirectories (t : FileTree) (path : String) : FileTree × Bool :=
  if path.isEmpty then (t, true)
  else if !isPath path then (t, false)
  else t.createAlong (t.start path) (segments path)

/-- Writes the text of a file. -/
def write (t : FileTree) (path text : String) : FileTree × Bool :=
  match t.place? path with
  | none => (t, false)
  | some place =>
    match t.entry? place with
    | some .directory => (t, false)
    | some (.file _) => (t.put place (.file text), true)
    | none =>
      if place.getLast?.all isName then (t.put place (.file text), true) else (t, false)

/-- Access to a file system that is a value. -/
def access : FileAccess (StateM FileTree) where
  read? path := do return (← get).read? path
  isPresent path := do return ((← get).lookup? path).isSome
  createDirectories path := modifyGet fun t =>
    let (t, done) := t.createDirectories path
    (done, t)
  write path text := modifyGet fun t =>
    let (t, done) := t.write path text
    (done, t)

/-- The files below the working directory, by their paths from there. -/
def filesHere (t : FileTree) : List (String × String) :=
  let front := if t.here.isEmpty then "" else key t.here ++ "/"
  t.entries.entries.filterMap fun (key, entry) =>
    match Text.afterStart? front key, entry with
    | some path, .file text => some (path, text)
    | _, _ => none

end FileTree

end ClientGen
