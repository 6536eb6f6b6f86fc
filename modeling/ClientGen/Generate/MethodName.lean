/-
  ClientGen.Generate.MethodName

  Names that are not taken: those of the methods of a class, made from the
  shortest free ending of an operation's identifier, and those of the
  parameters of a method.
-/
import ClientGen.TypeScript.Identifier

namespace ClientGen

open TypeScript

/-! ## Free names -/

/-- The first of the names `base ++ n`, `base ++ (n + 1)`, … that is not taken, among
    the next `tries`. -/
def numberedFrom (taken : List String) (base : String) : Nat → Nat → String
  | 0, n => base ++ toString n
  | tries + 1, n =>
    if taken.contains (base ++ toString n) then numberedFrom taken base tries (n + 1)
    else base ++ toString n

/-- A name that is not taken: `base` itself, or `base` with the least number from two
    on.  As many tries as there are taken names suffice. -/
def freeName (taken : List String) (base : String) : String :=
  if taken.contains base then numberedFrom taken base taken.length 2 else base

/-- A free parameter name for every text in turn. -/
def parameterNames (taken : List String) : List String → List String
  | [] => []
  | text :: rest =>
    let name := freeName taken (safeIdentifier text)
    name :: parameterNames (name :: taken) rest

/-! ## Method names -/

/-- The method name of consecutive segments of an identifier. -/
def methodNameOf (segments : List String) : String :=
  let name := Text.camelCase ("_".intercalate segments)
  if name.isEmpty then "invoke" else withOpening name

/-- The segments of an identifier between its dots. -/
def identifierSegments (identifier : String) : List String :=
  (Text.splitOn (· == '.') identifier).filter (!·.isEmpty)

/-- The endings of a list that are not empty, the longest first. -/
def endings {α : Type} : List α → List (List α)
  | [] => []
  | a :: rest => (a :: rest) :: endings rest

/-- The method names of the endings of an identifier, those of the shortest first. -/
def methodNameCandidates (identifier : String) : List String :=
  (endings (identifierSegments identifier)).reverse.map methodNameOf

/-- The first candidate that is not taken, or the name of the whole identifier when all
    of them are. -/
def preferredMethodName (taken : List String) (identifier : String) : String :=
  ((methodNameCandidates identifier).find? (!taken.contains ·)).getD
    (methodNameOf (identifierSegments identifier))

/-- A method name that is not taken. -/
def methodName (taken : List String) (identifier : String) : String :=
  freeName taken (preferredMethodName taken identifier)

end ClientGen
