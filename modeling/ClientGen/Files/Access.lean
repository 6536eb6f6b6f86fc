/-
  ClientGen.Files.Access

  What the generator asks of a file system.
-/

namespace ClientGen

/-- Access to files by their paths.  Each operation tells whether it succeeded. -/
structure FileAccess (m : Type → Type) where
  /-- The text of a file. -/
  read? : String → m (Option String)
  /-- Whether there is a file or a directory. -/
  isPresent : String → m Bool
  /-- Creates a directory and those that it is in, unless they are there.  The empty
      path is always there. -/
  createDirectories : String → m Bool
  /-- Writes the text of a file, which is created unless it is there. -/
  write : String → String → m Bool

end ClientGen
