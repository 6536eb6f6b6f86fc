/-
  ClientGen.TypeScript.Identifier

  Identifiers of generated TypeScript: which texts are identifiers, and how
  parameter names and enum member names are made from arbitrary texts.
-/
import ClientGen.Text.Words

namespace ClientGen.TypeScript

/-- A character that may open an identifier. -/
def opensIdentifier (c : Char) : Bool := c.isAlpha || c == '_' || c == '$'

/-- A character that may continue an identifier. -/
def continuesIdentifier (c : Char) : Bool := c.isAlphanum || c == '_' || c == '$'

/-- Whether a text can stand as a bare identifier. -/
def isIdentifierChars : List Char → Bool
  | [] => false
  | c :: rest => opensIdentifier c && rest.all continuesIdentifier

/-- Whether a text can stand as a bare identifier. -/
def isIdentifier (s : String) : Bool := isIdentifierChars s.toList

/-- The words that are never used as the name of a parameter. -/
def reservedWords : List String :=
  ["break", "case", "catch", "class", "const", "continue", "debugger", "default", "delete",
   "do", "else", "enum", "export", "extends", "false", "finally", "for", "function", "if",
   "import", "in", "instanceof", "new", "null", "return", "super", "switch", "this", "throw",
   "true", "try", "typeof", "var", "void", "while", "with"]

/-- A name that is empty, or begins with a digit, gets an underscore in front. -/
def withOpening (s : String) : String :=
  match s.toList with
  | [] => "_"
  | c :: _ => if c.isDigit then "_" ++ s else s

/-- A parameter name for any text: camel case, opened as identifiers are, and
    set apart from reserved words by a trailing underscore. -/
def safeIdentifier (s : String) : String :=
  let name := withOpening (Text.camelCase s)
  if reservedWords.contains name then name ++ "_" else name

/-- The enum member name of a string value. -/
def enumMemberName (value : String) : String := withOpening (Text.upperSnakeCase value)

end ClientGen.TypeScript
