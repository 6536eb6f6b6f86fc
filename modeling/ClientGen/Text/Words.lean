/-
  ClientGen.Text.Words

  Letter case of names: how the words of a name are found, and the three
  spellings `PascalCase`, `camelCase` and `UPPER_SNAKE_CASE`.  Only ASCII
  letters and digits belong to words; every other character separates them.
-/
import ClientGen.Text.Split

namespace ClientGen.Text

/-! ## Pascal and camel case -/

/-- A word with its first letter in upper case. -/
def capitalize : List Char → List Char
  | [] => []
  | c :: rest => c.toUpper :: rest

/-- A word with its first letter in lower case. -/
def uncapitalize : List Char → List Char
  | [] => []
  | c :: rest => c.toLower :: rest

/-- The characters of a name in Pascal case: its words run together, each
    capitalized and otherwise kept. -/
def pascalChars (cs : List Char) : List Char :=
  (pieces (fun c => !c.isAlphanum) cs).flatMap capitalize

/-- A name in Pascal case. -/
def pascalCase (s : String) : String := String.ofList (pascalChars s.toList)

/-- A name in camel case: Pascal case with the first letter lowered. -/
def camelCase (s : String) : String := String.ofList (uncapitalize (pascalChars s.toList))

/-! ## Upper snake case -/

/-- A letter or digit after which an upper-case letter opens a new word. -/
def endsWord (c : Char) : Bool := c.isLower || c.isDigit

/-- The words of a name, where `word` is the word read so far in reverse.
    A word ends at a separator, and before an upper-case letter that follows a
    lower-case letter or a digit. -/
def wordsFrom (word : List Char) : List Char → List (List Char)
  | [] => if word.isEmpty then [] else [word.reverse]
  | c :: rest =>
    if !c.isAlphanum then
      if word.isEmpty then wordsFrom [] rest else word.reverse :: wordsFrom [] rest
    else if c.isUpper && word.head?.any endsWord then
      word.reverse :: wordsFrom [c] rest
    else wordsFrom (c :: word) rest

/-- The words of a name. -/
def words (s : String) : List (List Char) := wordsFrom [] s.toList

/-- A name in upper snake case: its words in upper case, joined by underscores. -/
def upperSnakeCase (s : String) : String :=
  "_".intercalate ((words s).map fun w => String.ofList (w.map Char.toUpper))

end ClientGen.Text
