/-
  ClientGen.TypeScript.DocComment

  Documentation comments: the lines that a title and a description give, and
  the comment block that holds them.
-/
import ClientGen.Text.Split

namespace ClientGen.TypeScript

/-- The lines of one documentation text: trimmed as a whole, and each at its end. -/
def docLinesOf (text : String) : List String :=
  match Text.nonBlank? text with
  | none => []
  | some t => (Text.lines t.toList).map fun line => String.ofList (Text.trimEnd line)

/-- The documentation lines of a title, followed by those of a description. -/
def docLines (title description : Option String) : List String :=
  (title.toList ++ description.toList).flatMap docLinesOf

/-- Documentation lines that mark what is deprecated. -/
def markDeprecated (deprecated : Bool) (lines : List String) : List String :=
  if deprecated then lines ++ ["@deprecated"] else lines

/-- A line in which no comment end is left: a backslash parts every `*/`. -/
def escapeCommentEnd : List Char → List Char
  | '*' :: '/' :: rest => '*' :: '\\' :: '/' :: escapeCommentEnd rest
  | c :: rest => c :: escapeCommentEnd rest
  | [] => []

/-- One line of a comment block. -/
def renderDocLine (indent line : String) : String :=
  let text := String.ofList (escapeCommentEnd line.toList)
  if text.isEmpty then indent ++ " *\n" else indent ++ " * " ++ text ++ "\n"

/-- The comment block that holds documentation lines; no lines, no block. -/
def renderDocs (indent : String) (lines : List String) : String :=
  if lines.isEmpty then ""
  else indent ++ "/**\n" ++ String.join (lines.map (renderDocLine indent)) ++ indent ++ " */\n"

end ClientGen.TypeScript
