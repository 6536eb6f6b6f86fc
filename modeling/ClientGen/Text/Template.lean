/-
  ClientGen.Text.Template

  The names between braces in a path template such as `/order/{id}`.
-/
import ClientGen.Text.Split

namespace ClientGen.Text

/-- What precedes the first closing brace, if there is one. -/
def beforeBrace? (cs : List Char) : Option (List Char) :=
  if cs.contains '}' then some (cs.takeWhile (· != '}')) else none

/-- The placeholder names of a template, in order and with repeats.  A name runs
    from an opening brace to the next brace, which must close it. -/
def placeholderChars (cs : List Char) : List (List Char) :=
  ((pieces (· == '{') cs).tail.filterMap beforeBrace?).filter (!·.isEmpty)

/-- The placeholder names of a path template. -/
def placeholders (path : String) : List String :=
  (placeholderChars path.toList).map String.ofList

end ClientGen.Text
