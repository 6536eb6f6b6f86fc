/-
  ClientGen.Markup.Yaml.Cursor

  A place in a YAML text, and the classes of characters that its syntax knows.
-/

namespace ClientGen.Markup.Yaml

/-! ## Character classes -/

/-- A line break: line feed, carriage return, next line, or a Unicode separator of
    lines or paragraphs. -/
def isBreak (c : Char) : Bool :=
  c == '\n' || c == '\r' || c == '\x85' || c == '\u2028' || c == '\u2029'

/-- A space or a tab. -/
def isSpace (c : Char) : Bool := c == ' ' || c == '\t'

/-- A space, a tab or a line break. -/
def isGap (c : Char) : Bool := isSpace c || isBreak c

/-- A character of names: of anchors, directives and tag handles. -/
def isNameChar (c : Char) : Bool := c.isAlphanum || c == '_' || c == '-'

/-- The brackets and the comma of flow collections. -/
def isFlowMark (c : Char) : Bool :=
  c == ',' || c == '[' || c == ']' || c == '\x7b' || c == '\x7d'

/-- The byte order mark, which may stand at the beginning of a line. -/
def byteOrderMark : Char := '\ufeff'

/-- Whether a YAML text may hold the character: control characters other than tab
    and the line breaks are out, and so are the last two of the basic plane. -/
def isPrintable (c : Char) : Bool :=
  let n := c.toNat
  n == 0x09 || n == 0x0A || n == 0x0D || (0x20 ≤ n && n ≤ 0x7E) || n == 0x85
    || (0xA0 ≤ n && n ≤ 0xFFFD) || 0x10000 ≤ n

/-! ## Cursors -/

/-- What is left of a text, and where that is: the number of characters before it,
    and its line and column. -/
structure Cursor where
  rest : List Char
  index : Nat := 0
  line : Nat := 0
  column : Nat := 0
deriving Repr, Inhabited

namespace Cursor

/-- The beginning of a text. -/
def start (text : List Char) : Cursor := { rest := text }

/-- The character `n` places ahead. -/
def peek? (c : Cursor) (n : Nat) : Option Char := (c.rest.drop n).head?

/-- Whether a given character stands at the cursor. -/
def isAt (c : Cursor) (d : Char) : Bool := c.rest.head? == some d

/-- Whether a gap, or the end of the text, is `n` places ahead. -/
def gapAt (c : Cursor) (n : Nat) : Bool := (c.peek? n).all isGap

/-- Whether a line break, or the end of the text, is at the cursor. -/
def atLineEnd (c : Cursor) : Bool := c.rest.head?.all isBreak

/-- The cursor after `n` characters of the same line. -/
def skip (c : Cursor) (n : Nat) : Cursor :=
  { c with rest := c.rest.drop n, index := c.index + n, column := c.column + n }

/-- The characters that satisfy `p` from the cursor on, and the cursor after them. -/
def span (c : Cursor) (p : Char → Bool) : List Char × Cursor :=
  let found := c.rest.takeWhile p
  (found, c.skip found.length)

/-- The cursor after the characters that satisfy `p`. -/
def skipWhile (c : Cursor) (p : Char → Bool) : Cursor := (c.span p).2

/-- The text of a line break and the cursor behind it: all but the Unicode
    separators read as one line feed. -/
def takeBreak (c : Cursor) : List Char × Cursor :=
  let next (n : Nat) (rest : List Char) : Cursor :=
    { rest, index := c.index + n, line := c.line + 1, column := 0 }
  match c.rest with
  | '\r' :: '\n' :: rest => (['\n'], next 2 rest)
  | d :: rest =>
    if d = '\u2028' ∨ d = '\u2029' then ([d], next 1 rest)
    else if isBreak d then (['\n'], next 1 rest)
    else ([], c)
  | [] => ([], c)

/-- The cursor behind a line break. -/
def skipBreak (c : Cursor) : Cursor := c.takeBreak.2

/-- The cursor at the end of the line, behind a comment if one stands here. -/
def skipComment (c : Cursor) : Cursor :=
  if c.isAt '#' then c.skipWhile (!isBreak ·) else c

/-- Whether a line begins here with the mark, three times, and a gap after it. -/
def atMark (c : Cursor) (mark : Char) : Bool :=
  c.column == 0 && c.peek? 0 == some mark && c.peek? 1 == some mark && c.peek? 2 == some mark
    && c.gapAt 3

/-- Whether a line that opens or ends a document begins here. -/
def atDocumentMark (c : Cursor) : Bool := c.atMark '-' || c.atMark '.'

end Cursor

end ClientGen.Markup.Yaml
