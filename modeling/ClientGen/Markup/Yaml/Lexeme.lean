/-
  ClientGen.Markup.Yaml.Lexeme

  The lexemes of YAML that have contents: scalars in their five styles,
  anchors, tags and directives.  Each is read at a cursor and leaves the cursor
  behind it; `none` says that the text is not YAML.
-/
import ClientGen.Markup.Json
import ClientGen.Markup.Yaml.Cursor

namespace ClientGen.Markup.Yaml

/-! ## Folding -/

/-- White space between two stretches of a scalar: spaces on one line, or else a
    first line break and the breaks after it. -/
inductive Gap where
  | spaces (text : List Char)
  | breaks (first later : List Char)
deriving Repr, Inhabited

namespace Gap

/-- No white space. -/
def none : Gap := .spaces []

/-- What is read for the gap: spaces as they are; a single line break as a space,
    and of several line feeds all but the first. -/
def text : Gap → List Char
  | .spaces text => text
  | .breaks first later =>
    if first.head? = some '\n' then (if later.isEmpty then [' '] else later)
    else first ++ later

/-- Whether the gap goes over the end of a line. -/
def goesOn : Gap → Bool
  | .spaces _ => false
  | .breaks _ _ => true

end Gap

/-- Reads a gap from a cursor.  With `tabFrom`, a tab further left on a later line
    is refused. -/
def gapFrom (tabFrom : Option Int) (gap : Gap) : Nat → Cursor → Option (Gap × Cursor)
  | 0, c => some (gap, c)
  | fuel + 1, c =>
    match c.rest with
    | [] => some (gap, c)
    | d :: _ =>
      if isSpace d then
        match gap with
        | .spaces text => gapFrom tabFrom (.spaces (text ++ [d])) fuel (c.skip 1)
        | .breaks _ _ =>
          if d = '\t' ∧ tabFrom.any ((c.column : Int) < ·) then none
          else gapFrom tabFrom gap fuel (c.skip 1)
      else if isBreak d then
        let (text, next) := c.takeBreak
        match gap with
        | .spaces _ => gapFrom tabFrom (.breaks text []) fuel next
        | .breaks first later => gapFrom tabFrom (.breaks first (later ++ text)) fuel next
      else some (gap, c)

/-- The gap at a cursor. -/
def gap? (tabFrom : Option Int) (gap : Gap) (c : Cursor) : Option (Gap × Cursor) :=
  gapFrom tabFrom gap (c.rest.length + 1) c

/-! ## Plain scalars -/

/-- A stretch of a plain scalar up to a gap or a mark that ends it.  In a flow
    collection a colon must not run into a flow mark. -/
def plainRun (flow : Bool) : List Char → Option (List Char)
  | [] => some []
  | c :: rest =>
    if isGap c then some []
    else if flow ∧ c = ':' ∧ rest.head?.any (fun d => d == '?' || isFlowMark d) then none
    else if (c = ':' ∧ rest.head?.all isGap) ∨ (flow ∧ isFlowMark c) then some []
    else (plainRun flow rest).map (c :: ·)

/-- What a plain scalar has come to: its text so far, the gap after it, and the
    cursor behind the gap. -/
structure PlainScalar where
  text : List Char
  gap : Gap
  cursor : Cursor

/-- The rest of a plain scalar.  It ends at a document mark, a comment or a mark,
    and in block context at a line that is indented less than `indent`. -/
def plainFrom (flow : Bool) (indent : Int) (text : List Char) (gap : Gap) :
    Nat → Cursor → Option PlainScalar
  | 0, _ => none
  | fuel + 1, c => do
    if c.atDocumentMark || c.isAt '#' then return ⟨text, gap, c⟩
    let run ← plainRun flow c.rest
    let text := if run.isEmpty then text else text ++ gap.text ++ run
    let after := c.skip run.length
    if !after.rest.head?.any isGap then
      return ⟨text, if run.isEmpty then gap else .none, after⟩
    let (gap, after) ← gap? (some indent) .none after
    if !flow && (after.column : Int) < indent then return ⟨text, gap, after⟩
    plainFrom flow indent text gap fuel after

/-- The plain scalar at a cursor. -/
def plain? (flow : Bool) (indent : Int) (c : Cursor) : Option PlainScalar :=
  plainFrom flow indent [] .none (c.rest.length + 2) c

/-! ## Quoted scalars -/

/-- The character that an escape letter stands for. -/
def escapedChar? (c : Char) : Option Char :=
  [('0', '\x00'), ('a', '\x07'), ('b', '\x08'), ('t', '\t'), ('\t', '\t'), ('n', '\n'),
   ('v', '\x0b'), ('f', '\x0c'), ('r', '\r'), ('e', '\x1b'), (' ', ' '), ('"', '"'), ('/', '/'),
   ('\\', '\\'), ('N', '\x85'), ('_', '\xa0'), ('L', '\u2028'), ('P', '\u2029')].lookup c

/-- How many hexadecimal digits follow an escape letter. -/
def escapeWidth? (c : Char) : Option Nat := [('x', 2), ('u', 4), ('U', 8)].lookup c

/-- The character of an escape and the length of the escape.  A code that is no
    character is refused. -/
def escape? : List Char → Option (Char × Nat)
  | '\\' :: c :: rest =>
    match escapeWidth? c with
    | none => (escapedChar? c).map (·, 2)
    | some width => do
      let (code, _) ← Json.hexNumber? 0 width rest
      if (0xD800 ≤ code ∧ code ≤ 0xDFFF) ∨ 0x10FFFF < code then none
      else some (Char.ofNat code, 2 + width)
  | _ => none

/-- A stretch of a quoted scalar: its characters, how many are read for them, and
    whether an escaped line break ends it. -/
structure QuotedRun where
  text : List Char := []
  length : Nat := 0
  escapedBreak : Bool := false

/-- The stretch of a quoted scalar up to a gap, the closing quote, or an escaped
    line break. -/
def quotedRun (quote : Char) (run : QuotedRun) : Nat → List Char → Option QuotedRun
  | 0, _ => none
  | _ + 1, [] => some run
  | fuel + 1, c :: rest =>
    if isGap c then some run
    else if quote = '\x27' ∧ c = quote ∧ rest.head? = some quote then
      quotedRun quote { run with text := run.text ++ [quote], length := run.length + 2 } fuel
        (rest.drop 1)
    else if c = quote then some run
    else if quote = '"' ∧ c = '\\' then
      if rest.head?.any isBreak then some { run with escapedBreak := true }
      else do
        let (d, width) ← escape? (c :: rest)
        quotedRun quote { run with text := run.text ++ [d], length := run.length + width } fuel
          ((c :: rest).drop width)
    else quotedRun quote { run with text := run.text ++ [c], length := run.length + 1 } fuel rest

/-- The rest of a quoted scalar after its opening quote. -/
def quotedFrom (quote : Char) (text : List Char) : Nat → Cursor → Option (List Char × Cursor)
  | 0, _ => none
  | fuel + 1, c => do
    if c.atDocumentMark || c.rest.isEmpty then none
    let run ← quotedRun quote {} (c.rest.length + 1) c.rest
    let text := text ++ run.text
    let after := c.skip run.length
    let (before, after) :=
      if run.escapedBreak then (Gap.breaks [] [], (after.skip 1).skipBreak) else (Gap.none, after)
    if after.isAt quote then return (text, after.skip 1)
    let (gap, after) ← gap? none before after
    quotedFrom quote (text ++ gap.text) fuel after

/-- The quoted scalar at a cursor, which is at its opening quote. -/
def quoted? (quote : Char) (c : Cursor) : Option (List Char × Cursor) :=
  quotedFrom quote [] (c.rest.length + 1) (c.skip 1)

/-! ## Block scalars -/

/-- What becomes of the line breaks that end a block scalar. -/
inductive Chomping where
  | strip
  | clip
  | keep
deriving DecidableEq, Repr, Inhabited

/-- The chomping mark at the front of a text. -/
def chomping? : List Char → Option Chomping
  | '+' :: _ => some .keep
  | '-' :: _ => some .strip
  | _ => none

/-- The indentation digit at the front of a text; zero is refused. -/
def indentation? : List Char → Option (Option Nat)
  | c :: _ =>
    if c = '0' then none else if c.isDigit then some (some (Number.digitValue c)) else some none
  | [] => some none

/-- The header of a block scalar after its indicator: a chomping mark and an
    indentation digit, either one left out, in either order. -/
def blockHeader? (c : Cursor) : Option (Chomping × Option Nat × Cursor) :=
  match chomping? c.rest with
  | some chomping => do
    let c := c.skip 1
    match ← indentation? c.rest with
    | some n => some (chomping, some n, c.skip 1)
    | none => some (chomping, none, c)
  | none => do
    match ← indentation? c.rest with
    | none => some (.clip, none, c)
    | some n =>
      let c := c.skip 1
      match chomping? c.rest with
      | some chomping => some (chomping, some n, c.skip 1)
      | none => some (.clip, some n, c)

/-- The cursor on the next line, after spaces and a comment; anything else on this
    line is refused. -/
def endOfLine? (c : Cursor) : Option Cursor :=
  let c := (c.skipWhile isSpace).skipComment
  if c.atLineEnd then some c.skipBreak else none

/-- Empty lines and indentation in front of a line of a block scalar: their line
    breaks, and the width of the widest indentation.  Without a known `indent` all
    spaces are indentation; within it, no tab may stand. -/
def blockLeadFrom (indent : Option Nat) (breaks : List Char) (widest : Nat) :
    Nat → Cursor → Option (List Char × Nat × Cursor)
  | 0, _ => none
  | fuel + 1, c =>
    let room := c.rest.length
    let spaces := (c.rest.take (indent.elim room (· - c.column))).takeWhile (· == ' ')
    let c := c.skip spaces.length
    let widest := max widest c.column
    if indent.all (c.column < ·) ∧ c.isAt '\t' then none
    else if c.rest.head?.any isBreak then
      let (text, next) := c.takeBreak
      blockLeadFrom indent (breaks ++ text) widest fuel next
    else some (breaks, widest, c)

/-- The lead in front of a line of a block scalar. -/
def blockLead? (indent : Option Nat) (c : Cursor) : Option (List Char × Nat × Cursor) :=
  blockLeadFrom indent [] 0 (c.rest.length + 1) c

/-- What a block scalar has come to: its text, the line break that ended its last
    line, the breaks of empty lines after that, and whether that line began with a
    blank. -/
structure BlockText where
  text : List Char := []
  lastBreak : List Char := []
  emptyLines : List Char := []
  blankLine : Bool := false

/-- The text with one more line.  In a folded scalar the break between two lines
    that do not begin with a blank becomes a space, or gives way to empty lines. -/
def BlockText.addLine (folded : Bool) (t : BlockText) (line : List Char) : BlockText :=
  let blank := line.head?.any isSpace
  let joint :=
    if folded && t.lastBreak.head? == some '\n' && !t.blankLine && !blank then
      (if t.emptyLines.isEmpty then [' '] else [])
    else t.lastBreak
  { text := t.text ++ joint ++ t.emptyLines ++ line, blankLine := blank }

/-- The lines of a block scalar that are indented by `indent`. -/
def blockLines (folded : Bool) (indent : Nat) (t : BlockText) :
    Nat → Cursor → Option (BlockText × Cursor)
  | 0, _ => none
  | fuel + 1, c =>
    if c.column = indent ∧ !c.rest.isEmpty then do
      let (line, c) := c.span (!isBreak ·)
      let (lastBreak, c) := c.takeBreak
      let (emptyLines, _, c) ← blockLead? (some indent) c
      blockLines folded indent { t.addLine folded line with lastBreak, emptyLines } fuel c
    else some (t, c)

/-- The text of a block scalar with its last line breaks chomped. -/
def BlockText.chomp (chomping : Chomping) (t : BlockText) : List Char :=
  match chomping with
  | .strip => t.text
  | .clip => t.text ++ t.lastBreak
  | .keep => t.text ++ t.lastBreak ++ t.emptyLines

/-- The block scalar at a cursor, which is at its indicator, inside a block of
    indentation `parent`.  The first line that is not empty tells the indentation
    of the text, unless the header does. -/
def block? (folded : Bool) (parent : Int) (c : Cursor) : Option (List Char × Cursor) := do
  let (chomping, given, c) ← blockHeader? (c.skip 1)
  let c ← endOfLine? c
  let indent := given.map fun n => (max parent 0).toNat + n
  let (emptyLines, widest, c) ← blockLead? indent c
  let indent := indent.getD (max (max widest (parent + 1).toNat) 1)
  let (t, c) ← blockLines folded indent { emptyLines } (c.rest.length + 2) c
  return (t.chomp chomping, c)

/-! ## Anchors -/

/-- A name after the mark of an anchor or alias.  It is not empty, and a gap or a
    mark follows it. -/
def anchorName? (c : Cursor) : Option (String × Cursor) :=
  let (name, c) := (c.skip 1).span isNameChar
  let ended := c.rest.head?.all fun d =>
    isGap d || ['?', ':', ',', ']', '\x7d', '%', '@', '\x60'].contains d
  if name.isEmpty || !ended then none else some (String.ofList name, c)

/-! ## Tags -/

/-- A character of tags besides names. -/
def isTagMark (c : Char) : Bool :=
  [';', '/', '?', ':', '@', '&', '=', '+', '$', '.', '!', '~', '*', '\x27', '(', ')'].contains c

/-- A character of tags between angle brackets besides the others. -/
def isVerbatimMark (c : Char) : Bool := c == ',' || c == '[' || c == ']'

/-- The value of an escaped byte in a tag. -/
def escapedByte? : List Char → Option (Nat × List Char)
  | '%' :: cs => Json.hexNumber? 0 2 cs
  | _ => none

/-- The number of bytes of a character and the leading bits of its code, read off
    its first byte. -/
def leadingByte? (byte : Nat) : Option (Nat × Nat) :=
  if byte < 0x80 then some (0, byte)
  else if 0xC0 ≤ byte ∧ byte < 0xE0 then some (1, byte - 0xC0)
  else if 0xE0 ≤ byte ∧ byte < 0xF0 then some (2, byte - 0xE0)
  else if 0xF0 ≤ byte ∧ byte < 0xF8 then some (3, byte - 0xF0)
  else none

/-- The code of a character, from its further bytes. -/
def trailingBytes? (code : Nat) : Nat → List Char → Option (Nat × List Char)
  | 0, cs => some (code, cs)
  | count + 1, cs => do
    let (byte, cs) ← escapedByte? cs
    if 0x80 ≤ byte ∧ byte < 0xC0 then trailingBytes? (code * 0x40 + (byte - 0x80)) count cs
    else none

/-- A character written as escaped bytes. -/
def escapedTagChar? (cs : List Char) : Option (Char × List Char) := do
  let (byte, cs) ← escapedByte? cs
  let (count, bits) ← leadingByte? byte
  let (code, cs) ← trailingBytes? bits count cs
  return (Char.ofNat code, cs)

/-- The characters of a tag from here on. -/
def tagTextFrom (verbatim : Bool) (text : List Char) :
    Nat → List Char → Option (List Char × List Char)
  | 0, _ => none
  | _ + 1, [] => some (text, [])
  | fuel + 1, c :: rest =>
    if c = '%' then do
      let (d, rest) ← escapedTagChar? (c :: rest)
      tagTextFrom verbatim (text ++ [d]) fuel rest
    else if isNameChar c || isTagMark c || (verbatim && isVerbatimMark c) then
      tagTextFrom verbatim (text ++ [c]) fuel rest
    else some (text, c :: rest)

/-- The characters of a tag and the cursor behind them. -/
def tagText? (verbatim : Bool) (c : Cursor) : Option (List Char × Cursor) := do
  let (text, rest) ← tagTextFrom verbatim [] (c.rest.length + 1) c.rest
  return (text, c.skip (c.rest.length - rest.length))

/-- A tag handle: an exclamation mark, a name and perhaps a closing mark. -/
def tagHandle? (c : Cursor) : Option (List Char × Cursor) :=
  if c.isAt '!' then
    let (name, after) := (c.skip 1).span isNameChar
    if after.isAt '!' then some ('!' :: name ++ ['!'], after.skip 1) else some ('!' :: name, after)
  else none

/-- The handle and the suffix of the tag at a cursor.  A tag between angle brackets
    has an empty handle, and so has the lone exclamation mark. -/
def tag? (flow : Bool) (c : Cursor) : Option (String × String × Cursor) := do
  let (handle, suffix, c) ←
    if c.peek? 1 = some '<' then do
      let (text, c) ← tagText? true (c.skip 2)
      if text.isEmpty || !c.isAt '>' then none
      pure ([], text, c.skip 1)
    else do
      let (handle, after) ← tagHandle? c
      if 1 < handle.length ∧ handle.getLast? = some '!' then do
        let (suffix, after) ← tagText? false after
        if suffix.isEmpty then none
        pure (handle, suffix, after)
      else do
        let (more, after) ← tagText? false after
        let suffix := handle.drop 1 ++ more
        pure (if suffix.isEmpty then ([], ['!'], after) else (['!'], suffix, after))
  if c.gapAt 0 || (flow && c.isAt ',') then
    return (String.ofList handle, String.ofList suffix, c)
  none

/-! ## Directives -/

/-- A directive in front of a document. -/
inductive Directive where
  | version (major minor : Nat)
  | tag (handle start : String)
deriving DecidableEq, Repr, Inhabited

/-- A part of a version: between one and nine digits. -/
def versionPart? (c : Cursor) : Option (Nat × Cursor) :=
  let (digits, c) := c.span Char.isDigit
  if digits.isEmpty || 9 < digits.length then none else some (Number.digitsValue digits, c)

/-- The contents of a version directive. -/
def versionDirective? (c : Cursor) : Option (Directive × Cursor) := do
  let (major, c) ← versionPart? (c.skipWhile isSpace)
  if !c.isAt '.' then none
  let (minor, c) ← versionPart? (c.skip 1)
  return (.version major minor, c)

/-- The contents of a tag directive. -/
def tagDirective? (c : Cursor) : Option (Directive × Cursor) := do
  let (handle, c) ← tagHandle? (c.skipWhile isSpace)
  if handle ≠ ['!'] ∧ handle.getLast? ≠ some '!' then none
  if !c.rest.head?.any isSpace then none
  let (start, c) ← tagText? true (c.skipWhile isSpace)
  if start.isEmpty || !c.gapAt 0 then none
  return (.tag (String.ofList handle) (String.ofList start), c)

/-- The directive at a cursor, which is at its percent sign. -/
def directive? (c : Cursor) : Option (Directive × Cursor) := do
  let (name, c) := (c.skip 1).span isNameChar
  if name.isEmpty || !c.gapAt 0 then none
  let (directive, c) ←
    if name = "YAML".toList then versionDirective? c
    else if name = "TAG".toList then tagDirective? c
    else none
  return (directive, ← endOfLine? c)

end ClientGen.Markup.Yaml
