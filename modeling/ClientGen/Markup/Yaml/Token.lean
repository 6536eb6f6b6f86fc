/-
  ClientGen.Markup.Yaml.Token

  The tokens of a YAML text.  Indentation is turned into tokens that open and
  close blocks, and a key that is recognised only at its colon gets its tokens
  put in front of it afterwards.
-/
import ClientGen.Markup.Yaml.Lexeme

namespace ClientGen.Markup.Yaml

/-- A token of a YAML text. -/
inductive Token where
  | directive (d : Directive)
  | documentStart
  | documentEnd
  | blockSequenceStart
  | blockMappingStart
  | blockEnd
  | flowSequenceStart
  | flowSequenceEnd
  | flowMappingStart
  | flowMappingEnd
  | blockEntry
  | flowEntry
  | key
  | value
  | alias (name : String)
  | anchor (name : String)
  | tag (handle suffix : String)
  | scalar (style : ScalarStyle) (text : String)
deriving DecidableEq, Repr, Inhabited

/-! ## Pending keys -/

/-- A place where a key may have begun that shows itself only at its colon. -/
structure PendingKey where
  /-- Whether nothing but a key may stand here. -/
  required : Bool
  /-- How many tokens precede the key. -/
  position : Nat
  index : Nat
  line : Nat
  column : Nat
deriving Repr, Inhabited

/-- How many characters may lie between the beginning of a key and its colon. -/
def keyReach : Nat := 1024

/-- Whether the colon of a key can no longer come: it has to stand on the same line
    and within reach. -/
def PendingKey.isStale (k : PendingKey) (c : Cursor) : Bool :=
  k.line < c.line || k.index + keyReach < c.index

/-! ## The state of a scan -/

/-- What a scan has come to. -/
structure Scan where
  cursor : Cursor
  /-- The tokens so far, the last one first. -/
  tokens : List Token := []
  count : Nat := 0
  /-- The column of the innermost block, below zero outside all blocks. -/
  indent : Int := -1
  /-- The columns of the blocks around it, the nearest first. -/
  outer : List Int := []
  /-- The number of flow collections around the cursor. -/
  flowLevel : Nat := 0
  /-- Whether a key may begin here without a mark. -/
  keyAllowed : Bool := true
  /-- The pending keys of this flow level and of those around it. -/
  keys : List (Option PendingKey) := [none]
deriving Inhabited

namespace Scan

/-- Whether the cursor is inside a flow collection. -/
def inFlow (s : Scan) : Bool := s.flowLevel != 0

/-- The scan with one more token. -/
def push (s : Scan) (t : Token) : Scan := { s with tokens := t :: s.tokens, count := s.count + 1 }

/-- The scan with a token put behind the first `position` tokens. -/
def insert (s : Scan) (position : Nat) (t : Token) : Scan :=
  let later := s.count - position
  { s with tokens := s.tokens.take later ++ t :: s.tokens.drop later, count := s.count + 1 }

/-- The scan moved on to a cursor. -/
def moveTo (s : Scan) (c : Cursor) : Scan := { s with cursor := c }

/-- The scan moved over `n` characters. -/
def skip (s : Scan) (n : Nat) : Scan := s.moveTo (s.cursor.skip n)

/-- The scan with the pending key of this level replaced. -/
def setKey (s : Scan) (key : Option PendingKey) : Scan := { s with keys := key :: s.keys.tail }

/-! ## Indentation -/

/-- Opens a block when the column is further right than the innermost block; the
    token goes behind the first `position` tokens. -/
def openBlock (s : Scan) (column position : Nat) (t : Token) : Scan :=
  if !s.inFlow && s.indent < column then
    { s with outer := s.indent :: s.outer, indent := column }.insert position t
  else s

/-- Closes the blocks that are further right than the column. -/
def closeBlocksTo (column : Int) : Nat → Scan → Scan
  | 0, s => s
  | fuel + 1, s =>
    if column < s.indent then
      closeBlocksTo column fuel
        ({ s with indent := s.outer.head?.getD (-1), outer := s.outer.tail }.push .blockEnd)
    else s

/-- Closes blocks, outside flow collections. -/
def closeBlocks (s : Scan) (column : Int) : Scan :=
  if s.inFlow then s else closeBlocksTo column (s.outer.length + 1) s

/-! ## Keys -/

/-- Gives up the pending key of this level; a required one must not be given up. -/
def dropKey? (s : Scan) : Option Scan :=
  match s.keys with
  | some k :: _ => if k.required then none else some (s.setKey none)
  | _ => some s

/-- Gives up every pending key whose colon can no longer come. -/
def dropStaleKeys? (s : Scan) : Option Scan := do
  let keys ← s.keys.mapM fun
    | none => some none
    | some k =>
      if !k.isStale s.cursor then some (some k) else if k.required then none else some none
  return { s with keys }

/-- Notes that a key may begin here. -/
def saveKey? (s : Scan) : Option Scan :=
  if s.keyAllowed then do
    let s ← s.dropKey?
    let c := s.cursor
    return s.setKey (some
      { required := !s.inFlow && s.indent == c.column, position := s.count
        index := c.index, line := c.line, column := c.column })
  else some s

/-! ## White space -/

/-- Moves over white space, comments and empty lines.  In block context a new line
    allows a key, and where a key is allowed a tab is no white space. -/
def skipSpaceFrom : Nat → Scan → Scan
  | 0, s => s
  | fuel + 1, s =>
    let c := s.cursor
    let c := if c.column = 0 ∧ c.isAt byteOrderMark then c.skip 1 else c
    let c := c.skipWhile fun d => d == ' ' || (d == '\t' && (s.inFlow || !s.keyAllowed))
    let c := c.skipComment
    if c.rest.head?.any isBreak then
      skipSpaceFrom fuel { s with cursor := c.skipBreak, keyAllowed := s.keyAllowed || !s.inFlow }
    else s.moveTo c

/-- Moves to the next token. -/
def skipSpace (s : Scan) : Scan := skipSpaceFrom (s.cursor.rest.length + 1) s

/-! ## Tokens -/

/-- Ends the text: all blocks are closed. -/
def finish? (s : Scan) : Option (List Token) := do
  let s ← (s.closeBlocks (-1)).dropKey?
  return s.tokens.reverse

/-- A directive. -/
def directive? (s : Scan) : Option Scan := do
  let s ← (s.closeBlocks (-1)).dropKey?
  let (d, c) ← Yaml.directive? s.cursor
  return { s with cursor := c, keyAllowed := false }.push (.directive d)

/-- A mark that opens or ends a document. -/
def documentMark? (s : Scan) (t : Token) : Option Scan := do
  let s ← (s.closeBlocks (-1)).dropKey?
  return ({ s with keyAllowed := false }.skip 3).push t

/-- An opening bracket. -/
def openFlow? (s : Scan) (t : Token) : Option Scan := do
  let s ← s.saveKey?
  return ({ s with keys := none :: s.keys, flowLevel := s.flowLevel + 1, keyAllowed := true
          }.skip 1).push t

/-- A closing bracket. -/
def closeFlow? (s : Scan) (t : Token) : Option Scan := do
  let s ← s.dropKey?
  let s := if s.inFlow then { s with keys := s.keys.tail, flowLevel := s.flowLevel - 1 } else s
  return ({ s with keyAllowed := false }.skip 1).push t

/-- A comma in a flow collection. -/
def flowEntry? (s : Scan) : Option Scan := do
  let s ← s.dropKey?
  return ({ s with keyAllowed := true }.skip 1).push .flowEntry

/-- A dash in front of an item. -/
def blockEntry? (s : Scan) : Option Scan := do
  if !s.inFlow && !s.keyAllowed then none
  let s ← (s.openBlock s.cursor.column s.count .blockSequenceStart).dropKey?
  return ({ s with keyAllowed := true }.skip 1).push .blockEntry

/-- A question mark in front of a key. -/
def key? (s : Scan) : Option Scan := do
  if !s.inFlow && !s.keyAllowed then none
  let s ← (s.openBlock s.cursor.column s.count .blockMappingStart).dropKey?
  return ({ s with keyAllowed := !s.inFlow }.skip 1).push .key

/-- A colon in front of a value.  It makes the pending key a key. -/
def value? (s : Scan) : Option Scan := do
  match s.keys with
  | some k :: _ =>
    let s := (s.insert k.position .key).openBlock k.column k.position .blockMappingStart
    return ({ s.setKey none with keyAllowed := false }.skip 1).push .value
  | _ =>
    if !s.inFlow && !s.keyAllowed then none
    let s := s.openBlock s.cursor.column s.count .blockMappingStart
    return ({ s with keyAllowed := !s.inFlow }.skip 1).push .value

/-- A token that may begin a key; after it no key may begin until something allows
    one again. -/
def keyPart? (s : Scan) (read : Cursor → Option (Token × Cursor)) : Option Scan := do
  let s ← s.saveKey?
  let (t, c) ← read s.cursor
  return { s with cursor := c, keyAllowed := false }.push t

/-- An anchor or an alias. -/
def anchor? (s : Scan) (token : String → Token) : Option Scan :=
  s.keyPart? fun c => (anchorName? c).map fun (name, c) => (token name, c)

/-- A tag. -/
def tag? (s : Scan) : Option Scan :=
  s.keyPart? fun c => (Yaml.tag? s.inFlow c).map fun (handle, suffix, c) => (.tag handle suffix, c)

/-- A quoted scalar. -/
def quoted? (s : Scan) (quote : Char) : Option Scan :=
  s.keyPart? fun c =>
    (Yaml.quoted? quote c).map fun (text, c) => (.scalar .quoted (String.ofList text), c)

/-- A plain scalar.  When it goes over the end of a line, a key may begin after it. -/
def plain? (s : Scan) : Option Scan := do
  let s ← s.saveKey?
  let p ← Yaml.plain? s.inFlow (s.indent + 1) s.cursor
  return { s with cursor := p.cursor, keyAllowed := p.gap.goesOn }.push
    (.scalar .plain (String.ofList p.text))

/-- A block scalar. -/
def block? (s : Scan) (folded : Bool) : Option Scan := do
  let s ← s.dropKey?
  let (text, c) ← Yaml.block? folded s.indent s.cursor
  return { s with cursor := c, keyAllowed := true }.push
    (.scalar (if folded then .folded else .literal) (String.ofList text))

/-- The marks with which no plain scalar begins. -/
def isIndicator (c : Char) : Bool :=
  ['-', '?', ':', ',', '[', ']', '\x7b', '\x7d', '#', '&', '*', '!', '|', '>', '\x27', '"', '%',
   '@', '\x60'].contains c

/-- Whether a plain scalar begins at the cursor, where no other token does. -/
def atPlain (s : Scan) (c : Char) : Bool :=
  !(isGap c || isIndicator c)
    || (c == '-' && !(s.cursor.peek? 1).any isSpace)
    || (!s.inFlow && (c == '?' || c == ':') && !s.cursor.gapAt 1)

/-- Scans the token that begins with the character `c` at the cursor. -/
def token? (s : Scan) (c : Char) : Option Scan :=
  if s.cursor.column = 0 ∧ c = '%' then s.directive?
  else if s.cursor.atMark '-' then s.documentMark? .documentStart
  else if s.cursor.atMark '.' then s.documentMark? .documentEnd
  else if c = '[' then s.openFlow? .flowSequenceStart
  else if c = '\x7b' then s.openFlow? .flowMappingStart
  else if c = ']' then s.closeFlow? .flowSequenceEnd
  else if c = '\x7d' then s.closeFlow? .flowMappingEnd
  else if c = ',' then s.flowEntry?
  else if c = '-' ∧ s.cursor.gapAt 1 then s.blockEntry?
  else if c = '?' ∧ (s.inFlow ∨ s.cursor.gapAt 1) then s.key?
  else if c = ':' ∧ (s.inFlow ∨ s.cursor.gapAt 1) then s.value?
  else if c = '*' then s.anchor? .alias
  else if c = '&' then s.anchor? .anchor
  else if c = '!' then s.tag?
  else if (c = '|' ∨ c = '>') ∧ !s.inFlow then s.block? (c == '>')
  else if c = '\x27' ∨ c = '"' then s.quoted? c
  else if s.atPlain c then s.plain?
  else none

/-- Scans the tokens from here to the end of the text. -/
def tokensFrom : Nat → Scan → Option (List Token)
  | 0, _ => none
  | fuel + 1, s => do
    let s ← s.skipSpace.dropStaleKeys?
    match s.cursor.rest with
    | [] => s.finish?
    | c :: _ => tokensFrom fuel (← (s.closeBlocks s.cursor.column).token? c)

end Scan

/-- The tokens of a YAML text.  Every token takes at least one character. -/
def tokens? (text : List Char) : Option (List Token) :=
  if text.all isPrintable then
    Scan.tokensFrom (text.length + 1) { cursor := Cursor.start text }
  else none

end ClientGen.Markup.Yaml
