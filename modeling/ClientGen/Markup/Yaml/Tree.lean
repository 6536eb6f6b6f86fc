/-
  ClientGen.Markup.Yaml.Tree

  The tree of a YAML text: its tokens read by the grammar of block and flow
  collections, with the nodes that hold anchors kept aside for the aliases.
-/
import ClientGen.Map.Ordered
import ClientGen.Markup.Yaml.Token

namespace ClientGen.Markup.Yaml

/-- An anchored node. -/
structure Anchored where
  /-- The number by which aliases mean the anchor. -/
  anchor : Nat
  /-- How many anchors stand in front of this one. -/
  order : Nat
  node : Node
deriving Inhabited

/-- What reading has come to. -/
structure TreeState where
  tokens : List Token
  /-- The prefixes that tag handles stand for. -/
  handles : List (String × String) := []
  /-- The numbers of the anchor names met so far. -/
  names : List (String × Nat) := []
  opened : Nat := 0
  anchored : List Anchored := []
deriving Inhabited

/-- A step of reading. -/
abbrev Tree := StateT TreeState Option

namespace Tree

/-! ## Tokens -/

/-- The next token, which stays. -/
def peek? : Tree (Option Token) := do return (← get).tokens.head?

/-- Drops the next token. -/
def drop : Tree Unit := modify fun s => { s with tokens := s.tokens.tail }

/-- Whether the next token is `t`; it is dropped then. -/
def accept (t : Token) : Tree Bool := do
  if (← peek?) = some t then
    drop
    return true
  return false

/-- Drops the next token, which must be `t`. -/
def expect (t : Token) : Tree Unit := do
  if !(← accept t) then failure

/-- Whether the next token is one of `ts`.  At the end of the text there is none. -/
def nextIn (ts : List Token) : Tree Bool := do return (← peek?).any ts.contains

/-! ## Properties of nodes -/

/-- A plain scalar that is not written. -/
def emptyScalar (tag : Option String) : Node := .scalar (.written .plain tag "")

/-- The tag that a handle and a suffix denote. -/
def resolveTag (handle suffix : String) : Tree String := do
  if handle.isEmpty then return suffix
  match (← get).handles.lookup handle with
  | some start => return start ++ suffix
  | none => failure

/-- The anchor name at the front, if there is one. -/
def anchorName? : Tree (Option String) := do
  match ← peek? with
  | some (.anchor name) =>
    drop
    return some name
  | _ => return none

/-- The tag at the front, if there is one. -/
def tag? : Tree (Option String) := do
  match ← peek? with
  | some (.tag handle suffix) =>
    drop
    return some (← resolveTag handle suffix)
  | _ => return none

/-- An anchor and a tag in either order. -/
def properties : Tree (Option String × Option String) := do
  match ← anchorName? with
  | some name => return (some name, ← tag?)
  | none =>
    let tag ← tag?
    if tag.isSome then return (← anchorName?, tag)
    return (none, none)

/-- Opens an anchor.  Its number is that of the names met before, so the number of
    a repeated name can come again for the next new name. -/
def openAnchor (name : String) : Tree (Nat × Nat) := do
  let s ← get
  let anchor := s.names.length
  set { s with names := Entries.put name anchor s.names, opened := s.opened + 1 }
  return (anchor, s.opened)

/-- Keeps the node of an anchor. -/
def keepAnchored (opened : Option (Nat × Nat)) (node : Node) : Tree Unit := do
  if let some (anchor, order) := opened then
    modify fun s => { s with anchored := ⟨anchor, order, node⟩ :: s.anchored }

/-- The node that an alias stands for, by number; an unknown name is refused. -/
def aliasNode (name : String) : Tree Node := do
  match (← get).names.lookup name with
  | some anchor => return .alias anchor
  | none => failure

/-- The tag of a scalar: a lone exclamation mark says nothing. -/
def scalarTag (tag : Option String) : Option String := if tag = some "!" then none else tag

/-- A node of which only the properties are written, if any are. -/
def unwritten (bare : Bool) (tag : Option String) : Tree Node :=
  if bare then pure (emptyScalar tag) else failure

/-! ## The grammar -/

mutual

/-- A node.  A block collection may stand where `block` allows it, and a sequence
    without indentation of its own where `indentless` does. -/
def node (block indentless : Bool) : Nat → Tree Node
  | 0 => failure
  | fuel + 1 => do
    if let some (.alias name) ← peek? then
      drop
      return ← aliasNode name
    let (name, tag) ← properties
    let opened ← name.mapM openAnchor
    let n ← content block indentless (name.isSome || tag.isSome) tag fuel
    keepAnchored opened n
    return n

/-- The content of a node after its properties.  Only a node with properties may
    be left unwritten. -/
def content (block indentless bare : Bool) (tag : Option String) : Nat → Tree Node
  | 0 => failure
  | fuel + 1 => do
    match ← peek? with
    | some (.scalar style text) =>
      drop
      return .scalar (.written style (scalarTag tag) text)
    | some .flowSequenceStart =>
      drop
      flowItems tag true [] fuel
    | some .flowMappingStart =>
      drop
      flowEntries tag true [] fuel
    | some .blockEntry =>
      if indentless then indentlessItems tag [] fuel else unwritten bare tag
    | some .blockSequenceStart =>
      if block then
        drop
        blockItems tag [] fuel
      else unwritten bare tag
    | some .blockMappingStart =>
      if block then
        drop
        blockEntries tag [] fuel
      else unwritten bare tag
    | _ => unwritten bare tag

/-- A node unless one of `stops` is next, where it is left unwritten. -/
def nodeUnless (stops : List Token) (block indentless : Bool) : Nat → Tree Node
  | 0 => failure
  | fuel + 1 => do
    if ← nextIn stops then return emptyScalar none
    node block indentless fuel

/-- The items of a block sequence, after those in `read` in reverse. -/
def blockItems (tag : Option String) (read : List Node) : Nat → Tree Node
  | 0 => failure
  | fuel + 1 => do
    if ← accept .blockEntry then
      let item ← nodeUnless [.blockEntry, .blockEnd] true false fuel
      blockItems tag (item :: read) fuel
    else
      expect .blockEnd
      return .list tag read.reverse

/-- The items of a sequence that is indented as its parent is. -/
def indentlessItems (tag : Option String) (read : List Node) : Nat → Tree Node
  | 0 => failure
  | fuel + 1 => do
    if ← accept .blockEntry then
      let item ← nodeUnless [.blockEntry, .key, .value, .blockEnd] true false fuel
      indentlessItems tag (item :: read) fuel
    else return .list tag read.reverse

/-- The entries of a block mapping. -/
def blockEntries (tag : Option String) (read : List (Node × Node)) : Nat → Tree Node
  | 0 => failure
  | fuel + 1 => do
    if ← accept .key then
      let k ← nodeUnless [.key, .value, .blockEnd] true true fuel
      let v ← blockValue fuel
      blockEntries tag ((k, v) :: read) fuel
    else
      expect .blockEnd
      return .map tag read.reverse

/-- The value of an entry of a block mapping. -/
def blockValue : Nat → Tree Node
  | 0 => failure
  | fuel + 1 => do
    if ← accept .value then nodeUnless [.key, .value, .blockEnd] true true fuel
    else return emptyScalar none

/-- The items of a flow sequence; a comma stands between two, and may end them. -/
def flowItems (tag : Option String) (first : Bool) (read : List Node) : Nat → Tree Node
  | 0 => failure
  | fuel + 1 => do
    if ← accept .flowSequenceEnd then return .list tag read.reverse
    if !first then
      expect .flowEntry
      if ← accept .flowSequenceEnd then return .list tag read.reverse
    let item ← flowItem fuel
    flowItems tag false (item :: read) fuel

/-- An item of a flow sequence, which may be a single entry of a mapping. -/
def flowItem : Nat → Tree Node
  | 0 => failure
  | fuel + 1 => do
    if !(← accept .key) then return ← node false false fuel
    let k ← flowItemKey fuel
    let v ←
      if ← accept .value then nodeUnless [.flowEntry, .flowSequenceEnd] false false fuel
      else pure (emptyScalar none)
    return .map none [(k, v)]

/-- The key of a single entry; the token after an unwritten key goes with it. -/
def flowItemKey : Nat → Tree Node
  | 0 => failure
  | fuel + 1 => do
    if ← nextIn [.value, .flowEntry, .flowSequenceEnd] then
      drop
      return emptyScalar none
    node false false fuel

/-- The entries of a flow mapping. -/
def flowEntries (tag : Option String) (first : Bool) (read : List (Node × Node)) :
    Nat → Tree Node
  | 0 => failure
  | fuel + 1 => do
    if ← accept .flowMappingEnd then return .map tag read.reverse
    if !first then
      expect .flowEntry
      if ← accept .flowMappingEnd then return .map tag read.reverse
    let entry ← flowEntry fuel
    flowEntries tag false (entry :: read) fuel

/-- An entry of a flow mapping; without a key mark there is no value. -/
def flowEntry : Nat → Tree (Node × Node)
  | 0 => failure
  | fuel + 1 => do
    if !(← accept .key) then return (← node false false fuel, emptyScalar none)
    let k ← nodeUnless [.value, .flowEntry, .flowMappingEnd] false false fuel
    let v ←
      if ← accept .value then nodeUnless [.flowEntry, .flowMappingEnd] false false fuel
      else pure (emptyScalar none)
    return (k, v)

end

/-! ## Documents -/

/-- The handles that every document knows. -/
def defaultHandles : List (String × String) := [("!", "!"), ("!!", "tag:yaml.org,2002:")]

/-- Reads the directives in front of a document.  The version is given at most once
    and is 1.1 or 1.2, and no handle is given twice. -/
def directives (versioned : Bool) : Nat → Tree Unit
  | 0 => failure
  | fuel + 1 => do
    match ← peek? with
    | some (.directive (.version major minor)) =>
      if versioned || major != 1 || (minor != 1 && minor != 2) then failure
      drop
      directives true fuel
    | some (.directive (.tag handle start)) =>
      let s ← get
      if (s.handles.lookup handle).isSome then failure
      set { s with tokens := s.tokens.tail, handles := s.handles ++ [(handle, start)] }
      directives versioned fuel
    | _ => pure ()

/-- Whether the next token begins a document with directives or a document mark. -/
def atExplicitDocument : Tree Bool := do
  match ← peek? with
  | some (.directive _) | some .documentStart => return true
  | _ => return false

/-- Makes the default handles known that no directive has set. -/
def addDefaultHandles : Tree Unit :=
  modify fun s => { s with handles := s.handles ++ defaultHandles }

/-- The root of the only document of a text; a text without any has an empty root. -/
def root (fuel : Nat) : Tree Node := do
  if (← peek?).isNone then return emptyScalar none
  let n ←
    if ← atExplicitDocument then do
      directives false fuel
      addDefaultHandles
      expect .documentStart
      if (← peek?).isNone || (← atExplicitDocument) || (← nextIn [.documentEnd]) then
        pure (emptyScalar none)
      else node true false fuel
    else do
      addDefaultHandles
      node true false fuel
  modify fun s => { s with tokens := s.tokens.dropWhile (· = .documentEnd) }
  if (← peek?).isSome then failure
  return n

end Tree

/-- A YAML text as a tree: its root, and the nodes that aliases stand for. -/
structure Document where
  root : Node
  anchored : List Anchored
deriving Inhabited

/-- The node that an alias of a number stands for: the one opened last. -/
def Document.anchor? (d : Document) (anchor : Nat) : Option Node :=
  (d.anchored.foldl
    (fun best a =>
      if a.anchor = anchor ∧ best.all (·.order < a.order) then some a else best)
    none).map (·.node)

/-- The tree of a YAML text that holds a single document. -/
def read? (text : String) : Option Document := do
  let tokens ← tokens? text.toList
  let (root, s) ← (Tree.root (4 * tokens.length + 8)).run { tokens }
  return { root, anchored := s.anchored }

end ClientGen.Markup.Yaml
