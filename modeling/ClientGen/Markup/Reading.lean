/-
  ClientGen.Markup.Reading

  Reading values from nodes: texts, booleans, lists, maps, structures and
  values that are typed before it is known what they are for.  All failures are
  alike, since a document that does not fit is refused as a whole.
-/
import ClientGen.Map.Ordered
import ClientGen.Markup.Yaml.Tree
import ClientGen.Markup.Yaml.Typed

namespace ClientGen.Markup

/-! ## Steps of reading -/

/-- What aliases mean in the document that is being read. -/
abbrev Anchors := Nat → Option Node

/-- A step of reading.  The state is the number of aliases that may still be
    followed. -/
abbrev Reading := ReaderT Anchors (StateT Nat Option)

/-- A node that is no alias: an alias is followed, as long as that is allowed. -/
def follow : Node → Reading Node
  | .alias anchor => do
    match ← get with
    | 0 => failure
    | left + 1 =>
      set left
      match (← read) anchor with
      | some n => return n
      | none => failure
  | n => return n

/-! ## Scalars -/

/-- The text of a followed node: a YAML scalar is taken as it is spelled. -/
def textOf? : Node → Option String
  | .scalar (.text s) => some s
  | .scalar (.written _ _ s) => some s
  | _ => none

/-- Reads a text. -/
def readText (n : Node) : Reading String := do
  match textOf? (← follow n) with
  | some s => return s
  | none => failure

/-- The boolean of a followed node.  A YAML scalar has to be plain, or a literal
    block with the tag of booleans. -/
def booleanOf? : Node → Option Bool
  | .scalar (.boolean b) => some b
  | .scalar (.written style tag s) =>
    if style = .plain ∨ (style = .literal ∧ tag = some (Yaml.coreTag "bool")) then Yaml.boolean? s
    else none
  | _ => none

/-- Reads a boolean. -/
def readBoolean (n : Node) : Reading Bool := do
  match booleanOf? (← follow n) with
  | some b => return b
  | none => failure

/-- Whether a YAML scalar is empty, as where nothing is written. -/
def isUnwritten : Node → Bool
  | .scalar (.written .plain _ s) => s.isEmpty
  | _ => false

/-- Whether a followed node is null where a value may be left out; `none` when its
    tag says null and its spelling does not. -/
def isAbsent? : Node → Option Bool
  | .scalar .null => some true
  | .scalar (.written .plain tag s) =>
    match tag with
    | none => some (s.isEmpty || Yaml.isNull s)
    | some tag =>
      if tag = Yaml.coreTag "null" then if Yaml.isNull s then some true else none
      else some false
  | _ => some false

/-- Reads a value that may be left out. -/
def readOption {α : Type} (item : Node → Reading α) (n : Node) : Reading (Option α) := do
  let n ← follow n
  match isAbsent? n with
  | none => failure
  | some true => return none
  | some false => return some (← item n)

/-- The type of a scalar by itself. -/
def typedScalar? : Scalar → Option Scalar
  | .valueless => none
  | .written style tag s => Yaml.scalar? style tag s
  | s => some s

/-! ## Containers -/

/-- Whether the tag of a list or map is a private one, which no type has. -/
def isPrivate (tag : Option String) : Bool := tag.any (Text.startsWith "!")

/-- The items of a list, with the depth that is left inside it.  Where nothing is
    written, there are none. -/
def listItems (depth : Nat) (n : Node) : Reading (Nat × List Node) := do
  let n ← follow n
  match n, depth with
  | .list _ items, depth + 1 => return (depth, items)
  | n, depth => if isUnwritten n then return (depth, []) else failure

/-- The entries of a map, with the depth that is left inside it. -/
def mapEntries (depth : Nat) (n : Node) : Reading (Nat × List (Node × Node)) := do
  let n ← follow n
  match n, depth with
  | .map _ entries, depth + 1 => return (depth, entries)
  | n, depth => if isUnwritten n then return (depth, []) else failure

/-- Reads a list. -/
def readList {α : Type} (item : Nat → Node → Reading α) (depth : Nat) (n : Node) :
    Reading (List α) := do
  let (depth, items) ← listItems depth n
  items.mapM (item depth)

/-- Reads a map from texts, with repeated keys kept. -/
def readEntries {α : Type} (item : Nat → Node → Reading α) (depth : Nat) (n : Node) :
    Reading (List (String × α)) := do
  let (depth, entries) ← mapEntries depth n
  entries.mapM fun (key, value) => do return (← readText key, ← item depth value)

/-- Reads a map from texts. -/
def readMap {α : Type} (item : Nat → Node → Reading α) (depth : Nat) (n : Node) :
    Reading (OrderedMap α) := do
  return OrderedMap.ofList (← readEntries item depth n)

/-! ## Structures -/

/-- The fields of a structure that are present, by name. -/
abbrev Fields := List (String × Node)

/-- The field that a key means: by its name, or as a number by its position.
    `none` stands for a field that the structure does not have. -/
def fieldOf? (names : List String) : Node → Option (Option String)
  | .scalar (.number (.integer n)) => if 0 ≤ n then some names[n.toNat]? else none
  | key => (textOf? key).map fun name => if names.contains name then some name else none

/-- The fields among the entries of a map.  A field comes once; what is not a field
    is passed over. -/
def fieldsOfEntries (names : List String) (read : Fields) :
    List (Node × Node) → Reading Fields
  | [] => return read
  | (key, value) :: rest => do
    match fieldOf? names (← follow key) with
    | none => failure
    | some none => fieldsOfEntries names read rest
    | some (some name) =>
      if (read.lookup name).isSome then failure
      fieldsOfEntries names ((name, value) :: read) rest

/-- Reads the fields of a structure, with the depth that is left inside it.  It is a
    map, or a list of fields in the order of their names. -/
def readFields (names : List String) (depth : Nat) (n : Node) : Reading (Nat × Fields) := do
  let n ← follow n
  match n, depth with
  | .map _ entries, depth + 1 => return (depth, ← fieldsOfEntries names [] entries)
  | .list _ items, depth + 1 =>
    if names.length < items.length then failure
    return (depth, names.zip items)
  | n, depth => if isUnwritten n then return (depth, []) else failure

namespace Fields

variable {α : Type}

/-- A field that has a value when it is missing. -/
def getD (fields : Fields) (name : String) (default : α) (item : Node → Reading α) : Reading α :=
  match fields.lookup name with
  | some n => item n
  | none => return default

/-- A field that may be missing or null. -/
def get? (fields : Fields) (name : String) (item : Node → Reading α) : Reading (Option α) :=
  fields.getD name none (readOption item)

/-- A field that must be there. -/
def require (fields : Fields) (name : String) (item : Node → Reading α) : Reading α :=
  match fields.lookup name with
  | some n => item n
  | none => failure

end Fields

/-! ## Values typed by themselves -/

/-- A node in which every scalar is typed by itself and no alias is left.  `fuel`
    exceeds the depth. -/
def readTypedFrom : Nat → Nat → Node → Reading Node
  | 0, _, _ => failure
  | fuel + 1, depth, n => do
    match ← follow n, depth with
    | .scalar s, _ =>
      match typedScalar? s with
      | some s => return .scalar s
      | none => failure
    | .list tag items, depth + 1 =>
      if isPrivate tag then failure
      return .list none (← items.mapM (readTypedFrom fuel depth))
    | .map tag entries, depth + 1 =>
      if isPrivate tag then failure
      return .map none (← entries.mapM fun (key, value) => do
        return (← readTypedFrom fuel depth key, ← readTypedFrom fuel depth value))
    | _, _ => failure

/-- Types a node by itself, and then reads it at any depth. -/
def readTyped {α : Type} (item : Nat → Node → Reading α) (depth : Nat) (n : Node) : Reading α := do
  let n ← readTypedFrom (depth + 1) depth n
  item (n.height + 1) n

/-- Reads with `first`, or else with `second`; nothing that the first did remains. -/
def readEither {α : Type} (first second : Reading α) : Reading α := fun anchors left =>
  match first anchors left with
  | some result => some result
  | none => second anchors left

/-! ## Constants -/

/-- The constant of a typed scalar; there is none for what is not finite but null. -/
def constantOf : Scalar → Constant
  | .boolean b => .boolean b
  | .number (.integer n) => .number (.integer n)
  | .number (.double x) => if x.isFinite then .number (.double x) else .null
  | .text s => .text s
  | .null | .valueless | .written .. => .null

/-- Reads a constant.  Of a list or map it is only checked that it can be read. -/
def readConstantFrom : Nat → Nat → Node → Reading Constant
  | 0, _, _ => failure
  | fuel + 1, depth, n => do
    match ← follow n, depth with
    | .scalar s, _ =>
      match typedScalar? s with
      | some s => return constantOf s
      | none => failure
    | .list tag items, depth + 1 =>
      if isPrivate tag then failure
      let _ ← items.mapM (readConstantFrom fuel depth)
      return .compound
    | .map tag entries, depth + 1 =>
      if isPrivate tag then failure
      let _ ← entries.mapM fun (key, value) => do
        let _ ← readText key
        readConstantFrom fuel depth value
      return .compound
    | _, _ => failure

/-- Reads a constant. -/
def readConstant (depth : Nat) (n : Node) : Reading Constant :=
  readConstantFrom (depth + 1) depth n

/-! ## Whole documents -/

/-- How deep containers may be nested in JSON text. -/
def jsonDepth : Nat := 127

/-- How deep containers may be nested in YAML text. -/
def yamlDepth : Nat := 128

/-- How many aliases may be followed for each mark of a YAML text. -/
def aliasesPerMark : Nat := 100

/-- Reads a node that holds no aliases. -/
def readNode? {α : Type} (item : Nat → Node → Reading α) (depth : Nat) (n : Node) : Option α :=
  ((item depth n).run (fun _ => none) |>.run 0).map (·.1)

/-- Reads a node at any depth. -/
def readValue? {α : Type} (item : Nat → Node → Reading α) (n : Node) : Option α :=
  readNode? item (n.height + 1) n

/-- Reads JSON text. -/
def readJson? {α : Type} (item : Nat → Node → Reading α) (text : String) : Option α :=
  (Json.read? text).bind (readNode? item jsonDepth)

/-- Reads YAML text. -/
def readYaml? {α : Type} (item : Nat → Node → Reading α) (text : String) : Option α := do
  let d ← Yaml.read? text
  ((item yamlDepth d.root).run d.anchor? |>.run (d.root.marks * aliasesPerMark)).map (·.1)

/-- The notation that a text appears to be in. -/
inductive Format where
  | json
  | yaml
deriving DecidableEq, Repr, Inhabited

/-- A text whose first character that is not white space opens a bracket appears to
    be JSON; any other text is YAML. -/
def Format.detect (text : String) : Format :=
  match Text.trimStart text.toList with
  | '\x7b' :: _ | '[' :: _ => .json
  | _ => .yaml

/-- Reads a text in JSON or YAML.  What appears to be JSON and cannot be read so is
    read as YAML. -/
def readText? {α : Type} (item : Nat → Node → Reading α) (text : String) : Option α :=
  match Format.detect text with
  | .json => (readJson? item text).or (readYaml? item text)
  | .yaml => readYaml? item text

end ClientGen.Markup
