/-
  ClientGen.Markup.Node

  The tree of a document before it is given meaning: scalars, lists and maps as
  they stand in JSON or YAML text, with key order and repeated keys kept.
-/
import ClientGen.TypeScript.Literal

namespace ClientGen.Markup

/-- How a YAML scalar is written, as far as its meaning depends on it. -/
inductive ScalarStyle where
  | plain
  | quoted
  | literal
  | folded
deriving DecidableEq, Repr, Inhabited

/-- A scalar: either typed by its notation, or a YAML scalar whose type depends on
    what is asked for. -/
inductive Scalar where
  | null
  | boolean (value : Bool)
  | number (value : Number)
  | text (value : String)
  /-- Well-formed, but with no value: a number out of range, or a text that is not
      a sequence of characters. -/
  | valueless
  | written (style : ScalarStyle) (tag : Option String) (source : String)
deriving Repr, Inhabited

/-- A node of a document.  An alias stands for the node that holds its anchor. -/
inductive Node where
  | scalar (s : Scalar)
  | list (tag : Option String) (items : List Node)
  | map (tag : Option String) (entries : List (Node × Node))
  | alias (anchor : Nat)
deriving Inhabited

namespace Node

/-- The null node. -/
def null : Node := .scalar .null

/-- A text node. -/
def text (s : String) : Node := .scalar (.text s)

/-- A map without a tag, with text keys. -/
def ofEntries (entries : List (String × Node)) : Node :=
  .map none (entries.map fun entry => (text entry.1, entry.2))

mutual

/-- The number of containers around the innermost scalar of a node. -/
def height : Node → Nat
  | .scalar _ | .alias _ => 0
  | .list _ items => itemsHeight items + 1
  | .map _ entries => entriesHeight entries + 1

/-- The greatest height among items. -/
def itemsHeight : List Node → Nat
  | [] => 0
  | n :: rest => max n.height (itemsHeight rest)

/-- The greatest height among keys and values. -/
def entriesHeight : List (Node × Node) → Nat
  | [] => 0
  | entry :: rest => max (entryHeight entry) (entriesHeight rest)

/-- The greater height of a key and its value. -/
def entryHeight : Node × Node → Nat
  | (key, value) => max key.height value.height

end

mutual

/-- The number of marks by which a node is written: one for a scalar or an alias,
    and two around the contents of a list or map. -/
def marks : Node → Nat
  | .scalar _ | .alias _ => 1
  | .list _ items => itemsMarks items + 2
  | .map _ entries => entriesMarks entries + 2

/-- The number of marks of items. -/
def itemsMarks : List Node → Nat
  | [] => 0
  | n :: rest => n.marks + itemsMarks rest

/-- The number of marks of entries. -/
def entriesMarks : List (Node × Node) → Nat
  | [] => 0
  | entry :: rest => entryMarks entry + entriesMarks rest

/-- The number of marks of a key and its value. -/
def entryMarks : Node × Node → Nat
  | (key, value) => key.marks + value.marks

end

end Node

end ClientGen.Markup
