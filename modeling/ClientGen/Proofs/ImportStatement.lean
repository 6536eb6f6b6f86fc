/-
  ClientGen.Proofs.ImportStatement

  Reading import statements.  A reader of the text behind the header of a file takes
  one statement after the other, down to the literal that names the module.  It
  accepts just what is meant to be written (`readStatement?_eq_some_iff`), so what it
  reads is what a reader of the language would import.
-/
import ClientGen.Proofs.QuotedText
import ClientGen.Proofs.Reference
import ClientGen.Proofs.Words

namespace ClientGen.TypeScript

/-! ## Names -/

/-- The name that has been read in reverse, if it is an identifier. -/
def nameOf? (word : List Char) : Option String :=
  let name := String.ofList word.reverse
  if isIdentifier name then some name else none

/-- The names up to the brace that ends them, for a reader that has read the reverse of `word`, and
    what follows the brace. -/
def readNames (word : List Char) : List Char → Option (List String × List Char)
  | ',' :: ' ' :: rest =>
    (nameOf? word).bind fun name => (readNames [] rest).map fun r => (name :: r.1, r.2)
  | ' ' :: '\x7d' :: rest => (nameOf? word).map fun name => ([name], rest)
  | c :: rest => readNames (c :: word) rest
  | [] => none

/-- The names at the beginning of a text, and what follows the brace that ends them. -/
def readNames? (text : String) : Option (List String × String) :=
  (readNames [] text.toList).map fun r => (r.1, String.ofList r.2)

/-- Names of which a statement can be made: there are some, and all are identifiers. -/
def Importable (names : List String) : Prop := names ≠ [] ∧ ∀ name ∈ names, isIdentifier name = true

theorem nameOf?_eq_some_iff {word : List Char} {name : String} :
    nameOf? word = some name ↔ name.toList = word.reverse ∧ isIdentifier name = true := by
  unfold nameOf?
  dsimp only
  constructor
  · intro h
    split at h
    · next hname =>
      cases h
      exact ⟨String.toList_ofList, hname⟩
    · cases h
  · rintro ⟨hword, hname⟩
    rw [← hword, String.ofList_toList, if_pos hname]

/-- A reader takes in whatever may continue an identifier. -/
theorem readNames_append {cs : List Char} (h : ∀ c ∈ cs, continuesIdentifier c = true)
    (word rest : List Char) : readNames word (cs ++ rest) = readNames (cs.reverse ++ word) rest := by
  induction cs generalizing word with
  | nil => rfl
  | cons c cs ih =>
    obtain ⟨hc, hcs⟩ := List.forall_mem_cons.1 h
    rw [List.cons_append, readNames, ih hcs, List.reverse_cons, List.append_assoc]
    · rfl
    · rintro - rfl -
      cases hc
    · rintro - rfl -
      cases hc

theorem readNames_intercalate {names : List String} (h : Importable names) (rest : List Char) :
    readNames [] ((", ".intercalate names).toList ++ ' ' :: '\x7d' :: rest) = some (names, rest) := by
  obtain ⟨hne, hnames⟩ := h
  induction names with
  | nil => exact absurd rfl hne
  | cons name names ih =>
    obtain ⟨hname, hnames⟩ := List.forall_mem_cons.1 hnames
    have hread : nameOf? (name.toList.reverse ++ []) = some name :=
      nameOf?_eq_some_iff.2 ⟨by simp, hname⟩
    have hcontinues := (isIdentifier_iff.1 hname).2
    cases names with
    | nil =>
      rw [String.intercalate_singleton, readNames_append hcontinues, readNames, hread]
      rfl
    | cons second others =>
      have htext : (", ".intercalate (name :: second :: others)).toList ++ ' ' :: '\x7d' :: rest
          = name.toList ++ (',' :: ' ' ::
            ((", ".intercalate (second :: others)).toList ++ ' ' :: '\x7d' :: rest)) := by
        rw [String.intercalate_cons_cons]
        simp
      rw [htext, readNames_append hcontinues, readNames, hread, ih (List.cons_ne_nil _ _) hnames]
      rfl

/-- No names are read but those that are written.  By induction along the reader. -/
theorem eq_of_readNames {word text rest : List Char} {names : List String}
    (h : readNames word text = some (names, rest)) :
    Importable names ∧
      word.reverse ++ text = (", ".intercalate names).toList ++ ' ' :: '\x7d' :: rest := by
  fun_induction readNames word text generalizing names with
  | case1 word rest' ih =>
    obtain ⟨name, hname, h⟩ := Option.bind_eq_some_iff.1 h
    obtain ⟨⟨others, rest''⟩, hread, heq⟩ := Option.map_eq_some_iff.1 h
    cases heq
    obtain ⟨hword, hname⟩ := nameOf?_eq_some_iff.1 hname
    obtain ⟨⟨hne, hothers⟩, htext⟩ := ih hread
    refine ⟨⟨List.cons_ne_nil _ _, List.forall_mem_cons.2 ⟨hname, hothers⟩⟩, ?_⟩
    rw [String.intercalate_cons_of_ne_nil hne, ← hword]
    simpa using htext
  | case2 word rest' =>
    obtain ⟨name, hname, heq⟩ := Option.map_eq_some_iff.1 h
    cases heq
    obtain ⟨hword, hname⟩ := nameOf?_eq_some_iff.1 hname
    refine ⟨⟨List.cons_ne_nil _ _, by simpa using hname⟩, ?_⟩
    rw [String.intercalate_singleton, hword]
  | case3 word c rest' _ _ ih =>
    obtain ⟨hnames, htext⟩ := ih h
    rw [List.reverse_cons, List.append_assoc] at htext
    exact ⟨hnames, htext⟩
  | case4 => cases h

theorem readNames?_eq_some_iff {text rest : String} {names : List String} :
    readNames? text = some (names, rest) ↔
      Importable names ∧ text = ", ".intercalate names ++ " \x7d" ++ rest := by
  have htext : (text = ", ".intercalate names ++ " \x7d" ++ rest) ↔
      text.toList = (", ".intercalate names).toList ++ ' ' :: '\x7d' :: rest.toList := by
    rw [← String.toList_inj, String.toList_append, String.toList_append, List.append_assoc]
    rfl
  rw [htext, readNames?, Option.map_eq_some_iff]
  constructor
  · rintro ⟨⟨names', rest'⟩, hread, heq⟩
    cases heq
    rw [String.toList_ofList]
    exact eq_of_readNames hread
  · rintro ⟨hnames, heq⟩
    exact ⟨(names, rest.toList), by rw [heq, readNames_intercalate hnames],
      by rw [String.ofList_toList]⟩

/-! ## Statements -/

/-- An import statement as it is meant: its module is a literal. -/
def importStatement (module : String) (names : List String) : String :=
  "import \x7b " ++ ", ".intercalate names ++ " \x7d from " ++ stringLiteral module ++ ";\n"

/-- The import statement at the beginning of a text, and what follows it. -/
def readStatement? (text : String) : Option ((String × List String) × String) := do
  let text ← Text.afterStart? "import \x7b " text
  let (names, text) ← readNames? text
  let text ← Text.afterStart? " from " text
  let (module, text) ← readLiteral? text
  let text ← Text.afterStart? ";\n" text
  return ((module, names), text)

/-- The texts that begin with a statement are those in which it is written. -/
theorem readStatement?_eq_some_iff {text rest module : String} {names : List String} :
    readStatement? text = some ((module, names), rest) ↔
      Importable names ∧ text = importStatement module names ++ rest := by
  unfold readStatement? importStatement
  simp only [bind, Option.bind_eq_some_iff, Text.afterStart?_eq_some_iff, pure, Prod.exists,
    readNames?_eq_some_iff, readLiteral?_eq_some_iff, Option.some.injEq, Prod.mk.injEq]
  constructor
  · rintro ⟨_, rfl, _, _, ⟨hnames, rfl⟩, _, rfl, _, _, rfl, _, rfl, ⟨rfl, rfl⟩, rfl⟩
    refine ⟨hnames, ?_⟩
    have hfrom : " \x7d from " = " \x7d" ++ " from " := by decide
    rw [hfrom]
    simp only [String.append_assoc]
  · rintro ⟨hnames, rfl⟩
    have hfrom : " \x7d from " = " \x7d" ++ " from " := by decide
    refine ⟨_, ?_, names, _, ⟨hnames, rfl⟩, _, rfl, module, _, rfl, rest, rfl, ⟨rfl, rfl⟩, rfl⟩
    rw [hfrom]
    simp only [String.append_assoc]

theorem length_lt_of_readStatement? {text rest : String} {entry : String × List String}
    (h : readStatement? text = some (entry, rest)) : rest.length < text.length := by
  obtain ⟨-, rfl⟩ := readStatement?_eq_some_iff.1 h
  have hliteral : ";\n".length = 2 := by decide
  rw [importStatement, String.length_append, String.length_append, hliteral]
  omega

/-! ## Statements in a row -/

/-- The import statements at the beginning of a text, and what follows them. -/
def readStatements (text : String) : Option (List (String × List String) × String) :=
  if Text.startsWith "import " text then
    match _h : readStatement? text with
    | none => none
    | some (entry, rest) => (readStatements rest).map fun r => (entry :: r.1, r.2)
  else some ([], text)
termination_by text.length
decreasing_by exact length_lt_of_readStatement? _h

/-- The import statements of entries. -/
def importStatements (entries : List (String × List String)) : String :=
  String.join (entries.map fun entry => importStatement entry.1 entry.2)

theorem importStatements_cons (entry : String × List String) (entries : List (String × List String))
    (rest : String) : importStatements (entry :: entries) ++ rest
      = importStatement entry.1 entry.2 ++ (importStatements entries ++ rest) := by
  rw [importStatements, List.map_cons, String.join_cons, String.append_assoc]
  rfl

theorem startsWith_importStatement (module : String) (names : List String) (rest : String) :
    Text.startsWith "import " (importStatement module names ++ rest) = true := by
  have hopen : "import \x7b " = "import " ++ "\x7b " := by decide
  rw [Text.startsWith, List.isPrefixOf_iff_prefix, importStatement, hopen]
  simp only [String.toList_append, List.append_assoc]
  exact List.prefix_append _ _

/-- Statements are read up to a text that does not begin with a further one. -/
theorem readStatements_append {entries : List (String × List String)}
    (h : ∀ entry ∈ entries, Importable entry.2) {rest : String}
    (hrest : Text.startsWith "import " rest = false) :
    readStatements (importStatements entries ++ rest) = some (entries, rest) := by
  induction entries with
  | nil =>
    rw [importStatements, List.map_nil, String.join_nil, String.empty_append, readStatements, hrest]
    rfl
  | cons entry entries ih =>
    obtain ⟨hentry, hentries⟩ := List.forall_mem_cons.1 h
    have hread : readStatement? (importStatement entry.1 entry.2 ++ (importStatements entries ++ rest))
        = some (entry, importStatements entries ++ rest) :=
      readStatement?_eq_some_iff.2 ⟨hentry, rfl⟩
    rw [importStatements_cons, readStatements, if_pos (startsWith_importStatement _ _ _)]
    split
    · next hnone =>
      rw [hread] at hnone
      cases hnone
    · next hsome =>
      rw [hread] at hsome
      cases hsome
      rw [ih hentries]
      rfl

/-- No statements are read but those that are written. -/
theorem eq_of_readStatements {text rest : String} {entries : List (String × List String)}
    (h : readStatements text = some (entries, rest)) :
    (∀ entry ∈ entries, Importable entry.2) ∧ text = importStatements entries ++ rest := by
  fun_induction readStatements text generalizing entries with
  | case1 => cases h
  | case2 text _ entry rest' hread ih =>
    obtain ⟨⟨others, rest''⟩, hothers, heq⟩ := Option.map_eq_some_iff.1 h
    cases heq
    obtain ⟨himportable, rfl⟩ := ih hothers
    obtain ⟨hentry, rfl⟩ := readStatement?_eq_some_iff.1 hread
    exact ⟨List.forall_mem_cons.2 ⟨hentry, himportable⟩, (importStatements_cons _ _ _).symm⟩
  | case3 text =>
    cases h
    exact ⟨fun _ hmem => absurd hmem List.not_mem_nil, (String.empty_append).symm⟩

end ClientGen.TypeScript
