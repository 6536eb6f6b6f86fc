/-
  ClientGen.Proofs.ImportBlock

  Reading the imports of a generated file back.  The module of an import is written
  between quotes as it stands, unlike any other literal, and the path of a module is
  made of the keys of schemas, which may hold any character.  `imports_read_iff` says
  which files can be read back, and where the characters come from that forbid it.
-/
import ClientGen.Proofs.ImportStatement
import ClientGen.Proofs.NameCapture
import ClientGen.Proofs.RuntimeName

namespace ClientGen

open TypeScript

namespace TypeScript

/-! ## Texts that are quoted as they stand -/

/-- The characters that a literal does not hold as they stand. -/
def escapedChars : List Char := ['\\', '\x27', '\n', '\r']

/-- A text that is quoted as it stands. -/
def QuotedAsIs (s : String) : Prop := ∀ c ∈ s.toList, c ∉ escapedChars

instance (s : String) : Decidable (QuotedAsIs s) :=
  List.decidableBAll (· ∉ escapedChars) s.toList

theorem quotedChar_of_not_mem {c : Char} (h : c ∉ escapedChars) : quotedChar c = [c] := by
  simp only [escapedChars, List.mem_cons, List.not_mem_nil, or_false, not_or] at h
  rw [quotedChar, if_neg h.1, if_neg h.2.1, if_neg h.2.2.1, if_neg h.2.2.2]

/-- What is escaped begins with a backslash. -/
theorem exists_quotedChar_of_mem {c : Char} (h : c ∈ escapedChars) :
    ∃ letter, quotedChar c = ['\\', letter] := by
  simp only [escapedChars, List.mem_cons, List.not_mem_nil, or_false] at h
  rcases h with rfl | rfl | rfl | rfl <;> exact ⟨_, rfl⟩

theorem stringLiteral_of_quotedAsIs {s : String} (h : QuotedAsIs s) :
    stringLiteral s = "'" ++ s ++ "'" := by
  have hself : s.toList.flatMap quotedChar = s.toList.flatMap fun c => [c] :=
    List.flatMap_congr fun c hc => quotedChar_of_not_mem (h c hc)
  rw [← String.toList_inj, stringLiteral, String.toList_ofList, quotedChars, hself,
    List.flatMap_singleton', String.toList_append, String.toList_append]
  rfl

/-- Escaping never takes backslashes away, so a text with some in front of its escaped form does
    not begin like the text.  By induction on the text: each backslash that they have in common
    leaves one more in front of the rest. -/
theorem append_ne_backslashes (cs rest rest' : List Char) (n : Nat) :
    cs ++ '\x27' :: rest
      ≠ List.replicate (n + 1) '\\' ++ (cs.flatMap quotedChar ++ '\x27' :: rest') := by
  induction cs generalizing n with
  | nil =>
    intro h
    rw [List.replicate_succ] at h
    cases h
  | cons c cs ih =>
    intro h
    rw [List.cons_append, List.replicate_succ, List.cons_append, List.cons.injEq] at h
    obtain ⟨rfl, h⟩ := h
    refine ih (n + 1) (h.trans ?_)
    rw [List.flatMap_cons, List.replicate_succ', List.replicate_succ', List.append_assoc,
      List.append_assoc]
    simp [quotedChar]

/-- Only a text that is quoted as it stands begins like its escaped form, the closing quote
    included. -/
theorem not_mem_of_append_eq {cs rest rest' : List Char}
    (h : cs ++ '\x27' :: rest = cs.flatMap quotedChar ++ '\x27' :: rest') :
    ∀ c ∈ cs, c ∉ escapedChars := by
  induction cs with
  | nil => exact fun c hc => absurd hc List.not_mem_nil
  | cons c cs ih =>
    rw [List.flatMap_cons, List.append_assoc] at h
    by_cases hc : c ∈ escapedChars
    · obtain ⟨letter, hletter⟩ := exists_quotedChar_of_mem hc
      rw [hletter, List.cons_append, List.cons_append, List.cons.injEq] at h
      obtain ⟨rfl, h⟩ := h
      cases hletter
      exact absurd h (append_ne_backslashes cs rest rest' 0)
    · rw [quotedChar_of_not_mem hc, List.cons_append, List.singleton_append,
        List.cons.injEq] at h
      exact List.forall_mem_cons.2 ⟨hc, ih h.2⟩

theorem quotedAsIs_of_append_eq {s rest rest' : String}
    (h : "'" ++ s ++ "'" ++ rest = stringLiteral s ++ rest') : QuotedAsIs s := by
  rw [← String.toList_inj, toList_stringLiteral_append] at h
  simp only [String.toList_append, List.append_assoc] at h
  exact not_mem_of_append_eq (List.cons.inj h).2

/-! ## Statements as they are rendered -/

theorem renderStatement_append (module : String) (names : List String) (rest : String) :
    Imports.renderStatement module names ++ rest = "import \x7b " ++ (", ".intercalate names
      ++ (" \x7d from " ++ ("'" ++ module ++ "'" ++ (";\n" ++ rest)))) := by
  have hopen : " \x7d from '" = " \x7d from " ++ "'" := by decide
  have hclose : "';\n" = "'" ++ ";\n" := by decide
  rw [Imports.renderStatement, hopen, hclose]
  simp only [String.append_assoc]

theorem importStatement_append (module : String) (names : List String) (rest : String) :
    importStatement module names ++ rest = "import \x7b " ++ (", ".intercalate names
      ++ (" \x7d from " ++ (stringLiteral module ++ (";\n" ++ rest)))) := by
  rw [importStatement]
  simp only [String.append_assoc]

/-- The import statements of entries, as they are rendered. -/
def renderedStatements (entries : List (String × List String)) : String :=
  String.join (entries.map fun entry => Imports.renderStatement entry.1 entry.2)

theorem renderedStatements_cons (entry : String × List String)
    (entries : List (String × List String)) (rest : String) :
    renderedStatements (entry :: entries) ++ rest
      = Imports.renderStatement entry.1 entry.2 ++ (renderedStatements entries ++ rest) := by
  rw [renderedStatements, List.map_cons, String.join_cons, String.append_assoc]
  rfl

theorem renderedStatements_of_quotedAsIs {entries : List (String × List String)}
    (h : ∀ entry ∈ entries, QuotedAsIs entry.1) :
    renderedStatements entries = importStatements entries := by
  unfold renderedStatements importStatements
  congr 1
  refine List.map_congr_left fun entry hentry => ?_
  rw [← String.append_left_inj "", renderStatement_append, importStatement_append,
    stringLiteral_of_quotedAsIs (h entry hentry)]

/-- Rendered statements are the statements that are meant only if all modules are quoted as they
    stand.  By induction on the entries: a statement that is right leaves the others to compare. -/
theorem quotedAsIs_of_statements_eq {entries : List (String × List String)} {rest rest' : String}
    (h : renderedStatements entries ++ rest = importStatements entries ++ rest') :
    ∀ entry ∈ entries, QuotedAsIs entry.1 := by
  induction entries with
  | nil => exact fun entry hentry => absurd hentry List.not_mem_nil
  | cons entry entries ih =>
    rw [renderedStatements_cons, importStatements_cons, renderStatement_append,
      importStatement_append, String.append_right_inj, String.append_right_inj,
      String.append_right_inj] at h
    have hentry := quotedAsIs_of_append_eq h
    rw [stringLiteral_of_quotedAsIs hentry, String.append_right_inj, String.append_right_inj] at h
    exact List.forall_mem_cons.2 ⟨hentry, ih h⟩

/-! ## Files -/

/-- The modules of imports with their names, in order. -/
def Imports.listed (imports : Imports) : List (String × List String) :=
  imports.entries.map fun entry => (entry.1, entry.2.keys)

/-- The declarations of a file as they are rendered. -/
def SourceFile.body (f : SourceFile) : String := "\n".intercalate (f.declarations.map (·.render))

/-- The imports of a generated file, and its text behind them.  An empty line closes the import
    statements, if there are any. -/
def readImports? (text : String) : Option (List (String × List String) × String) := do
  let text ← Text.afterStart? (fileHeader ++ "\n\n") text
  let (entries, text) ← readStatements text
  if entries.isEmpty then return (entries, text)
  else return (entries, ← Text.afterStart? "\n" text)

theorem mem_listed_iff {imports : Imports} {entry : String × List String} :
    entry ∈ imports.listed ↔ ∃ names, imports.get? entry.1 = some names ∧ names.keys = entry.2 := by
  simp only [Imports.listed, List.mem_map, Prod.exists, SortedMap.get?_eq_some_iff]
  constructor
  · rintro ⟨module, names, hmem, rfl⟩
    exact ⟨names, hmem, rfl⟩
  · rintro ⟨names, hmem, hkeys⟩
    exact ⟨entry.1, names, hmem, by rw [hkeys]⟩

theorem listed_sorted (imports : Imports) :
    (imports.listed.map Prod.fst).Pairwise (· < ·) ∧
      ∀ entry ∈ imports.listed, entry.2.Pairwise (· < ·) := by
  constructor
  · have hkeys : imports.listed.map Prod.fst = imports.keys := by
      rw [Imports.listed, List.map_map]
      rfl
    rw [hkeys]
    exact imports.sorted
  · intro entry hentry
    obtain ⟨names, -, hkeys⟩ := mem_listed_iff.1 hentry
    rw [← hkeys]
    exact names.sorted

theorem render_eq (f : SourceFile) :
    f.render = fileHeader ++ "\n\n"
      ++ (renderedStatements f.imports.listed
        ++ ((if f.imports.isEmpty then "" else "\n") ++ f.body)) := by
  have hblock : f.imports.render
      = renderedStatements f.imports.listed ++ if f.imports.isEmpty then "" else "\n" := by
    unfold Imports.render renderedStatements Imports.listed
    split
    · next hempty =>
      rw [List.isEmpty_iff.1 hempty]
      rfl
    · rw [List.map_map]
      rfl
  rw [SourceFile.render, hblock]
  simp only [String.append_assoc]
  rfl

/-- A file is read back as it is meant only if all its names are identifiers and all its modules
    are quoted as they stand. -/
theorem of_readImports?_render {f : SourceFile}
    (h : (readImports? f.render).map Prod.fst = some f.imports.listed) :
    ∀ entry ∈ f.imports.listed, QuotedAsIs entry.1 ∧ Importable entry.2 := by
  obtain ⟨⟨entries, rest⟩, hread, heq⟩ := Option.map_eq_some_iff.1 h
  dsimp only at heq
  subst heq
  obtain ⟨text, htext, hread⟩ := Option.bind_eq_some_iff.1 hread
  obtain ⟨⟨entries, rest'⟩, hstatements, hread⟩ := Option.bind_eq_some_iff.1 hread
  rw [Text.afterStart?_eq_some_iff, render_eq, String.append_right_inj] at htext
  have hentries : entries = f.imports.listed := by
    dsimp only at hread
    split at hread
    · cases hread
      rfl
    · obtain ⟨_, -, hread⟩ := Option.bind_eq_some_iff.1 hread
      cases hread
      rfl
  subst hentries
  obtain ⟨himportable, rfl⟩ := eq_of_readStatements hstatements
  exact fun entry hentry => ⟨quotedAsIs_of_statements_eq htext entry hentry, himportable entry hentry⟩

/-- If all names of a file are identifiers and all its modules are quoted as they stand, the file
    is read back as it is meant. -/
theorem readImports?_render {f : SourceFile}
    (h : ∀ entry ∈ f.imports.listed, QuotedAsIs entry.1 ∧ Importable entry.2)
    (hbody : f.imports.isEmpty = true → Text.startsWith "import " f.body = false) :
    readImports? f.render = some (f.imports.listed, f.body) := by
  have hempty : f.imports.listed.isEmpty = f.imports.isEmpty := by
    rw [Imports.listed, List.isEmpty_map]
    rfl
  have hnext : Text.startsWith "import " ((if f.imports.isEmpty then "" else "\n") ++ f.body)
      = false := by
    split
    · next hnone =>
      rw [String.empty_append]
      exact hbody hnone
    · rw [Text.startsWith, String.toList_append]
      rfl
  have hread := readStatements_append (fun entry hentry => (h entry hentry).2) hnext
  rw [← renderedStatements_of_quotedAsIs fun entry hentry => (h entry hentry).1] at hread
  rw [readImports?, render_eq, Text.afterStart?_append]
  simp only [bind, Option.bind_some, hread, hempty]
  split
  · rw [String.empty_append]
    rfl
  · rw [Text.afterStart?_append]
    rfl

/-! ## Declarations in front -/

theorem startsWith_of_head? {c : Char} {rest : String} (h : rest.toList.head? = some c)
    (hc : c ≠ 'i') : Text.startsWith "import " rest = false := by
  obtain ⟨cs, hcs⟩ := List.head?_eq_some_iff.1 h
  rw [Text.startsWith, hcs]
  show ('i' == c && _) = false
  rw [beq_false_of_ne hc.symm, Bool.false_and]

/-- The documentation of a declaration and its keyword are no import. -/
theorem startsWith_renderDocs (docs : List String) (rest : String) :
    Text.startsWith "import " (renderDocs "" docs ++ ("export " ++ rest)) = false := by
  unfold renderDocs
  split
  · apply startsWith_of_head? (c := 'e') _ (by decide)
    rw [String.empty_append, String.toList_append]
    rfl
  · apply startsWith_of_head? (c := '/') _ (by decide)
    rw [String.empty_append]
    simp only [String.toList_append, List.append_assoc]
    rfl

/-- A type does not begin as an import does, whatever follows it. -/
theorem startsWith_render {decl : Declaration} (h : decl.isType = true) (rest : String) :
    Text.startsWith "import " (decl.render ++ rest) = false := by
  have hopen (docs : List String) {keyword : String} (hkeyword : ∃ k, keyword = "export " ++ k)
      (text : String) : Text.startsWith "import " (renderDocs "" docs ++ (keyword ++ text)) = false := by
    obtain ⟨k, rfl⟩ := hkeyword
    rw [String.append_assoc]
    exact startsWith_renderDocs docs _
  cases decl with
  | const decl => cases h
  | «class» decl => cases h
  | enum decl =>
    simp only [Declaration.render, EnumDecl.render, String.append_assoc]
    exact hopen _ ⟨"enum ", by decide⟩ _
  | interface decl =>
    simp only [Declaration.render, InterfaceDecl.render, String.append_assoc]
    exact hopen _ ⟨"interface ", by decide⟩ _
  | «alias» decl =>
    simp only [Declaration.render, AliasDecl.render, String.append_assoc]
    exact hopen _ ⟨"type ", by decide⟩ _

theorem startsWith_body {f : SourceFile} (h : ∀ decl ∈ f.declarations, decl.isType = true) :
    Text.startsWith "import " f.body = false := by
  unfold SourceFile.body
  cases hdecls : f.declarations with
  | nil =>
    rw [List.map_nil, String.intercalate_nil]
    decide
  | cons decl rest =>
    rw [hdecls] at h
    have hdecl := h decl List.mem_cons_self
    cases rest with
    | nil =>
      rw [List.map_cons, List.map_nil, String.intercalate_singleton,
        ← @String.append_empty decl.render]
      exact startsWith_render hdecl ""
    | cons second others =>
      rw [List.map_cons, List.map_cons, String.intercalate_cons_cons, String.append_assoc]
      exact startsWith_render hdecl _

/-- Imports that can be read back: all modules are quoted as they stand, and all names are
    identifiers. -/
def Imports.Legible (imports : Imports) : Prop :=
  ∀ entry ∈ imports.listed, QuotedAsIs entry.1 ∧ ∀ name ∈ entry.2, isIdentifier name = true

instance (imports : Imports) : Decidable imports.Legible :=
  inferInstanceAs (Decidable (∀ entry ∈ imports.listed, _ ∧ ∀ name ∈ entry.2, _))

theorem Imports.legible_iff {imports : Imports} (h : imports.Full) :
    imports.Legible ↔ ∀ entry ∈ imports.listed, QuotedAsIs entry.1 ∧ Importable entry.2 := by
  have hne : ∀ entry ∈ imports.listed, entry.2 ≠ [] := by
    rintro ⟨module, keys⟩ hentry
    obtain ⟨names, hget, rfl⟩ := mem_listed_iff.1 hentry
    obtain ⟨name, names', hget', hname⟩ := h module (SortedMap.mem_keys_iff.2 ⟨names, hget⟩)
    cases hget.symm.trans hget'
    exact List.ne_nil_of_mem hname
  constructor
  · exact fun hlegible entry hentry =>
      ⟨(hlegible entry hentry).1, hne entry hentry, (hlegible entry hentry).2⟩
  · exact fun hlegible entry hentry => ⟨(hlegible entry hentry).1, (hlegible entry hentry).2.2⟩

end TypeScript

/-! ## Characters of modules -/

theorem FilePath.mem_of_mem_foldl_enter {segments : List String} {s : String}
    (entered : List String) (h : s ∈ segments.foldl enter entered) : s ∈ segments ∨ s ∈ entered := by
  induction segments generalizing entered with
  | nil => exact .inr h
  | cons first rest ih =>
    rcases ih _ h with hs | hs
    · exact .inl (List.mem_cons_of_mem _ hs)
    · unfold enter at hs
      split at hs
      · exact .inr hs
      · split at hs
        · exact .inr (List.mem_of_mem_tail hs)
        · rcases List.mem_cons.1 hs with rfl | hs
          · exact .inl List.mem_cons_self
          · exact .inr hs

/-- Walking makes up no segments. -/
theorem FilePath.mem_of_mem_walk {segments : List String} {s : String} (h : s ∈ walk segments) :
    s ∈ segments :=
  (mem_of_mem_foldl_enter [] (List.mem_reverse.1 h)).resolve_right List.not_mem_nil

/-- The module by which a model file is imported is made of steps up and characters of the
    model's directory, its slashes apart. -/
theorem FilePath.mem_relativeModule {source directory : String} (hsource : IsNormal source)
    {c : Char} (h : c ∈ (relativeModule source (modelFile directory)).toList) :
    c ∈ "./types".toList ∨ isSlash c = false ∧ c ∈ directory.toList := by
  obtain ⟨base, hbase, rfl⟩ := hsource
  rw [relativeModule_modelFile, directory_intercalate hbase] at h
  have hpath : c ∈ "./".toList ∨ c ∈ ("/".intercalate (specifiers
      (relativeTo (names base.dropLast) (names (moduleSegments directory))))).toList := by
    unfold specifierOf at h
    split at h
    · exact .inr h
    · rwa [String.toList_append, List.mem_append] at h
  rcases hpath with hc | hc
  · exact .inl (List.subset_def.1 (by decide) hc)
  · rcases Text.mem_intercalate hc with hc | ⟨text, htext, hc⟩
    · exact .inl (List.subset_def.1 (by decide) hc)
    · obtain ⟨step, hstep, hspec⟩ := List.mem_filterMap.1 htext
      rcases (relativeTo_names base.dropLast (moduleSegments directory)).1 step hstep with
        rfl | ⟨s, hs, rfl⟩
      · cases hspec
        exact .inl (List.subset_def.1 (by decide) hc)
      · cases hspec
        rcases List.mem_append.1 hs with hs | hs
        · have hsplit := mem_of_mem_walk hs
          exact .inr ⟨Text.splitOn_all_not _ hsplit c hc, Text.mem_of_mem_splitOn hsplit c hc⟩
        · rw [List.mem_singleton.1 hs] at hc
          exact .inl (List.subset_def.1 (by decide) hc)

/-- A model that comes from no package has a directory made of its key. -/
theorem ModelName.mem_path_ofReference {key : String} (h : (ofReference key).isExternal = false)
    {c : Char} (hc : c ∈ (ofReference key).path.toList) : c = '/' ∨ c ∈ key.toList := by
  have hown : isReserved key = false := by
    rw [← Bool.not_eq_true, ← isExternal_ofReference_iff, h]
    exact Bool.false_ne_true
  have hroot (hc : c ∈ "/".toList) : c = '/' := List.mem_singleton.1 hc
  obtain ⟨directory, part, hcut⟩ := exists_cut key
  rw [ofReference_eq_ofKey hown, ofKey_of_cut (pinned?_of_not_isReserved hown) hcut,
    String.toList_append, List.mem_append] at hc
  rcases hc with hc | hc
  · exact .inl (hroot hc)
  · rcases Text.mem_intercalate hc with hc | ⟨segment, hsegment, hc⟩
    · exact .inl (hroot hc)
    · exact .inr (hcut.mem_of_mem_directory hsegment hc)

/-! ## Generated files -/

section Files

variable {d : Document} {config : Configuration} {path : String} {f : SourceFile}

/-- What is contributed are types, unless clients are, which need the runtime. -/
theorem isType_or_needs_api {s : Service} {c : Contribution}
    (h : c ∈ contributionsOf (pieces d s config)) :
    (∀ decl ∈ c.decls, decl.isType = true) ∨ Import.name decoratorModule "api" ∈ c.needs := by
  have hclient : Import.name decoratorModule "api" ∈ clientImports := List.mem_cons_self
  rcases contribution_cases h with
    ⟨entry, -, decls, hdecls, rfl⟩ | ⟨a, -, types, -, rfl⟩ | ⟨a, -, rfl⟩ | ⟨t, -, rfl⟩
  · exact .inl (isType_of_modelDecls hdecls)
  · exact .inr (List.mem_append_left _ (List.mem_append_right _ hclient))
  · exact .inr (List.mem_append_left _ (List.mem_append_right _ hclient))
  · exact .inr (List.mem_append_left _ hclient)

variable (hf : (Project.ofContributions
  (contributionsOf (pieces d d.service config))).get? path = some f)
include hf

/-- A file without imports declares types only. -/
theorem isType_of_isEmpty (hempty : f.imports.isEmpty = true) :
    ∀ decl ∈ f.declarations, decl.isType = true := by
  intro decl hdecl
  rw [Project.declarations_of_get? hf] at hdecl
  obtain ⟨c, hc, hdecl⟩ := List.mem_flatMap.1 hdecl
  rcases isType_or_needs_api (mem_contributionsTo.1 hc).1 with htypes | hneeds
  · exact htypes decl hdecl
  · have hhas : f.imports.Has decoratorModule "api" :=
      (has_iff_needed (fun c hc => isSettled_of_mem_contributions hc) hf).2
        ⟨_, List.mem_flatMap.2 ⟨c, hc, hneeds⟩, rfl, rfl⟩
    obtain ⟨entry, hentry, -⟩ := Imports.has_iff_mem.1 hhas
    rw [SortedMap.isEmpty, List.isEmpty_iff] at hempty
    rw [hempty] at hentry
    exact absurd hentry List.not_mem_nil

/-- A character that has to be escaped in a module comes from the key of a schema, where it is no
    backslash. -/
theorem exists_key_of_mem_module {module : String} (hmodule : module ∈ f.imports.keys) {c : Char}
    (hc : c ∈ module.toList) (hescaped : c ∈ escapedChars) :
    c ≠ '\\' ∧ ∃ key s, d.schema? key = some s ∧ c ∈ key.toList := by
  have hruntime : ∀ m ∈ runtimeModules, QuotedAsIs m := by decide
  obtain ⟨name, hhas⟩ := Project.full_of_get? hf module hmodule
  obtain ⟨i, hi, hmodule, -⟩ :=
    (has_iff_needed (fun c hc => isSettled_of_mem_contributions hc) hf).1 hhas
  obtain ⟨contribution, hcontribution, hi⟩ := List.mem_flatMap.1 hi
  have hgrounded := grounded_of_mem_contributions (mem_contributionsTo.1 hcontribution).1 i hi
  cases i with
  | name m exported =>
    cases hmodule
    exact absurd hescaped (hruntime _ hgrounded.1 c hc)
  | model m =>
    obtain ⟨key, s, hs, rfl⟩ := hgrounded
    by_cases hext : (ModelName.ofReference key).isExternal = true
    · have hhome : some (ModelName.ofReference key).path = some module := by
        rw [← hmodule, Import.resolved, if_pos hext]
        rfl
      rw [← Option.some.inj hhome, ModelName.path_of_isExternal hext] at hc
      exact absurd hescaped (hruntime _ List.mem_cons_self c hc)
    · rw [Import.resolved, if_neg hext] at hmodule
      obtain ⟨-, rfl⟩ := Home.module?_file_eq_some_iff.1 hmodule
      rcases FilePath.mem_relativeModule (isNormal_of_get? hf) hc with hc | ⟨hslash, hc⟩
      · have hplain : QuotedAsIs "./types" := by decide
        exact absurd hescaped (hplain c hc)
      · obtain ⟨hne, hne'⟩ := isSlash_eq_false_iff.1 hslash
        have hkey := ModelName.mem_path_ofReference (Bool.eq_false_iff.2 hext) hc
        exact ⟨hne', key, s, hs, hkey.resolve_left hne⟩

end Files

/-- When generation succeeds, a generated file is read back just when its imports are legible: then
    its import statements give its modules and their names, all in order, and leave its
    declarations.  What makes a module illegible are apostrophes and line breaks in the keys of
    schemas. -/
theorem imports_read_iff {d : Document} {config : Configuration} {g : Generation}
    (h : generation d d.service config = .ok g) {path : String} {f : SourceFile}
    (hf : g.project.get? path = some f) :
    (f.imports.Legible → readImports? f.render = some (f.imports.listed, f.body)) ∧
      ((readImports? f.render).map Prod.fst = some f.imports.listed → f.imports.Legible) ∧
      ((f.imports.listed.map Prod.fst).Pairwise (· < ·) ∧
        ∀ entry ∈ f.imports.listed, entry.2.Pairwise (· < ·)) ∧
      ∀ module ∈ f.imports.keys, ∀ c ∈ module.toList, c ∈ escapedChars →
        c ≠ '\\' ∧ ∃ key s, d.schema? key = some s ∧ c ∈ key.toList := by
  rw [generation_eq_ok h, Generation.project_ofPieces] at hf
  have hlegible := Imports.legible_iff (Project.full_of_get? hf)
  refine ⟨fun h => ?_, fun h => ?_, listed_sorted f.imports, fun module hmodule c hc hescaped => ?_⟩
  · exact readImports?_render (hlegible.1 h) fun hempty => startsWith_body (isType_of_isEmpty hf hempty)
  · exact hlegible.2 (of_readImports?_render h)
  · exact exists_key_of_mem_module hf hmodule hc hescaped

/-- The import of a model from the directory beside. -/
theorem imports_read_iff_linked :
    ∃ g f, generation linkedDocument linkedDocument.service {} = .ok g ∧
      g.project.get? "a/types.ts" = some f ∧
      readImports? f.render = some ([("../b/types", ["B"])], "export type A = B;\n") := by
  have hrun : (generation linkedDocument linkedDocument.service {}).toOption.any (fun g =>
      (g.project.get? "a/types.ts").any fun f => f.imports.Legible ∧
        f.imports.listed = [("../b/types", ["B"])] ∧ f.body = "export type A = B;\n") = true := by
    decide +kernel
  obtain ⟨g, hg, hfile⟩ := exists_ok_of_any hrun
  obtain ⟨f, hf, hfile⟩ := (Option.any_eq_true _ _).1 hfile
  obtain ⟨hlegible, hlisted, hbody⟩ := of_decide_eq_true hfile
  refine ⟨g, f, hg, hf, ?_⟩
  rw [(imports_read_iff hg hf).1 hlegible, hlisted, hbody]

/-- A schema that refers to one in a directory with an apostrophe. -/
def apostropheDocument : Document :=
  { components.schemas := .ofList
      [("b.Bar", .referenceTo "it's.Foo"), ("it's.Foo", { type := some (.single "string") })] }

/-- An apostrophe in a key ends the literal of a module early. -/
theorem exists_broken_specifier :
    ∃ g f, generation apostropheDocument apostropheDocument.service {} = .ok g ∧
      g.project.get? "b/types.ts" = some f ∧ f.imports.listed = [("../it's/types", ["Foo"])] ∧
      f.imports.render = "import \x7b Foo \x7d from '../it's/types';\n\n" ∧
      (readImports? f.render).map Prod.fst ≠ some f.imports.listed := by
  have hrun : (generation apostropheDocument apostropheDocument.service {}).toOption.any (fun g =>
      (g.project.get? "b/types.ts").any fun f =>
        f.imports.listed = [("../it's/types", ["Foo"])] ∧
        f.imports.render = "import \x7b Foo \x7d from '../it's/types';\n\n") = true := by
    decide +kernel
  obtain ⟨g, hg, hfile⟩ := exists_ok_of_any hrun
  obtain ⟨f, hf, hfile⟩ := (Option.any_eq_true _ _).1 hfile
  obtain ⟨hlisted, hrender⟩ := of_decide_eq_true hfile
  refine ⟨g, f, hg, hf, hlisted, hrender, fun hread => ?_⟩
  have hlegible := of_readImports?_render hread _ (hlisted ▸ List.mem_cons_self)
  exact absurd hlegible.1 (by decide +kernel)

end ClientGen
