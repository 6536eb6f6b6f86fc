/-
  ClientGen.Proofs.NameCapture

  What the type names in a generated file stand for.  A declaration writes the
  types that it needs by their bare names; whether such a name stands for the
  type that was meant depends on what else the file imports and declares.
  `names_denote_iff_apart` says when all names of a file do: just when no two
  types that the file deals with have the same name.
-/
import ClientGen.Proofs.Assembly
import ClientGen.Proofs.KeyCut
import ClientGen.Proofs.StreamType

namespace ClientGen

open TypeScript

/-! ## Paths of contributions -/

section Paths

theorem isSlash_eq_false_iff {c : Char} : FilePath.isSlash c = false ↔ c ≠ '/' ∧ c ≠ '\\' := by
  rw [FilePath.isSlash, Bool.or_eq_false_iff, beq_eq_false_iff_ne, beq_eq_false_iff_ne]

theorem isSlash_of_isAlphanum {c : Char} (h : c.isAlphanum = true) :
    FilePath.isSlash c = false := by
  rw [isSlash_eq_false_iff]
  constructor <;> rintro rfl <;> exact absurd h (by decide)

/-- A name in Pascal case holds no slash. -/
theorem isSlash_of_mem_pascalCase {s : String} :
    ∀ c ∈ (Text.pascalCase s).toList, FilePath.isSlash c = false :=
  fun c hc => isSlash_of_isAlphanum (Text.isAlphanum_of_mem_pascalCase c hc)

/-- The file of an API client is a segment, whatever its tag is called. -/
theorem isSegment_apiClient (s : String) :
    FilePath.IsSegment (Text.pascalCase s ++ "ApiClient.ts") := by
  -- the name of the file is too long for a dot or two, and its characters are no slashes
  have hlong : 12 ≤ (Text.pascalCase s ++ "ApiClient.ts").toList.length := by
    have hending : "ApiClient.ts".toList.length = 12 := rfl
    rw [String.toList_append, List.length_append]
    omega
  have hne (short : String) (hshort : short.toList.length < 12) :
      Text.pascalCase s ++ "ApiClient.ts" ≠ short := by
    intro heq
    rw [heq] at hlong
    omega
  refine ⟨hne "" (by decide), hne "." (by decide), hne ".." (by decide), fun c hc => ?_⟩
  rw [String.toList_append] at hc
  rcases List.mem_append.1 hc with hc | hc
  · exact isSlash_of_mem_pascalCase c hc
  · have hno : ∀ c ∈ "ApiClient.ts".toList, FilePath.isSlash c = false := by
      simp [FilePath.isSlash]
    exact hno c hc

theorem isSegment_queryClient : FilePath.IsSegment "queryClient.ts" := by
  simp [FilePath.IsSegment, FilePath.isSlash]

theorem isSegment_commandClient : FilePath.IsSegment "commandClient.ts" := by
  simp [FilePath.IsSegment, FilePath.isSlash]

/-- Every contribution goes to a path that names one file. -/
theorem isSettled_of_mem_contributions {d : Document} {config : Configuration} {s : Service}
    {c : Contribution} (h : c ∈ contributionsOf (pieces d s config)) :
    FilePath.IsSettled c.path := by
  rcases contribution_cases h with
    ⟨entry, -, decls, -, rfl⟩ | ⟨a, -, types, -, rfl⟩ | ⟨a, -, rfl⟩ | ⟨t, -, rfl⟩
  · rw [modelContribution_path, ModelName.file]
    exact .inl (FilePath.isNormal_modelFile _)
  · show FilePath.IsSettled (FilePath.normalize (a.context ++ "/" ++ a.name) ++ "/queryClient.ts")
    have hfile : "/queryClient.ts" = "/" ++ "queryClient.ts" := rfl
    rw [hfile]
    exact FilePath.isSettled_append _ isSegment_queryClient (by decide)
  · show FilePath.IsSettled (FilePath.normalize (a.context ++ "/" ++ a.name) ++ "/commandClient.ts")
    have hfile : "/commandClient.ts" = "/" ++ "commandClient.ts" := rfl
    rw [hfile]
    exact FilePath.isSettled_append _ isSegment_commandClient (by decide)
  · show FilePath.IsSettled (apiClientFile d.alias? t.classStart)
    unfold apiClientFile
    cases d.alias? with
    | some directory => exact .inl FilePath.isNormal_normalize
    | none =>
      have hsegment := isSegment_apiClient t.tag.name
      refine .inl ⟨[Text.pascalCase t.tag.name ++ "ApiClient.ts"], ?_, ?_⟩
      · exact .singleton hsegment
      · rw [String.intercalate_singleton]
        rfl

end Paths

/-! ## Types and their homes -/

/-- Where a type is declared. -/
inductive Home where
  /-- A type of the language, which is there in every file. -/
  | global
  | file (path : String)
  | package (module : String)
deriving DecidableEq, Repr

/-- A type that a file deals with, under the name that it writes for it. -/
structure ResolvedType where
  name : String
  home : Home
deriving DecidableEq, Repr

/-- The module by which a file imports what has this home, unless it is there already. -/
def Home.module? (source : String) : Home → Option String
  | .global => none
  | .file path => if path = source then none else some (FilePath.relativeModule source path)
  | .package module => some module

/-- The type that an import means. -/
def TypeScript.Import.resolved : Import → ResolvedType
  | .model m => ⟨m.name, if m.isExternal then .package m.path else .file m.file⟩
  | .name module exported => ⟨exported, .package module⟩

/-- The word that a walk has read, unless what follows makes it the key of a property. -/
def wordBefore (rest word : List Char) : List String :=
  if word.isEmpty || [':'].isPrefixOf rest || ['?', ':'].isPrefixOf rest then []
  else [String.ofList word.reverse]

/-- The names in what is left of a type expression, for a walk that may be inside a quotation
    and has read the reverse of `word`. -/
def namesFrom : Option Char → List Char → List Char → List String
  | none, word, [] => wordBefore [] word
  | none, word, c :: rest =>
    if continuesIdentifier c then namesFrom none (c :: word) rest
    else
      wordBefore (c :: rest) word
        ++ namesFrom (if c = '\x27' ∨ c = '"' then some c else none) [] rest
  | some _, _, [] => []
  | some quote, _, '\\' :: _ :: rest => namesFrom (some quote) [] rest
  | some quote, _, c :: rest => namesFrom (if c = quote then none else some quote) [] rest

/-- The names in a type expression, apart from the keys of properties. -/
def namesIn (expr : String) : List String := namesFrom none [] expr.toList

/-- The types of the language that declarations are written with. -/
def globalNames : List String := ["Record", "Promise", "FormData"]

/-- The type expressions in a declaration. -/
def TypeScript.Declaration.typeExprs : Declaration → List String
  | .enum _ => []
  | .interface decl => decl.parents ++ decl.properties.map (·.typeExpr) ++ decl.indexType.toList
  | .alias decl => [decl.typeExpr]
  | .const decl => decl.declaredType.toList
  | .class decl =>
    decl.implemented ++ decl.methods.flatMap fun m => m.returnType :: m.parameters.map (·.typeExpr)

/-- The types of the language that occur in the type expressions of declarations. -/
def globalsIn (decls : List Declaration) : List String :=
  globalNames.filter fun name => (decls.flatMap (·.typeExprs.flatMap namesIn)).contains name

example : namesIn "Promise<\x7b Record?: 'FormData'; b: MyRecord[] \x7d | null>"
    = ["Promise", "MyRecord", "null"] := by
  decide +kernel

/-- What the contributions to a file need. -/
def neededIn (file : String) (cs : List Contribution) : List Import :=
  (contributionsTo file cs).flatMap (·.needs)

namespace TypeScript.SourceFile

/-- The types that a file deals with: those of the language that occur in it, those that it
    declares, and those that the contributions to it need. -/
def types (f : SourceFile) (path : String) (cs : List Contribution) : List ResolvedType :=
  (globalsIn f.declarations).map (⟨·, .global⟩)
    ++ f.declarations.map (⟨·.name, .file path⟩) ++ (neededIn path cs).map Import.resolved

/-- Whether a name in a file stands for a type: whatever the file imports or declares under
    that name, and whatever the language means by it, is that type. -/
structure Denotes (f : SourceFile) (path : String) (t : ResolvedType) : Prop where
  imported : ∀ module, f.imports.Has module t.name → t.home.module? path = some module
  declared : ∀ decl ∈ f.declarations, decl.name = t.name → t.home = .file path
  global : t.name ∈ globalsIn f.declarations → t.home = .global

/-- A file in which no name is taken for another: every imported name comes from one module
    and is not declared, and the names of the language are neither declared nor imported. -/
structure FreeOfCapture (f : SourceFile) : Prop where
  modules : ∀ name module module', f.imports.Has module name → f.imports.Has module' name →
    module = module'
  declared : ∀ name module, f.imports.Has module name → ∀ decl ∈ f.declarations, decl.name ≠ name
  globals : ∀ name ∈ globalsIn f.declarations,
    (∀ decl ∈ f.declarations, decl.name ≠ name) ∧ ∀ module, ¬f.imports.Has module name

end TypeScript.SourceFile

/-- Types of which no two that are different have the same name. -/
def NamedApart (types : List ResolvedType) : Prop :=
  ∀ t ∈ types, ∀ t' ∈ types, t.name = t'.name → t.home = t'.home

instance (types : List ResolvedType) : Decidable (NamedApart types) :=
  inferInstanceAs (Decidable (∀ t ∈ types, ∀ t' ∈ types, t.name = t'.name → t.home = t'.home))

/-! ## Homes and modules -/

/-- A home that a file at a path may meet with. -/
def Home.Known (path : String) : Home → Prop
  | .global => True
  | .file target => target = path ∨ ∃ directory, target = FilePath.modelFile directory
  | .package module => module ∈ runtimeModules

theorem Home.module?_file_eq_some_iff {source target module : String} :
    (Home.file target).module? source = some module ↔
      target ≠ source ∧ FilePath.relativeModule source target = module := by
  show (if target = source then none else some (FilePath.relativeModule source target))
    = some module ↔ _
  by_cases h : target = source <;> simp [h]

theorem Home.module?_eq_none_iff {source : String} {h : Home} :
    h.module? source = none ↔ h = .global ∨ h = .file source := by
  cases h with
  | global => simp [module?]
  | file path => simp [module?]
  | package module => simp [module?]

/-- A module of the runtime is not relative to a file. -/
theorem relativeModule_not_mem_runtimeModules (source target : String) :
    FilePath.relativeModule source target ∉ runtimeModules := by
  intro hmem
  have hno : ∀ module ∈ runtimeModules, Text.startsWith "." module = false := by decide
  have hdot := FilePath.startsWith_relativeModule source target
  rw [hno _ hmem] at hdot
  cases hdot

/-- The module by which a file imports a type tells the home of the type. -/
theorem Home.module?_inj {path module : String} (hpath : FilePath.IsNormal path) {h h' : Home}
    (hknown : h.Known path) (hknown' : h'.Known path) (hm : h.module? path = some module)
    (hm' : h'.module? path = some module) : h = h' := by
  cases h with
  | global => cases hm
  | package m =>
    cases hm
    cases h' with
    | global => cases hm'
    | package m' =>
      cases hm'
      rfl
    | file target' =>
      obtain ⟨-, rfl⟩ := module?_file_eq_some_iff.1 hm'
      exact absurd hknown (relativeModule_not_mem_runtimeModules path target')
  | file target =>
    obtain ⟨hne, hmodule⟩ := module?_file_eq_some_iff.1 hm
    cases h' with
    | global => cases hm'
    | package m' =>
      cases hm'
      rw [← hmodule] at hknown'
      exact absurd hknown' (relativeModule_not_mem_runtimeModules path target)
    | file target' =>
      obtain ⟨hne', hmodule'⟩ := module?_file_eq_some_iff.1 hm'
      obtain ⟨directory, rfl⟩ := hknown.resolve_left hne
      obtain ⟨directory', rfl⟩ := hknown'.resolve_left hne'
      rw [FilePath.relativeModule_inj hpath (hmodule.trans hmodule'.symm)]

/-- What is imported for a need is the type that it means. -/
theorem TypeScript.Import.target?_eq_some_iff {i : Import} {path module name : String} :
    i.target? path = some (module, name) ↔
      i.resolved.home.module? path = some module ∧ i.resolved.name = name := by
  cases i with
  | model m =>
    unfold target? resolved
    by_cases hext : m.isExternal = true
    · simp [hext, Home.module?]
    · by_cases hfile : m.file = path <;> simp [hext, hfile, Home.module?]
  | name module' exported => simp [target?, resolved, Home.module?]

/-- A settled path imports as its normal form does. -/
theorem TypeScript.Import.target?_normalize {path : String} (h : FilePath.IsSettled path)
    (i : Import) : i.target? path = i.target? (FilePath.normalize path) := by
  cases i with
  | name module exported => rfl
  | model m =>
    have hfile : (m.file = path) = (m.file = FilePath.normalize path) :=
      propext (FilePath.modelFile_eq_iff h m.path)
    have hmodule : FilePath.relativeModule path m.file
        = FilePath.relativeModule (FilePath.normalize path) m.file :=
      FilePath.relativeModule_normalize h m.path
    simp only [target?, hfile, hmodule]

/-! ## The types of a file -/

section Files

variable {d : Document} {cs : List Contribution} {path : String} {f : SourceFile}

theorem mem_types {t : ResolvedType} :
    t ∈ f.types path cs ↔
      (t.name ∈ globalsIn f.declarations ∧ t.home = .global) ∨
      (∃ decl ∈ f.declarations, decl.name = t.name ∧ t.home = .file path) ∨
      ∃ i ∈ neededIn path cs, i.resolved = t := by
  obtain ⟨name, home⟩ := t
  simp only [SourceFile.types, List.mem_append, List.mem_map, ResolvedType.mk.injEq, or_assoc]
  constructor
  · rintro (⟨n, hn, rfl, rfl⟩ | ⟨decl, hdecl, rfl, rfl⟩ | hi)
    · exact .inl ⟨hn, rfl⟩
    · exact .inr (.inl ⟨decl, hdecl, rfl, rfl⟩)
    · exact .inr (.inr hi)
  · rintro (⟨hn, rfl⟩ | ⟨decl, hdecl, rfl, rfl⟩ | hi)
    · exact .inl ⟨name, hn, rfl, rfl⟩
    · exact .inr (.inl ⟨decl, hdecl, rfl, rfl⟩)
    · exact .inr (.inr hi)

/-- A type of the language occurs in the file. -/
theorem mem_globalsIn_of_mem_types {t : ResolvedType} (ht : t ∈ f.types path cs)
    (hglobal : t.home = .global) : t.name ∈ globalsIn f.declarations := by
  rcases mem_types.1 ht with ⟨hname, -⟩ | ⟨decl, -, -, hfile⟩ | ⟨i, -, rfl⟩
  · exact hname
  · rw [hfile] at hglobal
    cases hglobal
  · cases i with
    | name module exported => cases hglobal
    | model m =>
      unfold Import.resolved at hglobal
      dsimp only at hglobal
      split at hglobal <;> cases hglobal

theorem isNormal_of_get? (h : (Project.ofContributions cs).get? path = some f) :
    FilePath.IsNormal path := by
  obtain ⟨hne, -⟩ := Project.get?_ofContributions.1 h
  obtain ⟨c, hc⟩ := List.exists_mem_of_ne_nil _ hne
  rw [← (mem_contributionsTo.1 hc).2]
  exact FilePath.isNormal_normalize

section Grounded

variable (hgrounded : ∀ c ∈ cs, ∀ i ∈ c.needs, i.Grounded d)
include hgrounded

/-- Every type that a file deals with has a home that the file knows. -/
theorem known_of_mem_types {t : ResolvedType} (ht : t ∈ f.types path cs) : t.home.Known path := by
  rcases mem_types.1 ht with ⟨-, hglobal⟩ | ⟨decl, -, -, hfile⟩ | ⟨i, hi, rfl⟩
  · rw [hglobal]
    exact trivial
  · rw [hfile]
    exact .inl rfl
  · obtain ⟨c, hc, hi⟩ := List.mem_flatMap.1 hi
    have hgrounded := hgrounded c (mem_contributionsTo.1 hc).1 i hi
    cases i with
    | name module exported => exact hgrounded.1
    | model m =>
      obtain ⟨key, s, -, rfl⟩ := hgrounded
      unfold Import.resolved
      dsimp only
      split
      · next hext =>
        show (ModelName.ofReference key).path ∈ runtimeModules
        rw [ModelName.path_of_isExternal hext]
        exact List.mem_cons_self
      · exact .inr ⟨_, rfl⟩

end Grounded

section Settled

variable (hsettled : ∀ c ∈ cs, FilePath.IsSettled c.path)
  (hf : (Project.ofContributions cs).get? path = some f)
include hsettled hf

/-- A file imports what its contributions need, as seen from the file itself. -/
theorem has_iff_needed {module name : String} :
    f.imports.Has module name ↔
      ∃ i ∈ neededIn path cs, i.resolved.home.module? path = some module ∧
        i.resolved.name = name := by
  rw [Project.has_of_get? hf]
  constructor
  · rintro ⟨c, hc, i, hi, htarget⟩
    obtain ⟨hmem, rfl⟩ := mem_contributionsTo.1 hc
    rw [Import.target?_normalize (hsettled c hmem)] at htarget
    exact ⟨i, List.mem_flatMap.2 ⟨c, hc, hi⟩, Import.target?_eq_some_iff.1 htarget⟩
  · rintro ⟨i, hneeded, htype⟩
    obtain ⟨c, hc, hi⟩ := List.mem_flatMap.1 hneeded
    obtain ⟨hmem, rfl⟩ := mem_contributionsTo.1 hc
    refine ⟨c, hc, i, hi, ?_⟩
    rw [Import.target?_normalize (hsettled c hmem)]
    exact Import.target?_eq_some_iff.2 htype

/-- A file imports the types that it deals with and that are not there already, each under
    its own name, and nothing else. -/
theorem has_iff_types {module name : String} :
    f.imports.Has module name ↔
      ∃ t ∈ f.types path cs, t.home.module? path = some module ∧ t.name = name := by
  rw [has_iff_needed hsettled hf]
  constructor
  · rintro ⟨i, hi, htype⟩
    exact ⟨i.resolved, mem_types.2 (.inr (.inr ⟨i, hi, rfl⟩)), htype⟩
  · rintro ⟨t, ht, hmodule, hname⟩
    rcases mem_types.1 ht with ⟨-, hglobal⟩ | ⟨decl, -, -, hfile⟩ | ⟨i, hi, rfl⟩
    · rw [hglobal] at hmodule
      cases hmodule
    · rw [hfile] at hmodule
      exact absurd rfl (Home.module?_file_eq_some_iff.1 hmodule).1
    · exact ⟨i, hi, hmodule, hname⟩

/-! ## When names denote -/

/-- Where different types have different names, every name stands for its type. -/
theorem denotes_of_namedApart (hapart : NamedApart (f.types path cs)) {t : ResolvedType}
    (ht : t ∈ f.types path cs) : f.Denotes path t where
  imported module hhas := by
    obtain ⟨t', ht', hmodule, hname⟩ := (has_iff_types hsettled hf).1 hhas
    rw [hapart t ht t' ht' hname.symm]
    exact hmodule
  declared decl hdecl hname := by
    have hown : ⟨decl.name, .file path⟩ ∈ f.types path cs :=
      mem_types.2 (.inr (.inl ⟨decl, hdecl, rfl, rfl⟩))
    exact hapart t ht _ hown hname.symm
  global hglobal := by
    have hlanguage : ⟨t.name, .global⟩ ∈ f.types path cs := mem_types.2 (.inl ⟨hglobal, rfl⟩)
    exact hapart t ht _ hlanguage rfl

/-- Where every name stands for its type, different types have different names: of two types
    with one name, either one is imported, or both are there already. -/
theorem namedApart_of_denotes (hgrounded : ∀ c ∈ cs, ∀ i ∈ c.needs, i.Grounded d)
    (hdenotes : ∀ t ∈ f.types path cs, f.Denotes path t) : NamedApart (f.types path cs) := by
  have himported {t t' : ResolvedType} (ht : t ∈ f.types path cs) (ht' : t' ∈ f.types path cs)
      (hname : t.name = t'.name) {module : String} (hmodule : t.home.module? path = some module) :
      t.home = t'.home := by
    have hhas : f.imports.Has module t'.name :=
      (has_iff_types hsettled hf).2 ⟨t, ht, hmodule, hname⟩
    exact Home.module?_inj (isNormal_of_get? hf) (known_of_mem_types hgrounded ht)
      (known_of_mem_types hgrounded ht') hmodule ((hdenotes t' ht').imported module hhas)
  have hlanguage {t t' : ResolvedType} (ht : t ∈ f.types path cs) (ht' : t' ∈ f.types path cs)
      (hname : t.name = t'.name) (hglobal : t.home = .global) : t'.home = .global := by
    apply (hdenotes t' ht').global
    rw [← hname]
    exact mem_globalsIn_of_mem_types ht hglobal
  intro t ht t' ht' hname
  cases hm : t.home.module? path with
  | some module => exact himported ht ht' hname hm
  | none =>
    cases hm' : t'.home.module? path with
    | some module => exact (himported ht' ht hname.symm hm').symm
    | none =>
      -- neither is imported: each is of the language or of this file
      rcases Home.module?_eq_none_iff.1 hm with hglobal | hown
      · rw [hglobal, hlanguage ht ht' hname hglobal]
      · rcases Home.module?_eq_none_iff.1 hm' with hglobal | hown'
        · rw [hglobal, hlanguage ht' ht hname.symm hglobal]
        · rw [hown, hown']

/-- Where different types have different names, no name is taken for another. -/
theorem freeOfCapture_of_namedApart (hapart : NamedApart (f.types path cs)) : f.FreeOfCapture where
  modules name module module' hhas hhas' := by
    obtain ⟨t, ht, hmodule, rfl⟩ := (has_iff_types hsettled hf).1 hhas
    have hmodule' := (denotes_of_namedApart hsettled hf hapart ht).imported module' hhas'
    rw [hmodule] at hmodule'
    exact Option.some.inj hmodule'
  declared name module hhas decl hdecl hname := by
    obtain ⟨t, ht, hmodule, rfl⟩ := (has_iff_types hsettled hf).1 hhas
    have hown := (denotes_of_namedApart hsettled hf hapart ht).declared decl hdecl hname
    rw [hown] at hmodule
    exact absurd rfl (Home.module?_file_eq_some_iff.1 hmodule).1
  globals name hname := by
    constructor
    · rintro decl hdecl rfl
      have hown : ⟨decl.name, .file path⟩ ∈ f.types path cs :=
        mem_types.2 (.inr (.inl ⟨decl, hdecl, rfl, rfl⟩))
      cases (denotes_of_namedApart hsettled hf hapart hown).global hname
    · intro module hhas
      obtain ⟨t, ht, hmodule, rfl⟩ := (has_iff_types hsettled hf).1 hhas
      rw [(denotes_of_namedApart hsettled hf hapart ht).global hname] at hmodule
      cases hmodule

end Settled

end Files

/-- In a file that is generated, all names stand for their types just when no two types that
    the file deals with have the same name, and then no name in it is taken for another.
    Types from elsewhere are always imported under their own names. -/
theorem names_denote_iff_apart {d : Document} {config : Configuration} {g : Generation}
    (h : generation d d.service config = .ok g) {path : String} {f : SourceFile}
    (hf : g.project.get? path = some f) :
    let types := f.types path (contributionsOf (pieces d d.service config))
    (∀ module name, f.imports.Has module name ↔
        ∃ t ∈ types, t.home.module? path = some module ∧ t.name = name) ∧
      (NamedApart types ↔ ∀ t ∈ types, f.Denotes path t) ∧
      (NamedApart types → f.FreeOfCapture) := by
  have hsettled : ∀ c ∈ contributionsOf (pieces d d.service config), FilePath.IsSettled c.path :=
    fun c hc => isSettled_of_mem_contributions hc
  have hgrounded : ∀ c ∈ contributionsOf (pieces d d.service config),
      ∀ i ∈ c.needs, i.Grounded d :=
    fun c hc => grounded_of_mem_contributions hc
  rw [generation_eq_ok h, Generation.project_ofPieces] at hf
  intro types
  refine ⟨fun module name => has_iff_types hsettled hf, ?_, ?_⟩
  · constructor
    · exact fun hapart t ht => denotes_of_namedApart hsettled hf hapart ht
    · exact namedApart_of_denotes hsettled hf hgrounded
  · exact freeOfCapture_of_namedApart hsettled hf

/-- Two schemas in two directories, the first of which refers to the second. -/
def linkedDocument : Document :=
  { components.schemas := .ofList
      [("a.A", .referenceTo "b.B"), ("b.B", { type := some (.single "string") })] }

theorem names_denote_iff_apart_linked :
    ∃ g f, generation linkedDocument linkedDocument.service {} = .ok g ∧
      g.project.get? "a/types.ts" = some f ∧ f.imports.Has "../b/types" "B" ∧ f.FreeOfCapture := by
  have hrun : (generation linkedDocument linkedDocument.service {}).toOption.any (fun g =>
      (g.project.get? "a/types.ts").any fun f => f.imports.Has "../b/types" "B" ∧
        NamedApart (f.types "a/types.ts"
          (contributionsOf (pieces linkedDocument linkedDocument.service {})))) = true := by
    decide +kernel
  obtain ⟨g, hg, hfile⟩ := exists_ok_of_any hrun
  obtain ⟨f, hf, hboth⟩ := (Option.any_eq_true _ _).1 hfile
  obtain ⟨hhas, hapart⟩ := of_decide_eq_true hboth
  exact ⟨g, f, hg, hf, hhas, (names_denote_iff_apart hg hf).2.2 hapart⟩

/-! ## Names that are taken for others -/

/-- A schema that refers to two models of one name, and to one of its own name, beside a
    schema that is called after a type of the language. -/
def capturedDocument : Document :=
  let text : Schema := { type := some (.single "string") }
  let properties : List (String × Schema) :=
    [("a", .referenceTo "y.A"), ("b", .referenceTo "y.B"), ("c", .referenceTo "z.B"),
     ("m", { additional := some (.allowed true) })]
  { components.schemas := .ofList
      [("x.A", { propertyEntries := some properties }), ("x.Record", text), ("y.A", text),
       ("y.B", text), ("z.B", text)] }

/-- A name may be imported from two modules, or be imported and declared, or be declared
    although it means a type of the language, all in one file of a generation that succeeds. -/
theorem exists_captured_names :
    capturedDocument.service.check capturedDocument = .ok () ∧
      ∃ g f, generation capturedDocument capturedDocument.service {} = .ok g ∧
        g.project.get? "x/types.ts" = some f ∧
        (f.imports.Has "../y/types" "B" ∧ f.imports.Has "../z/types" "B") ∧
        (f.imports.Has "../y/types" "A" ∧ ∃ decl ∈ f.declarations, decl.name = "A") ∧
        "Record" ∈ globalsIn f.declarations ∧ ∃ decl ∈ f.declarations, decl.name = "Record" := by
  have hrun : (generation capturedDocument capturedDocument.service {}).toOption.any (fun g =>
      (g.project.get? "x/types.ts").any fun f =>
        (f.imports.Has "../y/types" "B" ∧ f.imports.Has "../z/types" "B") ∧
        (f.imports.Has "../y/types" "A" ∧ ∃ decl ∈ f.declarations, decl.name = "A") ∧
        "Record" ∈ globalsIn f.declarations ∧ ∃ decl ∈ f.declarations, decl.name = "Record")
          = true := by
    decide +kernel
  obtain ⟨g, hg, hfile⟩ := exists_ok_of_any hrun
  obtain ⟨f, hf, hcaptured⟩ := (Option.any_eq_true _ _).1 hfile
  exact ⟨by decide +kernel, g, f, hg, hf, of_decide_eq_true hcaptured⟩

end ClientGen
