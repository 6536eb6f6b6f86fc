/-
  ClientGen.Proofs.DeclaredName

  When declared names are identifiers.  Every declaration is called after the key of a
  schema, the name of an aggregate or the name of a tag.  Letter case drops what is no
  letter or digit, but nothing keeps a digit from the front of a name, and a key may
  leave nothing of a name at all; `declared_isIdentifier_iff` says that this is all
  that can be wrong with a declared name.
-/
import ClientGen.Proofs.Assembly
import ClientGen.Proofs.Lifting
import ClientGen.Proofs.Words

namespace ClientGen

open TypeScript

/-! ## Names out of texts -/

namespace Text

/-- Whether the first letter or digit of a text, if there is one, is a letter. -/
def LeadsNoDigit (s : String) : Prop := (lead? s).all Char.isAlpha = true

instance (s : String) : Decidable (LeadsNoDigit s) := inferInstanceAs (Decidable (_ = true))

/-- Upper case does not matter for what may open an identifier. -/
theorem all_opensIdentifier_lead? (s : String) :
    ((lead? s).map Char.toUpper).all opensIdentifier = (lead? s).all Char.isAlpha := by
  cases hlead : lead? s with
  | none => rfl
  | some c =>
    have hc := isAlphanum_toUpper (isAlphanum_of_lead? hlead)
    rw [Option.map_some, Option.all_some, Option.all_some, opensIdentifier_of_isAlphanum hc,
      Char.isAlpha_toUpper_eq_isAlpha]

theorem isIdentifier_pascalCase_append {s ending : String} (h : isIdentifier ending = true) :
    isIdentifier (pascalCase s ++ ending) = true ↔ LeadsNoDigit s := by
  have hcontinues : ∀ c ∈ (pascalCase s).toList, continuesIdentifier c = true :=
    fun c hc => continuesIdentifier_of_isAlphanum (isAlphanum_of_mem_pascalCase c hc)
  rw [isIdentifier_append_iff hcontinues h, head?_pascalCase, all_opensIdentifier_lead?]
  rfl

theorem isIdentifier_upperSnakeCase_append {s ending : String} (h : isIdentifier ending = true) :
    isIdentifier (upperSnakeCase s ++ ending) = true ↔ LeadsNoDigit s := by
  have hcontinues : ∀ c ∈ (upperSnakeCase s).toList, continuesIdentifier c = true := by
    intro c hc
    rcases isAlphanum_of_mem_upperSnakeCase c hc with hc | rfl
    · exact continuesIdentifier_of_isAlphanum hc
    · decide
  rw [isIdentifier_append_iff hcontinues h, head?_upperSnakeCase, all_opensIdentifier_lead?]
  rfl

end Text

namespace ModelName

/-- Whether a key names its model: a segment of it begins a name, or its first letter or digit is a
    letter. -/
def Names (key : String) : Prop :=
  (Text.splitOn (· == '.') key).any opensName = true ∨ (Text.lead? key).any Char.isAlpha = true

instance (key : String) : Decidable (Names key) := inferInstanceAs (Decidable (_ ∨ _))

theorem isIdentifier_name_ofKey {key : String} (h : isReserved key = false) :
    isIdentifier (ofKey key).name = true ↔ Names key := by
  have hopens : (ofKey key).name.toList.head?.any opensIdentifier
      = (ofKey key).name.toList.head?.any Char.isAlpha := by
    cases hhead : (ofKey key).name.toList.head? with
    | none => rfl
    | some c =>
      have hc := isAlphanum_of_mem_name_ofKey c (List.mem_of_mem_head? hhead)
      rw [Option.any_some, Option.any_some, opensIdentifier_of_isAlphanum hc]
  rw [isIdentifier_iff, hopens, any_isAlpha_head?_ofKey h, Bool.or_eq_true]
  exact and_iff_left fun c hc =>
    continuesIdentifier_of_isAlphanum (isAlphanum_of_mem_name_ofKey c hc)

/-- The names of lifted interfaces go on from that of the model. -/
theorem isIdentifier_liftedAt {m : ModelName} (h : isIdentifier m.name = true)
    (path : List String) : isIdentifier (m.liftedAt path).name = true := by
  induction path generalizing m with
  | nil => exact h
  | cons property rest ih =>
    have hlifted : isIdentifier (m.lifted property).name = true :=
      isIdentifier_append h fun c hc =>
        continuesIdentifier_of_isAlphanum (Text.isAlphanum_of_mem_pascalCase c hc)
    exact ih hlifted

end ModelName

/-! ## Names in contributions -/

/-- Whether all that a contribution declares is called by identifiers. -/
def Contribution.Legal (c : Contribution) : Prop :=
  ∀ decl ∈ c.decls, isIdentifier decl.name = true

section Contributions

variable {d : Document} {config : Configuration}

/-- A model and the interfaces lifted out of it are named well when the model is. -/
theorem legal_modelContribution {entry : String × Schema} {decls : List Declaration}
    (hentry : entry ∈ d.modelSchemas) (h : (modelDecls d entry.1 entry.2).result = .ok decls) :
    (modelContribution d entry decls).Legal ↔ ModelName.Names entry.1 := by
  have hreserved : ModelName.isReserved entry.1 = false := by
    simpa using (List.mem_filter.1 hentry).2
  rw [← ModelName.isIdentifier_name_ofKey hreserved]
  constructor
  · -- the model itself is among the declarations
    intro hlegal
    obtain ⟨decl, hdecl, hname⟩ := exists_model_of_modelDecls h
    rw [← hname]
    exact hlegal decl hdecl
  · intro hname decl hdecl
    obtain ⟨paths, hlifts⟩ := modelDecls_lifts decls h
    -- what is declared is lifted out of the model or the model
    have hmem := hlifts.names_perm.mem_iff.1 (List.mem_map_of_mem hdecl)
    rcases List.mem_append.1 hmem with hmem | hmem
    · obtain ⟨path, -, hpath⟩ := List.mem_map.1 hmem
      rw [← hpath]
      exact ModelName.isIdentifier_liftedAt hname path
    · rw [List.mem_singleton.1 hmem]
      exact hname

/-- A pair of clients keeps the names with which it started. -/
theorem ClientPair.names_addAll {α : Type} (label : α → String)
    (build : ClientPair → α → Importing (MethodDecl × Option MethodDecl)) (items : List α)
    (c : ClientPair) :
    (addAll label build items c).plain.name = c.plain.name ∧
      (addAll label build items c).stream.name = c.stream.name := by
  rw [plain_addAll, stream_addAll]
  exact ⟨rfl, rfl⟩

theorem names_queryClients (d : Document) (config : Configuration) (a : Aggregate) :
    (queryClients d config a).plain.name = a.start ++ "QueryClient" ∧
      (queryClients d config a).stream.name = a.start ++ "StreamQueryClient" :=
  ClientPair.names_addAll ResolvedOperation.identifier
    (queryMethods d (config.ignoredPathParameters a.tag.name)) a.queries _

theorem names_commandClients (d : Document) (config : Configuration) (a : Aggregate) :
    (commandClients d config a).plain.name = a.start ++ "CommandClient" ∧
      (commandClients d config a).stream.name = a.start ++ "StreamCommandClient" :=
  ClientPair.names_addAll Command.schemaKey
    (commandMethods d a.attribution (config.ignoredPathParameters a.tag.name)) a.commands _

theorem names_apiClients (d : Document) (config : Configuration) (t : ApiTag) :
    (apiClients d config t).plain.name = t.classStart ++ "ApiClient" ∧
      (apiClients d config t).stream.name = t.classStart ++ "StreamApiClient" :=
  ClientPair.names_addAll ResolvedOperation.identifier
    (apiMethods d (config.ignoredPathParameters t.tag.name)) t.operations _

theorem isIdentifier_start (a : Aggregate) {ending : String} (h : isIdentifier ending = true) :
    isIdentifier (a.start ++ ending) = true ↔ Text.LeadsNoDigit a.name :=
  Text.isIdentifier_pascalCase_append h

/-- What is declared for the queries of an aggregate is called after it. -/
theorem legal_queryContribution {a : Aggregate} {types : List Declaration}
    (h : (aggregateTypes d a).result = .ok types) :
    (queryContribution d config a types).Legal ↔ Text.LeadsNoDigit a.name := by
  -- whatever the types are made of, their names are fixed endings
  obtain ⟨state, -, h⟩ := Traced.result_bind_eq_ok_iff.1 h
  obtain ⟨fields, -, h⟩ := Traced.result_bind_eq_ok_iff.1 h
  obtain ⟨events, -, h⟩ := Traced.result_bind_eq_ok_iff.1 h
  cases h
  obtain ⟨hplain, hstream⟩ := names_queryClients d config a
  have hoptions : isIdentifier (queryOptions d a).name = true ↔ Text.LeadsNoDigit a.name :=
    Text.isIdentifier_upperSnakeCase_append (by decide)
  simp only [Contribution.Legal, queryContribution, List.forall_mem_append, List.forall_mem_cons,
    Declaration.name, hplain, hstream, hoptions]
  rw [isIdentifier_start a (by decide), isIdentifier_start a (by decide),
    isIdentifier_start a (by decide), isIdentifier_start a (by decide),
    isIdentifier_start a (by decide)]
  simp

theorem legal_commandContribution (a : Aggregate) :
    (commandContribution d config a).Legal ↔ Text.LeadsNoDigit a.name := by
  obtain ⟨hplain, hstream⟩ := names_commandClients d config a
  simp only [Contribution.Legal, commandContribution, List.forall_mem_cons, Declaration.name,
    hplain, hstream]
  rw [isIdentifier_start a (by decide), isIdentifier_start a (by decide)]
  simp

/-- The plain client of a tag is declared in any case, and the other one is called alike. -/
theorem legal_apiContribution (t : ApiTag) :
    (apiContribution d config t).Legal ↔ Text.LeadsNoDigit t.tag.name := by
  have hstart {ending : String} (h : isIdentifier ending = true) :
      isIdentifier (t.classStart ++ ending) = true ↔ Text.LeadsNoDigit t.tag.name :=
    Text.isIdentifier_pascalCase_append h
  obtain ⟨hplain, hstream⟩ := names_apiClients d config t
  simp only [Contribution.Legal, apiContribution, ClientPair.apiDecls]
  split
  · simp only [List.forall_mem_cons, Declaration.name, hplain]
    rw [hstart (by decide)]
    simp
  · simp only [List.forall_mem_cons, Declaration.name, hplain, hstream]
    rw [hstart (by decide), hstart (by decide)]
    simp

end Contributions

/-! ## Names in generated files -/

/-- Whether a document gives good names: the key of each schema that can be declared names its
    model, and no name of an aggregate or a tag leads with a digit. -/
structure Document.NamesWell (d : Document) : Prop where
  models : ∀ entry ∈ d.modelSchemas,
    (∃ decls, (modelDecls d entry.1 entry.2).result = .ok decls) → ModelName.Names entry.1
  aggregates : ∀ a ∈ d.service.aggregates, Text.LeadsNoDigit a.name
  tags : ∀ t ∈ d.service.apiTags.values, Text.LeadsNoDigit t.tag.name

theorem legal_contributions_iff {d : Document} {config : Configuration} :
    (∀ c ∈ contributionsOf (pieces d d.service config), c.Legal) ↔ d.NamesWell := by
  constructor
  · intro h
    refine ⟨fun entry hentry => ?_, fun a ha => ?_, fun t ht => ?_⟩
    · rintro ⟨decls, hdecls⟩
      exact (legal_modelContribution hentry hdecls).1 (h _ (modelContribution_mem hentry hdecls))
    · exact (legal_commandContribution a).1 (h _ (commandContribution_mem config ha))
    · exact (legal_apiContribution t).1 (h _ (apiContribution_mem config ht))
  · intro h c hc
    rcases contribution_cases hc with
      ⟨entry, hentry, decls, hdecls, rfl⟩ | ⟨a, ha, types, htypes, rfl⟩ | ⟨a, ha, rfl⟩ | ⟨t, ht, rfl⟩
    · exact (legal_modelContribution hentry hdecls).2 (h.models entry hentry ⟨decls, hdecls⟩)
    · exact (legal_queryContribution htypes).2 (h.aggregates a ha)
    · exact (legal_commandContribution a).2 (h.aggregates a ha)
    · exact (legal_apiContribution t).2 (h.tags t ht)

/-- When generation succeeds, everything that is declared in a generated file is called by an
    identifier just when the keys, aggregates and tags of the document give such names. -/
theorem declared_isIdentifier_iff {d : Document} {config : Configuration} {g : Generation}
    (h : generation d d.service config = .ok g) :
    (∀ path f, g.project.get? path = some f → ∀ decl ∈ f.declarations,
        isIdentifier decl.name = true) ↔ d.NamesWell := by
  rw [generation_eq_ok h, Generation.project_ofPieces, ← legal_contributions_iff]
  constructor
  · intro hfiles c hc decl hdecl
    obtain ⟨f, hf, hdecls⟩ := Project.exists_file_of_mem hc
    exact hfiles c.file f hf decl (hdecls decl hdecl)
  · intro hlegal path f hf decl hdecl
    rw [Project.declarations_of_get? hf] at hdecl
    obtain ⟨c, hc, hdecl⟩ := List.mem_flatMap.1 hdecl
    exact hlegal c (mem_contributionsTo.1 hc).1 decl hdecl

/-- An order with an address of its own, the queries for it, and a tag besides. -/
def addressedDocument : Document :=
  let address : Schema :=
    { propertyEntries := some [("street", { type := some (.single "string") })] }
  let order : Schema := { propertyEntries := some [("shipTo", address)] }
  { paths := .ofList
      [("/order", { operation? := fun
          | .get => some { tags := ["shop.order"], responses := .ofList [] }
          | _ => none }),
       ("/health", { operation? := fun
          | .get => some { tags := ["health"], responses := .ofList [] }
          | _ => none })]
    components.schemas := .ofList [("shop.2.Order", order)] }

/-- A digit that only leads a directory does no harm. -/
theorem declared_isIdentifier_iff_addressed :
    ∃ g f, generation addressedDocument addressedDocument.service {} = .ok g ∧
      g.project.get? "shop/2/types.ts" = some f ∧
      f.declarations.map (·.name) = ["OrderShipTo", "Order"] ∧
      ∀ path f, g.project.get? path = some f → ∀ decl ∈ f.declarations,
        isIdentifier decl.name = true := by
  have hrun : (generation addressedDocument addressedDocument.service {}).toOption.any (fun g =>
      (g.project.get? "shop/2/types.ts").any fun f =>
        f.declarations.map (·.name) = ["OrderShipTo", "Order"]) = true := by
    decide +kernel
  obtain ⟨g, hg, hfile⟩ := exists_ok_of_any hrun
  obtain ⟨f, hf, hnames⟩ := (Option.any_eq_true _ _).1 hfile
  have hmodels : ∀ entry ∈ addressedDocument.modelSchemas, ModelName.Names entry.1 := by
    decide +kernel
  have hwell : addressedDocument.NamesWell :=
    ⟨fun entry hentry _ => hmodels entry hentry, by decide +kernel, by decide +kernel⟩
  exact ⟨g, f, hg, hf, of_decide_eq_true hnames, (declared_isIdentifier_iff hg).2 hwell⟩

/-- A schema whose key has no upper-case letter and leads with a digit. -/
def digitDocument : Document :=
  { components.schemas := .ofList [("2fa.setup", { type := some (.single "string") })] }

/-- The alias of such a schema is called by no identifier. -/
theorem exists_illegal_name :
    ∃ g f decl, generation digitDocument digitDocument.service {} = .ok g ∧
      g.project.get? "types.ts" = some f ∧ decl ∈ f.declarations ∧ decl.name = "2faSetup" ∧
      isIdentifier decl.name = false := by
  have hrun : (generation digitDocument digitDocument.service {}).toOption.any (fun g =>
      (g.project.get? "types.ts").any fun f =>
        f.declarations.any fun decl => decl.name = "2faSetup") = true := by
    decide +kernel
  obtain ⟨g, hg, hfile⟩ := exists_ok_of_any hrun
  obtain ⟨f, hf, hdecl⟩ := (Option.any_eq_true _ _).1 hfile
  obtain ⟨decl, hdecl, hname⟩ := List.any_eq_true.1 hdecl
  have hname : decl.name = "2faSetup" := of_decide_eq_true hname
  refine ⟨g, f, decl, hg, hf, hdecl, hname, ?_⟩
  rw [hname]
  decide

end ClientGen
