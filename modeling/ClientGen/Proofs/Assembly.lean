/-
  ClientGen.Proofs.Assembly

  Generation as the sum of its pieces.  Each schema, each aggregate and each tag
  adds one piece of its own: at most one contribution to a file, and records and
  counts for the report.  `generation_eq` shows that generation assembles these
  pieces, and that nothing but a claim to a name can stop it.
-/
import ClientGen.Program.Job
import ClientGen.Proofs.ClientPair
import ClientGen.Proofs.Contribution
import ClientGen.Proofs.FilePath
import ClientGen.Proofs.Service
import Mathlib.Algebra.GroupWithZero.Nat

namespace ClientGen

open TypeScript

/-! ## Pieces -/

/-- What one schema, or the clients of one aggregate or tag, add to a generation. -/
structure Piece where
  contribution? : Option Contribution
  report : Report

/-- The report with the counts and records of another after its own. -/
def Report.add (r other : Report) : Report :=
  { models := r.models + other.models
    queryClients := r.queryClients + other.queryClients
    commandClients := r.commandClients + other.commandClients
    apiClients := r.apiClients + other.apiClients
    skipped := r.skipped ++ other.skipped }

/-- The generation with one more piece. -/
def Generation.addPiece (g : Generation) (p : Piece) : Generation :=
  { project := p.contribution?.elim g.project g.project.contribute
    report := g.report.add p.report }

/-- The generation that pieces make up. -/
def Generation.ofPieces (ps : List Piece) : Generation := ps.foldl addPiece {}

/-- The contributions of pieces. -/
def contributionsOf (ps : List Piece) : List Contribution := ps.filterMap (·.contribution?)

/-- The contribution of a schema that is declared as `decls`. -/
def modelContribution (d : Document) (entry : String × Schema) (decls : List Declaration) :
    Contribution :=
  { path := (ModelName.ofKey entry.1).file
    needs := importsOf (modelDecls d entry.1 entry.2).notes
    decls }

theorem modelContribution_path (d : Document) (entry : String × Schema)
    (decls : List Declaration) :
    (modelContribution d entry decls).path = (ModelName.ofKey entry.1).file := by
  rw [modelContribution]

@[simp] theorem ModelName.normalize_file (m : ModelName) : FilePath.normalize m.file = m.file :=
  FilePath.normalize_modelFile m.path

/-- What a schema contributes goes to the file of its model. -/
theorem modelContribution_file (d : Document) (entry : String × Schema)
    (decls : List Declaration) :
    (modelContribution d entry decls).file = (ModelName.ofKey entry.1).file := by
  rw [Contribution.file, modelContribution_path, ModelName.normalize_file]

/-- The piece of a schema. -/
def modelPiece (d : Document) (entry : String × Schema) : Piece :=
  match (modelDecls d entry.1 entry.2).result with
  | .ok decls =>
    { contribution? := some (modelContribution d entry decls), report := { models := 1 } }
  | .error e => { contribution? := none, report := { skipped := [.because entry.1 e] } }

/-- The contribution of an aggregate's query clients, its types being declared as `types`. -/
def queryContribution (d : Document) (config : Configuration) (a : Aggregate)
    (types : List Declaration) : Contribution :=
  let clients := queryClients d config a
  { path := a.queryFile
    needs := (aggregateTypes d a).notes ++ queryOptionsImports ++ clientImports ++ clients.needs
    decls := types
      ++ [.const (queryOptions d a), .class clients.plain, .class clients.stream] }

/-- The piece of an aggregate's query clients. -/
def queryPiece (d : Document) (config : Configuration) (a : Aggregate) : Piece :=
  { contribution? := (aggregateTypes d a).result.toOption.map (queryContribution d config a)
    report := { queryClients := 1, skipped := (queryClients d config a).skipped } }

/-- The contribution of an aggregate's command clients. -/
def commandContribution (d : Document) (config : Configuration) (a : Aggregate) : Contribution :=
  let clients := commandClients d config a
  { path := a.commandFile
    needs := commandImports ++ clientImports ++ clients.needs
    decls := [.class clients.plain, .class clients.stream] }

/-- The piece of an aggregate's command clients. -/
def commandPiece (d : Document) (config : Configuration) (a : Aggregate) : Piece :=
  { contribution? := some (commandContribution d config a)
    report := { commandClients := 1, skipped := (commandClients d config a).skipped } }

/-- The contribution of a tag's clients. -/
def apiContribution (d : Document) (config : Configuration) (t : ApiTag) : Contribution :=
  let clients := apiClients d config t
  { path := t.file d, needs := clientImports ++ clients.needs, decls := clients.apiDecls }

/-- The piece of a tag's clients. -/
def apiPiece (d : Document) (config : Configuration) (t : ApiTag) : Piece :=
  { contribution? := some (apiContribution d config t)
    report := { apiClients := 1, skipped := (apiClients d config t).skipped } }

/-- The pieces of all schemas for which models are generated. -/
def Document.modelPieces (d : Document) : List Piece := d.modelSchemas.map (modelPiece d)

/-- The pieces of the clients of a service. -/
def clientPieces (d : Document) (s : Service) (config : Configuration) : List Piece :=
  s.aggregates.map (queryPiece d config) ++ s.aggregates.map (commandPiece d config)
    ++ s.apiTags.values.map (apiPiece d config)

/-- The pieces of a document and its service, in the order in which they are made. -/
def pieces (d : Document) (s : Service) (config : Configuration) : List Piece :=
  d.modelPieces ++ clientPieces d s config

/-- The claims of all schemas, in the order in which they are made. -/
def Document.claims (d : Document) : List Claim :=
  d.modelSchemas.flatMap fun entry => claimsOf (modelDecls d entry.1 entry.2).notes

/-! ## Assembly of pieces -/

namespace Generation

variable {ps : List Piece} {g : Generation}

theorem project_foldl_addPiece :
    (ps.foldl addPiece g).project = (contributionsOf ps).foldl Project.contribute g.project := by
  induction ps generalizing g with
  | nil => rfl
  | cons p rest ih =>
    rw [List.foldl_cons, ih, contributionsOf, contributionsOf]
    cases h : p.contribution? with
    | none => rw [List.filterMap_cons_none h, addPiece, h, Option.elim_none]
    | some c => rw [List.filterMap_cons_some h, List.foldl_cons, addPiece, h, Option.elim_some]

/-- The files are made of the contributions of all pieces. -/
theorem project_ofPieces : (ofPieces ps).project = .ofContributions (contributionsOf ps) :=
  project_foldl_addPiece

theorem skipped_foldl_addPiece :
    (ps.foldl addPiece g).report.skipped
      = g.report.skipped ++ ps.flatMap (·.report.skipped) := by
  induction ps generalizing g with
  | nil => simp
  | cons p rest ih =>
    rw [List.foldl_cons, ih, List.flatMap_cons, ← List.append_assoc]
    rfl

/-- The records are those of all pieces, in order. -/
theorem skipped_ofPieces : (ofPieces ps).report.skipped = ps.flatMap (·.report.skipped) := by
  rw [ofPieces, skipped_foldl_addPiece]
  rfl

theorem models_foldl_addPiece :
    (ps.foldl addPiece g).report.models
      = g.report.models + (ps.map (·.report.models)).sum := by
  induction ps generalizing g with
  | nil => rfl
  | cons p rest ih =>
    rw [List.foldl_cons, ih, List.map_cons, List.sum_cons, ← Nat.add_assoc]
    rfl

/-- The number of models is that of all pieces together. -/
theorem models_ofPieces : (ofPieces ps).report.models = (ps.map (·.report.models)).sum := by
  rw [ofPieces, models_foldl_addPiece]
  exact Nat.zero_add _

end Generation

/-- A file that declares something is written. -/
theorem mem_renderedFiles {p : Project} {path : String} {f : SourceFile} {decl : Declaration}
    (hf : p.get? path = some f) (hdecl : decl ∈ f.declarations) :
    (path, f.render) ∈ renderedFiles p := by
  have hentry : (path, f) ∈ p.entries := SortedMap.get?_eq_some_iff.1 hf
  refine List.mem_map.2 ⟨(path, f), List.mem_filter.2 ⟨hentry, ?_⟩, rfl⟩
  rw [Bool.not_eq_true', List.isEmpty_eq_false_iff]
  exact List.ne_nil_of_mem hdecl

/-! ## Models -/

variable {d : Document}

theorem modelPiece_of_ok {entry : String × Schema} {decls : List Declaration}
    (h : (modelDecls d entry.1 entry.2).result = .ok decls) :
    modelPiece d entry
      = { contribution? := some (modelContribution d entry decls), report := { models := 1 } } := by
  simp only [modelPiece, h]

theorem modelPiece_of_error {entry : String × Schema} {e : GenerationError}
    (h : (modelDecls d entry.1 entry.2).result = .error e) :
    modelPiece d entry
      = { contribution? := none, report := { skipped := [.because entry.1 e] } } := by
  simp only [modelPiece, h]

/-- A schema adds its piece, unless its claims are refused. -/
theorem Modelling.add_eq (m : Modelling) (entry : String × Schema) :
    m.add d entry = (fun owners => ⟨owners, m.generation.addPiece (modelPiece d entry)⟩) <$>
      (claimsOf (modelDecls d entry.1 entry.2).notes).foldlM Owners.give m.owners := by
  rw [Modelling.add, ← bind_pure_comp]
  -- both go on alike from whatever owners the claims leave
  congr 1
  funext owners
  cases h : (modelDecls d entry.1 entry.2).result with
  | ok decls =>
    have hskipped := List.append_nil m.generation.report.skipped
    rw [modelPiece_of_ok h]
    simp only [Generation.addPiece, Generation.declare, Generation.count, Report.add, hskipped,
      Option.elim_some, Project.contribute, SourceFile.take, modelContribution, Nat.add_zero]
  | error e =>
    rw [modelPiece_of_error h]
    rfl

theorem foldlM_modelling_add (entries : List (String × Schema)) (m : Modelling) :
    entries.foldlM (Modelling.add d) m =
      (fun owners =>
        ⟨owners, (entries.map (modelPiece d)).foldl Generation.addPiece m.generation⟩) <$>
      (entries.flatMap fun entry => claimsOf (modelDecls d entry.1 entry.2).notes).foldlM
        Owners.give m.owners := by
  induction entries generalizing m with
  | nil => rfl
  | cons entry rest ih =>
    rw [List.foldlM_cons, Modelling.add_eq, List.flatMap_cons, List.foldlM_append]
    simp only [map_eq_pure_bind, bind_assoc, pure_bind, ih, List.map_cons, List.foldl_cons]

/-- The models are made of the pieces of all schemas, unless a claim is refused. -/
theorem generateModels_eq :
    generateModels d
      = (fun _ => Generation.ofPieces d.modelPieces) <$> d.claims.foldlM Owners.give d.owners := by
  rw [generateModels, foldlM_modelling_add, ← comp_map]
  rfl

theorem generateModels_eq_ok {g : Generation} (h : generateModels d = .ok g) :
    g = .ofPieces d.modelPieces := by
  rw [generateModels_eq] at h
  obtain ⟨_, -, rfl⟩ := map_eq_ok_iff.1 h
  rfl

/-- A claim is refused only because of a collision of names. -/
theorem Owners.foldlM_give_error {owners : Owners} {claims : List Claim} {e : GenerationError}
    (h : claims.foldlM give owners = .error e) :
    ∃ name path first second, e = .namingCollision name path first second := by
  induction claims generalizing owners with
  | nil => cases h
  | cons c rest ih =>
    rw [List.foldlM_cons] at h
    cases hgive : owners.give c with
    | ok owners' =>
      rw [hgive] at h
      exact ih h
    | error e' =>
      rw [hgive] at h
      cases h
      unfold give at hgive
      split at hgive
      · split at hgive
        · cases hgive
        · cases hgive
          exact ⟨_, _, _, _, rfl⟩
      · cases hgive

/-! ## Clients -/

variable {config : Configuration}

theorem addQueryFile_eq {a : Aggregate} {types : List Declaration}
    (h : (aggregateTypes d a).result = .ok types) (g : Generation) :
    addQueryFile d config g a = .ok (g.addPiece (queryPiece d config a)) := by
  unfold addQueryFile addQueryFileAs queryPiece
  simp only [h]
  rfl

theorem foldlM_addQueryFile {as : List Aggregate}
    (h : ∀ a ∈ as, ∃ types, (aggregateTypes d a).result = .ok types) (g : Generation) :
    as.foldlM (addQueryFile d config) g
      = .ok ((as.map (queryPiece d config)).foldl Generation.addPiece g) := by
  induction as generalizing g with
  | nil => rfl
  | cons a rest ih =>
    obtain ⟨types, htypes⟩ := h a List.mem_cons_self
    rw [List.foldlM_cons, addQueryFile_eq htypes]
    exact ih (fun a' ha' => h a' (List.mem_cons_of_mem _ ha')) _

/-- Generation assembles its pieces, unless a claim is refused. -/
theorem generation_eq (d : Document) (config : Configuration) :
    generation d d.service config
      = (fun _ => Generation.ofPieces (pieces d d.service config)) <$>
        d.claims.foldlM Owners.give d.owners := by
  have htypes : ∀ a ∈ d.service.aggregates, ∃ types, (aggregateTypes d a).result = .ok types :=
    fun a ha => (d.service_attached a ha).result_aggregateTypes
  have hcommand : addCommandFile d config = fun g a => g.addPiece (commandPiece d config a) := rfl
  have hapi : addApiFile d config = fun g t => g.addPiece (apiPiece d config t) := rfl
  -- no aggregate stops the run, so the claims are all that is left in it to fail
  rw [generation, generateModels_eq, hcommand, hapi]
  simp only [map_eq_pure_bind, bind_assoc, pure_bind, foldlM_addQueryFile htypes]
  congr 1
  funext _
  rw [Generation.ofPieces, Generation.ofPieces, pieces, clientPieces]
  simp only [List.foldl_append, List.foldl_map]
  rfl

/-- A generation that succeeds is that of its pieces. -/
theorem generation_eq_ok {g : Generation} (h : generation d d.service config = .ok g) :
    g = .ofPieces (pieces d d.service config) := by
  rw [generation_eq] at h
  obtain ⟨_, -, rfl⟩ := map_eq_ok_iff.1 h
  rfl

/-- Generation fails only because of a collision of names. -/
theorem generation_eq_error {e : GenerationError} (h : generation d d.service config = .error e) :
    ∃ name path first second, e = .namingCollision name path first second := by
  rw [generation_eq] at h
  exact Owners.foldlM_give_error (map_eq_error_iff.1 h)

/-- A document that is compiled has its files and records from its service and its generation. -/
theorem compile_eq_ok {compiled : Compiled} (h : compile d config = .ok compiled) :
    generate d d.service config = .ok compiled.code ∧
      compiled.summary.files = compiled.code.files.map Prod.fst ∧
      compiled.summary.skipped = d.service.skipped ++ compiled.code.report.skipped := by
  unfold compile at h
  obtain ⟨-, -, h⟩ := bind_eq_ok_iff.1 h
  obtain ⟨code, hcode, h⟩ := bind_eq_ok_iff.1 h
  cases h
  exact ⟨hcode, rfl, rfl⟩

/-! ## What pieces need -/

theorem grounded_clientImports : ∀ i ∈ clientImports, i.Grounded d :=
  grounded_decoratorImports d (by decide)

theorem grounded_queryContribution (a : Aggregate) (types : List Declaration) :
    ∀ i ∈ (queryContribution d config a types).needs, i.Grounded d := by
  intro i hi
  simp only [queryContribution, List.mem_append] at hi
  rcases hi with ((hi | hi) | hi) | hi
  · exact (aggregateTypes_sound d a).notes i hi
  · simp only [queryOptionsImports, List.mem_cons, List.not_mem_nil, or_false] at hi
    rcases hi with rfl | rfl <;> exact ⟨List.mem_cons_self, by decide⟩
  · exact grounded_clientImports i hi
  · exact ClientPair.grounded_addAll (fun c op => queryMethods_sound d op _ c) a.queries _
      (fun _ h => absurd h List.not_mem_nil) i hi

theorem grounded_commandContribution (a : Aggregate) :
    ∀ i ∈ (commandContribution d config a).needs, i.Grounded d := by
  intro i hi
  simp only [commandContribution, List.mem_append] at hi
  rcases hi with (hi | hi) | hi
  · simp only [commandImports, List.mem_cons, List.not_mem_nil, or_false] at hi
    rcases hi with rfl | rfl
    · exact ⟨List.mem_cons_self, by decide⟩
    · exact grounded_eventStreamImport d
  · exact grounded_clientImports i hi
  · exact ClientPair.grounded_addAll (fun c command => commandMethods_sound d _ _ c command)
      a.commands _ (fun _ h => absurd h List.not_mem_nil) i hi

theorem grounded_apiContribution (t : ApiTag) :
    ∀ i ∈ (apiContribution d config t).needs, i.Grounded d := by
  intro i hi
  simp only [apiContribution, List.mem_append] at hi
  rcases hi with hi | hi
  · exact grounded_clientImports i hi
  · exact ClientPair.grounded_addAll (fun c op => apiMethods_sound d op _ c) t.operations _
      (fun _ h => absurd h List.not_mem_nil) i hi

/-- The clients of a pair that are declared are its two classes at most. -/
theorem class_of_apiDecls {clients : ClientPair} {decl : Declaration}
    (h : decl ∈ clients.apiDecls) :
    decl = .class clients.plain ∨ decl = .class clients.stream := by
  unfold ClientPair.apiDecls at h
  split at h
  · exact .inl (List.mem_singleton.1 h)
  · simpa using h

/-- A contribution is that of a model, or that of the clients of an aggregate or a tag. -/
theorem contribution_cases {s : Service} {c : Contribution}
    (h : c ∈ contributionsOf (pieces d s config)) :
    (∃ entry ∈ d.modelSchemas, ∃ decls, (modelDecls d entry.1 entry.2).result = .ok decls ∧
        c = modelContribution d entry decls) ∨
      (∃ a ∈ s.aggregates, ∃ types, (aggregateTypes d a).result = .ok types ∧
        c = queryContribution d config a types) ∨
      (∃ a ∈ s.aggregates, c = commandContribution d config a) ∨
      ∃ t ∈ s.apiTags.values, c = apiContribution d config t := by
  obtain ⟨p, hp, hc⟩ := List.mem_filterMap.1 h
  simp only [pieces, clientPieces, Document.modelPieces, List.mem_append, List.mem_map] at hp
  rcases hp with ⟨entry, hentry, rfl⟩ | (⟨a, ha, rfl⟩ | ⟨a, ha, rfl⟩) | ⟨t, ht, rfl⟩
  · cases hresult : (modelDecls d entry.1 entry.2).result with
    | ok decls =>
      rw [modelPiece_of_ok hresult, Option.some.injEq] at hc
      exact .inl ⟨entry, hentry, decls, hresult, hc.symm⟩
    | error e =>
      rw [modelPiece_of_error hresult] at hc
      cases hc
  · obtain ⟨types, htypes, rfl⟩ := Option.map_eq_some_iff.1 hc
    exact .inr (.inl ⟨a, ha, types, eq_ok_of_toOption htypes, rfl⟩)
  · exact .inr (.inr (.inl ⟨a, ha, (Option.some.inj hc).symm⟩))
  · exact .inr (.inr (.inr ⟨t, ht, (Option.some.inj hc).symm⟩))

/-- Enums and interfaces are declared for models only, in their files. -/
theorem exists_model_of_decl {s : Service} {c : Contribution} {decl : Declaration}
    (h : c ∈ contributionsOf (pieces d s config)) (hdecl : decl ∈ c.decls)
    (hmodel : (∃ e, decl = .enum e) ∨ ∃ i, decl = .interface i) :
    ∃ entry ∈ d.modelSchemas, (modelDecls d entry.1 entry.2).result = .ok c.decls ∧
      c.file = (ModelName.ofKey entry.1).file := by
  rcases contribution_cases h with
    ⟨entry, hentry, decls, hdecls, rfl⟩ | ⟨a, -, types, htypes, rfl⟩ | ⟨a, -, rfl⟩ | ⟨t, -, rfl⟩
  · exact ⟨entry, hentry, hdecls, modelContribution_file d entry decls⟩
  · -- the types of an aggregate are aliases
    obtain ⟨state, -, htypes⟩ := Traced.result_bind_eq_ok_iff.1 htypes
    obtain ⟨fields, -, htypes⟩ := Traced.result_bind_eq_ok_iff.1 htypes
    obtain ⟨events, -, htypes⟩ := Traced.result_bind_eq_ok_iff.1 htypes
    cases htypes
    rcases hmodel with ⟨_, rfl⟩ | ⟨_, rfl⟩ <;> simp [queryContribution] at hdecl
  · rcases hmodel with ⟨_, rfl⟩ | ⟨_, rfl⟩ <;> simp [commandContribution] at hdecl
  · rcases class_of_apiDecls hdecl with rfl | rfl <;> simp at hmodel

/-- All that is needed belongs to a component or to the runtime. -/
theorem grounded_of_mem_contributions {s : Service} {c : Contribution}
    (h : c ∈ contributionsOf (pieces d s config)) : ∀ i ∈ c.needs, i.Grounded d := by
  rcases contribution_cases h with
    ⟨entry, -, decls, -, rfl⟩ | ⟨a, -, types, -, rfl⟩ | ⟨a, -, rfl⟩ | ⟨t, -, rfl⟩
  · exact importsOf_modelDecls_grounded d entry.1 entry.2
  · exact grounded_queryContribution a types
  · exact grounded_commandContribution a
  · exact grounded_apiContribution t

section Members

variable {s : Service} {a : Aggregate} {t : ApiTag}

theorem queryPiece_mem (ha : a ∈ s.aggregates) : queryPiece d config a ∈ pieces d s config := by
  simp only [pieces, clientPieces, List.mem_append, List.mem_map]
  exact .inr (.inl (.inl ⟨a, ha, rfl⟩))

theorem commandPiece_mem (ha : a ∈ s.aggregates) : commandPiece d config a ∈ pieces d s config := by
  simp only [pieces, clientPieces, List.mem_append, List.mem_map]
  exact .inr (.inl (.inr ⟨a, ha, rfl⟩))

theorem apiPiece_mem (ht : t ∈ s.apiTags.values) : apiPiece d config t ∈ pieces d s config := by
  simp only [pieces, clientPieces, List.mem_append, List.mem_map]
  exact .inr (.inr ⟨t, ht, rfl⟩)

variable (config)

/-- The query clients of every aggregate of a document are contributed. -/
theorem queryContribution_mem (ha : a ∈ d.service.aggregates) :
    ∃ types, queryContribution d config a types ∈ contributionsOf (pieces d d.service config) := by
  obtain ⟨types, htypes⟩ := (d.service_attached a ha).result_aggregateTypes
  refine ⟨types, List.mem_filterMap.2 ⟨queryPiece d config a, queryPiece_mem ha, ?_⟩⟩
  rw [queryPiece, htypes]
  rfl

theorem commandContribution_mem (ha : a ∈ s.aggregates) :
    commandContribution d config a ∈ contributionsOf (pieces d s config) :=
  List.mem_filterMap.2 ⟨commandPiece d config a, commandPiece_mem ha, rfl⟩

theorem apiContribution_mem (ht : t ∈ s.apiTags.values) :
    apiContribution d config t ∈ contributionsOf (pieces d s config) :=
  List.mem_filterMap.2 ⟨apiPiece d config t, apiPiece_mem ht, rfl⟩

end Members

/-- A schema that can be declared contributes its declarations. -/
theorem modelContribution_mem {s : Service} {entry : String × Schema} {decls : List Declaration}
    (hentry : entry ∈ d.modelSchemas) (h : (modelDecls d entry.1 entry.2).result = .ok decls) :
    modelContribution d entry decls ∈ contributionsOf (pieces d s config) := by
  apply List.mem_filterMap.2
  refine ⟨modelPiece d entry, List.mem_append_left _ (List.mem_map_of_mem hentry), ?_⟩
  rw [modelPiece_of_ok h]

/-- A run that has been evaluated, with a test that one of its files has passed. -/
theorem exists_file_of_any {path : String} {test : SourceFile → Bool}
    (h : (generation d d.service config).toOption.any
      (fun g => (g.project.get? path).any test) = true) :
    ∃ g f, generation d d.service config = .ok g ∧ g.project.get? path = some f ∧
      test f = true := by
  obtain ⟨g, hg, hfile⟩ := exists_ok_of_any h
  obtain ⟨f, hf, htest⟩ := (Option.any_eq_true _ _).1 hfile
  exact ⟨g, f, hg, hf, htest⟩

end ClientGen
