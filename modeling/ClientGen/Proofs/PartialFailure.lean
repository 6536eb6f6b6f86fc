/-
  ClientGen.Proofs.PartialFailure

  What generation does with the things it cannot build.  A schema or a method
  that meets a reference that means nothing, or nesting that is too deep, leaves
  one record and nothing else; all others are generated as if it were not there.
  A collision of names is the only failure that ends a run.
-/
import ClientGen.Proofs.Assembly
import ClientGen.Proofs.ClientPair
import ClientGen.Proofs.Endpoint

namespace ClientGen

/-! ## The records of a document -/

/-- The records of the schemas of which no model can be made. -/
def Document.modelFailures (d : Document) : List Skipped :=
  failuresOf Prod.fst (fun entry => (modelDecls d entry.1 entry.2).fault?) d.modelSchemas

/-- The records of the queries of an aggregate of which no method can be made. -/
def queryFailures (d : Document) (config : Configuration) (a : Aggregate) : List Skipped :=
  failuresOf ResolvedOperation.identifier
    (fun op => (queryMethods d (config.ignoredPathParameters a.tag.name) default op).fault?)
    a.queries

/-- The records of the commands of an aggregate of which no method can be made. -/
def commandFailures (d : Document) (config : Configuration) (a : Aggregate) : List Skipped :=
  failuresOf Command.schemaKey
    (fun c => (commandMethods d a.attribution (config.ignoredPathParameters a.tag.name) default
      c).fault?)
    a.commands

/-- The records of the operations of a tag of which no method can be made. -/
def apiFailures (d : Document) (config : Configuration) (t : ApiTag) : List Skipped :=
  failuresOf ResolvedOperation.identifier
    (fun op => (apiMethods d (config.ignoredPathParameters t.tag.name) default op).fault?)
    t.operations

/-- The records of all that cannot be built, in the order of generation. -/
def failures (d : Document) (s : Service) (config : Configuration) : List Skipped :=
  d.modelFailures ++ s.aggregates.flatMap (queryFailures d config)
    ++ s.aggregates.flatMap (commandFailures d config)
    ++ s.apiTags.values.flatMap (apiFailures d config)

variable {d : Document} {config : Configuration}

theorem skipped_queryClients (a : Aggregate) :
    (queryClients d config a).skipped = queryFailures d config a :=
  ClientPair.skipped_addAll (fun c op => fault?_queryMethods d _ op c default) a.queries _

theorem skipped_commandClients (a : Aggregate) :
    (commandClients d config a).skipped = commandFailures d config a :=
  ClientPair.skipped_addAll (fun c command => fault?_commandMethods d _ _ command c default)
    a.commands _

theorem skipped_apiClients (t : ApiTag) :
    (apiClients d config t).skipped = apiFailures d config t :=
  ClientPair.skipped_addAll (fun c op => fault?_apiMethods d _ op c default) t.operations _

/-- Every query of an aggregate has its method, unless it is recorded. -/
theorem length_queryClients (a : Aggregate) :
    (queryClients d config a).plain.methods.length + (queryFailures d config a).length
      = a.queries.length := by
  rw [← skipped_queryClients]
  exact (ClientPair.length_addAll a.queries _).trans (Nat.zero_add _)

/-- Every command of an aggregate has its method, unless it is recorded. -/
theorem length_commandClients (a : Aggregate) :
    (commandClients d config a).plain.methods.length + (commandFailures d config a).length
      = a.commands.length := by
  rw [← skipped_commandClients]
  exact (ClientPair.length_addAll a.commands _).trans (Nat.zero_add _)

/-- Every operation of a tag has its method, unless it is recorded. -/
theorem length_apiClients (t : ApiTag) :
    (apiClients d config t).plain.methods.length + (apiFailures d config t).length
      = t.operations.length := by
  rw [← skipped_apiClients]
  exact (ClientPair.length_addAll t.operations _).trans (Nat.zero_add _)

/-- Every schema has a model, unless it is recorded. -/
theorem sum_models_modelPieces (entries : List (String × Schema)) :
    (entries.map fun entry => (modelPiece d entry).report.models).sum
        + (failuresOf Prod.fst (fun entry => (modelDecls d entry.1 entry.2).fault?) entries).length
      = entries.length := by
  induction entries with
  | nil => rfl
  | cons entry rest ih =>
    rw [List.map_cons, List.sum_cons, failuresOf_cons, List.length_append, List.length_cons]
    have hentry : (modelPiece d entry).report.models
        + (((modelDecls d entry.1 entry.2).fault?.map (Skipped.because entry.1)).toList).length
          = 1 := by
      rw [Traced.fault?]
      cases h : (modelDecls d entry.1 entry.2).result with
      | ok decls =>
        rw [modelPiece_of_ok h]
        rfl
      | error e =>
        rw [modelPiece_of_error h]
        rfl
    omega

theorem models_pieces (s : Service) :
    ((pieces d s config).map (·.report.models)).sum + d.modelFailures.length
      = d.modelSchemas.length := by
  -- clients count no models
  have hclients : ((clientPieces d s config).map (·.report.models)).sum = 0 := by
    rw [List.sum_eq_zero_iff_forall_eq_nat]
    intro n hn
    obtain ⟨p, hp, rfl⟩ := List.mem_map.1 hn
    simp only [clientPieces, List.mem_append, List.mem_map] at hp
    rcases hp with (⟨a, -, rfl⟩ | ⟨a, -, rfl⟩) | ⟨t, -, rfl⟩ <;> rfl
  have hmodels := sum_models_modelPieces (d := d) d.modelSchemas
  rw [pieces, List.map_append, List.sum_append, hclients, Nat.add_zero, Document.modelPieces,
    List.map_map]
  exact hmodels

theorem skipped_modelPiece (entry : String × Schema) :
    (modelPiece d entry).report.skipped
      = ((modelDecls d entry.1 entry.2).fault?.map (Skipped.because entry.1)).toList := by
  rw [Traced.fault?]
  cases h : (modelDecls d entry.1 entry.2).result with
  | ok decls =>
    rw [modelPiece_of_ok h]
    rfl
  | error e =>
    rw [modelPiece_of_error h]
    rfl

/-- The records of all pieces are those of all that cannot be built. -/
theorem skipped_pieces (s : Service) :
    (pieces d s config).flatMap (·.report.skipped) = failures d s config := by
  rw [pieces, clientPieces, failures, Document.modelPieces, Document.modelFailures,
    failuresOf_eq_flatMap]
  simp only [List.flatMap_append, List.flatMap_map, skipped_modelPiece, queryPiece, commandPiece,
    apiPiece, skipped_queryClients, skipped_commandClients, skipped_apiClients, List.append_assoc]

/-! ## Faults that are recorded -/

/-- Whatever is recorded has a fault in a schema. -/
theorem isSchemaFault_of_mem_failures {s : Service} {record : Skipped}
    (h : record ∈ failures d s config) :
    ∃ item e, e.IsSchemaFault ∧ record = .because item e := by
  simp only [failures, List.mem_append, List.mem_flatMap] at h
  rcases h with ((h | ⟨a, -, h⟩) | ⟨a, -, h⟩) | ⟨t, -, h⟩
  all_goals
    obtain ⟨item, -, e, he, rfl⟩ := mem_failuresOf h
    rw [Traced.fault?_eq_some_iff] at he
  · exact ⟨_, e, (modelDecls_sound d _ _).faults e he, rfl⟩
  · exact ⟨_, e, (queryMethods_sound d _ _ _).faults e he, rfl⟩
  · exact ⟨_, e, (commandMethods_sound d _ _ _ _).faults e he, rfl⟩
  · exact ⟨_, e, (apiMethods_sound d _ _ _).faults e he, rfl⟩

/-! ## The outcome of a run -/

/-- A run that went on after whatever it could not build. -/
structure Recovered (d : Document) (config : Configuration) (code : GeneratedCode) : Prop where
  /-- The files hold all pieces. -/
  files : code.files = renderedFiles (.ofContributions (contributionsOf (pieces d d.service config)))
  /-- There is one record for each schema and each method that cannot be built, and no other. -/
  skipped : code.report.skipped = failures d d.service config
  faults : ∀ record ∈ code.report.skipped, ∃ item e, e.IsSchemaFault ∧ record = .because item e
  /-- Every schema that can be built has a model. -/
  models : code.report.models + d.modelFailures.length = d.modelSchemas.length
  /-- Every query that can be built has a method, and so has every command and every operation. -/
  queries : ∀ a ∈ d.service.aggregates,
    (queryClients d config a).plain.methods.length + (queryFailures d config a).length
      = a.queries.length
  commands : ∀ a ∈ d.service.aggregates,
    (commandClients d config a).plain.methods.length + (commandFailures d config a).length
      = a.commands.length
  operations : ∀ t ∈ d.service.apiTags.values,
    (apiClients d config t).plain.methods.length + (apiFailures d config t).length
      = t.operations.length

theorem recovered_of_generation {g : Generation} (h : generation d d.service config = .ok g) :
    Recovered d config { files := renderedFiles g.project, report := g.report } := by
  have hg := generation_eq_ok h
  have hskipped : g.report.skipped = failures d d.service config := by
    rw [hg, Generation.skipped_ofPieces, skipped_pieces]
  refine
    { files := ?_
      skipped := hskipped
      faults := ?_
      models := ?_
      queries := fun a _ => length_queryClients a
      commands := fun a _ => length_commandClients a
      operations := fun t _ => length_apiClients t }
  · show renderedFiles g.project = _
    rw [hg, Generation.project_ofPieces]
  · intro record hrecord
    apply isSchemaFault_of_mem_failures
    rw [← hskipped]
    exact hrecord
  · show g.report.models + _ = _
    rw [hg, Generation.models_ofPieces, models_pieces]

/-- A run ends with code or with a collision of names.  Each schema and each method that
    meets a reference that means nothing, or nesting that is too deep, is recorded once,
    and the run goes on; the types of state, fields and events, on which it could not go
    on, never fail, because every key that is attached to an aggregate is in the document. -/
theorem generate_recovers (d : Document) (config : Configuration) :
    d.service.Attached d ∧
      (∀ a ∈ d.service.aggregates, ∃ types, (aggregateTypes d a).result = .ok types) ∧
      match generate d d.service config with
      | .ok code => Recovered d config code
      | .error e => ∃ name path first second, e = .namingCollision name path first second := by
  refine ⟨d.service_attached, fun a ha => (d.service_attached a ha).result_aggregateTypes, ?_⟩
  unfold generate
  cases h : generation d d.service config with
  | ok g => exact recovered_of_generation h
  | error e => exact generation_eq_error h

/-- Two schemas and two operations, of which one each refers to a schema that is not there. -/
def faultyDocument : Document :=
  let missing : Schema := .referenceTo "a.Missing"
  let content : OrderedMap MediaType := .ofList [("application/json", ⟨some missing⟩)]
  { paths := .ofList
      [("/report", .only .get
         { tags := ["health"], responses := .ofList [("200", .item { content })] }),
       ("/health", .only .get { tags := ["health"], responses := .ofList [] })]
    components.schemas := .ofList
      [("a.Bad", missing), ("a.Note", { type := some (.single "string") })] }

/-- The other schema and the other operation are generated all the same. -/
theorem generate_recovers_faulty :
    ∃ code, generate faultyDocument faultyDocument.service {} = .ok code ∧
      code.report.skipped.map (·.item) = ["a.Bad", "get.report"] ∧ code.report.models = 1 ∧
      ∃ t ∈ faultyDocument.service.apiTags.values, t.operations.length = 2 ∧
        (apiClients faultyDocument {} t).plain.methods.length = 1 := by
  obtain ⟨-, -, hrecovers⟩ := generate_recovers faultyDocument {}
  have hrun : (generate faultyDocument faultyDocument.service {}).toOption.any (fun _ => true)
      = true := by
    decide +kernel
  obtain ⟨code, hcode, -⟩ := exists_ok_of_any hrun
  rw [hcode] at hrecovers
  have hrecovered : Recovered faultyDocument {} code := hrecovers
  have hlengths : faultyDocument.modelFailures.length = 1 ∧
      faultyDocument.modelSchemas.length = 2 := by
    decide +kernel
  have htags : (faultyDocument.service.apiTags.values.any fun t =>
      (apiFailures faultyDocument {} t).length = 1 ∧ t.operations.length = 2) = true := by
    decide +kernel
  obtain ⟨t, ht, hcounts⟩ := List.any_eq_true.1 htags
  obtain ⟨hfailures, hoperations⟩ := of_decide_eq_true hcounts
  refine ⟨code, hcode, ?_, ?_, t, ht, hoperations, ?_⟩
  · rw [hrecovered.skipped]
    decide +kernel
  · have hmodels := hrecovered.models
    omega
  · have hmethods := hrecovered.operations t ht
    omega

end ClientGen
