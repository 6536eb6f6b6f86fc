/-
  ClientGen.Proofs.SkippedMethod

  What a client method leaves behind that cannot be built: one record, and nothing
  else.  A run gives the same files as the run on the service from which the
  queries, commands and operations that fail were taken away, told the attributions
  that the aggregates had before (`generation_withoutFaults`).
-/
import ClientGen.Proofs.PartialFailure

namespace ClientGen

open TypeScript

/-! ## Clients under construction -/

namespace ClientPair

/-- The same clients with other records. -/
def withSkipped (c : ClientPair) (records : List Skipped) : ClientPair :=
  { c with skipped := records }

variable {c : ClientPair} {item : String} {built : Importing (MethodDecl × Option MethodDecl)}

/-- Methods that are built are added whatever was recorded before. -/
theorem addBuilt_withSkipped (h : built.fault? = none) (records : List Skipped) :
    (c.withSkipped records).addBuilt item built = (c.addBuilt item built).withSkipped records := by
  obtain ⟨methods, hresult⟩ := Traced.fault?_eq_none_iff.1 h
  unfold addBuilt
  rw [hresult]
  rfl

/-- Methods that fail change the records only. -/
theorem withSkipped_addBuilt {e : GenerationError} (h : built.fault? = some e)
    (records : List Skipped) :
    (c.addBuilt item built).withSkipped records = c.withSkipped records := by
  have hresult : built.result = .error e := Traced.fault?_eq_some_iff.1 h
  unfold addBuilt
  rw [hresult]
  rfl

/-- The clients of the items that do not fail are those of all items, but for the records. -/
theorem addAll_filter {α : Type} {label : α → String}
    {build : ClientPair → α → Importing (MethodDecl × Option MethodDecl)}
    {fault? : α → Option GenerationError} (hfault : ∀ c a, (build c a).fault? = fault? a)
    (hbuild : ∀ (c : ClientPair) records a, build (c.withSkipped records) a = build c a)
    (items : List α) (c : ClientPair) (records : List Skipped) :
    addAll label build (items.filter fun a => (fault? a).isNone) (c.withSkipped records)
      = (addAll label build items c).withSkipped records := by
  induction items generalizing c with
  | nil => rfl
  | cons a rest ih =>
    have hrest := ih (c.addBuilt (label a) (build c a))
    cases ha : fault? a with
    | none =>
      -- the same methods are built, so the rest starts from the same clients
      have hbuilt : (build c a).fault? = none := by rw [hfault, ha]
      rw [List.filter_cons_of_pos (by simp [ha]), addAll_cons, addAll_cons, hbuild,
        addBuilt_withSkipped hbuilt, hrest]
    | some e =>
      -- nothing but a record is added, and the records do not matter to the rest
      have hbuilt : (build c a).fault? = some e := by rw [hfault, ha]
      rw [withSkipped_addBuilt hbuilt] at hrest
      rw [List.filter_cons_of_neg (by simp [ha]), addAll_cons, hrest]

end ClientPair

/-! ## What fails -/

variable {d : Document} {config : Configuration}

/-- The fault of a query's method. -/
def Aggregate.queryFault? (a : Aggregate) (d : Document) (config : Configuration)
    (op : ResolvedOperation) : Option GenerationError :=
  (queryMethods d (config.ignoredPathParameters a.tag.name) default op).fault?

/-- The fault of a command's methods. -/
def Aggregate.commandFault? (a : Aggregate) (d : Document) (config : Configuration)
    (command : Command) : Option GenerationError :=
  (commandMethods d a.attribution (config.ignoredPathParameters a.tag.name) default command).fault?

/-- The fault of the method of an operation under a tag. -/
def ApiTag.fault? (t : ApiTag) (d : Document) (config : Configuration) (op : ResolvedOperation) :
    Option GenerationError :=
  (apiMethods d (config.ignoredPathParameters t.tag.name) default op).fault?

/-- The aggregate with the queries and commands only that do not fail. -/
def Aggregate.withoutFaults (a : Aggregate) (d : Document) (config : Configuration) : Aggregate :=
  { a with
    queries := a.queries.filter fun op => (a.queryFault? d config op).isNone
    commands := a.commands.filter fun command => (a.commandFault? d config command).isNone }

/-- The tag with the operations only that do not fail. -/
def ApiTag.withoutFaults (t : ApiTag) (d : Document) (config : Configuration) : ApiTag :=
  { t with operations := t.operations.filter fun op => (t.fault? d config op).isNone }

/-- The service with those queries, commands and operations only that do not fail. -/
def Service.withoutFaults (s : Service) (d : Document) (config : Configuration) : Service :=
  { s with
    contexts := s.contexts.map (·.map (·.withoutFaults d config))
    apiTags := s.apiTags.map (·.withoutFaults d config) }

theorem Service.aggregates_withoutFaults (s : Service) :
    (s.withoutFaults d config).aggregates = s.aggregates.map (·.withoutFaults d config) :=
  aggregates_of_contexts rfl

/-- Each item is recorded or stays. -/
theorem length_failuresOf_add_filter {α : Type} (label : α → String)
    (fault? : α → Option GenerationError) (items : List α) :
    (failuresOf label fault? items).length + (items.filter fun a => (fault? a).isNone).length
      = items.length := by
  induction items with
  | nil => rfl
  | cons a rest ih =>
    rw [failuresOf_cons, List.length_append, List.length_cons]
    cases ha : fault? a with
    | none =>
      have hhead : ((none : Option GenerationError).map (Skipped.because (label a))).toList = [] :=
        rfl
      rw [List.filter_cons_of_pos (by simp [ha]), hhead, List.length_cons, List.length_nil]
      omega
    | some e =>
      have hhead : ((some e).map (Skipped.because (label a))).toList = [.because (label a) e] := rfl
      rw [List.filter_cons_of_neg (by simp [ha]), hhead, List.length_singleton]
      omega

/-! ## Clients without faults -/

theorem queryClients_withoutFaults (a : Aggregate) :
    queryClients d config (a.withoutFaults d config)
      = (queryClients d config a).withSkipped [] :=
  ClientPair.addAll_filter (fun c op => fault?_queryMethods d _ op c default)
    (fun _ _ _ => rfl) a.queries (.empty a.start "QueryClient" "StreamQueryClient" a.tag.docs) []

theorem commandClientsAs_withoutFaults (a : Aggregate) :
    commandClientsAs d config a.attribution (a.withoutFaults d config)
      = (commandClients d config a).withSkipped [] :=
  ClientPair.addAll_filter (fun c command => fault?_commandMethods d _ _ command c default)
    (fun _ _ _ => rfl) a.commands
    (.empty a.start "CommandClient" "StreamCommandClient" a.tag.docs) []

theorem apiClients_withoutFaults (t : ApiTag) :
    apiClients d config (t.withoutFaults d config) = (apiClients d config t).withSkipped [] :=
  ClientPair.addAll_filter (fun c op => fault?_apiMethods d _ op c default)
    (fun _ _ _ => rfl) t.operations
    (.empty t.classStart "ApiClient" "StreamApiClient" t.tag.docs) []

/-! ## Records -/

namespace Generation

variable {g : Generation}

theorem skip_skip (records more : List Skipped) :
    (g.skip records).skip more = g.skip (records ++ more) := by
  simp only [skip, List.append_assoc]

theorem skip_nil : g.skip [] = g := by
  simp only [skip, List.append_nil]

section Run

variable {α : Type} {m : Type → Type} [Monad m] [LawfulMonad m]
  {step bare : Generation → α → m Generation} {records : α → List Skipped}

/-- Where each step only adds records to what a bare step does, they can all be made in the end. -/
theorem foldlM_skip
    (hstep : ∀ g items a, step (g.skip items) a = (·.skip (items ++ records a)) <$> bare g a)
    (as : List α) (g : Generation) (items : List Skipped) :
    as.foldlM step (g.skip items)
      = (·.skip (items ++ as.flatMap records)) <$> as.foldlM bare g := by
  induction as generalizing g items with
  | nil => simp only [List.foldlM_nil, List.flatMap_nil, List.append_nil, map_pure]
  | cons a rest ih =>
    -- the records so far are those that the rest starts with
    simp only [List.foldlM_cons, hstep, bind_map_left, ih, map_bind, List.flatMap_cons,
      List.append_assoc]

end Run

theorem foldl_skip {α : Type} {step bare : Generation → α → Generation}
    {records : α → List Skipped}
    (hstep : ∀ g items a, step (g.skip items) a = (bare g a).skip (items ++ records a))
    (as : List α) (g : Generation) (items : List Skipped) :
    as.foldl step (g.skip items) = (as.foldl bare g).skip (items ++ as.flatMap records) := by
  rw [List.foldl_eq_foldlM, List.foldl_eq_foldlM]
  exact foldlM_skip (m := Id) hstep as g items

end Generation

/-! ## Client files -/

theorem addQueryFile_skip (g : Generation) (items : List Skipped) (a : Aggregate) :
    addQueryFile d config (g.skip items) a
      = (·.skip (items ++ queryFailures d config a)) <$>
        addQueryFileAs d config a.attribution g (a.withoutFaults d config) := by
  have hclients : queryClients d config (a.withoutFaults d config)
      = (queryClients d config a).withSkipped [] := queryClients_withoutFaults a
  -- state, fields and events are no methods, so they stop the run in both or in neither
  have htypes : aggregateTypes d (a.withoutFaults d config) = aggregateTypes d a := rfl
  have hrecords : (queryClients d config a).skipped = queryFailures d config a :=
    skipped_queryClients a
  unfold addQueryFile addQueryFileAs
  simp only [hclients, htypes, ← hrecords]
  cases (aggregateTypes d a).result with
  | error e => rfl
  | ok types =>
    simp only [ClientPair.withSkipped, Generation.skip_nil, Generation.skip_skip]
    rfl

theorem addCommandFile_skip (g : Generation) (items : List Skipped) (a : Aggregate) :
    addCommandFile d config (g.skip items) a
      = (addCommandFileAs d config a.attribution g (a.withoutFaults d config)).skip
        (items ++ commandFailures d config a) := by
  have hclients : commandClientsAs d config a.attribution (a.withoutFaults d config)
      = (commandClientsAs d config a.attribution a).withSkipped [] :=
    commandClientsAs_withoutFaults a
  have hrecords : (commandClientsAs d config a.attribution a).skipped = commandFailures d config a :=
    skipped_commandClients a
  unfold addCommandFile addCommandFileAs
  simp only [hclients, ← hrecords, ClientPair.withSkipped, Generation.skip_nil,
    Generation.skip_skip]
  rfl

theorem addApiFile_skip (g : Generation) (items : List Skipped) (t : ApiTag) :
    addApiFile d config (g.skip items) t
      = (addApiFile d config g (t.withoutFaults d config)).skip (items ++ apiFailures d config t) := by
  have hclients : apiClients d config (t.withoutFaults d config)
      = (apiClients d config t).withSkipped [] := apiClients_withoutFaults t
  have hrecords : (apiClients d config t).skipped = apiFailures d config t := skipped_apiClients t
  unfold addApiFile
  simp only [hclients, ← hrecords, ClientPair.withSkipped, Generation.skip_nil,
    Generation.skip_skip]
  rfl

/-! ## Runs -/

/-- The declarations of a document and its service, where the aggregates in turn have resources of
    the attributions that are told, whatever their commands vote for. -/
def generationAs (d : Document) (attributions : List Attribution) (s : Service)
    (config : Configuration) : Except GenerationError Generation := do
  let attributed := attributions.zip s.aggregates
  let models ← generateModels d
  let queries ← attributed.foldlM (fun g x => addQueryFileAs d config x.1 g x.2) models
  let commands := attributed.foldl (fun g x => addCommandFileAs d config x.1 g x.2) queries
  return s.apiTags.values.foldl (addApiFile d config) commands

/-- The attributions of the aggregates of a service. -/
def Service.attributions (s : Service) : List Attribution := s.aggregates.map (·.attribution)

theorem Service.attributions_zip (s : Service) (f : Aggregate → Aggregate) :
    s.attributions.zip (s.aggregates.map f) = s.aggregates.map fun a => (a.attribution, f a) :=
  List.zip_map' ..

/-- Told the attributions that the aggregates have, a run is what it is. -/
theorem generation_eq_generationAs (s : Service) :
    generation d s config = generationAs d s.attributions s config := by
  have hattributed := s.attributions_zip id
  rw [List.map_id] at hattributed
  unfold generation generationAs
  simp only [hattributed, List.foldlM_map, List.foldl_map]
  rfl

/-- The records of all methods that fail, in the order of generation. -/
def methodFailures (d : Document) (s : Service) (config : Configuration) : List Skipped :=
  s.aggregates.flatMap (queryFailures d config) ++ s.aggregates.flatMap (commandFailures d config)
    ++ s.apiTags.values.flatMap (apiFailures d config)

/-- A run is the run without the methods that fail, with their records added in the end. -/
theorem generation_eq_skip (s : Service) :
    generation d s config
      = (·.skip (methodFailures d s config)) <$>
        generationAs d s.attributions (s.withoutFaults d config) config := by
  have hqueries (g : Generation) : s.aggregates.foldlM (addQueryFile d config) (g.skip [])
      = (·.skip ([] ++ s.aggregates.flatMap (queryFailures d config))) <$>
        s.aggregates.foldlM
          (fun g a => addQueryFileAs d config a.attribution g (a.withoutFaults d config)) g :=
    Generation.foldlM_skip addQueryFile_skip s.aggregates g []
  simp only [Generation.skip_nil, List.nil_append] at hqueries
  have hcommands (g : Generation) (items : List Skipped) :
      s.aggregates.foldl (addCommandFile d config) (g.skip items)
        = (s.aggregates.foldl
            (fun g a => addCommandFileAs d config a.attribution g (a.withoutFaults d config)) g).skip
          (items ++ s.aggregates.flatMap (commandFailures d config)) :=
    Generation.foldl_skip addCommandFile_skip s.aggregates g items
  have hapis (g : Generation) (items : List Skipped) :
      s.apiTags.values.foldl (addApiFile d config) (g.skip items)
        = (s.apiTags.values.foldl
            (fun g t => addApiFile d config g (t.withoutFaults d config)) g).skip
          (items ++ s.apiTags.values.flatMap (apiFailures d config)) :=
    Generation.foldl_skip addApiFile_skip s.apiTags.values g items
  have htags : (s.withoutFaults d config).apiTags.values
      = s.apiTags.values.map (·.withoutFaults d config) := OrderedMap.values_map ..
  unfold generation generationAs
  rw [Service.aggregates_withoutFaults, s.attributions_zip, htags]
  -- each stage hands its records on to the next, and the last hands over all
  simp only [List.foldlM_map, List.foldl_map, hqueries, bind_map_left, hcommands, hapis, map_bind,
    map_pure, methodFailures]

/-- What becomes of the methods of a service that fail. -/
structure MethodsTraceless (d : Document) (s : Service) (config : Configuration) : Prop where
  /-- Whether the method of a query fails does not depend on the methods before it. -/
  query : ∀ (a : Aggregate) c op,
    (queryMethods d (config.ignoredPathParameters a.tag.name) c op).fault?
      = a.queryFault? d config op
  command : ∀ (a : Aggregate) c command,
    (commandMethods d a.attribution (config.ignoredPathParameters a.tag.name) c command).fault?
      = a.commandFault? d config command
  operation : ∀ (t : ApiTag) c op,
    (apiMethods d (config.ignoredPathParameters t.tag.name) c op).fault? = t.fault? d config op
  /-- The run is the run that is told the attributions of the service. -/
  attributed : generation d s config = generationAs d s.attributions s config
  /-- Told the same attributions, the run on the service without the methods that fail generates
      the same; only their records are missing in it. -/
  run : generation d s config
    = (·.skip (methodFailures d s config)) <$>
      generationAs d s.attributions (s.withoutFaults d config) config
  /-- There is one record for each query that is taken away, and so for commands and operations. -/
  queries : ∀ a ∈ s.aggregates,
    (queryFailures d config a).length + (a.withoutFaults d config).queries.length
      = a.queries.length
  commands : ∀ a ∈ s.aggregates,
    (commandFailures d config a).length + (a.withoutFaults d config).commands.length
      = a.commands.length
  operations : ∀ t ∈ s.apiTags.values,
    (apiFailures d config t).length + (t.withoutFaults d config).operations.length
      = t.operations.length

/-- A client method that cannot be built leaves one record and no other trace, whatever the
    document, the service and the configuration are. -/
theorem generation_withoutFaults (d : Document) (s : Service) (config : Configuration) :
    MethodsTraceless d s config where
  query _ c op := fault?_queryMethods d _ op c default
  command _ c command := fault?_commandMethods d _ _ command c default
  operation _ c op := fault?_apiMethods d _ op c default
  attributed := generation_eq_generationAs s
  run := generation_eq_skip s
  queries a _ := length_failuresOf_add_filter _ _ a.queries
  commands a _ := length_failuresOf_add_filter _ _ a.commands
  operations t _ := length_failuresOf_add_filter _ _ t.operations

end ClientGen
