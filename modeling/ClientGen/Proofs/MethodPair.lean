/-
  ClientGen.Proofs.MethodPair

  Methods that are built for one item, side by side: that of the plain client and, if there
  is one, that of the streaming client.  The classes of a pair of clients are read off the
  list of these pairs, so that what holds of one pair holds of the classes.  The command
  clients are the case in which the two methods have one name, whatever is left out.
-/
import ClientGen.Proofs.ClassMember
import ClientGen.Proofs.Represented
import ClientGen.Proofs.SkippedMethod

namespace ClientGen

open TypeScript

/-! ## Pairs of methods -/

/-- The methods that are built for an item. -/
structure MethodPair (α : Type) where
  item : α
  plain : MethodDecl
  stream? : Option MethodDecl

/-- The names of the plain methods of pairs. -/
def plainNamesOf {α : Type} (pairs : List (MethodPair α)) : List String :=
  pairs.map (·.plain.name)

/-- The names of the streaming methods of pairs. -/
def streamNamesOf {α : Type} (pairs : List (MethodPair α)) : List String :=
  pairs.filterMap fun p => p.stream?.map (·.name)

namespace ClientPair

variable {α : Type}

/-- The pairs of methods that items add to clients, each built after those before it. -/
def pairs (label : α → String)
    (build : ClientPair → α → Importing (MethodDecl × Option MethodDecl)) :
    List α → ClientPair → List (MethodPair α)
  | [], _ => []
  | item :: rest, c =>
    let later := pairs label build rest (c.addBuilt (label item) (build c item))
    match (build c item).result with
    | .ok (plain, stream?) => ⟨item, plain, stream?⟩ :: later
    | .error _ => later

section Run

variable {label identifier : α → String}
  {build : ClientPair → α → Importing (MethodDecl × Option MethodDecl)}
  {c : ClientPair} {item : α} {rest : List α}

theorem pairs_cons_of_ok {plain : MethodDecl} {stream? : Option MethodDecl}
    (h : (build c item).result = .ok (plain, stream?)) :
    pairs label build (item :: rest) c
      = ⟨item, plain, stream?⟩
          :: pairs label build rest (c.addBuilt (label item) (build c item)) := by
  rw [pairs, h]

theorem pairs_cons_of_error {e : GenerationError} (h : (build c item).result = .error e) :
    pairs label build (item :: rest) c
      = pairs label build rest (c.addBuilt (label item) (build c item)) := by
  rw [pairs, h]

theorem methods_addBuilt_of_ok {plain : MethodDecl} {stream? : Option MethodDecl}
    {built : Importing (MethodDecl × Option MethodDecl)} (c : ClientPair) (label : String)
    (h : built.result = .ok (plain, stream?)) :
    (c.addBuilt label built).plain.methods = c.plain.methods ++ [plain] ∧
      (c.addBuilt label built).stream.methods = c.stream.methods ++ stream?.toList := by
  unfold addBuilt
  rw [h]
  cases stream? with
  | none => exact ⟨rfl, (List.append_nil _).symm⟩
  | some stream => exact ⟨rfl, rfl⟩

theorem methods_addBuilt_of_error {e : GenerationError}
    {built : Importing (MethodDecl × Option MethodDecl)} (c : ClientPair) (label : String)
    (h : built.result = .error e) :
    (c.addBuilt label built).plain.methods = c.plain.methods ∧
      (c.addBuilt label built).stream.methods = c.stream.methods := by
  unfold addBuilt
  rw [h]
  exact ⟨rfl, rfl⟩

/-- Both classes consist of the methods of the pairs. -/
theorem methods_addAll (items : List α) (c : ClientPair) :
    (addAll label build items c).plain.methods
        = c.plain.methods ++ (pairs label build items c).map (·.plain) ∧
      (addAll label build items c).stream.methods
        = c.stream.methods ++ (pairs label build items c).filterMap (·.stream?) := by
  induction items generalizing c with
  | nil => exact ⟨(List.append_nil _).symm, (List.append_nil _).symm⟩
  | cons item rest ih =>
    obtain ⟨hplain, hstream⟩ := ih (c.addBuilt (label item) (build c item))
    rw [addAll_cons, hplain, hstream]
    cases hbuilt : (build c item).result with
    | ok methods =>
      obtain ⟨plain, stream?⟩ := methods
      obtain ⟨hfirst, hsecond⟩ := methods_addBuilt_of_ok c (label item) hbuilt
      rw [hfirst, hsecond, pairs_cons_of_ok hbuilt]
      cases stream? <;> simp
    | error e =>
      obtain ⟨hfirst, hsecond⟩ := methods_addBuilt_of_error c (label item) hbuilt
      rw [hfirst, hsecond, pairs_cons_of_error hbuilt]
      exact ⟨rfl, rfl⟩

/-- Clients that start empty have the methods of the pairs only. -/
theorem methods_addAll_empty (label : α → String)
    (build : ClientPair → α → Importing (MethodDecl × Option MethodDecl)) (items : List α)
    (start plainEnding streamEnding : String) (docs : List String) :
    let fresh := empty start plainEnding streamEnding docs
    (addAll label build items fresh).plain.methods
        = (pairs label build items fresh).map (·.plain) ∧
      (addAll label build items fresh).stream.methods
        = (pairs label build items fresh).filterMap (·.stream?) :=
  methods_addAll items _

/-- There is a pair for every item that does not fail, in order. -/
theorem map_item_pairs {fault? : α → Option GenerationError}
    (h : ∀ c a, (build c a).fault? = fault? a) (items : List α) (c : ClientPair) :
    (pairs label build items c).map (·.item) = items.filter fun a => (fault? a).isNone := by
  induction items generalizing c with
  | nil => rfl
  | cons item rest ih =>
    have hrest := ih (c.addBuilt (label item) (build c item))
    cases hbuilt : (build c item).result with
    | ok methods =>
      have hnone : fault? item = none := by
        rw [← h c item]
        exact Traced.fault?_eq_none_iff.2 ⟨methods, hbuilt⟩
      rw [pairs_cons_of_ok hbuilt, List.map_cons, hrest, List.filter_cons_of_pos (by simp [hnone])]
    | error e =>
      have hsome : fault? item = some e := by
        rw [← h c item]
        exact Traced.fault?_eq_some_iff.2 hbuilt
      rw [pairs_cons_of_error hbuilt, hrest, List.filter_cons_of_neg (by simp [hsome])]

/-- Every pair was built among clients of which there holds what holds at first and after every
    item. -/
theorem built_of_mem_pairs {I : ClientPair → Prop}
    (hstep : ∀ c item, I c → I (c.addBuilt (label item) (build c item))) {items : List α}
    {c : ClientPair} (hc : I c) {p : MethodPair α} (hp : p ∈ pairs label build items c) :
    ∃ before, I before ∧ (build before p.item).result = .ok (p.plain, p.stream?) := by
  induction items generalizing c with
  | nil => exact absurd hp List.not_mem_nil
  | cons item rest ih =>
    have hnext : I (c.addBuilt (label item) (build c item)) := hstep c item hc
    cases hbuilt : (build c item).result with
    | ok methods =>
      rw [pairs_cons_of_ok hbuilt] at hp
      rcases List.mem_cons.1 hp with rfl | hp
      · exact ⟨c, hc, hbuilt⟩
      · exact ih hnext hp
    | error e =>
      rw [pairs_cons_of_error hbuilt] at hp
      exact ih hnext hp

/-- Every pair was built for its item. -/
theorem exists_built_of_mem_pairs {items : List α} {c : ClientPair} {p : MethodPair α}
    (hp : p ∈ pairs label build items c) :
    ∃ before, (build before p.item).result = .ok (p.plain, p.stream?) := by
  obtain ⟨before, -, hbuilt⟩ := built_of_mem_pairs (I := fun _ => True) (fun _ _ _ => trivial)
    trivial hp
  exact ⟨before, hbuilt⟩

end Run

end ClientPair

/-! ## Methods that are alike -/

/-- Whether two methods differ in their names and in what they return only. -/
structure TypeScript.MethodDecl.Alike (m s : MethodDecl) : Prop where
  docs : s.docs = m.docs
  decorators : s.decorators = m.decorators
  parameters : s.parameters = m.parameters
  body : s.body = m.body

section Build

variable {d : Document} {m s : MethodDecl}

/-- Plans that differ in their names and results only build methods that are alike. -/
theorem MethodPlan.Builds.alike {p : MethodPlan} {name returnType : String}
    (h : p.Builds d m) (h' : { p with name, returnType }.Builds d s) : m.Alike s := by
  -- neither the name nor the result has a part in the parameters
  have hparameters : s.parameters = m.parameters :=
    Except.ok.inj (h'.parameters.symm.trans h.parameters)
  have hbody : s.body = m.body := by
    rw [h'.body, h.body, hparameters]
  exact ⟨h'.docs.trans h.docs.symm, h'.decorators.trans h.decorators.symm, hparameters, hbody⟩

end Build

/-! ## Command clients -/

/-- Whether the methods of a command are twins: they differ in what they return and in nothing
    else. -/
structure CommandTwins (m s : MethodDecl) : Prop extends m.Alike s where
  name : s.name = m.name
  plainResult : m.returnType = "Promise<CommandResult>"
  streamResult : s.returnType = "Promise<JsonServerSentEventStream<CommandResult>>"

section Commands

variable {d : Document} {config : Configuration} {attribution : Attribution}
  {ignored : List String} {c : ClientPair} {command : Command} {plain : MethodDecl}
  {stream? : Option MethodDecl}

/-- The methods of a command have one name if the classes have the same names so far. -/
theorem commandTwins_of_commandMethods (hnames : c.plainNames = c.streamNames)
    (h : (commandMethods d attribution ignored c command).result = .ok (plain, stream?)) :
    ∃ stream, stream? = some stream ∧ CommandTwins plain stream := by
  obtain ⟨body, first, second, hfirst, hsecond, rfl, rfl⟩ := built_of_commandMethods h
  have halike : first.Alike second := hfirst.alike hsecond
  have hname : second.name = first.name := by
    calc second.name = methodName c.streamNames command.operation.identifier := hsecond.name
      _ = methodName c.plainNames command.operation.identifier := by rw [hnames]
      _ = first.name := hfirst.name.symm
  refine ⟨_, rfl, ⟨?docs, halike.decorators, halike.parameters, halike.body⟩, hname,
    hfirst.returnType, hsecond.returnType⟩
  case docs =>
    -- both are documented by what the plain method had
    show command.docs d first.docs second.docs = command.docs d first.docs first.docs
    rw [halike.docs]

/-- A command that is added, or left out, keeps the names of both classes the same. -/
theorem names_addBuilt_commandMethods (hnames : c.plainNames = c.streamNames) :
    let added := c.addBuilt command.schemaKey (commandMethods d attribution ignored c command)
    added.plainNames = added.streamNames := by
  intro added
  unfold ClientPair.plainNames ClientPair.streamNames
  cases hbuilt : (commandMethods d attribution ignored c command).result with
  | ok methods =>
    obtain ⟨plain, stream?⟩ := methods
    obtain ⟨stream, rfl, htwins⟩ := commandTwins_of_commandMethods hnames hbuilt
    obtain ⟨hplain, hstream⟩ :=
      ClientPair.methods_addBuilt_of_ok c command.schemaKey hbuilt
    have hsame : c.plain.methods.map (·.name) = c.stream.methods.map (·.name) := hnames
    rw [hplain, hstream, List.map_append, List.map_append, hsame]
    simp [htwins.name]
  | error e =>
    obtain ⟨hplain, hstream⟩ :=
      ClientPair.methods_addBuilt_of_error c command.schemaKey hbuilt
    rw [hplain, hstream]
    exact hnames

/-- The pairs of methods of an aggregate's command clients. -/
def commandPairs (d : Document) (config : Configuration) (a : Aggregate) :
    List (MethodPair Command) :=
  ClientPair.pairs Command.schemaKey
    (commandMethods d a.attribution (config.ignoredPathParameters a.tag.name)) a.commands
    (.empty a.start "CommandClient" "StreamCommandClient" a.tag.docs)

/-- By the invariant that the classes have the same names, every command has twins. -/
theorem commandTwins_of_mem_commandPairs {a : Aggregate} {p : MethodPair Command}
    (hp : p ∈ commandPairs d config a) :
    p.item.HasMethod d a.attribution (config.ignoredPathParameters a.tag.name) p.plain ∧
      ∃ stream, p.stream? = some stream ∧ CommandTwins p.plain stream := by
  obtain ⟨before, hnames, hbuilt⟩ := ClientPair.built_of_mem_pairs
    (I := fun c => c.plainNames = c.streamNames)
    (fun _ _ hc => names_addBuilt_commandMethods hc) rfl hp
  exact ⟨Command.hasMethod_of_commandMethods hbuilt (.inl rfl),
    commandTwins_of_commandMethods hnames hbuilt⟩

/-- The command clients consist of the methods of the pairs, one for each command that does not
    fail. -/
theorem commandPairs_spec (d : Document) (config : Configuration) (a : Aggregate) :
    (commandPairs d config a).map (·.item) = (a.withoutFaults d config).commands ∧
      (commandClients d config a).plain.methods = (commandPairs d config a).map (·.plain) ∧
      (commandClients d config a).stream.methods
        = (commandPairs d config a).filterMap (·.stream?) := by
  refine ⟨ClientPair.map_item_pairs (fun c command => ?_) _ _, ClientPair.methods_addAll_empty ..⟩
  exact fault?_commandMethods d _ _ command c default

end Commands

/-- Methods that all have a partner go with their partners one by one. -/
theorem forall₂_of_stream? {α : Type} {R : MethodDecl → MethodDecl → Prop}
    {pairs : List (MethodPair α)}
    (h : ∀ p ∈ pairs, ∃ stream, p.stream? = some stream ∧ R p.plain stream) :
    List.Forall₂ R (pairs.map (·.plain)) (pairs.filterMap (·.stream?)) := by
  induction pairs with
  | nil => exact .nil
  | cons p rest ih =>
    obtain ⟨stream, hstream, hR⟩ := h p List.mem_cons_self
    rw [List.map_cons, List.filterMap_cons_some hstream]
    exact .cons hR (ih fun q hq => h q (List.mem_cons_of_mem _ hq))

/-- The clients for the commands of an aggregate have twins only: there are as many methods in the
    one as in the other, one for each command that does not fail, and in order they differ in what
    they return and in nothing else.  Both classes are emitted whenever code is generated. -/
theorem command_clients_twins (d : Document) (config : Configuration) (a : Aggregate) :
    let clients := commandClients d config a
    clients.plain.name = a.start ++ "CommandClient" ∧
      clients.stream.name = a.start ++ "StreamCommandClient" ∧
      List.Forall₂ CommandTwins clients.plain.methods clients.stream.methods ∧
      List.Forall₂ (fun c m =>
        c.HasMethod d a.attribution (config.ignoredPathParameters a.tag.name) m)
        (a.withoutFaults d config).commands clients.plain.methods ∧
      ∀ g, generation d d.service config = .ok g → a ∈ d.service.aggregates →
        ∃ f, g.project.get? (FilePath.normalize a.commandFile) = some f ∧
          .class clients.plain ∈ f.declarations ∧ .class clients.stream ∈ f.declarations := by
  intro clients
  obtain ⟨hitems, hplain, hstream⟩ := commandPairs_spec d config a
  refine ⟨?_, ?_, ?_, ?_, fun g hg ha => ?_⟩
  · exact congrArg ClassDecl.name (ClientPair.plain_addAll a.commands _)
  · exact congrArg ClassDecl.name (ClientPair.stream_addAll a.commands _)
  · rw [hplain, hstream]
    exact forall₂_of_stream? fun p hp => (commandTwins_of_mem_commandPairs hp).2
  · rw [hplain, ← hitems, List.forall₂_map_left_iff, List.forall₂_map_right_iff]
    exact List.forall₂_same.2 fun p hp => (commandTwins_of_mem_commandPairs hp).1
  · rw [generation_eq_ok hg, Generation.project_ofPieces]
    obtain ⟨f, hf, hdecls⟩ := Project.exists_file_of_mem (commandContribution_mem config ha)
    exact ⟨f, hf, hdecls _ List.mem_cons_self, hdecls _ (List.mem_cons_of_mem _ List.mem_cons_self)⟩

/-- Three commands, the second of which fails: its schema for a query parameter is missing. -/
def interruptedDocument : Document :=
  let body (key : String) : RequestBody :=
    { content := .ofList [("application/json", ⟨some (.referenceTo key)⟩)] }
  let accepts (identifier key : String) (parameters : List (RefOr Parameter)) : PathItem :=
    .only .post
      { operationId := some identifier, tags := ["shop.order"], parameters
        requestBody := some (.item (body key)), responses := .ofList [] }
  let at? : Parameter :=
    { name := "at", location := .query, schema := some (.referenceTo "shop.order.Missing") }
  { paths := .ofList
      [("/order/place", accepts "order.create" "shop.order.Create" []),
       ("/order/ship", accepts "order.ship" "shop.order.Ship" [.item at?]),
       ("/order/draft", accepts "draft.create" "shop.order.Draft" [])]
    components.schemas := .ofList
      [("shop.order.Create", { type := some (.single "object") }),
       ("shop.order.Ship", { type := some (.single "object") }),
       ("shop.order.Draft", { type := some (.single "object") })] }

theorem command_clients_twins_interrupted :
    ∃ g, generation interruptedDocument interruptedDocument.service {} = .ok g ∧
      ∃ a ∈ interruptedDocument.service.aggregates, a.commands.length = 3 ∧
        (commandClients interruptedDocument {} a).plainNames = ["create", "draftCreate"] ∧
        List.Forall₂ CommandTwins (commandClients interruptedDocument {} a).plain.methods
          (commandClients interruptedDocument {} a).stream.methods ∧
        ∃ f, g.project.get? (FilePath.normalize a.commandFile) = some f ∧
          .class (commandClients interruptedDocument {} a).stream ∈ f.declarations := by
  have hrun : (generation interruptedDocument interruptedDocument.service {}).toOption.any
      (fun _ => true) = true := by
    decide +kernel
  have hnames : interruptedDocument.service.aggregates.any (fun a =>
      a.commands.length = 3 && (commandClients interruptedDocument {} a).plainNames
        = ["create", "draftCreate"]) = true := by
    decide +kernel
  obtain ⟨g, hg, -⟩ := exists_ok_of_any hrun
  obtain ⟨a, ha, hfacts⟩ := List.any_eq_true.1 hnames
  obtain ⟨hlength, hplain⟩ := Bool.and_eq_true_iff.1 hfacts
  obtain ⟨-, -, htwins, -, hemitted⟩ := command_clients_twins interruptedDocument {} a
  obtain ⟨f, hf, -, hstream⟩ := hemitted g hg ha
  exact ⟨g, hg, a, ha, of_decide_eq_true hlength, of_decide_eq_true hplain, htwins, f, hf, hstream⟩

end ClientGen
