/-
  ClientGen.Proofs.PathOrder

  What is resolved does not depend on the order of the paths.  The place of an
  operation is its own, whatever came before it, so another order of the paths
  gives the same places in another order.  An aggregate keeps each command once
  and each of its paths once, and votes by counting them: `service_perm` says
  that nothing of this depends on the order, and for whom the votes are.
-/
import ClientGen.Proofs.CommandRoute

namespace ClientGen

variable {d : Document}

/-! ## Paths of commands -/

section CommandPaths

variable {a b : Aggregate} {uses uses' : List CommandUse} {key path : String}

/-- The commands of an aggregate with their paths, one pair for each. -/
def Aggregate.commandPaths (a : Aggregate) : List (String × String) :=
  a.commands.flatMap fun c => c.routes.map (c.schemaKey, ·)

theorem CommandUse.Gathered.mem_routes_iff {c : Command} (h : Gathered uses c) :
    path ∈ c.routes ↔ ∃ use ∈ uses, use.schemaKey = c.schemaKey ∧ use.operation.path = path := by
  rw [h.routes, List.mem_eraseDups, List.mem_map]
  simp only [usesOf, List.mem_filter, decide_eq_true_eq, and_assoc]

theorem CommandUse.AreGathered.mem_commandPaths_iff (h : AreGathered uses a.commands) :
    (key, path) ∈ a.commandPaths ↔
      ∃ use ∈ uses, use.schemaKey = key ∧ use.operation.path = path := by
  rw [Aggregate.commandPaths, List.mem_flatMap]
  constructor
  · rintro ⟨c, hc, hpair⟩
    obtain ⟨_, hpath, heq⟩ := List.mem_map.1 hpair
    cases heq
    exact (h.commands c hc).mem_routes_iff.1 hpath
  · rintro ⟨use, huse, rfl, rfl⟩
    -- the key of the operation is that of a command
    have hkey : use.schemaKey ∈ a.commands.map (·.schemaKey) := by
      rw [h.keys, List.mem_eraseDups]
      exact List.mem_map_of_mem huse
    obtain ⟨c, hc, hsame⟩ := List.mem_map.1 hkey
    refine ⟨c, hc, List.mem_map.2 ⟨use.operation.path, ?_, by rw [hsame]⟩⟩
    exact (h.commands c hc).mem_routes_iff.2 ⟨use, huse, hsame.symm, rfl⟩

theorem CommandUse.AreGathered.nodup_commandPaths (h : AreGathered uses a.commands) :
    a.commandPaths.Nodup := by
  have hkeys : (a.commands.map (·.schemaKey)).Nodup := by
    rw [h.keys]
    exact nodup_eraseDups _
  rw [Aggregate.commandPaths, List.nodup_flatMap]
  constructor
  · -- one command has each of its paths once
    intro c hc
    have hroutes : c.routes.Nodup := by
      rw [(h.commands c hc).routes]
      exact nodup_eraseDups _
    exact hroutes.map fun path path' heq => (Prod.mk.inj heq).2
  · -- pairs of two commands differ in their keys
    apply List.Pairwise.imp _ (List.pairwise_map.1 hkeys)
    intro c c' hne pair hpair hpair'
    obtain ⟨_, -, rfl⟩ := List.mem_map.1 hpair
    obtain ⟨_, -, heq⟩ := List.mem_map.1 hpair'
    exact hne (Prod.mk.inj heq).1.symm

theorem CommandUse.AreGathered.commandPaths_perm (h : AreGathered uses a.commands)
    (h' : AreGathered uses' b.commands) (huses : uses.Perm uses') :
    a.commandPaths.Perm b.commandPaths := by
  rw [List.perm_ext_iff_of_nodup h.nodup_commandPaths h'.nodup_commandPaths]
  rintro ⟨key, path⟩
  rw [h.mem_commandPaths_iff, h'.mem_commandPaths_iff]
  simp only [huses.mem_iff]

end CommandPaths

/-! ## Votes -/

/-- The number of commands' paths that begin so. -/
def Aggregate.votes (a : Aggregate) (start : String) : Nat :=
  a.commandPaths.countP fun pair => Text.startsWith start pair.2

theorem Aggregate.attribution_eq_ite (a : Aggregate) :
    a.attribution
      = if a.votes Attribution.tenantStart = 0 ∧ a.votes Attribution.ownerStart = 0 then .shared
        else if a.votes Attribution.tenantStart > a.votes Attribution.ownerStart then .tenant
        else .owner := by
  -- the vote counts paths; the pairs say whose they are, so that none is counted for another
  have hroutes : a.commands.flatMap (·.routes) = a.commandPaths.map Prod.snd := by
    rw [commandPaths, List.map_flatMap]
    simp only [List.map_map, Function.comp_def, List.map_id']
  have hvotes (start : String) :
      Attribution.votes start (a.commands.flatMap (·.routes)) = a.votes start := by
    rw [Attribution.votes, hroutes, List.countP_map]
    rfl
  unfold attribution Attribution.ofRoutes
  simp only [hvotes]

theorem Aggregate.votes_eq_zero_iff (a : Aggregate) (start : String) :
    a.votes start = 0 ↔ ∀ pair ∈ a.commandPaths, ¬Text.startsWith start pair.2 = true :=
  List.countP_eq_zero

/-- An aggregate whose attribution is what the paths of its commands vote for, where each pair of a
    command and a path of an operation has one vote. -/
structure Aggregate.Voted (d : Document) (a : Aggregate) : Prop where
  pairs : ∀ key path, (key, path) ∈ a.commandPaths ↔ ∃ op, d.HasCommand a key op ∧ op.path = path
  once : a.commandPaths.Nodup
  tenant : a.attribution = .tenant ↔
    a.votes Attribution.ownerStart < a.votes Attribution.tenantStart
  shared : a.attribution = .shared ↔ ∀ pair ∈ a.commandPaths,
    ¬Text.startsWith Attribution.tenantStart pair.2 = true ∧
      ¬Text.startsWith Attribution.ownerStart pair.2 = true
  owner : a.attribution = .owner ↔
    a.votes Attribution.tenantStart ≤ a.votes Attribution.ownerStart ∧
      ∃ pair ∈ a.commandPaths, Text.startsWith Attribution.tenantStart pair.2 = true ∨
        Text.startsWith Attribution.ownerStart pair.2 = true

theorem voted_of_mem_aggregates {a : Aggregate} (ha : a ∈ d.service.aggregates) : a.Voted d := by
  have hgathered : CommandUse.AreGathered (d.usesIn a) a.commands :=
    d.areGathered_of_mem ha
  have hnone : (a.votes Attribution.tenantStart = 0 ∧ a.votes Attribution.ownerStart = 0) ↔
      ∀ pair ∈ a.commandPaths, ¬Text.startsWith Attribution.tenantStart pair.2 = true ∧
        ¬Text.startsWith Attribution.ownerStart pair.2 = true := by
    simp only [forall_and, a.votes_eq_zero_iff]
  have hsome : (∃ pair ∈ a.commandPaths, Text.startsWith Attribution.tenantStart pair.2 = true ∨
      Text.startsWith Attribution.ownerStart pair.2 = true) ↔
      ¬(a.votes Attribution.tenantStart = 0 ∧ a.votes Attribution.ownerStart = 0) := by
    rw [hnone]
    simp only [not_forall, not_and_or, not_not, exists_prop]
  constructor
  case pairs =>
    intro key path
    rw [hgathered.mem_commandPaths_iff]
    simp only [hasCommand_iff]
    constructor
    · rintro ⟨use, huse, hkey, hpath⟩
      exact ⟨use.operation, ⟨use, huse, hkey, rfl⟩, hpath⟩
    · rintro ⟨_, ⟨use, huse, hkey, rfl⟩, hpath⟩
      exact ⟨use, huse, hkey, hpath⟩
  case once => exact hgathered.nodup_commandPaths
  case tenant =>
    rw [a.attribution_eq_ite]
    -- without any vote neither side has more
    split
    · next hzero =>
      simp only [reduceCtorEq, false_iff]
      omega
    · split
      · next hmore => exact iff_of_true rfl hmore
      · next hmore => exact iff_of_false (fun h => by cases h) hmore
  case shared =>
    rw [a.attribution_eq_ite, ← hnone]
    split
    · next hzero => exact iff_of_true rfl hzero
    · next hzero =>
      refine iff_of_false ?_ hzero
      split <;> exact fun h => by cases h
  case owner =>
    rw [a.attribution_eq_ite, hsome]
    split
    · next hzero => exact iff_of_false (fun h => by cases h) fun h => h.2 hzero
    · next hzero =>
      split
      · next hmore => exact iff_of_false (fun h => by cases h) fun h => by omega
      · next hmore => exact iff_of_true rfl ⟨by omega, hzero⟩

/-! ## Which aggregates and tags there are -/

/-- The context and the name of the aggregate that an endpoint's operation belongs to, in whatever
    role. -/
def Endpoint.home? (d : Document) (e : Endpoint) : Option (String × String) :=
  (e.resolve d).toOption.bind fun op => (op.aggregate? d).map fun a => (a.context, a.name)

namespace Service

variable {s : Service} {homes : List (String × String)}

/-- A service whose aggregates are those of certain contexts and names, and whose aggregates and
    tags are described as they are in the document. -/
structure Founded (s : Service) (d : Document) (homes : List (String × String)) : Prop where
  aggregates : ∀ context name, (s.aggregate? context name).isSome ↔ (context, name) ∈ homes
  contexts : ∀ context ∈ s.contexts.keys, ∃ name, (context, name) ∈ homes
  tag : ∀ context name a, s.aggregate? context name = some a →
    a.tag = d.tag (context ++ "." ++ name)
  apiTag : ∀ tag t, s.apiTags.get? tag = some t → t.tag = d.tag tag ∧ t.operations ≠ []

theorem Founded.nil : Founded {} d [] where
  aggregates _ _ := iff_of_false Bool.false_ne_true List.not_mem_nil
  contexts _ h := absurd h List.not_mem_nil
  tag _ _ _ h := by cases h
  apiTag _ _ h := by cases h

theorem Founded.skip (h : s.Founded d homes) (item : String) (err : GenerationError) :
    (s.skip item err).Founded d homes :=
  ⟨h.aggregates, h.contexts, h.tag, h.apiTag⟩

/-- An aggregate is there from its first operation on. -/
theorem Founded.alterAggregate (h : s.Founded d homes) {fresh : Aggregate}
    {change : Aggregate → Aggregate} (hfresh : fresh.tag = d.tag (fresh.context ++ "." ++ fresh.name))
    (hchange : ∀ a, (change a).tag = a.tag) :
    (s.alterAggregate fresh change).Founded d (homes ++ [(fresh.context, fresh.name)]) := by
  constructor
  case aggregates =>
    intro context name
    rw [aggregate?_alterAggregate, List.mem_append, List.mem_singleton, Prod.mk.injEq]
    split
    · next heq => exact iff_of_true rfl (.inr heq)
    · next hne =>
      rw [h.aggregates]
      exact (or_iff_left hne).symm
  case contexts =>
    intro context hcontext
    rcases SortedMap.mem_keys_alter.1 hcontext with rfl | hcontext
    · exact ⟨fresh.name, List.mem_append_right _ List.mem_cons_self⟩
    · obtain ⟨name, hname⟩ := h.contexts context hcontext
      exact ⟨name, List.mem_append_left _ hname⟩
  case tag =>
    intro context name a ha
    rw [aggregate?_alterAggregate] at ha
    split at ha
    · next heq =>
      obtain ⟨rfl, rfl⟩ := heq
      rw [← Option.some.inj ha, hchange]
      -- the tag that an aggregate is described by is named by its context and name
      cases hfound : s.aggregate? fresh.context fresh.name with
      | none => exact hfresh
      | some found => exact h.tag _ _ found hfound
    · exact h.tag context name a ha
  case apiTag => exact h.apiTag

theorem Founded.addToTag (h : s.Founded d homes) (tag : String) (op : ResolvedOperation) :
    (s.addToTag (d.tag tag) op).Founded d homes := by
  refine ⟨h.aggregates, h.contexts, h.tag, ?_⟩
  intro key t ht
  unfold Service.addToTag at ht
  rw [OrderedMap.get?_put, name_tag] at ht
  split at ht
  · next heq =>
    subst heq
    rw [← Option.some.inj ht]
    refine ⟨?_, by simp⟩
    cases hfound : s.apiTags.get? key with
    | none => rfl
    | some found => exact (h.apiTag key found hfound).1
  · exact h.apiTag key t ht

/-- One endpoint founds the home of its operation. -/
theorem Founded.addEndpoint (h : s.Founded d homes) (e : Endpoint) :
    (s.addEndpoint d e).Founded d (homes ++ (e.home? d).toList) := by
  unfold Service.addEndpoint Endpoint.home?
  cases hop : e.resolve d with
  | error err =>
    have hstays : (s.skip e.label err).Founded d homes := h.skip e.label err
    exact (List.append_nil homes).symm ▸ hstays
  | ok op =>
    simp only [Except.toOption, Option.bind_some]
    cases haggregate : op.aggregate? d with
    | none =>
      rw [Option.map_none, Option.toList_none, List.append_nil]
      cases op.tags.head? with
      | none => exact h
      | some tag => exact h.addToTag tag op
    | some fresh =>
      obtain ⟨tag, context, name, hfirst, rfl⟩ :=
        ResolvedOperation.aggregate?_eq_some_iff.1 haggregate
      have hfresh : d.tag tag = d.tag (context ++ "." ++ name) := congrArg d.tag hfirst.names.text
      cases op.role d with
      | ok role => exact h.alterAggregate hfresh fun a => by cases role <;> rfl
      -- the aggregate is founded even if the operation has no role in it
      | error err => exact (h.alterAggregate hfresh fun a => rfl).skip e.label err

theorem Founded.mem_contexts_iff (h : s.Founded d homes) {context : String} :
    context ∈ s.contexts.keys ↔ ∃ name, (context, name) ∈ homes := by
  constructor
  · exact h.contexts context
  · rintro ⟨name, hname⟩
    obtain ⟨a, ha⟩ := Option.isSome_iff_exists.1 ((h.aggregates context name).2 hname)
    obtain ⟨found, hfound, -⟩ := Option.bind_eq_some_iff.1 ha
    exact SortedMap.mem_keys_iff.2 ⟨found, hfound⟩

theorem Founded.mem_names_iff (h : s.Founded d homes) {places : List Place} (hs : s.Holds places)
    (pair : String × String) : pair ∈ s.aggregates.map (fun a => (a.context, a.name)) ↔ pair ∈ homes := by
  obtain ⟨context, name⟩ := pair
  rw [← h.aggregates, Option.isSome_iff_exists, List.mem_map]
  constructor
  · rintro ⟨a, ha, heq⟩
    cases heq
    exact ⟨a, hs.aggregate?_of_mem ha⟩
  · rintro ⟨a, ha⟩
    obtain ⟨rfl, rfl⟩ := hs.named context name a ha
    exact ⟨a, mem_aggregates_iff_aggregate?.2 ⟨_, _, ha⟩, rfl⟩

/-- A tag is there when it has operations. -/
theorem Founded.isSome_apiTag_iff (h : s.Founded d homes) {tag : String} :
    (s.apiTags.get? tag).isSome ↔ s.operationsOf tag ≠ [] := by
  rw [operationsOf]
  cases ht : s.apiTags.get? tag with
  | none => exact iff_of_false Bool.false_ne_true fun hne => hne rfl
  | some t => exact iff_of_true rfl (h.apiTag tag t ht).2

/-- By induction on the endpoints. -/
theorem Founded.foldl (h : s.Founded d homes) (endpoints : List Endpoint) :
    (endpoints.foldl (Service.addEndpoint d) s).Founded d
      (homes ++ endpoints.flatMap fun e => (e.home? d).toList) := by
  induction endpoints generalizing s homes with
  | nil =>
    rw [List.flatMap_nil, List.append_nil]
    exact h
  | cons e rest ih =>
    rw [List.flatMap_cons, ← List.append_assoc]
    exact ih (h.addEndpoint e)

end Service

/-- The contexts and names of all aggregates to which operations belong. -/
def Document.homes (d : Document) : List (String × String) :=
  d.endpoints.flatMap fun e => (e.home? d).toList

theorem Document.parted_founded (d : Document) : d.parted.Founded d d.homes :=
  Service.Founded.nil.foldl d.endpoints

/-! ## Another order -/

/-- Aggregates that differ in the order only of what they keep of their operations, and so in which
    operation comes first. -/
structure AlikeAggregate (a b : Aggregate) : Prop where
  context : a.context = b.context
  name : a.name = b.name
  tag : a.tag = b.tag
  state : a.state = b.state
  fields : a.fields = b.fields
  events : a.events = b.events
  queries : a.queries.Perm b.queries
  commands : (a.commands.map (·.schemaKey)).Perm (b.commands.map (·.schemaKey))
  routes : ∀ c ∈ a.commands, ∀ c' ∈ b.commands, c.schemaKey = c'.schemaKey →
    c.routes.Perm c'.routes
  attribution : a.attribution = b.attribution

structure AlikeTag (t u : ApiTag) : Prop where
  tag : t.tag = u.tag
  operations : t.operations.Perm u.operations

/-- Services with the same contexts, aggregates, tags and records, but for their order. -/
structure AlikeService (s s' : Service) : Prop where
  contexts : s.contexts.keys = s'.contexts.keys
  aggregates : ∀ context name,
    Option.Rel AlikeAggregate (s.aggregate? context name) (s'.aggregate? context name)
  apiTags : ∀ tag, Option.Rel AlikeTag (s.apiTags.get? tag) (s'.apiTags.get? tag)
  skipped : s.skipped.Perm s'.skipped

theorem perm_eraseDups {α : Type} [DecidableEq α] {l l' : List α} (h : l.Perm l') :
    l.eraseDups.Perm l'.eraseDups := by
  rw [List.perm_ext_iff_of_nodup (nodup_eraseDups l) (nodup_eraseDups l')]
  intro a
  rw [List.mem_eraseDups, List.mem_eraseDups, h.mem_iff]

/-- The document with other paths. -/
def Document.withPaths (d : Document) (paths : OrderedMap PathItem) : Document := { d with paths }

theorem aggregate?_service (d : Document) (context name : String) :
    d.service.aggregate? context name
      = (d.parted.aggregate? context name).map (·.withSchemas d) := by
  have hcontexts : d.service.contexts = d.parted.contexts.map (·.map (·.withSchemas d)) := rfl
  rw [Service.aggregate?, hcontexts, SortedMap.get?_map, Service.aggregate?]
  cases d.parted.contexts.get? context with
  | none => rfl
  | some found => exact SortedMap.get?_map _

section Order

variable {paths : OrderedMap PathItem} {context name : String} {a b : Aggregate}
  (h : paths.entries.Perm d.paths.entries)
include h

theorem endpoints_perm : (d.withPaths paths).endpoints.Perm d.endpoints := h.flatMap_right _

theorem places_perm : (d.withPaths paths).places.Perm d.places := (endpoints_perm h).map _

theorem homes_perm : (d.withPaths paths).homes.Perm d.homes := (endpoints_perm h).flatMap_right _

theorem isSome_aggregate?_iff : ((d.withPaths paths).parted.aggregate? context name).isSome ↔
    (d.parted.aggregate? context name).isSome := by
  rw [(d.withPaths paths).parted_founded.aggregates, d.parted_founded.aggregates,
    (homes_perm h).mem_iff]

/-- The same aggregate in both orders. -/
theorem alikeAggregate_withSchemas (ha : d.parted.aggregate? context name = some a)
    (hb : (d.withPaths paths).parted.aggregate? context name = some b) :
    AlikeAggregate (a.withSchemas d) (b.withSchemas (d.withPaths paths)) := by
  obtain ⟨hcontext, hname⟩ := d.parted_holds.named context name a ha
  obtain ⟨hcontext', hname'⟩ := (d.withPaths paths).parted_holds.named context name b hb
  -- the schemas of an aggregate are found by its context and its name
  have hschemas : b.schemas (d.withPaths paths) = a.schemas d := by
    unfold Aggregate.schemas Aggregate.keyStart
    rw [hcontext, hname, hcontext', hname']
    rfl
  have hstate : b.stateKey? (d.withPaths paths) = a.stateKey? d := by
    rw [Aggregate.stateKey?, Aggregate.stateKey?, hschemas]
  have hfields : b.fieldsKey? (d.withPaths paths) = a.fieldsKey? d := by
    rw [Aggregate.fieldsKey?, Aggregate.fieldsKey?, hschemas]
  have hevents : b.resolvedEvents (d.withPaths paths) = a.resolvedEvents d := by
    unfold Aggregate.resolvedEvents Aggregate.eventReferences
    rw [hschemas]
    rfl
  -- its operations are gathered from the same places, in another order
  have huses : (d.places.filterMap (Place.useOf? context name)).Perm
      ((d.withPaths paths).places.filterMap (Place.useOf? context name)) :=
    ((places_perm h).filterMap _).symm
  have hgathered := d.parted_holds.commands context name
  have hgathered' := (d.withPaths paths).parted_holds.commands context name
  rw [Service.commandsOf, ha, Option.elim_some] at hgathered
  rw [Service.commandsOf, hb, Option.elim_some] at hgathered'
  constructor
  case context => exact hcontext.trans hcontext'.symm
  case name => exact hname.trans hname'.symm
  case tag =>
    exact (d.parted_founded.tag context name a ha).trans
      ((d.withPaths paths).parted_founded.tag context name b hb).symm
  case state => exact hstate.symm
  case fields => exact hfields.symm
  case events => exact hevents.symm
  case queries =>
    have hqueries := d.parted_holds.queries context name
    have hqueries' := (d.withPaths paths).parted_holds.queries context name
    rw [Service.queriesOf, ha, Option.elim_some] at hqueries
    rw [Service.queriesOf, hb, Option.elim_some] at hqueries'
    show a.queries.Perm b.queries
    rw [hqueries, hqueries']
    exact ((places_perm h).filterMap _).symm
  case commands =>
    show (a.commands.map (·.schemaKey)).Perm (b.commands.map (·.schemaKey))
    rw [hgathered.keys, hgathered'.keys]
    exact perm_eraseDups (huses.map _)
  case routes =>
    intro c hc c' hc' hkey
    rw [(hgathered.commands c hc).routes, (hgathered'.commands c' hc').routes, hkey]
    exact perm_eraseDups ((huses.filter _).map _)
  case attribution =>
    have hpaths : a.commandPaths.Perm b.commandPaths := hgathered.commandPaths_perm hgathered' huses
    have hvotes (start : String) : a.votes start = b.votes start := hpaths.countP_eq _
    show a.attribution = b.attribution
    rw [a.attribution_eq_ite, b.attribution_eq_ite, hvotes, hvotes]

theorem rel_aggregate?_service : Option.Rel AlikeAggregate (d.service.aggregate? context name)
    ((d.withPaths paths).service.aggregate? context name) := by
  rw [aggregate?_service, aggregate?_service]
  apply rel_of_isSome_iff
  · rw [Option.isSome_map, Option.isSome_map]
    exact (isSome_aggregate?_iff h).symm
  · intro a' b' ha' hb'
    obtain ⟨a, ha, rfl⟩ := Option.map_eq_some_iff.1 ha'
    obtain ⟨b, hb, rfl⟩ := Option.map_eq_some_iff.1 hb'
    exact alikeAggregate_withSchemas h ha hb

theorem operationsOf_perm (tag : String) :
    (d.parted.operationsOf tag).Perm ((d.withPaths paths).parted.operationsOf tag) := by
  rw [d.parted_holds.operations, (d.withPaths paths).parted_holds.operations]
  exact ((places_perm h).filterMap _).symm

theorem rel_get?_apiTags (tag : String) : Option.Rel AlikeTag (d.service.apiTags.get? tag)
    ((d.withPaths paths).service.apiTags.get? tag) := by
  have hperm := operationsOf_perm h tag
  show Option.Rel AlikeTag (d.parted.apiTags.get? tag) ((d.withPaths paths).parted.apiTags.get? tag)
  apply rel_of_isSome_iff
  · rw [d.parted_founded.isSome_apiTag_iff, (d.withPaths paths).parted_founded.isSome_apiTag_iff,
      ← List.length_pos_iff, ← List.length_pos_iff, hperm.length_eq]
  · intro t u ht hu
    have htag : t.tag = u.tag := (d.parted_founded.apiTag tag t ht).1.trans
      ((d.withPaths paths).parted_founded.apiTag tag u hu).1.symm
    rw [Service.operationsOf, Service.operationsOf, ht, hu] at hperm
    exact ⟨htag, hperm⟩

/-- The aggregates have the same names, and the events that are missing are found by name. -/
theorem skippedEvents_perm : (d.parted.aggregates.flatMap (·.skippedEvents d)).Perm
    ((d.withPaths paths).parted.aggregates.flatMap (·.skippedEvents (d.withPaths paths))) := by
  let named (pair : String × String) : Aggregate :=
    { context := pair.1, name := pair.2, tag := { name := "" } }
  have hnames : (d.parted.aggregates.map fun a => (a.context, a.name)).Perm
      ((d.withPaths paths).parted.aggregates.map fun a => (a.context, a.name)) := by
    rw [List.perm_ext_iff_of_nodup d.parted_holds.nodup_aggregates
      (d.withPaths paths).parted_holds.nodup_aggregates]
    intro pair
    rw [d.parted_founded.mem_names_iff d.parted_holds,
      (d.withPaths paths).parted_founded.mem_names_iff (d.withPaths paths).parted_holds,
      (homes_perm h).mem_iff]
  -- the records depend on nothing but these names
  have hevents := hnames.flatMap_right fun pair => (named pair).skippedEvents d
  rw [List.flatMap_map, List.flatMap_map] at hevents
  exact hevents

end Order

/-- The order of the paths does not matter for what is resolved, but for the order in which it is
    listed; and an aggregate has the attribution for which the paths of its commands vote. -/
theorem service_perm {paths : OrderedMap PathItem} (h : paths.entries.Perm d.paths.entries) :
    AlikeService d.service (d.withPaths paths).service ∧
      ∀ a ∈ d.service.aggregates, a.Voted d := by
  refine ⟨?_, fun a ha => voted_of_mem_aggregates ha⟩
  constructor
  case contexts =>
    apply NameSet.keys_eq_of_mem_iff
    intro context
    show context ∈ (d.parted.contexts.map _).keys ↔
      context ∈ ((d.withPaths paths).parted.contexts.map _).keys
    rw [SortedMap.keys_map, SortedMap.keys_map, d.parted_founded.mem_contexts_iff,
      (d.withPaths paths).parted_founded.mem_contexts_iff]
    simp only [(homes_perm h).mem_iff]
  case aggregates => exact fun context name => rel_aggregate?_service h
  case apiTags => exact rel_get?_apiTags h
  case skipped =>
    have hrecords : d.parted.skipped.Perm (d.withPaths paths).parted.skipped := by
      rw [d.parted_holds.records, (d.withPaths paths).parted_holds.records]
      exact ((places_perm h).filterMap _).symm
    exact hrecords.append (skippedEvents_perm h)

/-- A command that two routes of a tenant accept and one of an owner, an operation of a tag, and one
    that cannot be resolved. -/
def scatteredPaths : List (String × PathItem) :=
  let only (method : HttpMethod) (operation : Operation) : PathItem :=
    { operation? := fun other => if other = method then some operation else none }
  let create : Operation :=
    { tags := ["example.order"]
      requestBody := some (.item
        { content := .ofList [("application/json", ⟨some (.referenceTo "example.order.Create")⟩)] })
      responses := .ofList [] }
  [("/tenant/\x7btenantId\x7d/order", only .post create),
   ("/health", only .get { tags := ["health"], responses := .ofList [] }),
   ("/owner/\x7bownerId\x7d/order", only .put create),
   ("/lost", only .get
      { parameters := [.reference "#/components/parameters/lost"], responses := .ofList [] }),
   ("/tenant/\x7btenantId\x7d/order/again", only .post create)]

/-- These paths from the first and from the last. -/
theorem service_perm_reverse :
    let d : Document :=
      { paths := .ofList scatteredPaths
        components.schemas := .ofList
          [("example.order.Create", { type := some (.single "object") })] }
    (d.service.aggregates.map fun a => (a.commandPaths.length, a.attribution)) = [(3, .tenant)] ∧
      d.service.apiTags.keys = ["health"] ∧ d.service.skipped.length = 1 ∧
      AlikeService d.service (d.withPaths (.ofList scatteredPaths.reverse)).service ∧
      ∀ a ∈ d.service.aggregates, a.Voted d := by
  intro d
  have hperm : (OrderedMap.ofList scatteredPaths.reverse).entries.Perm d.paths.entries :=
    scatteredPaths.reverse_perm
  have hvotes : (d.service.aggregates.map fun a => (a.commandPaths.length, a.attribution))
      = [(3, .tenant)] := by
    decide +kernel
  have htags : d.service.apiTags.keys = ["health"] := by decide +kernel
  have hskipped : d.service.skipped.length = 1 := by decide +kernel
  exact ⟨hvotes, htags, hskipped, service_perm hperm⟩

end ClientGen
