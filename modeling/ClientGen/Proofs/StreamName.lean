/-
  ClientGen.Proofs.StreamName

  The names of streaming methods.  A class names its methods on its own, so that a streaming
  method may be called otherwise than the plain method of its operation.  It then has the
  name of a plain method of another operation, which was built before;
  `same_endpoints_iff` says when this does not happen.
-/
import ClientGen.Proofs.MethodPair

namespace ClientGen

open TypeScript

/-! ## Names of pairs -/

/-- An identifier that gets a name among few taken names gets the same among more, or a name that
    is taken there. -/
theorem ChoosesName.eq_or_mem {few many segments : List String} {name other : String}
    (hsub : ∀ n ∈ few, n ∈ many) (h : ChoosesName few segments name)
    (h' : ChoosesName many segments other) : name = other ∨ name ∈ many := by
  by_cases hmem : name ∈ many
  · exact .inr hmem
  · have hsame : ChoosesName many segments name := h.mono hsub hmem
    exact .inl (hsame.unique h')

/-- Whether the methods of each pair have the names that the identifier of their item gets, each
    beside the methods that its own class has before. -/
def NamedInTurn {α : Type} (identifier : α → String) (pairs : List (MethodPair α)) : Prop :=
  ∀ front p back, pairs = front ++ p :: back →
    ChoosesName (plainNamesOf front) (identifierSegments (identifier p.item)) p.plain.name ∧
      ∀ s, p.stream? = some s →
        ChoosesName (streamNamesOf front) (identifierSegments (identifier p.item)) s.name

namespace NamedInTurn

variable {α : Type} {identifier : α → String} {pairs front back : List (MethodPair α)}
  {p : MethodPair α}

theorem of_append (h : NamedInTurn identifier (front ++ back)) : NamedInTurn identifier front := by
  intro before p after hsplit
  apply h before p (after ++ back)
  rw [hsplit, List.append_assoc, List.cons_append]

/-- By induction on the pairs from the end: the streaming class has no name that the plain class
    has not. -/
theorem stream_subset (h : NamedInTurn identifier pairs) :
    ∀ n ∈ streamNamesOf pairs, n ∈ plainNamesOf pairs := by
  induction pairs using List.reverseRecOn with
  | nil => exact fun n hn => absurd hn List.not_mem_nil
  | append_singleton init last ih =>
    have hinit : ∀ n ∈ streamNamesOf init, n ∈ plainNamesOf init := ih h.of_append
    obtain ⟨hplain, hstream⟩ := h init last [] rfl
    intro n hn
    rw [plainNamesOf, List.map_append, List.mem_append, List.map_singleton, List.mem_singleton]
    rw [streamNamesOf, List.filterMap_append] at hn
    rcases List.mem_append.1 hn with hn | hn
    · exact .inl (hinit n hn)
    · obtain ⟨q, hq, hname⟩ := List.mem_filterMap.1 hn
      rw [List.mem_singleton.1 hq] at hname
      obtain ⟨s, hs, rfl⟩ := Option.map_eq_some_iff.1 hname
      exact ((hstream s hs).eq_or_mem hinit hplain).symm

theorem nodup (h : NamedInTurn identifier pairs) : (plainNamesOf pairs).Nodup := by
  induction pairs using List.reverseRecOn with
  | nil => exact List.nodup_nil
  | append_singleton init last ih =>
    have hfree : last.plain.name ∉ plainNamesOf init := (h init last [] rfl).1.not_mem
    rw [plainNamesOf, List.map_append, List.map_singleton, ← List.concat_eq_append]
    exact (ih h.of_append).concat hfree

/-- A streaming method has the name of its plain method, or that of a plain method before. -/
theorem stream_name (h : NamedInTurn identifier (front ++ p :: back)) {s : MethodDecl}
    (hs : p.stream? = some s) : s.name = p.plain.name ∨ ∃ q ∈ front, s.name = q.plain.name := by
  obtain ⟨hplain, hstream⟩ := h front p back rfl
  rcases (hstream s hs).eq_or_mem h.of_append.stream_subset hplain with hsame | hmem
  · exact .inl hsame
  · obtain ⟨q, hq, hname⟩ := List.mem_map.1 hmem
    exact .inr ⟨q, hq, hname.symm⟩

/-- Plain methods of one name are those of one pair. -/
theorem eq_of_name (h : NamedInTurn identifier pairs) {q : MethodPair α} (hp : p ∈ pairs)
    (hq : q ∈ pairs) (hname : p.plain.name = q.plain.name) : p = q :=
  List.inj_on_of_nodup_map h.nodup hp hq hname

end NamedInTurn

section Run

variable {α : Type} {label identifier : α → String}
  {build : ClientPair → α → Importing (MethodDecl × Option MethodDecl)}

/-- By induction on the items: the pairs are named in turn, beside the methods that are there. -/
theorem ClientPair.choosesName_pairs (h : NamesBy identifier build) (items : List α)
    (c : ClientPair) {front back : List (MethodPair α)} {p : MethodPair α}
    (hsplit : pairs label build items c = front ++ p :: back) :
    ChoosesName (c.plainNames ++ plainNamesOf front) (identifierSegments (identifier p.item))
        p.plain.name ∧
      ∀ s, p.stream? = some s →
        ChoosesName (c.streamNames ++ streamNamesOf front)
          (identifierSegments (identifier p.item)) s.name := by
  induction items generalizing c front with
  | nil => exact absurd hsplit.symm (List.append_ne_nil_of_right_ne_nil _ (List.cons_ne_nil _ _))
  | cons item rest ih =>
    cases hbuilt : (build c item).result with
    | error e =>
      obtain ⟨hplain, hstream⟩ := methods_addBuilt_of_error c (label item) hbuilt
      rw [pairs_cons_of_error hbuilt] at hsplit
      have hlater := ih _ hsplit
      rw [plainNames, streamNames, hplain, hstream] at hlater
      exact hlater
    | ok methods =>
      obtain ⟨plain, stream?⟩ := methods
      rw [pairs_cons_of_ok hbuilt] at hsplit
      -- the pair is the one of this item or one of those behind
      cases front with
      | nil =>
        rw [List.nil_append, List.cons.injEq] at hsplit
        obtain ⟨rfl, -⟩ := hsplit
        obtain ⟨hplain, hstream⟩ := h c item plain stream? hbuilt
        simp only [plainNamesOf, streamNamesOf, List.map_nil, List.filterMap_nil, List.append_nil]
        exact ⟨choosesName_iff.2 hplain.symm, fun s hs => choosesName_iff.2 (hstream s hs).symm⟩
      | cons first front =>
        rw [List.cons_append, List.cons.injEq] at hsplit
        obtain ⟨rfl, hsplit⟩ := hsplit
        obtain ⟨hplain, hstream⟩ := methods_addBuilt_of_ok c (label item) hbuilt
        have hlater := ih _ hsplit
        rw [plainNames, streamNames, hplain, hstream] at hlater
        cases stream? with
        | none => simpa [plainNamesOf, streamNamesOf, plainNames, streamNames] using hlater
        | some stream => simpa [plainNamesOf, streamNamesOf, plainNames, streamNames] using hlater

end Run

/-! ## Pairs for operations -/

/-- Whether clients consist of pairs of methods for these operations: of each there is a plain
    method, which requests it, and maybe a streaming one, which differs in its name and in what it
    returns. -/
structure ClientPair.BuiltInPairs (c : ClientPair) (ops : List ResolvedOperation)
    (pairs : List (MethodPair ResolvedOperation)) : Prop where
  items : pairs.map (·.item) = ops
  plain : c.plain.methods = pairs.map (·.plain)
  stream : c.stream.methods = pairs.filterMap (·.stream?)
  requests : ∀ p ∈ pairs, p.plain.decorators = [routeDecorator p.item.method p.item.path]
  alike : ∀ p ∈ pairs, ∀ s, p.stream? = some s → p.plain.Alike s
  named : NamedInTurn ResolvedOperation.identifier pairs

section Operations

variable {d : Document} {needs : ResponseTypes → List Import} {streams : ResponseTypes → Bool}
  {ignored : List String}

/-- The plans of an operation's methods differ in their names and results only. -/
theorem alike_of_operationMethods {before : ClientPair} {op : ResolvedOperation}
    {plain s : MethodDecl} {stream? : Option MethodDecl}
    (h : (operationMethods d needs streams ignored before op).result = .ok (plain, stream?))
    (hs : stream? = some s) : plain.Alike s := by
  obtain ⟨types, body, -, hplain, -, hstream⟩ := built_of_operationMethods h
  exact hplain.alike (hstream s hs)

/-- Clients that start empty are built in pairs. -/
theorem builtInPairs_operationMethods (d : Document) (needs : ResponseTypes → List Import)
    (streams : ResponseTypes → Bool) (ignored : List String) (ops : List ResolvedOperation)
    (start plainEnding streamEnding : String) (docs : List String) :
    let build := operationMethods d needs streams ignored
    let fresh := ClientPair.empty start plainEnding streamEnding docs
    (ClientPair.addAll ResolvedOperation.identifier build ops fresh).BuiltInPairs
      (ops.filter fun op => (build default op).fault?.isNone)
      (ClientPair.pairs ResolvedOperation.identifier build ops fresh) := by
  intro build fresh
  obtain ⟨hplain, hstream⟩ := ClientPair.methods_addAll_empty ResolvedOperation.identifier build
    ops start plainEnding streamEnding docs
  constructor
  case items =>
    exact ClientPair.map_item_pairs
      (fun c op => fault?_operationMethods d ignored needs streams op c default) ops fresh
  case plain => exact hplain
  case stream => exact hstream
  case requests =>
    intro p hp
    obtain ⟨before, hbuilt⟩ := ClientPair.exists_built_of_mem_pairs hp
    exact decorators_of_operationMethods hbuilt
  case alike =>
    intro p hp s hs
    obtain ⟨before, hbuilt⟩ := ClientPair.exists_built_of_mem_pairs hp
    exact alike_of_operationMethods hbuilt hs
  case named =>
    intro front p back hsplit
    exact ClientPair.choosesName_pairs (namesBy_operationMethods needs streams ignored) ops fresh
      hsplit

end Operations

/-- The pairs of methods of an aggregate's query clients. -/
def queryPairs (d : Document) (config : Configuration) (a : Aggregate) :
    List (MethodPair ResolvedOperation) :=
  ClientPair.pairs ResolvedOperation.identifier
    (queryMethods d (config.ignoredPathParameters a.tag.name)) a.queries
    (.empty a.start "QueryClient" "StreamQueryClient" a.tag.docs)

theorem builtInPairs_queryPairs (d : Document) (config : Configuration) (a : Aggregate) :
    (queryClients d config a).BuiltInPairs (a.withoutFaults d config).queries
      (queryPairs d config a) :=
  builtInPairs_operationMethods d ResponseTypes.queryImports ResponseTypes.streamsQuery
    (config.ignoredPathParameters a.tag.name) a.queries a.start "QueryClient" "StreamQueryClient"
    a.tag.docs

/-! ## Operations of a document -/

/-- Operations that are found in places are those of different endpoints. -/
theorem nodup_filterMap_places {d : Document} {place? : Place → Option ResolvedOperation}
    (h : ∀ e op, place? (Endpoint.place d e) = some op → e.resolve d = .ok op) :
    ((d.places.filterMap place?).map fun op => (op.method, op.path)).Nodup := by
  have hsub : ((d.places.filterMap place?).map fun op => (op.method, op.path)).Sublist
      (d.endpoints.map fun e => (e.method, e.path)) := by
    rw [Document.places, List.filterMap_map]
    apply map_filterMap_sublist
    intro e op hop
    obtain ⟨hpath, hmethod, -⟩ := Endpoint.eq_of_resolve (h e op hop)
    rw [hpath, hmethod]
  exact hsub.nodup d.nodup_endpoints

/-- The clients for operations that a service declares in a file, with the operations whose methods
    do not fail. -/
inductive Service.Serves (s : Service) (d : Document) (config : Configuration) :
    String → ClientPair → List ResolvedOperation → Prop where
  | query {a : Aggregate} (ha : a ∈ s.aggregates) :
      Serves s d config a.queryFile (queryClients d config a) (a.withoutFaults d config).queries
  | api {t : ApiTag} (ht : t ∈ s.apiTags.values) :
      Serves s d config (t.file d) (apiClients d config t) (t.withoutFaults d config).operations

namespace Service.Serves

variable {d : Document} {config : Configuration} {source : String} {clients : ClientPair}
  {ops : List ResolvedOperation}

theorem exists_pairs {s : Service} (h : s.Serves d config source clients ops) :
    ∃ pairs, clients.BuiltInPairs ops pairs := by
  cases h with
  | @query a ha => exact ⟨queryPairs d config a, builtInPairs_queryPairs d config a⟩
  | @api t ht =>
    exact ⟨_, builtInPairs_operationMethods d ResponseTypes.streamImports ResponseTypes.hasBoth
      (config.ignoredPathParameters t.tag.name) t.operations t.classStart "ApiClient"
      "StreamApiClient" t.tag.docs⟩

/-- Clients are made for operations that differ in their HTTP methods or paths. -/
theorem nodup (h : d.service.Serves d config source clients ops) :
    (ops.map fun op => (op.method, op.path)).Nodup := by
  cases h with
  | @query a ha =>
    have hall : (a.queries.map fun op => (op.method, op.path)).Nodup := by
      rw [d.queries_of_mem ha]
      apply nodup_filterMap_places
      intro e op hop
      cases hplace : e.place d with
      | query context name query =>
        rw [hplace, Place.queryOf?, Option.ite_none_right_eq_some] at hop
        rw [← Option.some.inj hop.2]
        exact Endpoint.resolve_of_query (Endpoint.goesTo_iff.2 hplace)
      | _ =>
        rw [hplace] at hop
        cases hop
    exact (List.filter_sublist.map _).nodup hall
  | @api t ht =>
    have hall : (t.operations.map fun op => (op.method, op.path)).Nodup := by
      rw [d.parted_holds.operations_of_mem ht]
      apply nodup_filterMap_places
      intro e op hop
      cases hplace : e.place d with
      | tagged tag tagged =>
        rw [hplace, Place.taggedOf?, Option.ite_none_right_eq_some] at hop
        rw [← Option.some.inj hop.2]
        exact Endpoint.resolve_of_tagged (Endpoint.goesTo_iff.2 hplace)
      | _ =>
        rw [hplace] at hop
        cases hop
    exact (List.filter_sublist.map _).nodup hall

/-- The clients are declared in their file: the plain one always, and the streaming one at least if
    it has methods. -/
theorem exists_file {g : Generation} (h : d.service.Serves d config source clients ops)
    (hg : generation d d.service config = .ok g) :
    ∃ f, g.project.get? (FilePath.normalize source) = some f ∧
      .class clients.plain ∈ f.declarations ∧
      (clients.stream.methods ≠ [] → .class clients.stream ∈ f.declarations) := by
  rw [generation_eq_ok hg, Generation.project_ofPieces]
  cases h with
  | @query a ha =>
    obtain ⟨types, hmem⟩ := queryContribution_mem config ha
    obtain ⟨f, hf, hdecls⟩ := Project.exists_file_of_mem hmem
    have hclasses : ∀ decl ∈ [Declaration.class (queryClients d config a).plain,
        .class (queryClients d config a).stream], decl ∈ f.declarations := fun decl hdecl =>
      hdecls decl (List.mem_append_right _ (List.mem_cons_of_mem _ hdecl))
    exact ⟨f, hf, hclasses _ List.mem_cons_self,
      fun _ => hclasses _ (List.mem_cons_of_mem _ List.mem_cons_self)⟩
  | @api t ht =>
    obtain ⟨f, hf, hdecls⟩ := Project.exists_file_of_mem (apiContribution_mem config ht)
    refine ⟨f, hf, hdecls _ ?_, fun hmethods => hdecls _ ?_⟩
    · simp only [apiContribution, ClientPair.apiDecls]
      split <;> exact List.mem_cons_self
    · simp only [apiContribution, ClientPair.apiDecls]
      rw [if_neg (by simpa using hmethods)]
      exact List.mem_cons_of_mem _ List.mem_cons_self

end Service.Serves

/-! ## Names in both classes -/

/-- Whether methods of one name in the two classes request the same, with the same parameters. -/
def ClientPair.SameEndpoints (c : ClientPair) : Prop :=
  ∀ m ∈ c.plain.methods, ∀ s ∈ c.stream.methods, s.name = m.name →
    s.decorators = m.decorators ∧ s.parameters = m.parameters

instance (c : ClientPair) : Decidable c.SameEndpoints :=
  inferInstanceAs (Decidable (∀ m ∈ c.plain.methods, ∀ s ∈ c.stream.methods, s.name = m.name →
    s.decorators = m.decorators ∧ s.parameters = m.parameters))

/-- Whether the streaming methods of pairs have the names of the plain ones. -/
def TwinsShareNames {α : Type} (pairs : List (MethodPair α)) : Prop :=
  ∀ p ∈ pairs, ∀ s, p.stream? = some s → s.name = p.plain.name

/-- Whether no streaming method is given, by the rule for its class, the name of a plain method that
    was built before for another item. -/
def TwinsStandClear {α : Type} (identifier : α → String) (pairs : List (MethodPair α)) : Prop :=
  ∀ front p back, pairs = front ++ p :: back → p.stream?.isSome = true → ∀ q ∈ front,
    ¬ChoosesName (streamNamesOf front) (identifierSegments (identifier p.item)) q.plain.name

/-- Streaming methods have the names of their plain methods unless the rule gives them others that
    the plain class has already. -/
theorem NamedInTurn.twinsShareNames_iff {α : Type} {identifier : α → String}
    {pairs : List (MethodPair α)} (h : NamedInTurn identifier pairs) :
    TwinsShareNames pairs ↔ TwinsStandClear identifier pairs := by
  constructor
  · rintro hshare front p back rfl hstream q hq hchosen
    obtain ⟨s, hs⟩ := Option.isSome_iff_exists.1 hstream
    obtain ⟨hplain, hnamed⟩ := h front p back rfl
    have hsame : s.name = p.plain.name :=
      hshare p (List.mem_append_right _ List.mem_cons_self) s hs
    have hother : s.name = q.plain.name := (hnamed s hs).unique hchosen
    -- the plain method would share its name with one before it
    have hmem : p.plain.name ∈ plainNamesOf front := by
      rw [← hsame, hother]
      exact List.mem_map_of_mem hq
    exact hplain.not_mem hmem
  · intro hclear p hp s hs
    obtain ⟨front, back, rfl⟩ := List.append_of_mem hp
    rcases h.stream_name hs with hsame | ⟨q, hq, hname⟩
    · exact hsame
    · have hchosen := (h front p back rfl).2 s hs
      rw [hname] at hchosen
      exact absurd hchosen (hclear front p back rfl (Option.isSome_of_eq_some hs) q hq)

namespace ClientPair.BuiltInPairs

variable {c : ClientPair} {ops : List ResolvedOperation}
  {pairs : List (MethodPair ResolvedOperation)} {p q : MethodPair ResolvedOperation}

/-- The decorators of methods tell their pairs. -/
theorem eq_of_decorators (h : c.BuiltInPairs ops pairs)
    (hnodup : (ops.map fun op => (op.method, op.path)).Nodup) (hp : p ∈ pairs) (hq : q ∈ pairs)
    (heq : p.plain.decorators = q.plain.decorators) : p = q := by
  rw [h.requests p hp, h.requests q hq, List.cons.injEq] at heq
  obtain ⟨hmethod, hpath⟩ := routeDecorator_inj heq.1
  rw [← h.items, List.map_map] at hnodup
  exact List.inj_on_of_nodup_map hnodup hp hq (Prod.ext hmethod hpath)

theorem plain_mem (h : c.BuiltInPairs ops pairs) (hp : p ∈ pairs) : p.plain ∈ c.plain.methods := by
  rw [h.plain]
  exact List.mem_map_of_mem hp

theorem stream_mem (h : c.BuiltInPairs ops pairs) (hp : p ∈ pairs) {s : MethodDecl}
    (hs : p.stream? = some s) : s ∈ c.stream.methods := by
  rw [h.stream]
  exact List.mem_filterMap.2 ⟨p, hp, hs⟩

/-- A streaming method that is not called like its plain method has the name of one that was built
    before, and requests something else than that one does. -/
theorem stream_name (h : c.BuiltInPairs ops pairs)
    (hnodup : (ops.map fun op => (op.method, op.path)).Nodup)
    {front back : List (MethodPair ResolvedOperation)} (hsplit : pairs = front ++ p :: back)
    {s : MethodDecl} (hs : p.stream? = some s) :
    s.name = p.plain.name ∨
      ∃ q ∈ front, s.name = q.plain.name ∧ s.decorators ≠ q.plain.decorators := by
  subst hsplit
  rcases h.named.stream_name hs with hsame | ⟨q, hq, hname⟩
  · exact .inl hsame
  · have hp : p ∈ front ++ p :: back := List.mem_append_right _ List.mem_cons_self
    refine .inr ⟨q, hq, hname, fun heq => ?_⟩
    rw [(h.alike p hp s hs).decorators] at heq
    -- two pairs for one endpoint would be one pair, with one name
    have hpair : p = q := h.eq_of_decorators hnodup hp (List.mem_append_left _ hq) heq
    have hmem : p.plain.name ∈ plainNamesOf front := by
      rw [hpair]
      exact List.mem_map_of_mem hq
    exact (h.named front p back rfl).1.not_mem hmem

theorem sameEndpoints_iff (h : c.BuiltInPairs ops pairs)
    (hnodup : (ops.map fun op => (op.method, op.path)).Nodup) :
    c.SameEndpoints ↔ TwinsShareNames pairs := by
  constructor
  · intro hsame p hp s hs
    obtain ⟨front, back, hsplit⟩ := List.append_of_mem hp
    rcases h.stream_name hnodup hsplit hs with hname | ⟨q, hq, hname, hne⟩
    · exact hname
    · have hmem : q ∈ pairs := hsplit ▸ List.mem_append_left _ hq
      have hrequest := hsame q.plain (h.plain_mem hmem) s (h.stream_mem hp hs) hname
      exact absurd hrequest.1 hne
  · intro hshare m hm s hs hname
    rw [h.plain] at hm
    rw [h.stream] at hs
    obtain ⟨p, hp, rfl⟩ := List.mem_map.1 hm
    obtain ⟨q, hq, hstream⟩ := List.mem_filterMap.1 hs
    -- both methods have the name of the same plain method, hence they are of one pair
    have hplain : q.plain.name = p.plain.name := (hshare q hq s hstream).symm.trans hname
    have hpair : q = p := h.named.eq_of_name hq hp hplain
    subst hpair
    exact ⟨(h.alike q hq s hstream).decorators, (h.alike q hq s hstream).parameters⟩

end ClientPair.BuiltInPairs

/-- In a file of clients for operations, methods are built in pairs, one pair for each operation
    that does not fail.  A streaming method differs from the plain one in its name and in what it
    returns only, and it either has the plain one's name or that of a plain method before, for
    another endpoint.  So methods of one name in both classes are for one endpoint just when every
    streaming method has the name of its plain method; and just when the rule gives no streaming
    method the name of a plain method that was built before. -/
theorem same_endpoints_iff {d : Document} {config : Configuration} {g : Generation}
    {source : String} {clients : ClientPair} {ops : List ResolvedOperation}
    (h : generation d d.service config = .ok g)
    (hserves : d.service.Serves d config source clients ops) :
    (∃ f, g.project.get? (FilePath.normalize source) = some f ∧
      .class clients.plain ∈ f.declarations ∧
      (clients.stream.methods ≠ [] → .class clients.stream ∈ f.declarations)) ∧
    ∃ pairs, clients.BuiltInPairs ops pairs ∧
      (∀ front p back, pairs = front ++ p :: back → ∀ s, p.stream? = some s →
        s.name = p.plain.name ∨
          ∃ q ∈ front, s.name = q.plain.name ∧ s.decorators ≠ q.plain.decorators) ∧
      (clients.SameEndpoints ↔ TwinsShareNames pairs) ∧
      (clients.SameEndpoints ↔ TwinsStandClear ResolvedOperation.identifier pairs) := by
  obtain ⟨pairs, hpairs⟩ := hserves.exists_pairs
  have hsame := hpairs.sameEndpoints_iff hserves.nodup
  refine ⟨hserves.exists_file h, pairs, hpairs, fun front p back hsplit s hs => ?_, hsame, ?_⟩
  · exact hpairs.stream_name hserves.nodup hsplit hs
  · rw [hsame]
    exact hpairs.named.twinsShareNames_iff

/-- Two operations that share the last segment of their identifiers, and may each respond with a
    stream of events beside plain JSON. -/
def watchingDocument (first second : Bool) : Document :=
  let text : MediaType := ⟨some { type := some (.single "string") }⟩
  let response (streams : Bool) : Response :=
    { content := .ofList (("application/json", text)
        :: if streams then [(eventStreamType, text)] else []) }
  let watches (identifier : String) (streams : Bool) : PathItem :=
    .only .get { operationId := some identifier, tags := ["health"]
                 responses := .ofList [("200", .item (response streams))] }
  { paths := .ofList [("/first", watches "first.watch" first),
      ("/second", watches "second.watch" second)] }

theorem same_endpoints_iff_watching :
    ∃ g source clients ops pairs,
      generation (watchingDocument true false) (watchingDocument true false).service {} = .ok g ∧
      (watchingDocument true false).service.Serves (watchingDocument true false) {} source clients
        ops ∧
      clients.plainNames = ["watch", "secondWatch"] ∧ clients.streamNames = ["watch"] ∧
      clients.BuiltInPairs ops pairs ∧ TwinsShareNames pairs := by
  have hrun : (generation (watchingDocument true false) (watchingDocument true false).service
      {}).toOption.any (fun _ => true) = true := by
    decide +kernel
  have htag : (watchingDocument true false).service.apiTags.values.any (fun t =>
      let clients := apiClients (watchingDocument true false) {} t
      clients.plainNames = ["watch", "secondWatch"] && clients.streamNames = ["watch"]
        && decide clients.SameEndpoints) = true := by
    decide +kernel
  obtain ⟨g, hg, -⟩ := exists_ok_of_any hrun
  obtain ⟨t, ht, hnames⟩ := List.any_eq_true.1 htag
  simp only [Bool.and_eq_true, decide_eq_true_eq] at hnames
  obtain ⟨⟨hplain, hstream⟩, hsame⟩ := hnames
  obtain ⟨-, pairs, hpairs, -, hiff, -⟩ := same_endpoints_iff hg (.api ht)
  exact ⟨g, _, _, _, pairs, hg, .api ht, hplain, hstream, hpairs, hiff.1 hsame⟩

/-- If only the second operation streams, its streaming method has the name of the plain method of
    the first one, which it does not request. -/
theorem exists_strange_twin :
    ∃ g source clients ops f,
      generation (watchingDocument false true) (watchingDocument false true).service {} = .ok g ∧
      (watchingDocument false true).service.Serves (watchingDocument false true) {} source clients
        ops ∧
      g.project.get? (FilePath.normalize source) = some f ∧
      .class clients.plain ∈ f.declarations ∧ .class clients.stream ∈ f.declarations ∧
      ¬clients.SameEndpoints ∧
      ∃ m ∈ clients.plain.methods, ∃ s ∈ clients.stream.methods, s.name = m.name ∧
        m.decorators = ["@get('/first')"] ∧ s.decorators = ["@get('/second')"] := by
  have hrun : (generation (watchingDocument false true) (watchingDocument false true).service
      {}).toOption.any (fun _ => true) = true := by
    decide +kernel
  have htag : (watchingDocument false true).service.apiTags.values.any (fun t =>
      let clients := apiClients (watchingDocument false true) {} t
      clients.plain.methods.any fun m => clients.stream.methods.any fun s =>
        s.name = m.name && m.decorators = ["@get('/first')"]
          && s.decorators = ["@get('/second')"]) = true := by
    decide +kernel
  obtain ⟨g, hg, -⟩ := exists_ok_of_any hrun
  obtain ⟨t, ht, hmethods⟩ := List.any_eq_true.1 htag
  obtain ⟨m, hm, hmethods⟩ := List.any_eq_true.1 hmethods
  obtain ⟨s, hs, hstrange⟩ := List.any_eq_true.1 hmethods
  simp only [Bool.and_eq_true, decide_eq_true_eq] at hstrange
  obtain ⟨⟨hname, hfirst⟩, hsecond⟩ := hstrange
  have hserves : (watchingDocument false true).service.Serves (watchingDocument false true) {}
      (t.file (watchingDocument false true)) (apiClients (watchingDocument false true) {} t) _ :=
    .api ht
  obtain ⟨f, hf, hclass, hstreams⟩ := hserves.exists_file hg
  refine ⟨g, _, _, _, f, hg, hserves, hf, hclass, hstreams (List.ne_nil_of_mem hs), fun hsame => ?_,
    m, hm, s, hs, hname, hfirst, hsecond⟩
  have hequal := (hsame m hm s hs hname).1
  rw [hfirst, hsecond] at hequal
  exact absurd hequal (by decide)

end ClientGen
