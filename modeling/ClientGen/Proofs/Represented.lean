/-
  ClientGen.Proofs.Represented

  What becomes of every operation.  An operation is followed from the document to
  its place in the service, and from there to a method in a file that is written or
  to a record of what was left out.  `represented_or_recorded` says which operations
  need have neither, and that they leave nothing behind.
-/
import ClientGen.Proofs.CommandRoute
import ClientGen.Proofs.Ignored

namespace ClientGen

open TypeScript

/-! ## Methods in files -/

/-- Whether a file is written in which a class of this name has a method. -/
def TypeScript.Project.HasMethod (p : Project) (path name : String) (m : MethodDecl) : Prop :=
  ∃ f cls, p.get? path = some f ∧ (path, f.render) ∈ renderedFiles p ∧
    .class cls ∈ f.declarations ∧ cls.name = name ∧ m ∈ cls.methods

theorem hasMethod_of_contribution {cs : List Contribution} {c : Contribution} {cls : ClassDecl}
    {m : MethodDecl} (hc : c ∈ cs) (hcls : .class cls ∈ c.decls) (hm : m ∈ cls.methods) :
    (Project.ofContributions cs).HasMethod c.file cls.name m := by
  obtain ⟨f, hf, hdecls⟩ := Project.exists_file_of_mem hc
  exact ⟨f, cls, hf, mem_renderedFiles hf (hdecls _ hcls), hdecls _ hcls, rfl, hm⟩

/-! ## What becomes of an operation -/

variable {d : Document} {config : Configuration} {e : Endpoint}

namespace Endpoint

/-- An operation that is represented: as a query or under its tag by a method of its own, which
    requests its path by its HTTP method; as a command by a method for the schema of its body. -/
inductive Represented (d : Document) (config : Configuration) (p : Project) (e : Endpoint) : Prop
  | query {op : ResolvedOperation} {a : Aggregate} {before : ClientPair} {plain : MethodDecl}
      {stream? : Option MethodDecl} (hplace : e.GoesTo d (.query a.context a.name op))
      (ha : a ∈ d.service.aggregates)
      (hbuilt : (queryMethods d (config.ignoredPathParameters a.tag.name) before op).result
        = .ok (plain, stream?))
      (hroute : plain.decorators = [routeDecorator e.method e.path])
      (hmethod : p.HasMethod (FilePath.normalize a.queryFile) (a.start ++ "QueryClient") plain)
  | tagged {op : ResolvedOperation} {t : ApiTag} {before : ClientPair} {plain : MethodDecl}
      {stream? : Option MethodDecl} (hplace : e.GoesTo d (.tagged t.tag.name op))
      (ht : t ∈ d.service.apiTags.values)
      (hbuilt : (apiMethods d (config.ignoredPathParameters t.tag.name) before op).result
        = .ok (plain, stream?))
      (hroute : plain.decorators = [routeDecorator e.method e.path])
      (hmethod : p.HasMethod (FilePath.normalize (t.file d)) (t.classStart ++ "ApiClient") plain)
  | command {use : CommandUse} {a : Aggregate} {c : Command} {before : ClientPair}
      {plain : MethodDecl} {stream? : Option MethodDecl}
      (hplace : e.GoesTo d (.command a.context a.name use)) (ha : a ∈ d.service.aggregates)
      (hc : c ∈ a.commands) (hkey : c.schemaKey = use.schemaKey)
      (hbuilt : (commandMethods d a.attribution (config.ignoredPathParameters a.tag.name) before
        c).result = .ok (plain, stream?))
      (hmethod : p.HasMethod (FilePath.normalize a.commandFile) (a.start ++ "CommandClient") plain)

/-- The records that name an operation: by its label, by its identifier, or by the key of the
    schema of its body. -/
inductive RecordedAs (d : Document) (e : Endpoint) : Skipped → Prop
  | unresolved {err : GenerationError} (h : e.GoesTo d (.skipped (.because e.label err))) :
      RecordedAs d e (.because e.label err)
  | query {context name : String} {op : ResolvedOperation} {err : GenerationError}
      (h : e.GoesTo d (.query context name op)) : RecordedAs d e (.because op.identifier err)
  | tagged {tag : String} {op : ResolvedOperation} {err : GenerationError}
      (h : e.GoesTo d (.tagged tag op)) : RecordedAs d e (.because op.identifier err)
  | command {context name : String} {use : CommandUse} {err : GenerationError}
      (h : e.GoesTo d (.command context name use)) : RecordedAs d e (.because use.schemaKey err)

/-- Whatever is represented, it is so by a method. -/
theorem Represented.exists_method {p : Project} (h : e.Represented d config p) :
    ∃ path name m, p.HasMethod path name m := by
  cases h with
  | query _ _ _ _ hmethod => exact ⟨_, _, _, hmethod⟩
  | tagged _ _ _ _ hmethod => exact ⟨_, _, _, hmethod⟩
  | command _ _ _ _ _ hmethod => exact ⟨_, _, _, hmethod⟩

/-- A query is the operation of its endpoint, and so is an operation of a tag. -/
theorem resolve_of_query {context name : String} {op : ResolvedOperation}
    (h : e.GoesTo d (.query context name op)) : e.resolve d = .ok op := by
  cases h with
  | query hop => exact hop

theorem resolve_of_tagged {tag : String} {op : ResolvedOperation}
    (h : e.GoesTo d (.tagged tag op)) : e.resolve d = .ok op := by
  cases h with
  | tagged hop => exact hop

end Endpoint

/-! ## Places in the service -/

section Places

variable {context name : String}

theorem mem_places (he : e ∈ d.endpoints) {p : Place} (h : e.GoesTo d p) : p ∈ d.places := by
  rw [← h.place_eq]
  exact List.mem_map_of_mem he

/-- What is recorded as the operations are parted stays recorded. -/
theorem mem_skipped_service {record : Skipped} (h : .skipped record ∈ d.places) :
    record ∈ d.service.skipped := by
  have hparted : record ∈ d.parted.skipped := by
    rw [d.parted_holds.records]
    exact List.mem_filterMap.2 ⟨_, h, rfl⟩
  exact List.mem_append_left _ hparted

/-- An aggregate of the parted operations is one of the service, with its operations. -/
theorem exists_aggregate {b : Aggregate} (h : d.parted.aggregate? context name = some b) :
    ∃ a ∈ d.service.aggregates, a.context = context ∧ a.name = name ∧ a.queries = b.queries ∧
      a.commands = b.commands := by
  obtain ⟨hcontext, hname⟩ := d.parted_holds.named context name b h
  refine ⟨b.withSchemas d, ?_, hcontext, hname, rfl, rfl⟩
  rw [d.aggregates_service]
  exact List.mem_map_of_mem (Service.mem_aggregates_iff_aggregate?.2 ⟨context, name, h⟩)

theorem exists_query {op : ResolvedOperation} (h : .query context name op ∈ d.places) :
    ∃ a ∈ d.service.aggregates, a.context = context ∧ a.name = name ∧ op ∈ a.queries := by
  obtain ⟨b, hb⟩ := d.parted_holds.exists_aggregate_of_query h
  obtain ⟨a, ha, hcontext, hname, hqueries, -⟩ := exists_aggregate hb
  refine ⟨a, ha, hcontext, hname, ?_⟩
  have hholds := d.parted_holds.queries context name
  rw [Service.queriesOf, hb, Option.elim_some] at hholds
  rw [hqueries, hholds]
  exact Place.mem_queries_iff.2 h

/-- The command of an operation may have been met before, but it is there. -/
theorem exists_command {use : CommandUse} (h : .command context name use ∈ d.places) :
    ∃ a ∈ d.service.aggregates, a.context = context ∧ a.name = name ∧
      ∃ c ∈ a.commands, c.schemaKey = use.schemaKey := by
  obtain ⟨b, hb⟩ := d.parted_holds.exists_aggregate_of_command h
  obtain ⟨a, ha, hcontext, hname, -, hcommands⟩ := exists_aggregate hb
  refine ⟨a, ha, hcontext, hname, ?_⟩
  have hkeys := (d.parted_holds.commands context name).keys
  rw [Service.commandsOf, hb, Option.elim_some] at hkeys
  have huse : use ∈ d.places.filterMap (Place.useOf? context name) := Place.mem_uses_iff.2 h
  have hkey : use.schemaKey ∈ b.commands.map (·.schemaKey) := by
    rw [hkeys, List.mem_eraseDups]
    exact List.mem_map_of_mem huse
  rw [hcommands]
  exact List.mem_map.1 hkey

theorem exists_tagged {tag : String} {op : ResolvedOperation} (h : .tagged tag op ∈ d.places) :
    ∃ t ∈ d.service.apiTags.values, t.tag.name = tag ∧ op ∈ t.operations := by
  obtain ⟨t, ht, htag⟩ := d.parted_holds.exists_tag h
  refine ⟨t, ht, htag, ?_⟩
  rw [d.parted_holds.operations_of_mem ht, htag]
  exact Place.mem_tagged_iff.2 h

end Places

/-! ## Methods of the service -/

section Methods

theorem decorators_of_operationMethods {needs : ResponseTypes → List Import}
    {streams : ResponseTypes → Bool} {ignored : List String} {before : ClientPair}
    {op : ResolvedOperation} {plain : MethodDecl} {stream? : Option MethodDecl}
    (h : (operationMethods d needs streams ignored before op).result = .ok (plain, stream?)) :
    plain.decorators = [routeDecorator op.method op.path] := by
  obtain ⟨types, body, -, hplain, -⟩ := built_of_operationMethods h
  exact hplain.decorators

/-- The class of a pair's plain client, in the file of a contribution. -/
theorem hasMethod_of_plain {α : Type} {label : α → String}
    {build : ClientPair → α → Importing (MethodDecl × Option MethodDecl)} {items : List α}
    {start plainEnding streamEnding : String} {docs : List String} {cs : List Contribution}
    {c : Contribution} {m : MethodDecl} (hc : c ∈ cs)
    (hcls : .class (ClientPair.addAll label build items
      (.empty start plainEnding streamEnding docs)).plain ∈ c.decls)
    (hm : m ∈ (ClientPair.addAll label build items
      (.empty start plainEnding streamEnding docs)).plain.methods) :
    (Project.ofContributions cs).HasMethod c.file (start ++ plainEnding) m := by
  have hmethod := hasMethod_of_contribution hc hcls hm
  -- methods that are added change nothing about the name
  rw [ClientPair.plain_addAll] at hmethod
  exact hmethod

/-- A query is represented, or recorded by its identifier. -/
theorem represented_of_query (config : Configuration) (he : e ∈ d.endpoints)
    {context name : String} {op : ResolvedOperation} (h : e.GoesTo d (.query context name op)) :
    e.Represented d config (.ofContributions (contributionsOf (pieces d d.service config))) ∨
      ∃ err, .because op.identifier err
        ∈ (pieces d d.service config).flatMap (·.report.skipped) := by
  obtain ⟨a, ha, rfl, rfl, hop⟩ := exists_query (mem_places he h)
  rcases ClientPair.exists_method_or_record ResolvedOperation.identifier
    (queryMethods d (config.ignoredPathParameters a.tag.name)) hop
    (.empty a.start "QueryClient" "StreamQueryClient" a.tag.docs) with
    ⟨before, plain, stream?, hbuilt, hplain⟩ | ⟨err, hrecord⟩
  · obtain ⟨types, hmem⟩ := queryContribution_mem config ha
    have hcls :
        .class (queryClients d config a).plain ∈ (queryContribution d config a types).decls :=
      List.mem_append_right _ (List.mem_cons_of_mem _ List.mem_cons_self)
    have hmethod := hasMethod_of_plain hmem hcls hplain
    have hroute : plain.decorators = [routeDecorator e.method e.path] := by
      obtain ⟨hpath, hmethod, -⟩ := Endpoint.eq_of_resolve (Endpoint.resolve_of_query h)
      rw [← hpath, ← hmethod]
      exact decorators_of_operationMethods hbuilt
    exact .inl (.query h ha hbuilt hroute hmethod)
  · exact .inr ⟨err, List.mem_flatMap.2 ⟨queryPiece d config a, queryPiece_mem ha, hrecord⟩⟩

/-- An operation of a tag is represented, or recorded by its identifier. -/
theorem represented_of_tagged (config : Configuration) (he : e ∈ d.endpoints) {tag : String}
    {op : ResolvedOperation} (h : e.GoesTo d (.tagged tag op)) :
    e.Represented d config (.ofContributions (contributionsOf (pieces d d.service config))) ∨
      ∃ err, .because op.identifier err
        ∈ (pieces d d.service config).flatMap (·.report.skipped) := by
  obtain ⟨t, ht, rfl, hop⟩ := exists_tagged (mem_places he h)
  rcases ClientPair.exists_method_or_record ResolvedOperation.identifier
    (apiMethods d (config.ignoredPathParameters t.tag.name)) hop
    (.empty t.classStart "ApiClient" "StreamApiClient" t.tag.docs) with
    ⟨before, plain, stream?, hbuilt, hplain⟩ | ⟨err, hrecord⟩
  · have hcls : .class (apiClients d config t).plain ∈ (apiContribution d config t).decls := by
      simp only [apiContribution, ClientPair.apiDecls]
      split <;> exact List.mem_cons_self
    have hmethod := hasMethod_of_plain (apiContribution_mem config ht) hcls hplain
    have hroute : plain.decorators = [routeDecorator e.method e.path] := by
      obtain ⟨hpath, hmethod, -⟩ := Endpoint.eq_of_resolve (Endpoint.resolve_of_tagged h)
      rw [← hpath, ← hmethod]
      exact decorators_of_operationMethods hbuilt
    exact .inl (.tagged h ht hbuilt hroute hmethod)
  · exact .inr ⟨err, List.mem_flatMap.2 ⟨apiPiece d config t, apiPiece_mem ht, hrecord⟩⟩

/-- An operation that takes a command is represented by that of its key, or recorded by the key. -/
theorem represented_of_command (config : Configuration) (he : e ∈ d.endpoints)
    {context name : String} {use : CommandUse} (h : e.GoesTo d (.command context name use)) :
    e.Represented d config (.ofContributions (contributionsOf (pieces d d.service config))) ∨
      ∃ err, .because use.schemaKey err
        ∈ (pieces d d.service config).flatMap (·.report.skipped) := by
  obtain ⟨a, ha, rfl, rfl, c, hc, hkey⟩ := exists_command (mem_places he h)
  rcases ClientPair.exists_method_or_record Command.schemaKey
    (commandMethods d a.attribution (config.ignoredPathParameters a.tag.name)) hc
    (.empty a.start "CommandClient" "StreamCommandClient" a.tag.docs) with
    ⟨before, plain, stream?, hbuilt, hplain⟩ | ⟨err, hrecord⟩
  · have hcls : .class (commandClients d config a).plain ∈ (commandContribution d config a).decls :=
      List.mem_cons_self
    have hmethod := hasMethod_of_plain (commandContribution_mem config ha) hcls hplain
    exact .inl (.command h ha hc hkey hbuilt hmethod)
  · rw [hkey] at hrecord
    exact .inr ⟨err, List.mem_flatMap.2 ⟨commandPiece d config a, commandPiece_mem ha, hrecord⟩⟩

end Methods

/-! ## All operations -/

/-- An operation that is not ignored is represented or recorded, the latter as operations are parted
    or as methods are built. -/
theorem represented_of_not_ignored (config : Configuration) (he : e ∈ d.endpoints)
    (h : ¬e.Ignored d) :
    e.Represented d config (.ofContributions (contributionsOf (pieces d d.service config))) ∨
      ∃ record ∈ d.service.skipped ++ (pieces d d.service config).flatMap (·.report.skipped),
        e.RecordedAs d record := by
  have hrecorded {item : String} (hitem : ∃ err, .because item err
      ∈ (pieces d d.service config).flatMap (·.report.skipped))
      (hnames : ∀ err, e.RecordedAs d (.because item err)) :
      ∃ record ∈ d.service.skipped ++ (pieces d d.service config).flatMap (·.report.skipped),
        e.RecordedAs d record := by
    obtain ⟨err, herr⟩ := hitem
    exact ⟨_, List.mem_append_right _ herr, hnames err⟩
  -- the rule has one place for the operation, and each place comes to its own end
  obtain ⟨p, hplace⟩ := Endpoint.exists_goesTo d e
  cases p with
  | skipped record =>
    have hmem := mem_skipped_service (mem_places he hplace)
    have hnames : e.RecordedAs d record := by
      cases hplace with
      | unresolved hop => exact .unresolved (.unresolved hop)
      | dangling hop hfirst hquery htakes herr =>
        exact .unresolved (.dangling hop hfirst hquery htakes herr)
    exact .inr ⟨record, List.mem_append_left _ hmem, hnames⟩
  | query context name op =>
    have hquery := represented_of_query config he hplace
    exact hquery.imp_right fun hitem => hrecorded hitem fun _ => .query hplace
  | tagged tag op =>
    have htagged := represented_of_tagged config he hplace
    exact htagged.imp_right fun hitem => hrecorded hitem fun _ => .tagged hplace
  | command context name use =>
    have hcommand := represented_of_command config he hplace
    exact hcommand.imp_right fun hitem => hrecorded hitem fun _ => .command hplace
  | nowhere => exact absurd (Endpoint.goesTo_nowhere_iff.1 hplace) h

/-- Whatever is compiled, an operation is represented in the files or recorded as left out, unless
    it is ignored: it has no tag, or it belongs to an aggregate and is neither a query of it nor
    takes a command.  An ignored operation leaves nothing behind: all queries, commands, operations
    of tags and records of operations are those of the document without it. -/
theorem represented_or_recorded {compiled : Compiled} (h : compile d config = .ok compiled) :
    ∃ g, generation d d.service config = .ok g ∧ compiled.code.files = renderedFiles g.project ∧
      ∀ e : Endpoint, d.HasOperation e →
        (¬e.Ignored d → e.Represented d config g.project ∨
          ∃ record ∈ compiled.summary.skipped, e.RecordedAs d record) ∧
        (e.Ignored d → (d.without e).IsWithout d e ∧
          d.parted.SameOperations (d.without e).parted) := by
  obtain ⟨hcode, -, hskipped⟩ := compile_eq_ok h
  obtain ⟨g, hg, hpure⟩ := bind_eq_ok_iff.1 hcode
  have hfiles : { files := renderedFiles g.project, report := g.report } = compiled.code :=
    Except.ok.inj hpure
  rw [← hfiles] at hskipped ⊢
  have hproject : g.project = .ofContributions (contributionsOf (pieces d d.service config)) := by
    rw [generation_eq_ok hg, Generation.project_ofPieces]
  have hrecords : g.report.skipped = (pieces d d.service config).flatMap (·.report.skipped) := by
    rw [generation_eq_ok hg, Generation.skipped_ofPieces]
  refine ⟨g, hg, rfl, fun e hoperation => ?_⟩
  have he := Document.mem_endpoints_iff.2 hoperation
  refine ⟨fun hfound => ?_, fun hignored => ?_⟩
  · -- the records of the service come first, and then those of generation
    rw [hproject, hskipped, hrecords]
    exact represented_of_not_ignored config he hfound
  · exact ⟨d.isWithout e, sameOperations_without he hignored⟩

theorem represented_or_recorded_assorted :
    ∃ compiled, ∃ g : Generation, compile assortedDocument {} = .ok compiled ∧
      compiled.code.files = renderedFiles g.project ∧ compiled.summary.skipped.length = 2 ∧
      assortedDocument.endpoints.length = 8 ∧ ∀ e ∈ assortedDocument.endpoints,
        if e.path ∈ ["/order/cancel", "/untagged"] then
          assortedDocument.parted.SameOperations (assortedDocument.without e).parted
        else e.Represented assortedDocument {} g.project ∨
          ∃ record ∈ compiled.summary.skipped, e.RecordedAs assortedDocument record := by
  have hrun : (compile assortedDocument {}).toOption.any
      (fun compiled => compiled.summary.skipped.length = 2) = true := by
    decide +kernel
  have hplaces : (assortedDocument.endpoints.all fun e =>
      decide (e.path ∈ ["/order/cancel", "/untagged"])
        == (e.place assortedDocument matches .nowhere)) = true := by
    decide +kernel
  obtain ⟨compiled, hcompiled, hskipped⟩ := exists_ok_of_any hrun
  obtain ⟨g, -, hfiles, hall⟩ := represented_or_recorded hcompiled
  refine ⟨compiled, g, hcompiled, hfiles, of_decide_eq_true hskipped, by decide +kernel, ?_⟩
  intro e he
  obtain ⟨hfound, hignored⟩ := hall e (Document.mem_endpoints_iff.1 he)
  rw [Endpoint.ignored_iff_place_eq] at hfound hignored
  have hplace := beq_iff_eq.1 (List.all_eq_true.1 hplaces e he)
  split
  · next hpath =>
    rw [decide_eq_true hpath] at hplace
    cases hnowhere : e.place assortedDocument with
    | nowhere => exact (hignored hnowhere).2
    | _ => simp [hnowhere] at hplace
  · next hpath =>
    apply hfound
    intro hnowhere
    simp [hnowhere, hpath] at hplace

/-- An operation without a tag, and one that writes without taking a command. -/
def silentDocument : Document :=
  { paths := .ofList
      [("/untagged", .only .get { responses := .ofList [] }),
       ("/order/\x7bid\x7d/cancel", .only .post
         { tags := ["example.order"], responses := .ofList [] })] }

/-- A document may be compiled into classes without methods, and without a record of either of its
    operations. -/
theorem exists_silent_operations :
    ∃ compiled g, compile silentDocument {} = .ok compiled ∧
      generation silentDocument silentDocument.service {} = .ok g ∧
      compiled.summary.skipped = [] ∧ silentDocument.endpoints.length = 2 ∧
      (∀ entry ∈ g.project.entries, ∀ cls, .class cls ∈ entry.2.declarations → cls.methods = []) ∧
      ∀ e ∈ silentDocument.endpoints, ¬e.Represented silentDocument {} g.project := by
  have hcompile : (compile silentDocument {}).toOption.any (·.summary.skipped.isEmpty) = true := by
    decide +kernel
  have hgeneration : (generation silentDocument silentDocument.service {}).toOption.any (fun g =>
      g.project.entries.all fun entry => entry.2.declarations.all fun
        | .class cls => cls.methods.isEmpty
        | _ => true) = true := by
    decide +kernel
  obtain ⟨compiled, hcompiled, hskipped⟩ := exists_ok_of_any hcompile
  obtain ⟨g, hg, hempty⟩ := exists_ok_of_any hgeneration
  have hmethods : ∀ entry ∈ g.project.entries, ∀ cls, .class cls ∈ entry.2.declarations →
      cls.methods = [] := by
    intro entry hentry cls hcls
    have hdecls := List.all_eq_true.1 hempty entry hentry
    exact List.isEmpty_iff.1 (List.all_eq_true.1 hdecls _ hcls)
  refine ⟨compiled, g, hcompiled, hg, List.isEmpty_iff.1 hskipped, by decide +kernel, hmethods, ?_⟩
  intro e he hrepresented
  obtain ⟨path, name, m, f, cls, hf, -, hcls, -, hm⟩ := hrepresented.exists_method
  rw [hmethods (path, f) (SortedMap.get?_eq_some_iff.1 hf) cls hcls] at hm
  exact absurd hm List.not_mem_nil

end ClientGen
