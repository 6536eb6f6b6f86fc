/-
  ClientGen.Proofs.ClassMember

  The members of client classes.  The methods of a class are named in turn, each beside
  those before it, so their names differ.  A class also has a constructor, whose parameter
  declares a property; `client_members_distinct_iff` says when a method has the name of
  one of these.
-/
import ClientGen.Proofs.MethodName
import ClientGen.Proofs.RuntimeName

namespace ClientGen

open TypeScript

/-! ## Members -/

namespace TypeScript

/-- The words by which a parameter of a constructor is declared as a property. -/
def propertyModifiers : List String := ["public", "private", "protected", "readonly"]

/-- The property that the parameter of a constructor declares. -/
def parameterProperty? (parameter : String) : Option String :=
  let words := Text.splitOn (· == ' ') parameter
  let name? := (words.dropWhile propertyModifiers.contains).head?
  -- without such a word the parameter is no member of the class
  if words.head?.any propertyModifiers.contains then
    name?.map fun name => String.ofList (name.toList.takeWhile continuesIdentifier)
  else none

/-- The names of the members that a class has besides its methods. -/
def ClassDecl.ownNames (c : ClassDecl) : List String :=
  match c.constructorParameters with
  | some parameter => "constructor" :: (parameterProperty? parameter).toList
  | none => []

/-- The names of the members of a class. -/
def ClassDecl.memberNames (c : ClassDecl) : List String :=
  c.ownNames ++ c.methods.map (·.name)

end TypeScript

/-! ## Names in turn -/

/-- Names with that of one more method. -/
def nameNext (taken : List String) (identifier : String) : List String :=
  taken ++ [methodName taken identifier]

/-- The names of methods for identifiers in turn. -/
def methodNames (identifiers : List String) : List String := identifiers.foldl nameNext []

theorem methodNames_concat (identifiers : List String) (last : String) :
    methodNames (identifiers ++ [last])
      = methodNames identifiers ++ [methodName (methodNames identifiers) last] :=
  List.foldl_concat ..

theorem nodup_methodNames (identifiers : List String) : (methodNames identifiers).Nodup := by
  induction identifiers using List.reverseRecOn with
  | nil => exact List.nodup_nil
  | append_singleton before last ih =>
    have hfree : methodName (methodNames before) last ∉ methodNames before :=
      (choosesName_methodName _ last).not_mem
    rw [methodNames_concat, ← List.concat_eq_append]
    exact ih.concat hfree

/-- A name is given to one of the identifiers, beside the names of those before it. -/
theorem mem_methodNames_iff {identifiers : List String} {name : String} :
    name ∈ methodNames identifiers ↔ ∃ before identifier after,
      identifiers = before ++ identifier :: after ∧
        ChoosesName (methodNames before) (identifierSegments identifier) name := by
  induction identifiers using List.reverseRecOn with
  | nil =>
    refine iff_of_false List.not_mem_nil ?_
    rintro ⟨before, identifier, after, hnil, -⟩
    exact List.append_ne_nil_of_right_ne_nil before (List.cons_ne_nil identifier after) hnil.symm
  | append_singleton init last ih =>
    rw [methodNames_concat, List.mem_append, ih, List.mem_singleton]
    constructor
    · rintro (⟨before, identifier, after, rfl, hchosen⟩ | rfl)
      · exact ⟨before, identifier, after ++ [last], by simp, hchosen⟩
      · exact ⟨init, last, [], rfl, choosesName_methodName _ last⟩
    · rintro ⟨before, identifier, after, hsplit, hchosen⟩
      -- the identifier is the last one or one of those before
      rcases List.eq_nil_or_concat after with rfl | ⟨after, other, rfl⟩
      · obtain ⟨rfl, hlast⟩ := List.append_inj' hsplit rfl
        cases hlast
        exact .inr (choosesName_iff.1 hchosen).symm
      · rw [List.concat_eq_append, ← List.cons_append, ← List.append_assoc] at hsplit
        exact .inl ⟨before, identifier, after, (List.append_inj' hsplit rfl).1, hchosen⟩

/-- Whether names become others by those of methods for some of the identifiers, in turn. -/
def NamedFor (identifiers before after : List String) : Prop :=
  ∃ kept : List String, kept.Sublist identifiers ∧ after = kept.foldl nameNext before

theorem NamedFor.refl (names : List String) : NamedFor [] names names := ⟨[], .slnil, rfl⟩

/-- An identifier in front names one more method or none. -/
theorem NamedFor.cons {identifier : String} {rest before between after : List String}
    (h : NamedFor rest between after)
    (hfirst : between = before ∨ between = nameNext before identifier) :
    NamedFor (identifier :: rest) before after := by
  obtain ⟨kept, hkept, rfl⟩ := h
  rcases hfirst with rfl | rfl
  · exact ⟨kept, hkept.cons identifier, rfl⟩
  · exact ⟨identifier :: kept, hkept.cons_cons identifier, rfl⟩

/-! ## Names of the methods that are added -/

namespace ClientPair

section Run

variable {α : Type} {label identifier : α → String}
  {build : ClientPair → α → Importing (MethodDecl × Option MethodDecl)}

/-- Whether the methods that are built for an item have the names that its identifier gets beside
    the methods that are there. -/
def NamesBy (identifier : α → String)
    (build : ClientPair → α → Importing (MethodDecl × Option MethodDecl)) : Prop :=
  ∀ c item plain stream?, (build c item).result = .ok (plain, stream?) →
    plain.name = methodName c.plainNames (identifier item) ∧
      ∀ stream, stream? = some stream → stream.name = methodName c.streamNames (identifier item)

/-- An item names one more method of a class or leaves its methods as they are. -/
theorem nextNames_addBuilt (h : NamesBy identifier build) (c : ClientPair) (label : String)
    (item : α) :
    let added := c.addBuilt label (build c item)
    (added.plainNames = c.plainNames ∨
        added.plainNames = nameNext c.plainNames (identifier item)) ∧
      (added.streamNames = c.streamNames ∨
        added.streamNames = nameNext c.streamNames (identifier item)) := by
  intro added
  simp only [added, addBuilt]
  cases hbuilt : (build c item).result with
  | error e => exact ⟨.inl rfl, .inl rfl⟩
  | ok methods =>
    obtain ⟨plain, stream?⟩ := methods
    obtain ⟨hplain, hstream⟩ := h c item plain stream? hbuilt
    refine ⟨.inr ?_, ?_⟩
    · rw [nameNext, ← hplain]
      exact List.map_append
    · cases stream? with
      | none => exact .inl rfl
      | some stream =>
        right
        rw [nameNext, ← hstream stream rfl]
        exact List.map_append

/-- By induction on the items: each class names its methods in turn, for some of the items. -/
theorem namedFor_addAll (h : NamesBy identifier build) (items : List α) (c : ClientPair) :
    NamedFor (items.map identifier) c.plainNames (addAll label build items c).plainNames ∧
      NamedFor (items.map identifier) c.streamNames (addAll label build items c).streamNames := by
  induction items generalizing c with
  | nil => exact ⟨.refl _, .refl _⟩
  | cons item rest ih =>
    obtain ⟨hplain, hstream⟩ := ih (c.addBuilt (label item) (build c item))
    obtain ⟨hfirst, hsecond⟩ := nextNames_addBuilt h c (label item) item
    rw [← addAll_cons] at hplain hstream
    exact ⟨hplain.cons hfirst, hstream.cons hsecond⟩

end Run

end ClientPair

/-! ## Names of the methods that are built -/

section Build

variable {d : Document}

theorem namesBy_operationMethods (needs : ResponseTypes → List Import)
    (streams : ResponseTypes → Bool) (ignored : List String) :
    ClientPair.NamesBy ResolvedOperation.identifier (operationMethods d needs streams ignored) := by
  intro c op plain stream? h
  obtain ⟨types, body, -, hplain, -, hstream⟩ := built_of_operationMethods h
  exact ⟨hplain.name, fun stream hs => (hstream stream hs).name⟩

theorem namesBy_queryMethods (ignored : List String) :
    ClientPair.NamesBy ResolvedOperation.identifier (queryMethods d ignored) :=
  namesBy_operationMethods _ _ ignored

theorem namesBy_apiMethods (ignored : List String) :
    ClientPair.NamesBy ResolvedOperation.identifier (apiMethods d ignored) :=
  namesBy_operationMethods _ _ ignored

theorem namesBy_commandMethods (attribution : Attribution) (ignored : List String) :
    ClientPair.NamesBy (·.operation.identifier) (commandMethods d attribution ignored) := by
  intro c command plain stream? h
  obtain ⟨body, first, second, hfirst, hsecond, rfl, rfl⟩ := built_of_commandMethods h
  refine ⟨hfirst.name, ?_⟩
  rintro stream ⟨⟩
  exact hsecond.name

end Build

/-! ## Members of generated classes -/

/-- The clients that a service declares in a file, with the identifiers of the operations for which
    they may have methods. -/
inductive Service.Hosts (s : Service) (d : Document) (config : Configuration) :
    String → ClientPair → List String → Prop where
  | query {a : Aggregate} (ha : a ∈ s.aggregates) :
      Hosts s d config a.queryFile (queryClients d config a) (a.queries.map (·.identifier))
  | command {a : Aggregate} (ha : a ∈ s.aggregates) :
      Hosts s d config a.commandFile (commandClients d config a)
        (a.commands.map (·.operation.identifier))
  | api {t : ApiTag} (ht : t ∈ s.apiTags.values) :
      Hosts s d config (t.file d) (apiClients d config t) (t.operations.map (·.identifier))

section Classes

variable {d : Document} {s : Service} {config : Configuration} {cls : ClassDecl}
  {source : String} {clients : ClientPair} {identifiers : List String}

/-- The classes of a contribution are those of hosted clients. -/
theorem exists_hosts {c : Contribution} (h : c ∈ contributionsOf (pieces d s config))
    (hcls : .class cls ∈ c.decls) :
    ∃ clients identifiers, s.Hosts d config c.path clients identifiers ∧
      (cls = clients.plain ∨ cls = clients.stream) := by
  have hpair {clients : ClientPair} (hcls : Declaration.class cls = .class clients.plain
      ∨ Declaration.class cls = .class clients.stream) :
      cls = clients.plain ∨ cls = clients.stream := by
    simpa using hcls
  rcases contribution_cases h with
    ⟨entry, -, decls, hdecls, rfl⟩ | ⟨a, ha, types, htypes, rfl⟩ | ⟨a, ha, rfl⟩ | ⟨t, ht, rfl⟩
  · exact absurd (isType_of_modelDecls hdecls _ hcls) Bool.false_ne_true
  · refine ⟨_, _, .query ha, hpair ?_⟩
    rcases List.mem_append.1 hcls with hcls | hcls
    · exact absurd (isType_of_aggregateTypes htypes _ hcls) Bool.false_ne_true
    · simpa using hcls
  · exact ⟨_, _, .command ha, hpair (by simpa [commandContribution] using hcls)⟩
  · exact ⟨_, _, .api ht, hpair (class_of_apiDecls hcls)⟩

/-- The methods of hosted clients are named in turn. -/
theorem Service.Hosts.namedFor (h : s.Hosts d config source clients identifiers) :
    NamedFor identifiers [] clients.plainNames ∧ NamedFor identifiers [] clients.streamNames := by
  cases h with
  | query ha => exact ClientPair.namedFor_addAll (namesBy_queryMethods _) _ _
  | command ha => exact ClientPair.namedFor_addAll (namesBy_commandMethods _ _) _ _
  | api ht => exact ClientPair.namedFor_addAll (namesBy_apiMethods _) _ _

/-- Methods are all that clients get that start empty. -/
theorem ClientPair.constructorParameters_addAll {α : Type} {label : α → String}
    {build : ClientPair → α → Importing (MethodDecl × Option MethodDecl)} {items : List α}
    {start plainEnding streamEnding : String} {docs : List String} :
    let c := addAll label build items (.empty start plainEnding streamEnding docs)
    cls = c.plain ∨ cls = c.stream →
      cls.constructorParameters = some "public readonly apiMetadata?: ApiMetadata" := by
  rintro c (rfl | rfl)
  · rw [plain_addAll]
    rfl
  · rw [stream_addAll]
    rfl

/-- A class of hosted clients has a constructor and the property that its parameter declares. -/
theorem Service.Hosts.ownNames (h : s.Hosts d config source clients identifiers)
    (hcls : cls = clients.plain ∨ cls = clients.stream) :
    cls.ownNames = ["constructor", "apiMetadata"] := by
  have hparameter :
      cls.constructorParameters = some "public readonly apiMetadata?: ApiMetadata" := by
    cases h with
    | query ha => exact ClientPair.constructorParameters_addAll hcls
    | command ha => exact ClientPair.constructorParameters_addAll hcls
    | api ht => exact ClientPair.constructorParameters_addAll hcls
  have hproperty : parameterProperty? "public readonly apiMetadata?: ApiMetadata"
      = some "apiMetadata" := by
    decide +kernel
  rw [ClassDecl.ownNames, hparameter]
  simp only [hproperty, Option.toList_some]

/-- The methods of a class of hosted clients are named in turn, for some of the identifiers. -/
theorem Service.Hosts.exists_methodNames (h : s.Hosts d config source clients identifiers)
    (hcls : cls = clients.plain ∨ cls = clients.stream) :
    ∃ kept : List String, kept.Sublist identifiers ∧
      cls.methods.map (·.name) = methodNames kept := by
  rcases hcls with rfl | rfl
  · exact h.namedFor.1
  · exact h.namedFor.2

/-- The names of members repeat only if a method is called like the constructor or the property. -/
theorem TypeScript.ClassDecl.nodup_memberNames_iff {kept : List String}
    (hown : cls.ownNames = ["constructor", "apiMetadata"])
    (hmethods : cls.methods.map (·.name) = methodNames kept) :
    cls.memberNames.Nodup ↔ ∀ name ∈ ["constructor", "apiMetadata"], name ∉ methodNames kept := by
  have hdistinct : ["constructor", "apiMetadata"].Nodup := by decide
  rw [ClassDecl.memberNames, hown, hmethods, List.nodup_append]
  constructor
  · rintro ⟨-, -, hapart⟩ name hname hmem
    exact hapart name hname name hmem rfl
  · intro hapart
    refine ⟨hdistinct, nodup_methodNames kept, ?_⟩
    rintro name hname _ hmem rfl
    exact hapart name hname hmem

end Classes

/-- Every class of a generation has methods of different names: those that the identifiers of its
    operations get in turn.  The names of its other members are different from these just when no
    identifier gets one of them by the rule. -/
theorem client_members_distinct_iff {d : Document} {config : Configuration} {g : Generation}
    {path : String} {f : SourceFile} {cls : ClassDecl}
    (h : generation d d.service config = .ok g) (hf : g.project.get? path = some f)
    (hcls : .class cls ∈ f.declarations) :
    (cls.methods.map (·.name)).Nodup ∧ cls.ownNames = ["constructor", "apiMetadata"] ∧
      ∃ source clients identifiers kept, FilePath.normalize source = path ∧
        d.service.Hosts d config source clients identifiers ∧
        (cls = clients.plain ∨ cls = clients.stream) ∧ kept.Sublist identifiers ∧
        cls.methods.map (·.name) = methodNames kept ∧
        (cls.memberNames.Nodup ↔ ∀ before identifier after,
          kept = before ++ identifier :: after → ∀ name ∈ ["constructor", "apiMetadata"],
            ¬ChoosesName (methodNames before) (identifierSegments identifier) name) := by
  rw [generation_eq_ok h, Generation.project_ofPieces] at hf
  rw [Project.declarations_of_get? hf] at hcls
  obtain ⟨c, hc, hcls⟩ := List.mem_flatMap.1 hcls
  obtain ⟨hmem, hpath⟩ := mem_contributionsTo.1 hc
  -- a class stems from one contribution, however many there are to its file
  obtain ⟨clients, identifiers, hhosts, hpair⟩ := exists_hosts hmem hcls
  obtain ⟨kept, hkept, hnames⟩ := hhosts.exists_methodNames hpair
  have hown : cls.ownNames = ["constructor", "apiMetadata"] := hhosts.ownNames hpair
  have hnodup : (cls.methods.map (·.name)).Nodup := hnames ▸ nodup_methodNames kept
  refine ⟨hnodup, hown, c.path, clients, identifiers, kept, hpath, hhosts, hpair, hkept, hnames, ?_⟩
  rw [ClassDecl.nodup_memberNames_iff hown hnames]
  constructor
  · rintro hapart before identifier after hsplit name hname hchosen
    exact hapart name hname (mem_methodNames_iff.2 ⟨before, identifier, after, hsplit, hchosen⟩)
  · intro hapart name hname hmem
    obtain ⟨before, identifier, after, hsplit, hchosen⟩ := mem_methodNames_iff.1 hmem
    exact hapart before identifier after hsplit name hname hchosen

/-- Whether a file that is generated declares a class with members of these names. -/
def Document.declaresMembers (d : Document) (path : String) (names : List String) : Bool :=
  (generation d d.service {}).toOption.any fun g =>
    (g.project.get? path).any fun f => f.declarations.any fun
      | .class cls => cls.memberNames = names
      | _ => false

theorem exists_class_of_declaresMembers {d : Document} {path : String} {names : List String}
    (h : d.declaresMembers path names = true) :
    ∃ g f cls, generation d d.service {} = .ok g ∧ g.project.get? path = some f ∧
      .class cls ∈ f.declarations ∧ cls.memberNames = names := by
  obtain ⟨g, hg, hfile⟩ := exists_ok_of_any h
  obtain ⟨f, hf, hdecls⟩ := (Option.any_eq_true _ _).1 hfile
  obtain ⟨decl, hdecl, hmembers⟩ := List.any_eq_true.1 hdecls
  cases decl with
  | «class» cls => exact ⟨g, f, cls, hg, hf, hdecl, of_decide_eq_true hmembers⟩
  | _ => cases hmembers

/-- Two operations of a tag, with these identifiers. -/
def identifiedDocument (first second : String) : Document :=
  let identified (identifier : String) : PathItem :=
    { operation? := fun method =>
        if method = .get then
          some { operationId := some identifier, tags := ["health"], responses := .ofList [] }
        else none }
  { paths := .ofList [("/first", identified first), ("/second", identified second)] }

/-- Two profiles. -/
def profileDocument : Document := identifiedDocument "user.profile" "team.profile"

theorem client_members_distinct_iff_profile :
    ∃ g f cls, generation profileDocument profileDocument.service {} = .ok g ∧
      g.project.get? "HealthApiClient.ts" = some f ∧ .class cls ∈ f.declarations ∧
      cls.memberNames = ["constructor", "apiMetadata", "profile", "teamProfile"] ∧
      (cls.methods.map (·.name)).Nodup := by
  have hrun : profileDocument.declaresMembers "HealthApiClient.ts"
      ["constructor", "apiMetadata", "profile", "teamProfile"] = true := by
    decide +kernel
  obtain ⟨g, f, cls, hg, hf, hcls, hnames⟩ := exists_class_of_declaresMembers hrun
  exact ⟨g, f, cls, hg, hf, hcls, hnames, (client_members_distinct_iff hg hf hcls).1⟩

/-- Operations that are called like the constructor and its property. -/
def constructorDocument : Document := identifiedDocument "constructor" "api_metadata"

/-- A generation succeeds in which the members of a class clash. -/
theorem exists_clashing_members :
    ∃ g f cls, generation constructorDocument constructorDocument.service {} = .ok g ∧
      g.project.get? "HealthApiClient.ts" = some f ∧ .class cls ∈ f.declarations ∧
      cls.memberNames = ["constructor", "apiMetadata", "constructor", "apiMetadata"] ∧
      ¬cls.memberNames.Nodup := by
  have hrun : constructorDocument.declaresMembers "HealthApiClient.ts"
      ["constructor", "apiMetadata", "constructor", "apiMetadata"] = true := by
    decide +kernel
  obtain ⟨g, f, cls, hg, hf, hcls, hnames⟩ := exists_class_of_declaresMembers hrun
  refine ⟨g, f, cls, hg, hf, hcls, hnames, ?_⟩
  rw [hnames]
  decide

end ClientGen
