/-
  ClientGen.Proofs.Reference

  What the builders of declarations refer to, and how they fail.  Every model
  that is noted belongs to a component of the document, every other name to a
  package of the runtime, and every failure is one of a schema: a reference that
  means nothing, or nesting that is too deep.  One lemma for each builder, up to
  the methods of the three kinds of clients.
-/
import ClientGen.Generate.Code
import ClientGen.Proofs.Map
import ClientGen.Proofs.Traced

namespace ClientGen

open TypeScript

/-! ## References into a document -/

theorem Text.afterStart?_append (start s : String) : Text.afterStart? start (start ++ s) = some s := by
  have hprefix : start.toList.isPrefixOf (start ++ s).toList = true := by
    rw [List.isPrefixOf_iff_prefix, String.toList_append]
    exact List.prefix_append _ _
  rw [Text.afterStart?, if_pos hprefix, String.toList_append, List.drop_left, String.ofList_toList]

theorem Text.afterStart?_eq_some_iff {start s rest : String} :
    Text.afterStart? start s = some rest ↔ s = start ++ rest := by
  constructor
  · intro h
    unfold Text.afterStart? at h
    split at h
    · next hstart =>
      obtain ⟨after, hafter⟩ := List.isPrefixOf_iff_prefix.1 hstart
      rw [← hafter, List.drop_left] at h
      rw [← Option.some.inj h, ← String.toList_inj, String.toList_append, String.toList_ofList, hafter]
    · cases h
  · rintro rfl
    exact Text.afterStart?_append start rest

theorem schemaKey?_pointer (key : String) : schemaKey? (schemaPointerStart ++ key) = some key :=
  Text.afterStart?_append schemaPointerStart key

namespace Document

variable {d : Document} {pointer referrer key : String} {s : Schema}

theorem resolveSchema_eq_ok_iff :
    d.resolveSchema pointer referrer = .ok (key, s) ↔
      schemaKey? pointer = some key ∧ d.schema? key = some s := by
  unfold resolveSchema
  cases hkey : schemaKey? pointer with
  | none => simp
  | some key' =>
    cases hs : d.schema? key' with
    | none =>
      simp only [hs, reduceCtorEq, Option.some.injEq, false_iff, not_and]
      rintro rfl
      simp [hs]
    | some s' =>
      simp only [hs, Except.ok.injEq, Prod.mk.injEq, Option.some.injEq]
      constructor
      · rintro ⟨rfl, rfl⟩
        exact ⟨rfl, hs⟩
      · rintro ⟨rfl, h⟩
        rw [hs, Option.some.injEq] at h
        exact ⟨rfl, h⟩

/-- The only way in which a schema pointer fails. -/
theorem resolveSchema_eq_error {e : GenerationError}
    (h : d.resolveSchema pointer referrer = .error e) : e = .unresolvedReference pointer referrer := by
  unfold resolveSchema at h
  split at h
  · cases h; rfl
  · split at h
    · cases h; rfl
    · cases h

theorem mem_schemas_iff : (key, s) ∈ d.components.schemas.entries ↔ d.schema? key = some s :=
  OrderedMap.get?_eq_some_iff.symm

end Document

/-! ## Bounds on notes and failures -/

/-- A failure that lies in a schema: a reference that means nothing, or nesting that is
    too deep. -/
def GenerationError.IsSchemaFault (e : GenerationError) : Prop :=
  (∃ pointer referrer, e = .unresolvedReference pointer referrer) ∨
    ∃ referrer, e = .tooDeep referrer nestingLimit

theorem GenerationError.isSchemaFault_of_resolveSchema {d : Document} {pointer referrer : String}
    {e : GenerationError} (h : d.resolveSchema pointer referrer = .error e) : e.IsSchemaFault :=
  .inl ⟨pointer, referrer, Document.resolveSchema_eq_error h⟩

theorem GenerationError.isSchemaFault_tooDeep (referrer : String) :
    IsSchemaFault (.tooDeep referrer nestingLimit) :=
  .inr ⟨referrer, rfl⟩

/-- The packages of the runtime, from which names are imported that belong to no schema. -/
def runtimeModules : List String := [frameworkModule, decoratorModule, eventStreamModule]

/-- An import that leads somewhere: to the model of a component, or to an identifier of a
    package of the runtime. -/
def TypeScript.Import.Grounded (d : Document) : Import → Prop
  | .model m => ∃ key s, d.schema? key = some s ∧ m = ModelName.ofReference key
  | .name module exported => module ∈ runtimeModules ∧ isIdentifier exported = true

/-- A computation that notes grounded imports and fails only in schemas. -/
abbrev Importing.Sound (d : Document) {α : Type} (t : Importing α) : Prop :=
  t.Within (Import.Grounded d) GenerationError.IsSchemaFault

/-- Needs of declarations of which the imports are grounded. -/
def Need.Grounded (d : Document) : Need → Prop
  | .import i => i.Grounded d
  | .claim _ => True

/-- A computation that notes grounded imports, besides claims, and fails only in schemas. -/
abbrev Declaring.Sound (d : Document) {α : Type} (t : Declaring α) : Prop :=
  t.Within (Need.Grounded d) GenerationError.IsSchemaFault

theorem Declaring.sound_mapNotes {d : Document} {α : Type} {t : Importing α}
    (h : Importing.Sound d t) : Declaring.Sound d (t.mapNotes .import) :=
  h.mapNotes fun _ hi => hi

/-! ## Types of schemas -/

section Types

variable (d : Document) (referrer : String)

theorem referenceType_sound (pointer : String) :
    Importing.Sound d (referenceType d referrer pointer) := by
  unfold referenceType
  apply Traced.Within.bind
  · exact .ofExcept fun e h => GenerationError.isSchemaFault_of_resolveSchema h
  · rintro ⟨key, s⟩ h
    have hs := (Document.resolveSchema_eq_ok_iff.1 h).2
    exact (Traced.Within.note ⟨key, s, hs, rfl⟩).bind fun _ _ => .pure _

variable {d} {inner : Schema → Importing String} (hinner : ∀ s, Importing.Sound d (inner s))
include hinner

theorem typeOr_sound (s : Option Schema) : Importing.Sound d (typeOr inner s) := by
  cases s with
  | none => exact .pure _
  | some s => exact hinner s

theorem memberType_sound (required : List String) (property : String × Schema) :
    Importing.Sound d (memberType inner required property) :=
  (hinner property.2).bind fun _ _ => .pure _

theorem indexType_sound (s : Schema) : Importing.Sound d (indexType inner s) := by
  unfold indexType
  split
  · exact (hinner _).map _
  · exact .pure _
  · exact .pure _

theorem typeByKind_sound (s : Schema) : Importing.Sound d (typeByKind d referrer inner s) := by
  unfold typeByKind
  cases s.kind with
  | reference pointer => exact referenceType_sound d referrer pointer
  | map values => exact (typeOr_sound hinner values).bind fun _ _ => .pure _
  | const value => exact .pure _
  | enum members => exact .pure _
  | composition c members =>
    exact (Traced.Within.mapM fun s _ => hinner s).bind fun _ _ => .pure _
  | array items => exact (typeOr_sound hinner items).bind fun _ _ => .pure _
  | object properties =>
    apply Traced.Within.bind
    · exact .mapM fun property _ => memberType_sound hinner s.required property
    · exact fun _ _ => (indexType_sound hinner s).bind fun _ _ => .pure _
  | primitive names => exact .pure _
  | unknown => exact .pure _

omit hinner in
/-- By induction on the levels that are left: what is nested has one less. -/
theorem typeWithin_sound (levels : Nat) (s : Schema) :
    Importing.Sound d (typeWithin d referrer levels s) := by
  induction levels generalizing s with
  | zero => exact .fail (GenerationError.isSchemaFault_tooDeep referrer)
  | succ levels ih => exact (typeByKind_sound referrer ih s).map _

omit hinner in
theorem typeOf_sound (s : Schema) : Importing.Sound d (typeOf d referrer s) :=
  typeWithin_sound referrer _ s

end Types

/-! ## Declarations of models -/

section Models

variable (d : Document) (key : String)

theorem declaredType_sound (s : Schema) : Declaring.Sound d (declaredType d key s) :=
  Declaring.sound_mapNotes (typeOf_sound key s)

theorem propertyType_sound (model : ModelName)
    {lift : ModelName → Schema → Declaring (List InterfaceDecl)}
    (hlift : ∀ m s, Declaring.Sound d (lift m s)) (property : String × Schema) :
    Declaring.Sound d (propertyType d key model lift property) := by
  obtain ⟨name, s⟩ := property
  unfold propertyType
  dsimp only
  split
  · apply Traced.Within.bind (.note trivial)
    exact fun _ _ => (hlift _ s).bind fun _ _ => .pure _
  · exact (declaredType_sound d key s).bind fun _ _ => .pure _

/-- By induction on the levels of lifting that are left. -/
theorem interfacesWithin_sound (levels : Nat) (docs parents : List String) (model : ModelName)
    (s : Schema) : Declaring.Sound d (interfacesWithin d key levels docs parents model s) := by
  induction levels generalizing docs parents model s with
  | zero => exact .fail (GenerationError.isSchemaFault_tooDeep key)
  | succ levels ih =>
    have hlift : ∀ m s, Declaring.Sound d (interfacesWithin d key levels s.docs [] m s) :=
      fun m s => ih s.docs [] m s
    unfold interfacesWithin
    apply Traced.Within.bind
    · exact .mapM fun property _ => propertyType_sound d key model hlift property
    · intro types _
      have hindex := indexType_sound (typeOf_sound (d := d) key) s
      exact (Declaring.sound_mapNotes hindex).bind fun _ _ => .pure _

theorem interfaces_sound (docs parents : List String) (model : ModelName) (s : Schema) :
    Declaring.Sound d (interfaces d key docs parents model s) :=
  (interfacesWithin_sound d key _ docs parents model s).map _

theorem aliasOf_sound (model : ModelName) (s : Schema) :
    Declaring.Sound d (aliasOf d key model s) :=
  (declaredType_sound d key s).bind fun _ _ => .pure _

theorem extendingInterface_sound (model : ModelName) (s : Schema) (pointer : String)
    (own : Schema) : Declaring.Sound d (extendingInterface d key model s pointer own) := by
  unfold extendingInterface
  apply Traced.Within.bind
  · exact .ofExcept fun e h => GenerationError.isSchemaFault_of_resolveSchema h
  · rintro ⟨_, parent⟩ _
    dsimp only
    split
    · apply Traced.Within.bind (Declaring.sound_mapNotes (referenceType_sound d key pointer))
      exact fun name _ => interfaces_sound d key s.docs [name] model own
    · exact aliasOf_sound d key model s

theorem modelDecls_sound (s : Schema) : Declaring.Sound d (modelDecls d key s) := by
  unfold modelDecls
  dsimp only
  split
  · exact .pure _
  · split
    · exact interfaces_sound d key s.docs [] _ s
    · split
      · exact extendingInterface_sound d key _ s _ _
      · exact aliasOf_sound d key _ s

/-- The imports of the declarations of a schema. -/
theorem importsOf_modelDecls_grounded (s : Schema) :
    ∀ i ∈ importsOf (modelDecls d key s).notes, i.Grounded d := by
  intro i hi
  obtain ⟨need, hneed, heq⟩ := List.mem_filterMap.1 hi
  have hgrounded := (modelDecls_sound d key s).notes need hneed
  cases need with
  | «import» i' =>
    rw [Option.some.injEq] at heq
    exact heq ▸ hgrounded
  | claim c => cases heq

end Models

/-! ## Methods of clients -/

theorem grounded_decoratorImports (d : Document) {names : List String}
    (h : ∀ name ∈ names, isIdentifier name = true) : ∀ i ∈ decoratorImports names, i.Grounded d := by
  intro i hi
  obtain ⟨name, hname, rfl⟩ := List.mem_map.1 hi
  exact ⟨by simp [runtimeModules], h name hname⟩

theorem grounded_eventStreamImport (d : Document) : eventStreamImport.Grounded d :=
  ⟨by simp [runtimeModules], by decide⟩

section Methods

variable (d : Document) (op : ResolvedOperation)

theorem ResponseTypes.add_sound (referrer : String) (r : ResponseTypes)
    (media : String × MediaType) : Importing.Sound d (r.add d referrer media) := by
  unfold ResponseTypes.add
  split
  · exact .pure _
  · next s _ =>
    split
    · split
      · exact .pure _
      · exact (typeOf_sound referrer s).bind fun _ _ => .pure _
    · split
      · exact .pure _
      · exact (typeOf_sound referrer s).bind fun _ _ => .pure _

theorem responseTypes_sound : Importing.Sound d (responseTypes d op) := by
  unfold responseTypes
  split
  · exact .pure _
  · exact .foldlM (fun r media _ => ResponseTypes.add_sound d op.identifier r media) _

theorem bodyOf_sound : Importing.Sound d (bodyOf d op) := by
  unfold bodyOf
  split
  · exact .pure _
  · split
    · exact .pure _
    · exact (typeOr_sound (typeOf_sound op.identifier) _).bind fun _ _ => .pure _

theorem pathParameterType_sound (name : String) :
    Importing.Sound d (pathParameterType d op name) := by
  unfold pathParameterType
  split
  · exact .pure _
  · exact (typeOf_sound op.identifier _).bind fun _ _ => .pure _

namespace MethodPlan

variable (p : MethodPlan)

theorem pathParameter_sound (bound : String × String) :
    Importing.Sound d (p.pathParameter d bound) :=
  (pathParameterType_sound d p.operation bound.1).bind fun _ _ => .pure _

theorem queryParameter_sound (bound : Parameter × String) :
    Importing.Sound d (p.queryParameter d bound) :=
  (typeOr_sound (typeOf_sound p.operation.identifier) bound.1.schema).bind fun _ _ => .pure _

theorem parameters_sound : Importing.Sound d (p.parameters d) := by
  unfold parameters
  apply Traced.Within.bind (.mapM fun bound _ => pathParameter_sound d p bound)
  intro path _
  exact (Traced.Within.mapM fun bound _ => queryParameter_sound d p bound).bind
    fun _ _ => .pure _

/-- A method is decorated with identifiers. -/
theorem isIdentifier_of_mem_decorators : ∀ name ∈ p.decorators, isIdentifier name = true := by
  have hmethod : isIdentifier p.operation.method.decorator = true := by
    cases p.operation.method <;> decide
  have hbody (b : Body) : ∀ name ∈ b.decorators, isIdentifier name = true := by
    cases b <;> simp only [Body.decorators] <;> decide
  intro name hname
  simp only [decorators, List.mem_append, List.mem_cons, List.not_mem_nil, or_false,
    List.mem_map] at hname
  rcases hname with (((rfl | rfl | rfl) | ⟨_, -, rfl⟩) | hname) | ⟨_, -, rfl⟩
  · exact hmethod
  · decide
  · decide
  · decide
  · cases hb : p.body with
    | none =>
      rw [hb] at hname
      cases hname
    | some b =>
      rw [hb] at hname
      exact hbody b name hname
  · decide

theorem build_sound : Importing.Sound d (p.build d) := by
  unfold build
  apply Traced.Within.bind (parameters_sound d p)
  intro parameters _
  exact (Traced.Within.noteAll
    (grounded_decoratorImports d p.isIdentifier_of_mem_decorators)).bind fun _ _ => .pure _

end MethodPlan

theorem buildIf_sound (streams : Bool) (p : MethodPlan) :
    Importing.Sound d (buildIf d streams p) := by
  unfold buildIf
  split
  · exact (MethodPlan.build_sound d p).map _
  · exact .pure _

theorem modelType_sound (referrer key : String) : Importing.Sound d (modelType d referrer key) :=
  referenceType_sound d referrer _

/-- The methods of an operation that is reached at its own path, with the imports that it
    `needs` for what it responds with, and with a streaming method if it `streams` that. -/
def operationMethods (d : Document) (needs : ResponseTypes → List Import)
    (streams : ResponseTypes → Bool) (ignored : List String) (c : ClientPair)
    (op : ResolvedOperation) : Importing (MethodDecl × Option MethodDecl) := do
  let types ← responseTypes d op
  let body ← bodyOf d op
  .noteAll (needs types)
  let (plain, stream) := plansOf op body ignored types c
  return (← plain.build d, ← buildIf d (streams types) stream)

/-- The imports of streamed responses, if a query streams. -/
def ResponseTypes.queryImports (r : ResponseTypes) : List Import :=
  if r.streamsQuery then [eventStreamImport] else []

theorem queryMethods_eq (ignored : List String) (c : ClientPair) :
    queryMethods d ignored c op
      = operationMethods d ResponseTypes.queryImports ResponseTypes.streamsQuery ignored c op := rfl

theorem apiMethods_eq (ignored : List String) (c : ClientPair) :
    apiMethods d ignored c op
      = operationMethods d ResponseTypes.streamImports ResponseTypes.hasBoth ignored c op := rfl

theorem operationMethods_sound {needs : ResponseTypes → List Import}
    (hneeds : ∀ types, ∀ i ∈ needs types, i.Grounded d) (streams : ResponseTypes → Bool)
    (ignored : List String) (c : ClientPair) :
    Importing.Sound d (operationMethods d needs streams ignored c op) := by
  unfold operationMethods
  apply Traced.Within.bind (responseTypes_sound d op)
  intro types _
  apply Traced.Within.bind (bodyOf_sound d op)
  intro body _
  apply Traced.Within.bind (.noteAll (hneeds types))
  intro _ _
  apply Traced.Within.bind (MethodPlan.build_sound d _)
  exact fun _ _ => (buildIf_sound d _ _).bind fun _ _ => .pure _

theorem grounded_ite_eventStreamImport (streams : Bool) :
    ∀ i ∈ (if streams then [eventStreamImport] else []), i.Grounded d := by
  intro i hi
  split at hi
  · rw [List.mem_singleton.1 hi]
    exact grounded_eventStreamImport d
  · exact absurd hi List.not_mem_nil

theorem queryMethods_sound (ignored : List String) (c : ClientPair) :
    Importing.Sound d (queryMethods d ignored c op) := by
  rw [queryMethods_eq]
  exact operationMethods_sound d op (fun types => grounded_ite_eventStreamImport d _) _ ignored c

theorem apiMethods_sound (ignored : List String) (c : ClientPair) :
    Importing.Sound d (apiMethods d ignored c op) := by
  rw [apiMethods_eq]
  exact operationMethods_sound d op (fun types => grounded_ite_eventStreamImport d _) _ ignored c

theorem Command.body_sound (c : Command) : Importing.Sound d (c.body d) := by
  unfold Command.body
  split
  · exact .pure _
  · exact (modelType_sound d _ _).bind fun _ _ => .pure _

theorem commandMethods_sound (attribution : Attribution) (ignored : List String)
    (clients : ClientPair) (c : Command) :
    Importing.Sound d (commandMethods d attribution ignored clients c) := by
  unfold commandMethods
  apply Traced.Within.bind (Command.body_sound d c)
  intro body _
  apply Traced.Within.bind (MethodPlan.build_sound d _)
  exact fun plain _ => (MethodPlan.build_sound d _).bind fun _ _ => .pure _

end Methods

/-! ## Types of aggregates -/

section Aggregates

variable (d : Document) (referrer : String)

theorem modelTypeOr_sound (default : String) (key : Option String) :
    Importing.Sound d (modelTypeOr d referrer default key) := by
  cases key with
  | none => exact .pure _
  | some key => exact modelType_sound d referrer key

theorem eventsType_sound (events : List Event) :
    Importing.Sound d (eventsType d referrer events) := by
  unfold eventsType
  split
  · exact .pure _
  · exact (Traced.Within.mapM fun e _ => modelType_sound d referrer e.schemaKey).bind
      fun _ _ => .pure _

theorem aggregateTypes_sound (a : Aggregate) : Importing.Sound d (aggregateTypes d a) := by
  unfold aggregateTypes
  apply Traced.Within.bind (modelTypeOr_sound d _ _ a.state)
  intro state _
  apply Traced.Within.bind (modelTypeOr_sound d _ _ a.fields)
  exact fun fields _ => (eventsType_sound d _ a.events).bind fun _ _ => .pure _

end Aggregates

end ClientGen
