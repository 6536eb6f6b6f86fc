/-
  ClientGen.Proofs.RuntimeName

  Names of the runtime in client files.  A class is written with decorators, types and
  functions of the runtime packages, which are noted far from where they are written.
  `client_names_bound` says that a file imports all of them, and the models that the
  types in its methods mean.
-/
import ClientGen.Proofs.ClientFile
import ClientGen.Proofs.SchemaReference
import ClientGen.Proofs.StreamType

namespace ClientGen

open TypeScript

/-! ## Names in declarations -/

/-- What a text applies to arguments: its beginning up to the first parenthesis. -/
def appliedName (cs : List Char) : String := String.ofList (cs.takeWhile (· ≠ '('))

/-- The function that a decorator applies. -/
def decoratorName (decorator : String) : String := appliedName (decorator.toList.drop 1)

/-- The function by whose result a line is left. -/
def thrownName? (line : String) : Option String :=
  if Text.startsWith "throw " line then some (appliedName (line.toList.drop 6)) else none

/-- Whether a method that returns this type returns a stream of events. -/
def returnsStream (type : String) : Bool := Text.startsWith ("Promise<" ++ streamStart) type

namespace TypeScript

/-- The names of the runtime with which a parameter is written, each with its module.  What is
    bound as the request has its type wrapped. -/
def ParameterDecl.runtimeNames (p : ParameterDecl) : List (String × String) :=
  p.decorator.toList.flatMap fun decorator =>
    (decoratorModule, decoratorName decorator) ::
      if decorator = "@request()" then [(decoratorModule, "ParameterRequest")] else []

def MethodDecl.runtimeNames (m : MethodDecl) : List (String × String) :=
  m.decorators.map (decoratorModule, decoratorName ·)
    ++ m.parameters.flatMap (·.runtimeNames)
    ++ (m.body.filterMap thrownName?).map (decoratorModule, ·)
    ++ if returnsStream m.returnType then [(eventStreamModule, eventStreamName)] else []

/-- The names of the runtime with which a class is written.  The type of a constructor's
    parameter is its last word. -/
def ClassDecl.runtimeNames (c : ClassDecl) : List (String × String) :=
  c.decorators.map (decoratorModule, decoratorName ·)
    ++ c.implemented.map (decoratorModule, ·)
    ++ (c.constructorParameters.bind fun p => (Text.splitOn (· == ' ') p).getLast?).toList.map
      (decoratorModule, ·)
    ++ c.methods.flatMap (·.runtimeNames)

def ConstDecl.runtimeNames (c : ConstDecl) : List (String × String) :=
  c.declaredType.toList.map (frameworkModule, ·)
    ++ ((Text.splitOn (!continuesIdentifier ·) c.initializer).filter
      (· = "ResourceAttributionPathSpec")).map (frameworkModule, ·)

/-- The names of the runtime with which a declaration is written.  Types of models have none. -/
def Declaration.runtimeNames : Declaration → List (String × String)
  | .const decl => decl.runtimeNames
  | .class decl => decl.runtimeNames
  | .enum _ | .interface _ | .alias _ => []

/-- Whether a declaration is that of a type. -/
def Declaration.isType : Declaration → Bool
  | .const _ | .class _ => false
  | .enum _ | .interface _ | .alias _ => true

theorem Declaration.runtimeNames_of_isType {decl : Declaration} (h : decl.isType = true) :
    decl.runtimeNames = [] := by
  cases decl with
  | const decl => cases h
  | «class» decl => cases h
  | _ => rfl

end TypeScript

theorem appliedName_append {name : String} (h : '(' ∉ name.toList) (rest : List Char) :
    appliedName (name.toList ++ '(' :: rest) = name := by
  have hname : ∀ c ∈ name.toList, decide (c ≠ '(') = true := by
    intro c hc
    rw [decide_eq_true_eq]
    rintro rfl
    exact h hc
  rw [appliedName, List.takeWhile_append_of_pos hname, List.takeWhile_cons_of_neg (by decide),
    List.append_nil, String.ofList_toList]

/-- A decorator applies the function behind its sign. -/
theorem decoratorName_append {name : String} (h : '(' ∉ name.toList) (rest : String) :
    decoratorName ("@" ++ name ++ "(" ++ rest) = name := by
  have htext : ("@" ++ name ++ "(" ++ rest).toList
      = '@' :: (name.toList ++ '(' :: rest.toList) := by
    simp only [String.toList_append, List.append_assoc]
    rfl
  rw [decoratorName, htext, List.drop_one, List.tail_cons, appliedName_append h]

theorem decoratorName_routeDecorator (method : HttpMethod) (route : String) :
    decoratorName (routeDecorator method route) = method.decorator := by
  have hname : '(' ∉ method.decorator.toList := by
    cases method <;> decide
  rw [routeDecorator, String.append_assoc, decoratorName_append hname]

/-- Whatever its arguments, the body of a method calls one function. -/
theorem thrownName?_throwStatement (parameters : List ParameterDecl) :
    thrownName? (throwStatement parameters) = some "autoGeneratedError" := by
  unfold throwStatement
  generalize ", ".intercalate (parameters.map (·.name)) = arguments
  have htext : ("throw autoGeneratedError(" ++ arguments ++ ");").toList
      = "throw ".toList
        ++ ("autoGeneratedError".toList ++ '(' :: (arguments.toList ++ [')', ';'])) := by
    simp only [String.toList_append, List.append_assoc]
    rfl
  have hstart :
      Text.startsWith "throw " ("throw autoGeneratedError(" ++ arguments ++ ");") = true := by
    rw [Text.startsWith, htext, List.isPrefixOf_iff_prefix]
    exact List.prefix_append _ _
  have hdrop (cs : List Char) : ("throw ".toList ++ cs).drop 6 = cs := rfl
  rw [thrownName?, if_pos hstart, htext, hdrop, appliedName_append (by decide)]

/-- Only a promise of a stream is one. -/
theorem returnsStream_promiseOf {type : String} (h : isStreamType type = false) :
    returnsStream (promiseOf type) = false := by
  have hclosed : isStreamType (type ++ ">") = false := Text.startsWith_append rfl (by decide) h
  have htext : (promiseOf type).toList = "Promise<".toList ++ (type ++ ">").toList := by
    rw [promiseOf, String.append_assoc, String.toList_append]
  rw [isStreamType, Text.startsWith, Bool.eq_false_iff, ne_eq, List.isPrefixOf_iff_prefix]
    at hclosed
  rw [returnsStream, Text.startsWith, htext, String.toList_append, Bool.eq_false_iff, ne_eq,
    List.isPrefixOf_iff_prefix, List.prefix_append_right_inj]
  exact hclosed

/-! ## Names in methods -/

section Methods

variable {d : Document} {m : MethodDecl}

theorem runtimeNames_of_decorator {q : ParameterDecl} {decorator : String}
    (h : q.decorator = some decorator) (hrequest : decorator ≠ "@request()") :
    q.runtimeNames = [(decoratorModule, decoratorName decorator)] := by
  rw [ParameterDecl.runtimeNames, h, Option.toList_some, List.flatMap_singleton, if_neg hrequest]

/-- A decorator for a text that is looked up. -/
theorem runtimeNames_of_lookup {q : ParameterDecl} {start text : String} {cs : List Char}
    (h : q.decorator = some (start ++ text ++ ")")) (hstart : start.toList = '@' :: cs)
    (hrequest : ¬start.toList <+: "@request()".toList) :
    q.runtimeNames = [(decoratorModule, appliedName (cs ++ text.toList ++ [')']))] := by
  have htext : (start ++ text ++ ")").toList = '@' :: (cs ++ text.toList ++ [')']) := by
    rw [String.toList_append, String.toList_append, hstart]
    rfl
  rw [runtimeNames_of_decorator h, decoratorName, htext, List.drop_one, List.tail_cons]
  intro heq
  apply hrequest
  rw [← heq, String.toList_append, String.toList_append, List.append_assoc]
  exact List.prefix_append _ _

namespace MethodPlan

variable {p : MethodPlan} {q : ParameterDecl}

theorem runtimeNames_pathParameter {bound : String × String}
    (h : (p.pathParameter d bound).result = .ok q) :
    q.runtimeNames = [(decoratorModule, "path")] := by
  obtain ⟨type, -, h⟩ := Traced.result_bind_eq_ok_iff.1 h
  cases h
  rw [runtimeNames_of_lookup rfl rfl (by decide)]
  rfl

theorem runtimeNames_queryParameter {bound : Parameter × String}
    (h : (p.queryParameter d bound).result = .ok q) :
    q.runtimeNames = [(decoratorModule, "query")] := by
  obtain ⟨type, -, h⟩ := Traced.result_bind_eq_ok_iff.1 h
  cases h
  rw [runtimeNames_of_lookup rfl rfl (by decide)]
  rfl

end MethodPlan

theorem Body.runtimeNames_parameter (b : Body) :
    b.parameter.runtimeNames = b.decorators.map (decoratorModule, ·) := by
  cases b with
  | json type required =>
    have hname : decoratorName "@request()" = "request" := by decide
    show [(decoratorModule, decoratorName "@request()"), (decoratorModule, "ParameterRequest")] = _
    rw [hname]
    rfl
  | form required =>
    have hname : decoratorName "@body()" = "body" := by decide
    show [(decoratorModule, decoratorName "@body()")] = _
    rw [hname]
    rfl

namespace MethodPlan

variable {p : MethodPlan}

theorem fst_mem_of_mem_zip {α β : Type} {as : List α} {bs : List β} {ab : α × β}
    (h : ab ∈ as.zip bs) : ab.1 ∈ as :=
  (List.of_mem_zip (a := ab.1) (b := ab.2) h).1

/-- The parameters of a method use names that its plan decorates with. -/
theorem runtimeNames_parameters {parameters : List ParameterDecl}
    (h : (p.parameters d).result = .ok parameters) :
    ∀ used ∈ parameters.flatMap (·.runtimeNames),
      ∃ name ∈ p.decorators, used = (decoratorModule, name) := by
  unfold MethodPlan.parameters at h
  obtain ⟨path, hpath, h⟩ := Traced.result_bind_eq_ok_iff.1 h
  obtain ⟨query, hquery, h⟩ := Traced.result_bind_eq_ok_iff.1 h
  cases h
  have hbody (keep : ParameterDecl → Bool) {q : ParameterDecl}
      (hq : q ∈ (p.body.map (·.parameter)).toList.filter keep) :
      ∀ used ∈ q.runtimeNames, ∃ name ∈ p.decorators, used = (decoratorModule, name) := by
    obtain ⟨b, hb, rfl⟩ := Option.map_eq_some_iff.1 (Option.mem_toList.1 (List.mem_filter.1 hq).1)
    intro used hused
    rw [b.runtimeNames_parameter] at hused
    obtain ⟨name, hname, rfl⟩ := List.mem_map.1 hused
    refine ⟨name, ?_, rfl⟩
    simp [decorators, hb, hname]
  intro used hused
  obtain ⟨q, hq, hused⟩ := List.mem_flatMap.1 hused
  simp only [List.mem_append, List.mem_singleton] at hq
  rcases hq with (((hq | hq) | hq) | hq) | rfl
  · -- there are path parameters only if there are placeholders
    obtain ⟨bound, hbound, hq⟩ := Traced.exists_of_mem_mapM hpath hq
    rw [runtimeNames_pathParameter hq, List.mem_singleton] at hused
    refine ⟨"path", ?_, hused⟩
    have hname : "path" ∈ p.placeholders.map fun _ => "path" :=
      List.mem_map.2 ⟨bound.1, fst_mem_of_mem_zip hbound, rfl⟩
    exact List.mem_append_left _ (List.mem_append_left _ (List.mem_append_right _ hname))
  · exact hbody _ hq used hused
  · exact hbody _ hq used hused
  · obtain ⟨bound, hbound, hq⟩ := Traced.exists_of_mem_mapM hquery hq
    rw [runtimeNames_queryParameter hq, List.mem_singleton] at hused
    refine ⟨"query", ?_, hused⟩
    have hname : "query" ∈ p.queries.map fun _ => "query" :=
      List.mem_map.2 ⟨bound.1, fst_mem_of_mem_zip hbound, rfl⟩
    exact List.mem_append_right _ hname
  · have hattributes : attributesParameter.runtimeNames = [(decoratorModule, "attribute")] := by
      decide
    rw [hattributes, List.mem_singleton] at hused
    exact ⟨"attribute", by simp [decorators], hused⟩

/-- A method uses the names that its plan decorates with, which are noted, and the stream that it
    returns. -/
theorem runtimeNames_build (h : (p.build d).result = .ok m) :
    ∀ used ∈ m.runtimeNames, Import.name used.1 used.2 ∈ (p.build d).notes ∨
      returnsStream p.returnType = true ∧ Import.name used.1 used.2 = eventStreamImport := by
  have hbuilds : p.Builds d m := builds_of_build h
  have hnoted {name : String} (hname : name ∈ p.decorators) :
      Import.name decoratorModule name ∈ (p.build d).notes := by
    unfold build
    apply Traced.mem_notes_bind_right hbuilds.parameters
    apply Traced.mem_notes_bind_left
    exact List.mem_map_of_mem hname
  intro used hused
  simp only [MethodDecl.runtimeNames, List.mem_append] at hused
  -- the decorator of the route, the parameters, the body, and the type that is returned
  rcases hused with ((hused | hused) | hused) | hused
  · rw [hbuilds.decorators, List.map_singleton, List.mem_singleton,
      decoratorName_routeDecorator] at hused
    rw [hused]
    exact .inl (hnoted (by simp [decorators]))
  · obtain ⟨name, hname, rfl⟩ := runtimeNames_parameters hbuilds.parameters used hused
    exact .inl (hnoted hname)
  · obtain ⟨name, hname, rfl⟩ := List.mem_map.1 hused
    obtain ⟨line, hline, hname⟩ := List.mem_filterMap.1 hname
    rw [hbuilds.body, List.mem_singleton] at hline
    rw [hline, thrownName?_throwStatement, Option.some.injEq] at hname
    rw [← hname]
    exact .inl (hnoted (by simp [decorators]))
  · split at hused
    · next hstream =>
      rw [List.mem_singleton.1 hused]
      rw [hbuilds.returnType] at hstream
      exact .inr ⟨hstream, rfl⟩
    · exact absurd hused List.not_mem_nil

end MethodPlan

/-- The type of a plain response is no stream. -/
theorem isStreamType_plain {op : ResolvedOperation} {types : ResponseTypes} {type : String}
    (h : (responseTypes d op).result = .ok types) (htype : types.plain = some type) :
    isStreamType type = false := by
  have hnone : ∀ type ∈ ({} : ResponseTypes).plain, isStreamType type = false := by
    intro type htype
    cases htype
  have hstep (r : ResponseTypes) (media : String × MediaType) (r' : ResponseTypes)
      (hr : ∀ type ∈ r.plain, isStreamType type = false)
      (hadd : (r.add d op.identifier media).result = .ok r') :
      ∀ type ∈ r'.plain, isStreamType type = false := by
    rcases ResponseTypes.add_cases hadd with rfl | ⟨s, plain, -, hplain, ⟨-, rfl⟩ | ⟨-, rfl⟩⟩
    · exact hr
    · exact hr
    · intro type htype
      cases htype
      exact isStreamType_typeOf hplain
  have hall : ∀ type ∈ types.plain, isStreamType type = false := by
    unfold responseTypes at h
    split at h
    · cases h
      exact hnone
    · exact Traced.foldlM_induction hstep hnone h
  exact hall type htype

/-- A plain method returns a stream only if there are events to be streamed. -/
theorem isSome_event_of_returnsStream {op : ResolvedOperation} {types : ResponseTypes}
    (h : (responseTypes d op).result = .ok types)
    (hstream : returnsStream types.returnType = true) :
    types.event.isSome = true := by
  cases hevent : types.event with
  | some event => rfl
  | none =>
    have hplain : ∃ type, types.returnType = promiseOf type ∧ isStreamType type = false := by
      unfold ResponseTypes.returnType
      cases hplain : types.plain with
      | some type => exact ⟨type, rfl, isStreamType_plain h hplain⟩
      | none =>
        -- without any response the method promises anything
        rw [hevent]
        exact ⟨anyType, rfl, by decide⟩
    obtain ⟨type, hreturn, htype⟩ := hplain
    rw [hreturn, returnsStream_promiseOf htype] at hstream
    cases hstream

/-- The methods of an operation use what is noted, if the type of streams is needed whenever there
    are events or a streaming method. -/
theorem runtimeNames_operationMethods {needs : ResponseTypes → List Import}
    {streams : ResponseTypes → Bool} {ignored : List String} {before : ClientPair}
    {op : ResolvedOperation} {plain : MethodDecl} {stream? : Option MethodDecl}
    (hevents : ∀ types, types.event.isSome = true → eventStreamImport ∈ needs types)
    (hstreams : ∀ types, streams types = true → eventStreamImport ∈ needs types)
    (h : (operationMethods d needs streams ignored before op).result = .ok (plain, stream?))
    (hm : m = plain ∨ stream? = some m) :
    ∀ used ∈ m.runtimeNames,
      Import.name used.1 used.2 ∈ (operationMethods d needs streams ignored before op).notes := by
  unfold operationMethods at h ⊢
  obtain ⟨types, htypes, h⟩ := Traced.result_bind_eq_ok_iff.1 h
  obtain ⟨body, hbody, h⟩ := Traced.result_bind_eq_ok_iff.1 h
  obtain ⟨noted, hnoted, h⟩ := Traced.result_bind_eq_ok_iff.1 h
  obtain ⟨first, hfirst, h⟩ := Traced.result_bind_eq_ok_iff.1 h
  obtain ⟨second, hsecond, h⟩ := Traced.result_bind_eq_ok_iff.1 h
  cases h
  intro used hused
  -- what follows is noted after the responses and the body
  apply Traced.mem_notes_bind_right htypes
  apply Traced.mem_notes_bind_right hbody
  rcases hm with rfl | rfl
  · rcases MethodPlan.runtimeNames_build hfirst used hused with hname | ⟨hstream, hname⟩
    · apply Traced.mem_notes_bind_right hnoted
      exact Traced.mem_notes_bind_left hname
    · rw [hname]
      apply Traced.mem_notes_bind_left
      exact hevents types (isSome_event_of_returnsStream htypes hstream)
  · unfold buildIf at hsecond
    split at hsecond
    · next hstreaming =>
      obtain ⟨stream, hstream, heq⟩ := Traced.result_map_eq_ok_iff.1 hsecond
      cases heq
      rcases MethodPlan.runtimeNames_build hstream used hused with hname | ⟨-, hname⟩
      · apply Traced.mem_notes_bind_right hnoted
        apply Traced.mem_notes_bind_right hfirst
        apply Traced.mem_notes_bind_left
        rw [buildIf, if_pos hstreaming, Traced.notes_map]
        exact hname
      · rw [hname]
        apply Traced.mem_notes_bind_left
        exact hstreams types hstreaming
    · cases hsecond

theorem mem_ite_eventStreamImport {streams : Bool} (h : streams = true) :
    eventStreamImport ∈ if streams then [eventStreamImport] else [] := by
  rw [if_pos h]
  exact List.mem_cons_self

theorem runtimeNames_queryMethods {ignored : List String} {before : ClientPair}
    {op : ResolvedOperation} {plain : MethodDecl} {stream? : Option MethodDecl}
    (h : (queryMethods d ignored before op).result = .ok (plain, stream?))
    (hm : m = plain ∨ stream? = some m) :
    ∀ used ∈ m.runtimeNames,
      Import.name used.1 used.2 ∈ (queryMethods d ignored before op).notes := by
  rw [queryMethods_eq] at h ⊢
  refine runtimeNames_operationMethods (fun types hevent => ?_) (fun types hstreams => ?_) h hm
  · -- a query streams whenever there are events
    have hstreams : types.streamsQuery = true := by
      rw [ResponseTypes.streamsQuery, hevent, Bool.true_or]
    exact mem_ite_eventStreamImport hstreams
  · exact mem_ite_eventStreamImport hstreams

theorem runtimeNames_apiMethods {ignored : List String} {before : ClientPair}
    {op : ResolvedOperation} {plain : MethodDecl} {stream? : Option MethodDecl}
    (h : (apiMethods d ignored before op).result = .ok (plain, stream?))
    (hm : m = plain ∨ stream? = some m) :
    ∀ used ∈ m.runtimeNames,
      Import.name used.1 used.2 ∈ (apiMethods d ignored before op).notes := by
  rw [apiMethods_eq] at h ⊢
  refine runtimeNames_operationMethods (fun types hevent => ?_) (fun types hboth => ?_) h hm
  · exact mem_ite_eventStreamImport hevent
  · rw [ResponseTypes.hasBoth, Bool.and_eq_true] at hboth
    exact mem_ite_eventStreamImport hboth.2

/-- The methods of a command use what is noted, and the type of streams. -/
theorem runtimeNames_commandMethods {attribution : Attribution} {ignored : List String}
    {before : ClientPair} {c : Command} {plain : MethodDecl} {stream? : Option MethodDecl}
    (h : (commandMethods d attribution ignored before c).result = .ok (plain, stream?))
    (hm : m = plain ∨ stream? = some m) :
    ∀ used ∈ m.runtimeNames, Import.name used.1 used.2 = eventStreamImport ∨
      Import.name used.1 used.2 ∈ (commandMethods d attribution ignored before c).notes := by
  -- documentation is written without any name
  have hdocs (documented : List String) (m : MethodDecl) :
      (withSchemaDocs d c documented m).runtimeNames = m.runtimeNames := by
    rw [withSchemaDocs_eq]
    rfl
  unfold commandMethods at h ⊢
  obtain ⟨body, hbody, h⟩ := Traced.result_bind_eq_ok_iff.1 h
  obtain ⟨first, hfirst, h⟩ := Traced.result_bind_eq_ok_iff.1 h
  obtain ⟨second, hsecond, h⟩ := Traced.result_bind_eq_ok_iff.1 h
  cases h
  intro used hused
  rcases hm with rfl | hm
  · rw [hdocs] at hused
    rcases MethodPlan.runtimeNames_build hfirst used hused with hname | ⟨-, hname⟩
    · right
      apply Traced.mem_notes_bind_right hbody
      exact Traced.mem_notes_bind_left hname
    · exact .inl hname
  · cases hm
    rw [hdocs] at hused
    rcases MethodPlan.runtimeNames_build hsecond used hused with hname | ⟨-, hname⟩
    · right
      apply Traced.mem_notes_bind_right hbody
      apply Traced.mem_notes_bind_right hfirst
      exact Traced.mem_notes_bind_left hname
    · exact .inl hname

end Methods

/-! ## Names in classes -/

section Classes

variable {needs : List Import}

theorem decoratorName_apiDecorator (streams : Bool) :
    decoratorName (apiDecorator streams) = "api" := by
  cases streams <;> decide

/-- A client class uses the names of its head and those of its methods. -/
theorem runtimeNames_clientClass {name : String} {docs : List String} {streams : Bool}
    {methods : List MethodDecl} (hclient : ∀ i ∈ clientImports, i ∈ needs)
    (hmethods : ∀ m ∈ methods, ∀ used ∈ m.runtimeNames, Import.name used.1 used.2 ∈ needs) :
    ∀ used ∈ { clientClass name docs streams with methods }.runtimeNames,
      Import.name used.1 used.2 ∈ needs := by
  have hlast : (Text.splitOn (· == ' ') "public readonly apiMetadata?: ApiMetadata").getLast?
      = some "ApiMetadata" := by decide
  have hhead : { clientClass name docs streams with methods }.runtimeNames
      = [(decoratorModule, "api"), (decoratorModule, "ApiMetadataCapable"),
          (decoratorModule, "ApiMetadata")] ++ methods.flatMap (·.runtimeNames) := by
    simp only [ClassDecl.runtimeNames, clientClass, List.map_singleton, decoratorName_apiDecorator,
      Option.bind_some, hlast]
    rfl
  intro used hused
  rw [hhead] at hused
  rcases List.mem_append.1 hused with hused | hused
  · apply hclient
    simp only [List.mem_cons, List.not_mem_nil, or_false] at hused
    rcases hused with rfl | rfl | rfl <;> decide
  · obtain ⟨m, hm, hused⟩ := List.mem_flatMap.1 hused
    exact hmethods m hm used hused

/-- The classes of a pair use what their methods need, if all methods do. -/
theorem ClientPair.runtimeNames_addAll {α : Type} {label : α → String}
    {build : ClientPair → α → Importing (MethodDecl × Option MethodDecl)} {items : List α}
    {start plainEnding streamEnding : String} {docs : List String}
    (hclient : ∀ i ∈ clientImports, i ∈ needs)
    (hneeds : ∀ i ∈ (addAll label build items (.empty start plainEnding streamEnding docs)).needs,
      i ∈ needs)
    (hbuild : ∀ before item plain stream?, (build before item).result = .ok (plain, stream?) →
      ∀ m, m = plain ∨ stream? = some m → ∀ used ∈ m.runtimeNames,
        Import.name used.1 used.2 ∈ needs ∨ Import.name used.1 used.2 ∈ (build before item).notes) :
    let c := addAll label build items (.empty start plainEnding streamEnding docs)
    ∀ cls, cls = c.plain ∨ cls = c.stream → ∀ used ∈ cls.runtimeNames,
      Import.name used.1 used.2 ∈ needs := by
  intro c cls hcls
  have hmethods : ∀ m ∈ c.methods, ∀ used ∈ m.runtimeNames, Import.name used.1 used.2 ∈ needs := by
    intro m hm used hused
    obtain ⟨item, -, before, plain, stream?, hbuilt, hm, hnotes⟩ := exists_item_of_mem_methods hm
    rcases hbuild before item plain stream? hbuilt m hm used hused with hname | hname
    · exact hname
    · exact hneeds _ (hnotes _ hname)
  rcases hcls with rfl | rfl
  · rw [plain_addAll]
    exact runtimeNames_clientClass hclient fun m hm => hmethods m (List.mem_append_left _ hm)
  · rw [stream_addAll]
    exact runtimeNames_clientClass hclient fun m hm => hmethods m (List.mem_append_right _ hm)

end Classes

/-! ## Names in contributions -/

section Contributions

variable {d : Document} {s : Service} {config : Configuration} {c : Contribution}

theorem isType_of_interfaces {key : String} {docs parents : List String} {model : ModelName}
    {schema : Schema} {decls : List Declaration}
    (h : (interfaces d key docs parents model schema).result = .ok decls) :
    ∀ decl ∈ decls, decl.isType = true := by
  obtain ⟨lifted, -, rfl⟩ := Traced.result_map_eq_ok_iff.1 h
  intro decl hdecl
  obtain ⟨interface, -, rfl⟩ := List.mem_map.1 hdecl
  rfl

theorem isType_of_aliasOf {key : String} {model : ModelName} {schema : Schema}
    {decls : List Declaration} (h : (aliasOf d key model schema).result = .ok decls) :
    ∀ decl ∈ decls, decl.isType = true := by
  obtain ⟨type, -, h⟩ := Traced.result_bind_eq_ok_iff.1 h
  cases h
  intro decl hdecl
  rw [List.mem_singleton.1 hdecl]
  rfl

/-- A schema is declared by types only. -/
theorem isType_of_modelDecls {key : String} {schema : Schema} {decls : List Declaration}
    (h : (modelDecls d key schema).result = .ok decls) : ∀ decl ∈ decls, decl.isType = true := by
  unfold modelDecls at h
  dsimp only at h
  split at h
  · cases h
    intro decl hdecl
    rw [List.mem_singleton.1 hdecl]
    rfl
  · split at h
    · exact isType_of_interfaces h
    · split at h
      · obtain ⟨⟨_, parent⟩, -, h⟩ := Traced.result_bind_eq_ok_iff.1 h
        dsimp only at h
        split at h
        · obtain ⟨name, -, h⟩ := Traced.result_bind_eq_ok_iff.1 h
          exact isType_of_interfaces h
        · exact isType_of_aliasOf h
      · exact isType_of_aliasOf h

theorem isType_of_aggregateTypes {a : Aggregate} {types : List Declaration}
    (h : (aggregateTypes d a).result = .ok types) : ∀ decl ∈ types, decl.isType = true := by
  obtain ⟨state, -, h⟩ := Traced.result_bind_eq_ok_iff.1 h
  obtain ⟨fields, -, h⟩ := Traced.result_bind_eq_ok_iff.1 h
  obtain ⟨events, -, h⟩ := Traced.result_bind_eq_ok_iff.1 h
  cases h
  intro decl hdecl
  simp only [List.mem_cons, List.not_mem_nil, or_false] at hdecl
  rcases hdecl with rfl | rfl | rfl <;> rfl

theorem runtimeNames_queryOptions (a : Aggregate) :
    ∀ used ∈ (queryOptions d a).runtimeNames, Import.name used.1 used.2 ∈ queryOptionsImports := by
  intro used hused
  simp only [ConstDecl.runtimeNames, List.mem_append] at hused
  rcases hused with hused | hused
  · have hdeclared : (queryOptions d a).declaredType = some "QueryClientOptions" := rfl
    rw [hdeclared, Option.toList_some, List.map_singleton, List.mem_singleton] at hused
    rw [hused]
    exact List.mem_cons_self
  · obtain ⟨name, hname, rfl⟩ := List.mem_map.1 hused
    have hword := of_decide_eq_true (List.mem_filter.1 hname).2
    rw [hword]
    exact List.mem_cons_of_mem _ List.mem_cons_self

example :
    (queryOptions {} { context := "shop", name := "order", tag.name := "shop.order" }).runtimeNames
      = [(frameworkModule, "QueryClientOptions"),
        (frameworkModule, "ResourceAttributionPathSpec")] := by
  decide +kernel

/-- Whatever a contribution declares is written with names that it needs. -/
theorem runtimeNames_needed (h : c ∈ contributionsOf (pieces d s config)) :
    ∀ decl ∈ c.decls, ∀ used ∈ decl.runtimeNames, Import.name used.1 used.2 ∈ c.needs := by
  have hclients {c : ClientPair} {needs : List Import}
      (hclasses : ∀ cls, cls = c.plain ∨ cls = c.stream → ∀ used ∈ cls.runtimeNames,
        Import.name used.1 used.2 ∈ needs) {decl : Declaration}
      (hdecl : decl = .class c.plain ∨ decl = .class c.stream) :
      ∀ used ∈ decl.runtimeNames, Import.name used.1 used.2 ∈ needs := by
    rcases hdecl with rfl | rfl
    · exact hclasses _ (.inl rfl)
    · exact hclasses _ (.inr rfl)
  rcases contribution_cases h with
    ⟨entry, -, decls, hdecls, rfl⟩ | ⟨a, -, types, htypes, rfl⟩ | ⟨a, -, rfl⟩ | ⟨t, -, rfl⟩
  · intro decl hdecl used hused
    rw [Declaration.runtimeNames_of_isType (isType_of_modelDecls hdecls decl hdecl)] at hused
    exact absurd hused List.not_mem_nil
  · -- first the types of the aggregate, then its options, then its classes
    intro decl hdecl used hused
    rcases List.mem_append.1 hdecl with hdecl | hdecl
    · rw [Declaration.runtimeNames_of_isType (isType_of_aggregateTypes htypes decl hdecl)] at hused
      exact absurd hused List.not_mem_nil
    · simp only [List.mem_cons, List.not_mem_nil, or_false] at hdecl
      rcases hdecl with rfl | hdecl
      · have hneeded := runtimeNames_queryOptions a used hused
        simp only [queryContribution, List.mem_append]
        exact .inl (.inl (.inr hneeded))
      · refine hclients (ClientPair.runtimeNames_addAll ?_ ?_ ?_) hdecl used hused
        · intro i hi
          simp only [queryContribution, List.mem_append]
          exact .inl (.inr hi)
        · exact fun i hi => List.mem_append_right _ hi
        · intro before op plain stream? hbuilt m hm used hused
          exact .inr (runtimeNames_queryMethods hbuilt hm used hused)
  · intro decl hdecl used hused
    simp only [commandContribution, List.mem_cons, List.not_mem_nil, or_false] at hdecl
    refine hclients (ClientPair.runtimeNames_addAll ?_ ?_ ?_) hdecl used hused
    · intro i hi
      simp only [commandContribution, List.mem_append]
      exact .inl (.inr hi)
    · exact fun i hi => List.mem_append_right _ hi
    · intro before command plain stream? hbuilt m hm used hused
      rcases runtimeNames_commandMethods hbuilt hm used hused with hname | hname
      · -- the file imports the type of streams whatever its methods are
        rw [hname]
        exact .inl (List.mem_append_left _ (List.mem_append_left _ (by simp [commandImports])))
      · exact .inr hname
  · intro decl hdecl used hused
    refine hclients (ClientPair.runtimeNames_addAll ?_ ?_ ?_) (class_of_apiDecls hdecl) used hused
    · exact fun i hi => List.mem_append_left _ hi
    · exact fun i hi => List.mem_append_right _ hi
    · intro before op plain stream? hbuilt m hm used hused
      exact .inr (runtimeNames_apiMethods hbuilt hm used hused)

/-! ## Models in signatures -/

/-- Whether a method is emitted in a client file of a service, with the schemas of which its types
    are made: a query, a command or an API operation was built into it. -/
inductive Service.Emits (s : Service) (d : Document) (config : Configuration) :
    String → MethodDecl → List Schema → Prop where
  | query {a : Aggregate} {op : ResolvedOperation} {before : ClientPair} {plain m : MethodDecl}
      {stream? : Option MethodDecl} (ha : a ∈ s.aggregates) (hop : op ∈ a.queries)
      (hbuilt : (queryMethods d (config.ignoredPathParameters a.tag.name) before op).result
        = .ok (plain, stream?)) (hm : m = plain ∨ stream? = some m) :
      Emits s d config a.queryFile m (op.methodSchemas (config.ignoredPathParameters a.tag.name))
  | command {a : Aggregate} {c : Command} {before : ClientPair} {plain m : MethodDecl}
      {stream? : Option MethodDecl} (ha : a ∈ s.aggregates) (hc : c ∈ a.commands)
      (hbuilt : (commandMethods d a.attribution (config.ignoredPathParameters a.tag.name) before
        c).result = .ok (plain, stream?)) (hm : m = plain ∨ stream? = some m) :
      Emits s d config a.commandFile m
        (c.methodSchemas a.attribution (config.ignoredPathParameters a.tag.name))
  | api {t : ApiTag} {op : ResolvedOperation} {before : ClientPair} {plain m : MethodDecl}
      {stream? : Option MethodDecl} (ht : t ∈ s.apiTags.values) (hop : op ∈ t.operations)
      (hbuilt : (apiMethods d (config.ignoredPathParameters t.tag.name) before op).result
        = .ok (plain, stream?)) (hm : m = plain ∨ stream? = some m) :
      Emits s d config (t.file d) m (op.methodSchemas (config.ignoredPathParameters t.tag.name))

/-- What is noted whenever methods are built is needed by the clients. -/
theorem ClientPair.needed_of_notes {α : Type}
    {build : ClientPair → α → Importing (MethodDecl × Option MethodDecl)} {item : α}
    {before : ClientPair} {methods : MethodDecl × Option MethodDecl} {needs : List Import}
    {N : Import → Prop} (hbuilt : (build before item).result = .ok methods)
    (hneeds : ∀ i ∈ (build before item).notes, i ∈ needs) (h : (build before item).Notes N) :
    ∃ i ∈ needs, N i := by
  obtain ⟨i, hi, hN⟩ := h methods hbuilt
  exact ⟨i, hneeds i hi, hN⟩

/-- Every method of a contribution is emitted, and the contribution needs the models that the
    schemas of its types refer to. -/
theorem exists_emits {cls : ClassDecl} {m : MethodDecl}
    (h : c ∈ contributionsOf (pieces d s config)) (hcls : .class cls ∈ c.decls)
    (hm : m ∈ cls.methods) :
    ∃ schemas, s.Emits d config c.path m schemas ∧ ∀ schema ∈ schemas, ∀ pointer,
      schema.RefersTo pointer → ∃ i ∈ c.needs, i.IsModelAt d pointer := by
  have hmethods {clients : ClientPair} (hcls : Declaration.class cls = .class clients.plain
      ∨ Declaration.class cls = .class clients.stream) : m ∈ clients.methods := by
    rcases hcls with hcls | hcls
    · cases hcls
      exact List.mem_append_left _ hm
    · cases hcls
      exact List.mem_append_right _ hm
  rcases contribution_cases h with
    ⟨entry, -, decls, hdecls, rfl⟩ | ⟨a, ha, types, htypes, rfl⟩ | ⟨a, ha, rfl⟩ | ⟨t, ht, rfl⟩
  · exact absurd (isType_of_modelDecls hdecls _ hcls) Bool.false_ne_true
  · have hpair : Declaration.class cls = .class (queryClients d config a).plain
        ∨ Declaration.class cls = .class (queryClients d config a).stream := by
      rcases List.mem_append.1 hcls with hcls | hcls
      · exact absurd (isType_of_aggregateTypes htypes _ hcls) Bool.false_ne_true
      · simpa using hcls
    obtain ⟨op, hop, before, plain, stream?, hbuilt, hm, hnotes⟩ :=
      ClientPair.exists_item_of_mem_methods (hmethods hpair)
    refine ⟨_, .query ha hop hbuilt hm, fun schema hschema pointer hrefers => ?_⟩
    exact ClientPair.needed_of_notes hbuilt (fun i hi => List.mem_append_right _ (hnotes i hi))
      (operationMethods_notes hschema hrefers)
  · have hpair : Declaration.class cls = .class (commandClients d config a).plain
        ∨ Declaration.class cls = .class (commandClients d config a).stream := by
      simpa [commandContribution] using hcls
    obtain ⟨command, hcommand, before, plain, stream?, hbuilt, hm, hnotes⟩ :=
      ClientPair.exists_item_of_mem_methods (hmethods hpair)
    refine ⟨_, .command ha hcommand hbuilt hm, fun schema hschema pointer hrefers => ?_⟩
    exact ClientPair.needed_of_notes hbuilt (fun i hi => List.mem_append_right _ (hnotes i hi))
      (commandMethods_notes hschema hrefers)
  · obtain ⟨op, hop, before, plain, stream?, hbuilt, hm, hnotes⟩ :=
      ClientPair.exists_item_of_mem_methods (hmethods (class_of_apiDecls hcls))
    refine ⟨_, .api ht hop hbuilt hm, fun schema hschema pointer hrefers => ?_⟩
    exact ClientPair.needed_of_notes hbuilt (fun i hi => List.mem_append_right _ (hnotes i hi))
      (operationMethods_notes hschema hrefers)

/-- A client file is no file of a model, so it imports each model that it needs. -/
theorem Service.Emits.exists_target {source : String} {m : MethodDecl} {schemas : List Schema}
    (h : s.Emits d config source m schemas) (model : ModelName) :
    ∃ module, (Import.model model).target? source = some (module, model.name) := by
  -- the name of the file tells the two apart
  have hfile : model.file ≠ source := by
    have hmodel : FilePath.fileName? model.file = some "types.ts" := FilePath.fileName?_modelFile _
    cases h with
    | query => exact ne_of_fileName? hmodel (fileName?_queryFile _) (by decide)
    | command => exact ne_of_fileName? hmodel (fileName?_commandFile _) (by decide)
    | api =>
      exact ne_of_fileName? hmodel (fileName?_apiFile _ d).1 (append_apiClient_ne (by decide)).symm
  unfold Import.target?
  dsimp only
  split
  · exact ⟨_, rfl⟩
  · exact ⟨_, rfl⟩

end Contributions

/-! ## Imports of client files -/

/-- Whatever name of the runtime a file is written with, the file imports it; so does the file of
    command clients with their result.  Every method is emitted for an operation or a command, and
    the file imports the models that the schemas of the method's types refer to. -/
theorem client_names_bound {d : Document} {config : Configuration} {g : Generation} {path : String}
    {f : SourceFile} (h : generation d d.service config = .ok g)
    (hf : g.project.get? path = some f) :
    (∀ decl ∈ f.declarations, ∀ used ∈ decl.runtimeNames, f.imports.Has used.1 used.2) ∧
      (∀ a ∈ d.service.aggregates, path = FilePath.normalize a.commandFile →
        f.imports.Has frameworkModule commandResult) ∧
      ∀ cls, .class cls ∈ f.declarations → ∀ m ∈ cls.methods, ∃ source schemas,
        FilePath.normalize source = path ∧ d.service.Emits d config source m schemas ∧
          ∀ schema ∈ schemas, ∀ pointer, schema.RefersTo pointer → ∃ key target module,
            schemaKey? pointer = some key ∧ d.schema? key = some target ∧
              (Import.model (.ofReference key)).target? source
                = some (module, (ModelName.ofReference key).name) ∧
              f.imports.Has module (ModelName.ofReference key).name := by
  rw [generation_eq_ok h, Generation.project_ofPieces] at hf
  have hdecls := Project.declarations_of_get? hf
  have hhas {c : Contribution} {i : Import} {module name : String}
      (hc : c ∈ contributionsTo path (contributionsOf (pieces d d.service config)))
      (hi : i ∈ c.needs) (htarget : i.target? c.path = some (module, name)) :
      f.imports.Has module name :=
    (Project.has_of_get? hf).2 ⟨c, hc, i, hi, htarget⟩
  refine ⟨fun decl hdecl used hused => ?_, ?_, fun cls hcls m hm => ?_⟩
  · rw [hdecls] at hdecl
    obtain ⟨c, hc, hdecl⟩ := List.mem_flatMap.1 hdecl
    have hneeded := runtimeNames_needed (mem_contributionsTo.1 hc).1 decl hdecl used hused
    exact hhas hc hneeded rfl
  · intro a ha hpath
    have hmem := commandContribution_mem config ha (d := d)
    have hneeded :
        Import.name frameworkModule commandResult ∈ (commandContribution d config a).needs :=
      List.mem_append_left _ (List.mem_append_left _ List.mem_cons_self)
    have hfile : (commandContribution d config a).file = FilePath.normalize a.commandFile := rfl
    exact hhas (mem_contributionsTo.2 ⟨hmem, hfile.trans hpath.symm⟩) hneeded rfl
  · rw [hdecls] at hcls
    obtain ⟨c, hc, hcls⟩ := List.mem_flatMap.1 hcls
    obtain ⟨hmem, hpath⟩ := mem_contributionsTo.1 hc
    obtain ⟨schemas, hemits, hmodels⟩ := exists_emits hmem hcls hm
    refine ⟨c.path, schemas, hpath, hemits, fun schema hschema pointer hrefers => ?_⟩
    obtain ⟨_, hneeded, key, target, hkey, htarget, rfl⟩ := hmodels schema hschema pointer hrefers
    obtain ⟨module, hmodule⟩ := hemits.exists_target (.ofReference key)
    exact ⟨key, target, module, hkey, htarget, hmodule, hhas hc hneeded hmodule⟩

/-- An order that is watched as a stream of events, and created by a command. -/
def watchedDocument : Document :=
  let shaped (key : String) : MediaType := ⟨some (.referenceTo key)⟩
  let order : Response :=
    { content := .ofList
        [("application/json", shaped "shop.order.Order"),
         (eventStreamType, shaped "shop.order.Order")] }
  let watch : Operation := { tags := ["shop.order"], responses := .ofList [("200", .item order)] }
  let body : RequestBody :=
    { content := .ofList [("application/json", shaped "shop.order.Create")] }
  let create : Operation :=
    { tags := ["shop.order"], requestBody := some (.item body), responses := .ofList [] }
  { paths := .ofList
      [("/order/\x7bid\x7d", { operation? := fun
          | .get => some watch
          | .post => some create
          | _ => none })]
    components.schemas := .ofList
      [("shop.order.Order", { type := some (.single "object") }),
       ("shop.order.Create", { type := some (.single "object") })] }

theorem client_names_bound_watched :
    ∃ g f, generation watchedDocument watchedDocument.service {} = .ok g ∧
      g.project.get? "shop/order/queryClient.ts" = some f ∧
      f.imports.Has eventStreamModule eventStreamName ∧
      ∃ cls, .class cls ∈ f.declarations ∧ ∃ m ∈ cls.methods, m.returnType = "Promise<Order>" ∧
        ∃ source schemas, watchedDocument.service.Emits watchedDocument {} source m schemas ∧
          ∀ schema ∈ schemas, ∀ pointer, schema.RefersTo pointer → ∃ key module,
            schemaKey? pointer = some key ∧
              f.imports.Has module (ModelName.ofReference key).name := by
  have hrun : (generation watchedDocument watchedDocument.service {}).toOption.any (fun g =>
      (g.project.get? "shop/order/queryClient.ts").any fun f =>
        (f.declarations.any fun decl =>
          decl.runtimeNames.contains (eventStreamModule, eventStreamName)) &&
          f.declarations.any fun
            | .class cls => cls.methods.any (·.returnType = "Promise<Order>")
            | _ => false) = true := by
    decide +kernel
  obtain ⟨g, hg, hfile⟩ := exists_ok_of_any hrun
  obtain ⟨f, hf, hused⟩ := (Option.any_eq_true _ _).1 hfile
  rw [Bool.and_eq_true, List.any_eq_true, List.any_eq_true] at hused
  obtain ⟨⟨decl, hdecl, hstream⟩, ⟨written, hwritten, hmethod⟩⟩ := hused
  obtain ⟨hnames, -, hmodels⟩ := client_names_bound hg hf
  refine ⟨g, f, hg, hf, hnames decl hdecl _ (List.contains_iff_mem.1 hstream), ?_⟩
  cases written with
  | «class» cls =>
    obtain ⟨m, hm, hreturn⟩ := List.any_eq_true.1 hmethod
    obtain ⟨source, schemas, -, hemits, himports⟩ := hmodels cls hwritten m hm
    refine ⟨cls, hwritten, m, hm, of_decide_eq_true hreturn, source, schemas, hemits, ?_⟩
    intro schema hschema pointer hrefers
    obtain ⟨key, -, module, hkey, -, -, hhas⟩ := himports schema hschema pointer hrefers
    exact ⟨key, module, hkey, hhas⟩
  | _ => cases hmethod

end ClientGen
