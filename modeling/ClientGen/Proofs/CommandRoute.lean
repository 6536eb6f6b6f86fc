/-
  ClientGen.Proofs.CommandRoute

  The routes of command methods.  A command stands for all operations that take
  it: its HTTP method and its parameters are those of the first, its route may be
  that of any.  `command_methods_bound` says what this makes of each method of
  the command clients, and when an operation of the document is behind it.
-/
import ClientGen.Proofs.Assembly
import ClientGen.Proofs.BuiltMethod
import ClientGen.Proofs.Partition

namespace ClientGen

open TypeScript

variable {d : Document} {config : Configuration} {a : Aggregate} {c : Command} {m : MethodDecl}

/-! ## Operations behind a command -/

/-- Whether an operation of the document belongs to an aggregate and takes the command of a
    key. -/
def Document.HasCommand (d : Document) (a : Aggregate) (key : String) (op : ResolvedOperation) :
    Prop :=
  ∃ e ∈ d.endpoints, ∃ multipart, e.GoesTo d (.command a.context a.name ⟨key, multipart, op⟩)

/-- The operations that take a command of an aggregate. -/
def Document.usesIn (d : Document) (a : Aggregate) : List CommandUse :=
  d.places.filterMap (Place.useOf? a.context a.name)

theorem mem_usesIn_iff {use : CommandUse} :
    use ∈ d.usesIn a ↔ .command a.context a.name use ∈ d.places := by
  rw [Document.usesIn, List.mem_filterMap]
  constructor
  · rintro ⟨p, hp, huse⟩
    cases p with
    | command context name use' =>
      by_cases heq : context = a.context ∧ name = a.name
      · rw [Place.useOf?, if_pos heq, Option.some.injEq] at huse
        rw [← heq.1, ← heq.2, ← huse]
        exact hp
      · rw [Place.useOf?, if_neg heq] at huse
        cases huse
    | _ => cases huse
  · exact fun h => ⟨_, h, if_pos ⟨rfl, rfl⟩⟩

theorem hasCommand_iff {key : String} {op : ResolvedOperation} :
    d.HasCommand a key op ↔ ∃ use ∈ d.usesIn a, use.schemaKey = key ∧ use.operation = op := by
  constructor
  · rintro ⟨e, he, multipart, hgoes⟩
    refine ⟨⟨key, multipart, op⟩, mem_usesIn_iff.2 ?_, rfl, rfl⟩
    rw [← hgoes.place_eq]
    exact List.mem_map_of_mem he
  · rintro ⟨⟨_, multipart, _⟩, huse, rfl, rfl⟩
    obtain ⟨e, he, hplace⟩ := List.mem_map.1 (mem_usesIn_iff.1 huse)
    exact ⟨e, he, multipart, Endpoint.goesTo_iff.2 hplace⟩

theorem hasCommand_of_mem_usesOf {key : String} {use : CommandUse}
    (h : use ∈ usesOf key (d.usesIn a)) : d.HasCommand a key use.operation := by
  obtain ⟨huse, hkey⟩ := List.mem_filter.1 h
  exact hasCommand_iff.2 ⟨use, huse, of_decide_eq_true hkey, rfl⟩

/-- The route of a command is one of its routes. -/
theorem Command.route_mem_routes (h : c.routes ≠ []) (attribution : Attribution) :
    c.route attribution ∈ c.routes := by
  obtain ⟨first, rest, hroutes⟩ := List.exists_cons_of_ne_nil h
  unfold route
  dsimp only
  -- the first route of the aggregate's scope, or else the first of all
  cases hscope : attribution.routeStart?.bind fun start => c.routes.find? (Text.startsWith start) with
  | some route =>
    obtain ⟨start, -, hfind⟩ := Option.bind_eq_some_iff.1 hscope
    exact List.mem_of_find?_eq_some hfind
  | none =>
    rw [hroutes]
    exact List.mem_cons_self

/-- Both the first operation of a command and one at its route are in the document. -/
theorem exists_operations_of_gathered (h : CommandUse.Gathered (d.usesIn a) c)
    (attribution : Attribution) :
    d.HasCommand a c.schemaKey c.operation ∧
      ∃ op, d.HasCommand a c.schemaKey op ∧ op.path = c.route attribution := by
  have hfirst := List.mem_of_head? h.first
  have hpath : c.operation.path ∈ c.routes := by
    rw [h.routes, List.mem_eraseDups]
    exact List.mem_map_of_mem (f := (·.operation.path)) hfirst
  have hroute := Command.route_mem_routes (List.ne_nil_of_mem hpath) attribution
  rw [h.routes, List.mem_eraseDups] at hroute
  obtain ⟨use, huse, hroute⟩ := List.mem_map.1 hroute
  exact ⟨hasCommand_of_mem_usesOf hfirst, use.operation, hasCommand_of_mem_usesOf huse, hroute⟩

/-! ## The method of a command -/

/-- The schema of a path parameter. -/
def ResolvedOperation.pathSchema? (op : ResolvedOperation) (name : String) : Option Schema :=
  ((op.parametersIn .path).find? (·.name == name)).bind (·.schema)

/-- The placeholders for which the caller of a command's method gives a value. -/
def Command.arguments (c : Command) (attribution : Attribution) (ignored : List String) :
    List String :=
  (Text.placeholders (c.route attribution)).filter (!ignored.contains ·)

/-- The decorator of a path argument. -/
def pathDecorator (name : String) : String := "@path(" ++ stringLiteral name ++ ")"

/-- Whether a parameter of a method stands in its path. -/
def TypeScript.ParameterDecl.isPath (p : ParameterDecl) : Bool :=
  p.decorator.any (Text.startsWith "@path(")

/-- A method that requests the route of a command by the HTTP method of its first operation, and
    takes its path arguments by the schemas that this operation has for them. -/
structure Command.HasMethod (c : Command) (d : Document) (attribution : Attribution)
    (ignored : List String) (m : MethodDecl) : Prop where
  decorators : m.decorators = [routeDecorator c.operation.method (c.route attribution)]
  arguments : List.Forall₂ (fun name p => p.decorator = some (pathDecorator name) ∧
      (pathParameterType d c.operation name).result = .ok p.typeExpr)
    (c.arguments attribution ignored) (m.parameters.filter (·.isPath))

theorem length_parameterNames (taken texts : List String) :
    (parameterNames taken texts).length = texts.length := by
  induction texts generalizing taken with
  | nil => rfl
  | cons text rest ih =>
    rw [parameterNames, List.length_cons, ih, List.length_cons]

theorem isPath_of_decorator {q : ParameterDecl} {name : String}
    (h : q.decorator = some (pathDecorator name)) : q.isPath = true := by
  rw [ParameterDecl.isPath, h, Option.any_some, Text.startsWith, pathDecorator, String.append_assoc,
    String.toList_append, List.isPrefixOf_iff_prefix]
  exact List.prefix_append _ _

theorem Body.not_isPath_parameter (b : Body) : b.parameter.isPath = false := by
  cases b
  all_goals
    simp only [ParameterDecl.isPath, parameter, name, Option.any_some]
    decide

theorem MethodPlan.not_isPath_of_queryParameter {p : MethodPlan} {bound : Parameter × String}
    {q : ParameterDecl} (h : (p.queryParameter d bound).result = .ok q) : q.isPath = false := by
  obtain ⟨type, -, h⟩ := Traced.result_bind_eq_ok_iff.1 h
  cases h
  simp only [ParameterDecl.isPath, Option.any_some]
  rw [Text.startsWith, String.append_assoc, String.toList_append]
  rfl

theorem forall_right_of_forall₂ {α β : Type} {r : α → β → Prop} {q : β → Prop} {as : List α}
    {bs : List β} (h : List.Forall₂ r as bs) (hr : ∀ a b, r a b → q b) : ∀ b ∈ bs, q b := by
  induction h with
  | nil => exact fun b hb => absurd hb List.not_mem_nil
  | cons hab _ ih =>
    intro b hb
    rcases List.mem_cons.1 hb with rfl | hb
    · exact hr _ _ hab
    · exact ih b hb

/-- The path arguments of a plan's method are the parameters of its placeholders. -/
theorem MethodPlan.pathArguments_of_parameters {p : MethodPlan} {parameters : List ParameterDecl}
    (h : (p.parameters d).result = .ok parameters) :
    List.Forall₂ (fun name q => q.decorator = some (pathDecorator name) ∧
        (pathParameterType d p.operation name).result = .ok q.typeExpr)
      p.placeholders (parameters.filter (·.isPath)) := by
  unfold MethodPlan.parameters at h
  obtain ⟨path, hpath, h⟩ := Traced.result_bind_eq_ok_iff.1 h
  obtain ⟨query, hquery, h⟩ := Traced.result_bind_eq_ok_iff.1 h
  cases h
  obtain ⟨hall, -⟩ := Traced.mapM_of_ok hpath
  -- there is a name for every placeholder, and then names for the query
  have hlength : p.placeholders.length ≤ p.names.length := by
    rw [names, length_parameterNames, List.length_append]
    exact Nat.le_add_right _ _
  have hplaceholders : (p.placeholders.zip p.names).map Prod.fst = p.placeholders :=
    List.map_fst_zip hlength
  have heach : List.Forall₂ (fun bound q => q.decorator = some (pathDecorator bound.1) ∧
        (pathParameterType d p.operation bound.1).result = .ok q.typeExpr)
      (p.placeholders.zip p.names) path := by
    apply hall.imp
    intro bound q hq
    obtain ⟨type, htype, hq⟩ := Traced.result_bind_eq_ok_iff.1 hq
    cases hq
    exact ⟨rfl, htype⟩
  have hpaths : ∀ q ∈ path, q.isPath = true :=
    forall_right_of_forall₂ heach fun _ _ h => isPath_of_decorator h.1
  have hqueries : ∀ q ∈ query, ¬q.isPath = true :=
    forall_right_of_forall₂ (Traced.mapM_of_ok hquery).1 fun _ _ h => by
      rw [not_isPath_of_queryParameter h]
      exact Bool.false_ne_true
  have hbody : ∀ q ∈ (p.body.map (·.parameter)).toList, ¬q.isPath = true := by
    intro q hq
    obtain ⟨b, -, rfl⟩ := Option.map_eq_some_iff.1 (Option.mem_toList.1 hq)
    rw [b.not_isPath_parameter]
    exact Bool.false_ne_true
  -- body, query and attributes are no path arguments, wherever they stand in the list
  have hkept (keep : ParameterDecl → Bool) :
      ((p.body.map (·.parameter)).toList.filter keep).filter (·.isPath) = [] :=
    List.filter_eq_nil_iff.2 fun q hq => hbody q (List.mem_filter.1 hq).1
  rw [List.filter_append, List.filter_append, List.filter_append, List.filter_append, hkept, hkept,
    List.filter_eq_self.2 hpaths, List.filter_eq_nil_iff.2 hqueries, ← hplaceholders,
    List.forall₂_map_left_iff]
  have hattributes : [attributesParameter].filter (·.isPath) = [] := by decide
  rw [hattributes]
  simp only [List.append_nil]
  exact heach

/-- What a plan of a command builds is a method of the command, however it is documented. -/
theorem MethodPlan.Builds.hasMethod {attribution : Attribution} {ignored taken : List String}
    {body : Body} {returnType : String}
    (h : (c.plan attribution ignored body taken returnType).Builds d m) (docs : List String) :
    c.HasMethod d attribution ignored { m with docs } :=
  ⟨h.decorators, MethodPlan.pathArguments_of_parameters h.parameters⟩

/-- The methods that are built for a command are the command's. -/
theorem Command.hasMethod_of_commandMethods {attribution : Attribution} {ignored : List String}
    {before : ClientPair} {plain : MethodDecl} {stream? : Option MethodDecl}
    (h : (commandMethods d attribution ignored before c).result = .ok (plain, stream?))
    (hm : m = plain ∨ stream? = some m) : c.HasMethod d attribution ignored m := by
  obtain ⟨body, first, second, hfirst, hsecond, hplain, hstream⟩ := built_of_commandMethods h
  -- the plans differ in their names and in what their methods return
  rcases hm with rfl | hm
  · rw [hplain]
    exact hfirst.hasMethod _
  · rw [hstream, Option.some.injEq] at hm
    rw [← hm]
    exact hsecond.hasMethod _

/-- A method of the command clients is that of a command. -/
theorem exists_hasMethod (h : m ∈ (commandClients d config a).methods) :
    ∃ c ∈ a.commands,
      c.HasMethod d a.attribution (config.ignoredPathParameters a.tag.name) m := by
  obtain ⟨c, hc, before, plain, stream?, hbuilt, hm, -⟩ := ClientPair.exists_item_of_mem_methods h
  exact ⟨c, hc, Command.hasMethod_of_commandMethods hbuilt hm⟩

/-! ## Routes that exist -/

/-- Whether an operation is the one that a command's method requests: by its own HTTP method, at
    its own path, and with path arguments by the schemas that it has for them. -/
structure ResolvedOperation.IsRequestedBy (op : ResolvedOperation) (c : Command)
    (attribution : Attribution) (ignored : List String) (m : MethodDecl) : Prop where
  decorators : m.decorators = [routeDecorator op.method op.path]
  schemas : ∀ name ∈ c.arguments attribution ignored,
    op.pathSchema? name = c.operation.pathSchema? name

/-- Every method of the command clients is that of a command.  Its HTTP method and the schemas of
    its path arguments are those of one operation of the document that takes the command, and its
    route is that of one.  Both are the same operation just when one at the route has the HTTP
    method and the schemas of the first. -/
theorem command_methods_bound (ha : a ∈ d.service.aggregates)
    (hm : m ∈ (commandClients d config a).methods) :
    let ignored := config.ignoredPathParameters a.tag.name
    ∃ c ∈ a.commands, c.HasMethod d a.attribution ignored m ∧
      d.HasCommand a c.schemaKey c.operation ∧
      (∃ op, d.HasCommand a c.schemaKey op ∧ op.path = c.route a.attribution) ∧
      ((∃ op, d.HasCommand a c.schemaKey op ∧ op.IsRequestedBy c a.attribution ignored m) ↔
        ∃ op, d.HasCommand a c.schemaKey op ∧ op.path = c.route a.attribution ∧
          op.method = c.operation.method ∧ ∀ name ∈ c.arguments a.attribution ignored,
            op.pathSchema? name = c.operation.pathSchema? name) := by
  intro ignored
  obtain ⟨c, hc, hmethod⟩ := exists_hasMethod hm
  have hgathered := (d.areGathered_of_mem ha).commands c hc
  obtain ⟨hfirst, hroute⟩ := exists_operations_of_gathered hgathered a.attribution
  refine ⟨c, hc, hmethod, hfirst, hroute, ?_⟩
  constructor
  · rintro ⟨op, hop, hdecorators, hschemas⟩
    -- the text of the decorator tells the HTTP method and the route
    have hsame := hdecorators.symm.trans hmethod.decorators
    rw [List.cons.injEq] at hsame
    obtain ⟨hmethod', hpath⟩ := routeDecorator_inj hsame.1
    exact ⟨op, hop, hpath, hmethod', hschemas⟩
  · rintro ⟨op, hop, hpath, hmethod', hschemas⟩
    refine ⟨op, hop, ?_, hschemas⟩
    rw [hpath, hmethod']
    exact hmethod.decorators

/-- A command that two routes of tenants accept by `POST`, and an owner's route by another method. -/
def orderDocument (method : HttpMethod) : Document :=
  let create : Operation :=
    { tags := ["example.order"]
      requestBody := some (.item
        { content := .ofList [("application/json", ⟨some (.referenceTo "example.order.Create")⟩)] })
      responses := .ofList [] }
  { paths := .ofList
      [("/owner/\x7bownerId\x7d/order", .only method create),
       ("/tenant/\x7btenantId\x7d/order", .only .post create),
       ("/tenant/\x7btenantId\x7d/order/again", .only .post create)]
    components.schemas := .ofList [("example.order.Create", { type := some (.single "object") })] }

theorem command_methods_bound_order :
    ∃ a ∈ (orderDocument .post).service.aggregates,
      ∃ m ∈ (commandClients (orderDocument .post) {} a).methods, ∃ c ∈ a.commands,
        ∃ op, (orderDocument .post).HasCommand a c.schemaKey op ∧
          op.IsRequestedBy c a.attribution (({} : Configuration).ignoredPathParameters a.tag.name)
            m := by
  have hrun : (orderDocument .post).service.aggregates.any (fun a =>
      !(commandClients (orderDocument .post) {} a).methods.isEmpty &&
        ((orderDocument .post).usesIn a).all fun use =>
          use.operation.method = .post && (use.operation.parametersIn .path).isEmpty) = true := by
    decide +kernel
  obtain ⟨a, ha, hrun⟩ := List.any_eq_true.1 hrun
  obtain ⟨hmethods, huses⟩ := Bool.and_eq_true_iff.1 hrun
  have hpost {key : String} {op : ResolvedOperation}
      (h : (orderDocument .post).HasCommand a key op) :
      op.method = .post ∧ op.parametersIn .path = [] := by
    obtain ⟨use, huse, -, rfl⟩ := hasCommand_iff.1 h
    simpa using List.all_eq_true.1 huses use huse
  obtain ⟨m, hm⟩ := List.exists_mem_of_ne_nil _ (by simpa using hmethods)
  obtain ⟨c, hc, -, hfirst, ⟨op, hop, hpath⟩, hiff⟩ := command_methods_bound ha hm
  refine ⟨a, ha, m, hm, c, hc, hiff.2 ⟨op, hop, hpath, ?_, fun name _ => ?_⟩⟩
  · rw [(hpost hop).1, (hpost hfirst).1]
  · rw [ResolvedOperation.pathSchema?, ResolvedOperation.pathSchema?, (hpost hop).2,
      (hpost hfirst).2]

/-- A method may request a route by an HTTP method by which no operation of the document accepts
    any command there. -/
theorem exists_unserved_command :
    (orderDocument .put).service.check (orderDocument .put) = .ok () ∧
      (∃ code, generate (orderDocument .put) (orderDocument .put).service {} = .ok code) ∧
      ∃ a ∈ (orderDocument .put).service.aggregates,
        ∃ m ∈ (commandClients (orderDocument .put) {} a).methods,
          ∀ key op, (orderDocument .put).HasCommand a key op →
            m.decorators ≠ [routeDecorator op.method op.path] := by
  have hrun : (orderDocument .put).service.aggregates.any (fun a =>
      (commandClients (orderDocument .put) {} a).methods.any fun m =>
        ((orderDocument .put).usesIn a).all fun use =>
          m.decorators ≠ [routeDecorator use.operation.method use.operation.path]) = true := by
    decide +kernel
  have hcode : (generate (orderDocument .put) (orderDocument .put).service {}).toOption.any
      (fun _ => true) = true := by
    decide +kernel
  obtain ⟨code, hcode, -⟩ := exists_ok_of_any hcode
  obtain ⟨a, ha, hmethods⟩ := List.any_eq_true.1 hrun
  obtain ⟨m, hm, huses⟩ := List.any_eq_true.1 hmethods
  refine ⟨by decide +kernel, ⟨code, hcode⟩, a, ha, m, hm, fun key op hop => ?_⟩
  obtain ⟨use, huse, -, rfl⟩ := hasCommand_iff.1 hop
  exact of_decide_eq_true (List.all_eq_true.1 huses use huse)

end ClientGen
