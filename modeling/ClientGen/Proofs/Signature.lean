/-
  ClientGen.Proofs.Signature

  The signatures of methods.  The parameters of a method are those that its operation
  and its route ask for, each bound by its own decorator, under names that differ from
  each other and can be written; the body passes all of them on.
-/
import ClientGen.Proofs.CommandRoute
import ClientGen.Proofs.FreeName
import ClientGen.Proofs.RuntimeName

namespace ClientGen

open TypeScript

/-! ## What binds a parameter -/

namespace TypeScript

/-- The function whose decorator binds a parameter. -/
def ParameterDecl.binder? (q : ParameterDecl) : Option String := q.decorator.map decoratorName

/-- The parameters of a method that one of these functions binds. -/
def MethodDecl.boundBy (m : MethodDecl) (binders : List String) : List ParameterDecl :=
  m.parameters.filter (·.binder?.any binders.contains)

end TypeScript

/-- The decorator of a parameter in the query. -/
def queryDecorator (name : String) : String := "@query(" ++ stringLiteral name ++ ")"

theorem decoratorName_pathDecorator (name : String) :
    decoratorName (pathDecorator name) = "path" := by
  have htext : pathDecorator name = "@" ++ "path" ++ "(" ++ (stringLiteral name ++ ")") := by
    rw [pathDecorator, String.append_assoc]
    rfl
  rw [htext, decoratorName_append (by decide)]

theorem decoratorName_queryDecorator (name : String) :
    decoratorName (queryDecorator name) = "query" := by
  have htext : queryDecorator name = "@" ++ "query" ++ "(" ++ (stringLiteral name ++ ")") := by
    rw [queryDecorator, String.append_assoc]
    rfl
  rw [htext, decoratorName_append (by decide)]

theorem Body.binder?_parameter (b : Body) : b.parameter.binder? = some b.name := by
  cases b with
  | json type required =>
    have hname : decoratorName "@request()" = "request" := by decide
    exact congrArg some hname
  | form required =>
    have hname : decoratorName "@body()" = "body" := by decide
    exact congrArg some hname

/-- Parameters that one function binds are chosen together. -/
theorem filter_binder {qs : List ParameterDecl} {binder : String} (binders : List String)
    (h : ∀ q ∈ qs, q.binder? = some binder) :
    qs.filter (·.binder?.any binders.contains) = if binders.contains binder then qs else [] := by
  split
  · next hmem =>
    apply List.filter_eq_self.2
    intro q hq
    rw [h q hq, Option.any_some, hmem]
  · next hmem =>
    apply List.filter_eq_nil_iff.2
    intro q hq
    rw [h q hq, Option.any_some]
    exact hmem

theorem binder?_of_decorators {α : Type} {qs : List ParameterDecl} {as : List α} {f : α → String}
    {binder : String} (h : qs.map (·.decorator) = as.map fun a => some (f a))
    (hf : ∀ a, decoratorName (f a) = binder) : ∀ q ∈ qs, q.binder? = some binder := by
  intro q hq
  have hdecorator : q.decorator ∈ qs.map (·.decorator) := List.mem_map_of_mem hq
  rw [h] at hdecorator
  obtain ⟨a, -, ha⟩ := List.mem_map.1 hdecorator
  rw [ParameterDecl.binder?, ← ha, Option.map_some, hf]

/-! ## The parts of a signature -/

/-- Two lists of one length that are read off the items of a third. -/
theorem maps_of_forall₂_zip {α β γ δ : Type} {R : α × β → γ → Prop} {as : List α} {bs : List β}
    {cs : List γ} {f : γ → δ} {g : α → δ} {name : γ → β} (hlength : bs.length = as.length)
    (h : List.Forall₂ R (as.zip bs) cs) (hR : ∀ a b c, R (a, b) c → f c = g a ∧ name c = b) :
    cs.map f = as.map g ∧ cs.map name = bs := by
  induction as generalizing bs cs with
  | nil =>
    cases List.eq_nil_of_length_eq_zero hlength
    cases h
    exact ⟨rfl, rfl⟩
  | cons a as ih =>
    obtain ⟨b, bs, rfl⟩ := List.exists_cons_of_length_eq_add_one hlength
    obtain ⟨c, cs, hc, hcs, rfl⟩ := List.forall₂_cons_left_iff.1 h
    obtain ⟨hf, hname⟩ := hR a b c hc
    obtain ⟨hfs, hnames⟩ := ih (Nat.succ.inj hlength) hcs
    rw [List.map_cons, List.map_cons, List.map_cons, hf, hname, hfs, hnames]
    exact ⟨rfl, rfl⟩

namespace MethodPlan

variable {d : Document} {p : MethodPlan} {q : ParameterDecl}

theorem of_pathParameter {bound : String × String} (h : (p.pathParameter d bound).result = .ok q) :
    q.decorator = some (pathDecorator bound.1) ∧ q.name = bound.2 ∧ q.optional = false := by
  obtain ⟨type, -, h⟩ := Traced.result_bind_eq_ok_iff.1 h
  cases h
  exact ⟨rfl, rfl, rfl⟩

theorem of_queryParameter {bound : Parameter × String}
    (h : (p.queryParameter d bound).result = .ok q) :
    q.decorator = some (queryDecorator bound.1.name) ∧ q.name = bound.2 ∧ q.optional = true := by
  obtain ⟨type, -, h⟩ := Traced.result_bind_eq_ok_iff.1 h
  cases h
  exact ⟨rfl, rfl, rfl⟩

/-- The parameters for the placeholders have the first names. -/
theorem of_pathParameters {qs : List ParameterDecl}
    (h : ((p.placeholders.zip p.names).mapM (p.pathParameter d)).result = .ok qs) :
    qs.map (·.decorator) = p.placeholders.map (fun name => some (pathDecorator name)) ∧
      qs.map (·.name) = p.names.take p.placeholders.length := by
  have hle : p.placeholders.length ≤ p.names.length := by
    rw [length_names]
    omega
  have hzip : p.placeholders.zip p.names
      = p.placeholders.zip (p.names.take p.placeholders.length) := by
    rw [List.zip_eq_zip_take_min, Nat.min_eq_left hle, List.take_length]
  have hlength : (p.names.take p.placeholders.length).length = p.placeholders.length := by
    rw [List.length_take, Nat.min_eq_left hle]
  rw [hzip] at h
  exact maps_of_forall₂_zip hlength (Traced.mapM_of_ok h).1 fun _ _ _ hq =>
    ⟨(of_pathParameter hq).1, (of_pathParameter hq).2.1⟩

/-- The parameters for the query have the names that follow. -/
theorem of_queryParameters {qs : List ParameterDecl}
    (h : ((p.queries.zip (p.names.drop p.placeholders.length)).mapM (p.queryParameter d)).result
      = .ok qs) :
    qs.map (·.decorator) = p.queries.map (fun q => some (queryDecorator q.name)) ∧
      qs.map (·.name) = p.names.drop p.placeholders.length := by
  have hlength : (p.names.drop p.placeholders.length).length = p.queries.length := by
    rw [List.length_drop, length_names]
    omega
  exact maps_of_forall₂_zip hlength (Traced.mapM_of_ok h).1 fun _ _ _ hq =>
    ⟨(of_queryParameter hq).1, (of_queryParameter hq).2.1⟩

/-- The parameter of the body, if there is a body. -/
def bodyParameters (p : MethodPlan) : List ParameterDecl := (p.body.map (·.parameter)).toList

/-- A body is one parameter at most, so it does not matter on which side of the others it comes. -/
theorem filter_bodyParameters (p : MethodPlan) :
    p.bodyParameters.filter (!·.optional) ++ p.bodyParameters.filter (·.optional)
      = p.bodyParameters := by
  cases hbody : p.body with
  | none => simp [bodyParameters, hbody]
  | some b => cases hoptional : b.parameter.optional <;> simp [bodyParameters, hbody, hoptional]

/-- The parameters for the path, the body and the query, and that of the attributes. -/
def joined (p : MethodPlan) (inPath inQuery : List ParameterDecl) : List ParameterDecl :=
  inPath ++ (p.bodyParameters ++ (inQuery ++ [attributesParameter]))

/-- The parameters for the placeholders of a plan's route, and those for its query. -/
structure Parts (p : MethodPlan) (inPath inQuery : List ParameterDecl) : Prop where
  names : inPath.map (·.name) ++ inQuery.map (·.name) = p.names
  path : inPath.map (·.decorator) = p.placeholders.map fun name => some (pathDecorator name)
  path_required : ∀ q ∈ inPath, q.optional = false
  query : inQuery.map (·.decorator) = p.queries.map fun q => some (queryDecorator q.name)
  query_optional : ∀ q ∈ inQuery, q.optional = true

theorem exists_parts {parameters : List ParameterDecl}
    (h : (p.parameters d).result = .ok parameters) :
    ∃ inPath inQuery, p.Parts inPath inQuery ∧ parameters = p.joined inPath inQuery := by
  unfold MethodPlan.parameters at h
  obtain ⟨inPath, hpath, h⟩ := Traced.result_bind_eq_ok_iff.1 h
  obtain ⟨inQuery, hquery, h⟩ := Traced.result_bind_eq_ok_iff.1 h
  cases h
  obtain ⟨hpathDecorators, hpathNames⟩ := of_pathParameters hpath
  obtain ⟨hqueryDecorators, hqueryNames⟩ := of_queryParameters hquery
  refine ⟨inPath, inQuery, ⟨?_, hpathDecorators, ?_, hqueryDecorators, ?_⟩, ?_⟩
  · rw [hpathNames, hqueryNames, List.take_append_drop]
  · intro q hq
    obtain ⟨bound, -, hbound⟩ := Traced.exists_of_mem_mapM hpath hq
    exact (of_pathParameter hbound).2.2
  · intro q hq
    obtain ⟨bound, -, hbound⟩ := Traced.exists_of_mem_mapM hquery hq
    exact (of_queryParameter hbound).2.2
  · have hbody := p.filter_bodyParameters
    rw [bodyParameters] at hbody
    rw [joined, List.append_assoc inPath, hbody, List.append_assoc, List.append_assoc,
      bodyParameters]

/-! ## Well-formed signatures -/

/-- A method whose parameters are those that its plan asks for. -/
structure Signature (p : MethodPlan) (m : MethodDecl) : Prop where
  distinct : (m.parameters.map (·.name)).Nodup
  legal : ∀ q ∈ m.parameters, isIdentifier q.name = true ∧ q.name ∉ reservedWords
  /-- No required parameter comes after an optional one. -/
  ordered : m.parameters.Pairwise fun q later => q.optional = true → later.optional = true
  path : (m.boundBy ["path"]).map (·.decorator) =
    ((Text.placeholders p.route).filter (!p.ignored.contains ·)).map fun name =>
      some (pathDecorator name)
  query : (m.boundBy ["query"]).map (·.decorator) =
    (p.operation.parameters.filter (·.location == .query)).map fun q =>
      some (queryDecorator q.name)
  body : m.boundBy ["request", "body"] = (p.body.map (·.parameter)).toList
  last : m.parameters.getLast? = some attributesParameter
  /-- There are no other parameters. -/
  complete : m.boundBy ["path", "query", "request", "body", "attribute"] = m.parameters
  passed : m.body =
    ["throw autoGeneratedError(" ++ ", ".intercalate (m.parameters.map (·.name)) ++ ");"]

theorem legal_takenNames (p : MethodPlan) :
    p.takenNames.Nodup ∧
      ∀ name ∈ p.takenNames, isIdentifier name = true ∧ name ∉ reservedWords := by
  have hlegal : ∀ names ∈ [["attributes"], ["request", "attributes"], ["body", "attributes"]],
      names.Nodup ∧ ∀ name ∈ names, isIdentifier name = true ∧ name ∉ reservedWords := by
    decide +kernel
  apply hlegal
  rw [takenNames]
  cases p.body with
  | none => exact List.mem_cons_self
  | some b =>
    cases b with
    | json type required => exact List.mem_cons_of_mem _ List.mem_cons_self
    | form required => exact List.mem_cons_of_mem _ (List.mem_cons_of_mem _ List.mem_cons_self)

namespace Parts

variable {inPath inQuery : List ParameterDecl}

/-- The parameters have the names that the plan hands out and those that it has taken before. -/
theorem perm_names (h : p.Parts inPath inQuery) :
    ((p.joined inPath inQuery).map (·.name)).Perm (p.names ++ p.takenNames) := by
  have htaken : p.bodyParameters.map (·.name) ++ [attributesParameter.name] = p.takenNames := by
    rw [bodyParameters, takenNames]
    cases p.body <;> rfl
  rw [← h.names, ← htaken, List.append_assoc, joined]
  simp only [List.map_append, List.map_cons, List.map_nil]
  exact List.perm_append_comm_assoc _ _ _ |>.append_left _

theorem distinct (h : p.Parts inPath inQuery) :
    ((p.joined inPath inQuery).map (·.name)).Nodup := by
  obtain ⟨hnodup, hfree⟩ :=
    nodup_parameterNames p.takenNames (p.placeholders ++ p.queries.map (·.name))
  -- the names of the body and the attributes were taken before the others were handed out
  rw [h.perm_names.nodup_iff, List.nodup_append]
  refine ⟨hnodup, p.legal_takenNames.1, ?_⟩
  rintro name hname taken htaken rfl
  exact hfree name hname htaken

theorem legal (h : p.Parts inPath inQuery) :
    ∀ q ∈ p.joined inPath inQuery, isIdentifier q.name = true ∧ q.name ∉ reservedWords := by
  intro q hq
  have hname : q.name ∈ p.names ++ p.takenNames :=
    h.perm_names.subset (List.mem_map_of_mem hq)
  rcases List.mem_append.1 hname with hname | hname
  · exact legal_parameterNames _ _ q.name hname
  · exact p.legal_takenNames.2 q.name hname

theorem ordered (h : p.Parts inPath inQuery) :
    (p.joined inPath inQuery).Pairwise
      fun q later => q.optional = true → later.optional = true := by
  have hrequired {q later : ParameterDecl} (hq : q ∈ inPath) :
      q.optional = true → later.optional = true :=
    fun hoptional => absurd hoptional (Bool.eq_false_iff.1 (h.path_required q hq))
  have hoptional : ∀ q ∈ inQuery ++ [attributesParameter], q.optional = true := by
    intro q hq
    rcases List.mem_append.1 hq with hq | hq
    · exact h.query_optional q hq
    · rw [List.mem_singleton.1 hq]
      rfl
  have hbody : p.bodyParameters.Pairwise
      fun q later => q.optional = true → later.optional = true := by
    rw [bodyParameters]
    cases p.body with
    | none => exact .nil
    | some b => exact List.pairwise_singleton _ _
  -- what comes before the body is required, and what comes behind it is optional
  refine List.pairwise_append.2 ⟨?_, List.pairwise_append.2 ⟨hbody, ?_, ?_⟩, ?_⟩
  · exact List.pairwise_of_forall_mem_list fun q hq _ _ => hrequired hq
  · exact List.pairwise_of_forall_mem_list fun _ _ later hlater _ => hoptional later hlater
  · exact fun _ _ later hlater _ => hoptional later hlater
  · exact fun q hq _ _ => hrequired hq

/-- The parameters that some functions bind, part by part. -/
theorem boundBy (h : p.Parts inPath inQuery) {m : MethodDecl} {binders : List String}
    (hbinders : binders.contains "request" = binders.contains "body")
    (hm : m.parameters = p.joined inPath inQuery) :
    m.boundBy binders =
      (if binders.contains "path" then inPath else [])
        ++ ((if binders.contains "body" then p.bodyParameters else [])
        ++ ((if binders.contains "query" then inQuery else [])
        ++ if binders.contains "attribute" then [attributesParameter] else [])) := by
  have hbody : p.bodyParameters.filter (·.binder?.any binders.contains)
      = if binders.contains "body" then p.bodyParameters else [] := by
    rw [bodyParameters]
    cases p.body with
    | none => simp
    | some b =>
      cases b with
      | json type required =>
        rw [← hbinders]
        exact filter_binder binders (List.forall_mem_singleton.2 (Body.binder?_parameter _))
      | form required =>
        exact filter_binder binders (List.forall_mem_singleton.2 (Body.binder?_parameter _))
  have hpath : ∀ q ∈ inPath, q.binder? = some "path" :=
    binder?_of_decorators h.path decoratorName_pathDecorator
  have hquery : ∀ q ∈ inQuery, q.binder? = some "query" :=
    binder?_of_decorators h.query fun q => decoratorName_queryDecorator q.name
  have hattributes : ∀ q ∈ [attributesParameter], q.binder? = some "attribute" := by
    decide
  rw [MethodDecl.boundBy, hm, joined, List.filter_append, List.filter_append, List.filter_append,
    filter_binder binders hpath, filter_binder binders hquery, filter_binder binders hattributes,
    hbody]

end Parts

/-- Whatever method is built, its parameters and its body are those that the plan asks for. -/
theorem signature_of_build {m : MethodDecl} (h : (p.build d).result = .ok m) : p.Signature m := by
  have hbuilds : p.Builds d m := builds_of_build h
  obtain ⟨inPath, inQuery, hparts, hm⟩ := exists_parts hbuilds.parameters
  -- each part of the parameters is bound by functions of its own
  have hpath : m.boundBy ["path"] = inPath := by
    simpa using hparts.boundBy (show _ = ["path"].contains "body" by decide) hm
  have hquery : m.boundBy ["query"] = inQuery := by
    simpa using hparts.boundBy (show _ = ["query"].contains "body" by decide) hm
  have hbody : m.boundBy ["request", "body"] = p.bodyParameters := by
    simpa using hparts.boundBy (show _ = ["request", "body"].contains "body" by decide) hm
  refine ⟨hm ▸ hparts.distinct, hm ▸ hparts.legal, hm ▸ hparts.ordered, ?path, ?query, hbody, ?last,
    ?complete, ?passed⟩
  case path => rw [hpath]; exact hparts.path
  case query => rw [hquery]; exact hparts.query
  case last =>
    rw [hm, joined, ← List.append_assoc, ← List.append_assoc]
    exact List.getLast?_concat
  case complete =>
    rw [hparts.boundBy (by decide) hm, hm, joined]
    simp
  case passed => exact hbuilds.body

/-- A placeholder and query parameters that ask for the names of one another, of the body and of
    the attributes. -/
def clashing : MethodPlan :=
  { name := "update"
    operation :=
      { method := .put
        path := "/user/\x7bid\x7d"
        parameters :=
          [{ name := "id", location := .path }, { name := "id", location := .query },
            { name := "attributes", location := .query },
            { name := "request", location := .query }] }
    route := "/user/\x7bid\x7d"
    body := some (.json "string" false)
    returnType := "Promise<any>"
    ignored := [] }

theorem signature_of_build_clashing :
    ∃ m, (clashing.build {}).result = .ok m ∧ clashing.Signature m ∧
      m.parameters.map (·.name) =
        ["id", "request", "id2", "attributes2", "request2", "attributes"] := by
  have hrun : ((clashing.build {}).result.toOption.any fun m =>
      m.parameters.map (·.name) ==
        ["id", "request", "id2", "attributes2", "request2", "attributes"]) = true := by
    decide +kernel
  obtain ⟨m, hm, hnames⟩ := exists_ok_of_any hrun
  exact ⟨m, hm, signature_of_build hm, by simpa using hnames⟩

end MethodPlan

end ClientGen
