/-
  ClientGen.Proofs.BuiltMethod

  What has been built when nothing failed: the method of a plan, the methods of
  an operation, and those of a command.  The theories of names, of routes and of
  results are read off these specifications, and none of them runs a builder
  again.
-/
import ClientGen.Proofs.Literal
import ClientGen.Proofs.Reference

namespace ClientGen

open TypeScript

/-! ## The method of a plan -/

/-- The statement of every method: what is decorated never runs. -/
def throwStatement (parameters : List ParameterDecl) : String :=
  "throw autoGeneratedError(" ++ ", ".intercalate (parameters.map (·.name)) ++ ");"

namespace MethodPlan

variable {d : Document} {p : MethodPlan} {m : MethodDecl}

/-- Whether a method is one that a plan asks for. -/
structure Builds (p : MethodPlan) (d : Document) (m : MethodDecl) : Prop where
  name : m.name = p.name
  docs : m.docs = p.docs
  decorators : m.decorators = [routeDecorator p.operation.method p.route]
  parameters : (p.parameters d).result = .ok m.parameters
  returnType : m.returnType = p.returnType
  body : m.body = [throwStatement m.parameters]

theorem builds_of_build (h : (p.build d).result = .ok m) : p.Builds d m := by
  unfold build at h
  obtain ⟨parameters, hparameters, h⟩ := Traced.result_bind_eq_ok_iff.1 h
  obtain ⟨-, -, h⟩ := Traced.result_bind_eq_ok_iff.1 h
  have hbuilt := Except.ok.inj h
  subst hbuilt
  exact ⟨rfl, rfl, rfl, hparameters, rfl, rfl⟩

end MethodPlan

section Methods

variable {d : Document} {ignored : List String} {before : ClientPair} {plain : MethodDecl}
  {stream? : Option MethodDecl}

/-! ## The methods of an operation -/

theorem built_of_buildIf {streams : Bool} {p : MethodPlan}
    (h : (buildIf d streams p).result = .ok stream?) :
    stream?.isSome = streams ∧ ∀ stream, stream? = some stream → p.Builds d stream := by
  unfold buildIf at h
  cases streams with
  | true =>
    obtain ⟨stream, hstream, rfl⟩ := Traced.result_map_eq_ok_iff.1 h
    refine ⟨rfl, ?_⟩
    rintro _ ⟨⟩
    exact MethodPlan.builds_of_build hstream
  | false =>
    cases h
    refine ⟨rfl, ?_⟩
    rintro _ ⟨⟩

/-- The methods of an operation are those of its plans, for the types that it responds with. -/
theorem built_of_operationMethods {needs : ResponseTypes → List Import}
    {streams : ResponseTypes → Bool} {op : ResolvedOperation}
    (h : (operationMethods d needs streams ignored before op).result = .ok (plain, stream?)) :
    ∃ types body, (responseTypes d op).result = .ok types ∧
      (plansOf op body ignored types before).1.Builds d plain ∧
      stream?.isSome = streams types ∧
      ∀ stream, stream? = some stream →
        (plansOf op body ignored types before).2.Builds d stream := by
  unfold operationMethods at h
  obtain ⟨types, htypes, h⟩ := Traced.result_bind_eq_ok_iff.1 h
  obtain ⟨body, -, h⟩ := Traced.result_bind_eq_ok_iff.1 h
  obtain ⟨-, -, h⟩ := Traced.result_bind_eq_ok_iff.1 h
  obtain ⟨first, hfirst, h⟩ := Traced.result_bind_eq_ok_iff.1 h
  obtain ⟨second, hsecond, h⟩ := Traced.result_bind_eq_ok_iff.1 h
  cases h
  exact ⟨types, body, htypes, MethodPlan.builds_of_build hfirst, built_of_buildIf hsecond⟩

/-! ## The methods of a command -/

/-- The documentation of a command's method: that of the operation, if it has `documented`
    anything, or else that of the command's schema. -/
def Command.docs (d : Document) (c : Command) (documented docs : List String) : List String :=
  if documented.isEmpty then
    match d.schema? c.schemaKey with
    | some s => docLines s.title s.description
    | none => docs
  else docs

/-- Documentation that is taken from a schema changes nothing else. -/
theorem withSchemaDocs_eq (c : Command) (documented : List String) (m : MethodDecl) :
    withSchemaDocs d c documented m = { m with docs := c.docs d documented m.docs } := by
  unfold withSchemaDocs Command.docs
  by_cases hdocs : documented.isEmpty = true
  · rw [if_pos hdocs, if_pos hdocs]
    cases d.schema? c.schemaKey <;> rfl
  · rw [if_neg hdocs, if_neg hdocs]

/-- The methods of a command are those of two plans, which differ in what their methods return,
    with one documentation. -/
theorem built_of_commandMethods {attribution : Attribution} {c : Command}
    (h : (commandMethods d attribution ignored before c).result = .ok (plain, stream?)) :
    ∃ body first second,
      (c.plan attribution ignored body before.plainNames (promiseOf commandResult)).Builds d first ∧
      (c.plan attribution ignored body before.streamNames
        (promiseOfStream commandResult)).Builds d second ∧
      plain = { first with docs := c.docs d first.docs first.docs } ∧
      stream? = some { second with docs := c.docs d first.docs second.docs } := by
  unfold commandMethods at h
  obtain ⟨body, -, h⟩ := Traced.result_bind_eq_ok_iff.1 h
  obtain ⟨first, hfirst, h⟩ := Traced.result_bind_eq_ok_iff.1 h
  obtain ⟨second, hsecond, h⟩ := Traced.result_bind_eq_ok_iff.1 h
  have hmethods := Prod.mk.inj (Except.ok.inj h)
  rw [withSchemaDocs_eq, withSchemaDocs_eq] at hmethods
  exact ⟨body, first, second, MethodPlan.builds_of_build hfirst,
    MethodPlan.builds_of_build hsecond, hmethods.1.symm, hmethods.2.symm⟩

end Methods

end ClientGen
