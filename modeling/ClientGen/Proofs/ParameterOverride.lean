/-
  ClientGen.Proofs.ParameterOverride

  How the parameters of a path and those of its operations add up.  Each parameter
  in turn replaces what binds the same thing before it, so in the end a list keeps
  the last parameter of each binding in its place, and those of the operation come
  after those of the path that they leave over: `parameters_overridden`.
-/
import ClientGen.Proofs.Place
import Mathlib.Data.List.Dedup
import Mathlib.Data.List.Induction

namespace ClientGen

/-! ## What items mean -/

/-- What an item means: itself, or the component to which it refers. -/
inductive RefOr.Means {α : Type} (components : OrderedMap α) (start : String) :
    RefOr α → α → Prop
  | item (a : α) : Means components start (.item a) a
  | reference {pointer key : String} {a : α} (hpointer : pointer = start ++ key)
      (h : components.get? key = some a) : Means components start (.reference pointer) a

theorem RefOr.means_iff {α : Type} {components : OrderedMap α} {start : String} {r : RefOr α}
    {a : α} (referrer : String) :
    r.Means components start a ↔
      Document.resolveComponent components start r referrer = .ok a := by
  constructor
  · rintro (a | ⟨rfl, h⟩)
    · rfl
    · simp only [Document.resolveComponent, Text.afterStart?_append, Option.bind_some, h]
  · intro h
    unfold Document.resolveComponent at h
    split at h
    · cases h
      exact .item _
    · next pointer =>
      split at h
      · next found hfound =>
        cases h
        obtain ⟨key, hkey, hfound⟩ := Option.bind_eq_some_iff.1 hfound
        exact .reference (Text.afterStart?_eq_some_iff.1 hkey) hfound
      · cases h

/-! ## Bindings -/

/-- What a parameter binds. -/
def Parameter.binding (p : Parameter) : String × ParameterLocation := (p.name, p.location)

theorem Parameter.sameBinding_iff {p q : Parameter} :
    p.sameBinding q = true ↔ p.binding = q.binding := by
  simp [sameBinding, binding]

/-- The parameters of a list but those that a later one of it overrides. -/
def lastBindings : List Parameter → List Parameter
  | [] => []
  | p :: rest =>
    if p.binding ∈ rest.map Parameter.binding then lastBindings rest else p :: lastBindings rest

section Lists

variable {p : Parameter} {ps qs : List Parameter}

theorem lastBindings_sublist : (lastBindings ps).Sublist ps := by
  induction ps with
  | nil => exact .refl _
  | cons p rest ih =>
    unfold lastBindings
    split
    · exact ih.cons p
    · exact ih.cons_cons p

/-- Every binding is kept once. -/
theorem map_binding_lastBindings :
    (lastBindings ps).map Parameter.binding = (ps.map Parameter.binding).dedup := by
  induction ps with
  | nil => rfl
  | cons p rest ih =>
    unfold lastBindings
    rw [List.map_cons, List.dedup_cons]
    split
    · exact ih
    · rw [List.map_cons, ih]

/-- What is kept has its binding for the last time. -/
theorem mem_lastBindings_iff :
    p ∈ lastBindings ps ↔
      ∃ before after, ps = before ++ p :: after ∧ p.binding ∉ after.map Parameter.binding := by
  induction ps with
  | nil => simp [lastBindings]
  | cons q rest ih =>
    have hcons : (∃ before after, q :: rest = before ++ p :: after ∧
        p.binding ∉ after.map Parameter.binding) ↔
        (p = q ∧ q.binding ∉ rest.map Parameter.binding) ∨ p ∈ lastBindings rest := by
      rw [ih]
      constructor
      · rintro ⟨before, after, heq, hlast⟩
        cases before with
        | nil =>
          cases heq
          exact .inl ⟨rfl, hlast⟩
        | cons first before =>
          cases heq
          exact .inr ⟨before, after, rfl, hlast⟩
      · rintro (⟨rfl, hlast⟩ | ⟨before, after, rfl, hlast⟩)
        · exact ⟨[], rest, rfl, hlast⟩
        · exact ⟨q :: before, after, rfl, hlast⟩
    rw [hcons, lastBindings]
    split
    · next hagain => simp [hagain]
    · next hlast => simp [hlast]

/-- Of two lists in a row, all that is kept of the second is kept, and of the first only what the
    second does not bind. -/
theorem lastBindings_append :
    lastBindings (ps ++ qs)
      = (lastBindings ps).filter (·.binding ∉ qs.map Parameter.binding) ++ lastBindings qs := by
  induction ps with
  | nil => rfl
  | cons p rest ih =>
    have hlater : p.binding ∈ (rest ++ qs).map Parameter.binding ↔
        p.binding ∈ rest.map Parameter.binding ∨ p.binding ∈ qs.map Parameter.binding := by
      rw [List.map_append, List.mem_append]
    rw [List.cons_append, lastBindings, lastBindings, ih]
    by_cases hrest : p.binding ∈ rest.map Parameter.binding
    · rw [if_pos (hlater.2 (.inl hrest)), if_pos hrest]
    · rw [if_neg hrest]
      by_cases hqs : p.binding ∈ qs.map Parameter.binding
      · rw [if_pos (hlater.2 (.inr hqs)), List.filter_cons_of_neg (by simpa using hqs)]
      · rw [if_neg fun h => (hlater.1 h).elim hrest hqs,
          List.filter_cons_of_pos (by simpa using hqs), List.cons_append]

/-- One more parameter overrides what binds the same before it. -/
theorem overrideParameter_lastBindings :
    overrideParameter (lastBindings ps) p = lastBindings (ps ++ [p]) := by
  rw [lastBindings_append, overrideParameter]
  congr 1
  apply List.filter_congr
  intro q _
  rw [Bool.eq_iff_iff, Bool.not_eq_true', Bool.eq_false_iff, ne_eq, Parameter.sameBinding_iff]
  simp

/-- Overriding parameter by parameter keeps the last of each binding. -/
theorem foldl_overrideParameter (ps : List Parameter) :
    ps.foldl overrideParameter [] = lastBindings ps := by
  induction ps using List.reverseRecOn with
  | nil => rfl
  | append_singleton ps p ih => rw [List.foldl_concat, ih, overrideParameter_lastBindings]

end Lists

/-! ## Parameters of endpoints -/

/-- The parameters of a path and of an operation, the latter of which override the former. -/
structure Overridden (path own ps : List Parameter) : Prop where
  /-- What is kept is what has its binding for the last time, where it stands. -/
  kept : ps = lastBindings (path ++ own)
  order : ps.Sublist (path ++ own)
  last : ∀ p, p ∈ ps ↔ ∃ before after, path ++ own = before ++ p :: after ∧
    p.binding ∉ after.map Parameter.binding
  /-- Every binding of the path and of the operation is kept. -/
  bindings : ∀ binding, binding ∈ ps.map Parameter.binding ↔
    binding ∈ path.map Parameter.binding ∨ binding ∈ own.map Parameter.binding
  once : (ps.map Parameter.binding).Nodup
  /-- The operation has its own parameters, and of the path's those that bind something else. -/
  levels : ps = (lastBindings path).filter (·.binding ∉ own.map Parameter.binding)
    ++ lastBindings own

theorem overridden_lastBindings (path own : List Parameter) :
    Overridden path own (lastBindings (path ++ own)) where
  kept := rfl
  order := lastBindings_sublist
  last _ := mem_lastBindings_iff
  bindings binding := by
    rw [map_binding_lastBindings, List.mem_dedup, List.map_append, List.mem_append]
  once := by
    rw [map_binding_lastBindings]
    exact List.nodup_dedup _
  levels := lastBindings_append

variable {d : Document} {e : Endpoint} {path own : List Parameter}

/-- The parameters of an endpoint when its items all mean something. -/
theorem parameters_eq (all : List Parameter)
    (h : List.Forall₂ (RefOr.Means d.components.parameters "#/components/parameters/")
      (e.item.parameters ++ e.operation.parameters) all) :
    e.parameters d = .ok (lastBindings all) := by
  have hall : (e.item.parameters ++ e.operation.parameters).mapM (d.parameter · e.label)
      = .ok all :=
    mapM_eq_ok_iff.2 (h.imp fun r p hmeans => (RefOr.means_iff e.label).1 hmeans)
  rw [Endpoint.parameters, hall, ← foldl_overrideParameter]
  rfl

/-- When the parameters of a path and of an operation all mean something, the operation has those
    that have their name and location for the last time, the path's before its own. -/
theorem parameters_overridden
    (hpath : List.Forall₂ (RefOr.Means d.components.parameters "#/components/parameters/")
      e.item.parameters path)
    (hown : List.Forall₂ (RefOr.Means d.components.parameters "#/components/parameters/")
      e.operation.parameters own) :
    ∃ ps, e.parameters d = .ok ps ∧ Overridden path own ps ∧
      ∀ op, e.resolve d = .ok op → op.parameters = ps := by
  have hps := parameters_eq (path ++ own) (List.rel_append hpath hown)
  refine ⟨_, hps, overridden_lastBindings path own, fun op hop => ?_⟩
  obtain ⟨parameters, hparameters, hop⟩ := bind_eq_ok_iff.1 hop
  obtain ⟨body, -, hop⟩ := bind_eq_ok_iff.1 hop
  obtain ⟨responses, -, hop⟩ := bind_eq_ok_iff.1 hop
  cases hop
  rw [hps, Except.ok.injEq] at hparameters
  exact hparameters.symm

/-- A document that describes two parameters of paths. -/
def pagedDocument : Document :=
  { components.parameters := .ofList
      [("id", { name := "id", location := .path, required := true }),
       ("page",
        { name := "page", location := .query, description := some "from the components" })] }

/-- An operation that binds the page of its path anew, and its own limit twice. -/
def pagedEndpoint : Endpoint :=
  let limit (required : Bool) : RefOr Parameter :=
    .item { name := "limit", location := .query, required }
  { path := "/order/{id}"
    method := .get
    item :=
      { parameters :=
          [.item { name := "page", location := .query, description := some "from the path" },
           .reference "#/components/parameters/id",
           .item { name := "page", location := .header }] }
    operation :=
      { parameters := [limit true, .reference "#/components/parameters/page", limit false]
        responses := .ofList [] } }

/-- Only the page in the query is overridden, and the later limit counts. -/
theorem parameters_overridden_paged :
    ∃ path own ps,
      List.Forall₂
        (RefOr.Means pagedDocument.components.parameters "#/components/parameters/")
        pagedEndpoint.item.parameters path ∧
      List.Forall₂
        (RefOr.Means pagedDocument.components.parameters "#/components/parameters/")
        pagedEndpoint.operation.parameters own ∧
      pagedEndpoint.parameters pagedDocument = .ok ps ∧ Overridden path own ps ∧
      ps.map (fun p => (p.name, p.location, p.required, p.description))
        = [("id", .path, true, none), ("page", .header, false, none),
           ("page", .query, false, some "from the components"),
           ("limit", .query, false, none)] := by
  have hid : ("#/components/parameters/id" : String) = "#/components/parameters/" ++ "id" := rfl
  have hpage : ("#/components/parameters/page" : String) = "#/components/parameters/" ++ "page" :=
    rfl
  have hpath : List.Forall₂
      (RefOr.Means pagedDocument.components.parameters "#/components/parameters/")
      pagedEndpoint.item.parameters [_, _, _] :=
    .cons (.item _) (.cons (.reference hid rfl) (.cons (.item _) .nil))
  have hown : List.Forall₂
      (RefOr.Means pagedDocument.components.parameters "#/components/parameters/")
      pagedEndpoint.operation.parameters [_, _, _] :=
    .cons (.item _) (.cons (.reference hpage rfl) (.cons (.item _) .nil))
  obtain ⟨ps, hps, hoverridden, -⟩ := parameters_overridden hpath hown
  refine ⟨_, _, ps, hpath, hown, hps, hoverridden, ?_⟩
  rw [hoverridden.kept]
  decide +kernel

end ClientGen
