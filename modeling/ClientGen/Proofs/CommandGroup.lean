/-
  ClientGen.Proofs.CommandGroup

  How the operations of an aggregate are grouped into commands.  Commands are found
  or made one operation at a time, among the operations of other aggregates, but in
  the end they are a matter of the whole document: `commands_grouped` gives them,
  their order and their routes in terms of the endpoints whose operations take them.
-/
import ClientGen.Proofs.CommandRoute

namespace ClientGen

variable {d : Document} {a : Aggregate} {e : Endpoint} {op : ResolvedOperation} {key : String}

/-! ## Endpoints that take a command -/

/-- Whether the operation of an endpoint takes the command of a key in an aggregate: it belongs
    there, is no query, and its body refers to the component of that key. -/
structure Endpoint.Takes (e : Endpoint) (d : Document) (a : Aggregate) (key : String)
    (op : ResolvedOperation) : Prop where
  resolves : e.resolve d = .ok op
  belongs : ∃ tag, op.FirstAggregate d tag a.context a.name
  writes : op.isQuery = false
  body : ∃ multipart, op.TakesCommand (schemaPointerStart ++ key) multipart
  component : d.HasSchema key

namespace Document

/-- What the operation of an endpoint takes in an aggregate. -/
def useIn? (d : Document) (a : Aggregate) (e : Endpoint) : Option CommandUse :=
  (e.place d).useOf? a.context a.name

/-- The key of the command that the operation of an endpoint takes in an aggregate. -/
def commandKey? (d : Document) (a : Aggregate) (e : Endpoint) : Option String :=
  (d.useIn? a e).map (·.schemaKey)

/-- The endpoints whose operations take the command of a key in an aggregate, in document order. -/
def takers (d : Document) (a : Aggregate) (key : String) : List Endpoint :=
  d.endpoints.filter fun e => d.commandKey? a e = some key

theorem usesIn_eq : d.usesIn a = d.endpoints.filterMap (d.useIn? a) := by
  rw [usesIn, places, List.filterMap_map]
  rfl

theorem useIn?_eq_some_iff {use : CommandUse} :
    d.useIn? a e = some use ↔ e.GoesTo d (.command a.context a.name use) := by
  rw [Endpoint.goesTo_iff, useIn?]
  cases e.place d with
  | command context name use' =>
    rw [Place.useOf?, Option.ite_none_right_eq_some, Option.some.injEq, Place.command.injEq,
      and_assoc]
  | _ => exact iff_of_false (fun h => by cases h) fun h => by cases h

end Document

theorem Endpoint.takes_iff :
    e.Takes d a key op ↔
      ∃ multipart, e.GoesTo d (.command a.context a.name ⟨key, multipart, op⟩) := by
  constructor
  · rintro ⟨hop, ⟨tag, hfirst⟩, hquery, ⟨multipart, htakes⟩, schema, hschema⟩
    have htarget : d.resolveSchema (schemaPointerStart ++ key) op.identifier = .ok (key, schema) :=
      Document.resolveSchema_eq_ok_iff.2 ⟨schemaKey?_pointer key, hschema⟩
    exact ⟨multipart, .command hop hfirst hquery htakes htarget⟩
  · rintro ⟨multipart, hgoes⟩
    generalize huse : (⟨key, multipart, op⟩ : CommandUse) = use at hgoes
    cases hgoes with
    | @command _ tag _ _ pointer form target hop hfirst hquery htakes htarget =>
      cases huse
      obtain ⟨hkey, hschema⟩ := Document.resolveSchema_eq_ok_iff.1 htarget
      rw [schemaKey?, Text.afterStart?_eq_some_iff] at hkey
      exact ⟨hop, ⟨tag, hfirst⟩, hquery, ⟨multipart, hkey ▸ htakes⟩, target.2, hschema⟩

theorem Document.commandKey?_eq_some_iff :
    d.commandKey? a e = some key ↔ ∃ op, e.Takes d a key op := by
  rw [commandKey?, Option.map_eq_some_iff]
  simp only [useIn?_eq_some_iff, Endpoint.takes_iff]
  constructor
  · rintro ⟨⟨_, multipart, op⟩, hgoes, rfl⟩
    exact ⟨op, multipart, hgoes⟩
  · rintro ⟨op, multipart, hgoes⟩
    exact ⟨_, hgoes, rfl⟩

/-- The endpoints that take a command and what they take, item by item.  By induction on the
    endpoints of the document. -/
theorem Document.forall₂_takers (d : Document) (a : Aggregate) (key : String) :
    List.Forall₂ (fun e use => e.Takes d a key use.operation)
      (d.takers a key) (usesOf key (d.usesIn a)) := by
  rw [usesIn_eq, takers]
  induction d.endpoints with
  | nil => exact .nil
  | cons e rest ih =>
    cases huse : d.useIn? a e with
    | none =>
      have hkey : ¬d.commandKey? a e = some key := by simp [commandKey?, huse]
      rw [List.filter_cons_of_neg (by simpa using hkey), List.filterMap_cons_none huse]
      exact ih
    | some use =>
      have hkey : d.commandKey? a e = some key ↔ use.schemaKey = key := by
        simp [commandKey?, huse]
      rw [List.filterMap_cons_some huse, usesOf]
      by_cases hsame : use.schemaKey = key
      · rw [List.filter_cons_of_pos (by simpa using hkey.2 hsame),
          List.filter_cons_of_pos (by simpa using hsame)]
        refine .cons ?_ ih
        cases hsame
        exact Endpoint.takes_iff.2 ⟨use.multipart, useIn?_eq_some_iff.1 huse⟩
      · rw [List.filter_cons_of_neg (by simpa using fun h => hsame (hkey.1 h)),
          List.filter_cons_of_neg (by simpa using hsame)]
        exact ih

/-! ## Groups -/

/-- An aggregate whose commands are the operations of the document that belong to it and write,
    grouped by the component that their bodies refer to. -/
structure Aggregate.Grouped (d : Document) (a : Aggregate) : Prop where
  /-- What counts as an operation that takes a command. -/
  rule : ∀ e key, d.commandKey? a e = some key ↔ ∃ op, e.Takes d a key op
  /-- There is one command for each key, in the order in which the keys first come. -/
  keys : a.commands.map (·.schemaKey) = (d.endpoints.filterMap (d.commandKey? a)).eraseDups
  distinct : (a.commands.map (·.schemaKey)).Nodup
  components : ∀ c ∈ a.commands, d.HasSchema c.schemaKey
  /-- The operation of a command is the first that takes it. -/
  first : ∀ c ∈ a.commands, ∃ (e : Endpoint) (rest : List Endpoint),
    d.takers a c.schemaKey = e :: rest ∧ e.Takes d a c.schemaKey c.operation
  /-- The routes of a command are the paths of all operations that take it, each where it first
      comes. -/
  routes : ∀ c ∈ a.commands, c.routes = ((d.takers a c.schemaKey).map (·.path)).eraseDups
  begins : ∀ c ∈ a.commands, c.routes.head? = some c.operation.path
  once : ∀ c ∈ a.commands, c.routes.Nodup

section Gathered

variable {c : Command}

/-- The operation of a command is that of the first endpoint that takes it. -/
theorem CommandUse.Gathered.exists_first (h : Gathered (d.usesIn a) c) :
    ∃ (e : Endpoint) (rest : List Endpoint),
      d.takers a c.schemaKey = e :: rest ∧ e.Takes d a c.schemaKey c.operation := by
  obtain ⟨others, huses⟩ := List.head?_eq_some_iff.1 h.first
  have htakers := d.forall₂_takers a c.schemaKey
  rw [huses, List.forall₂_cons_right_iff] at htakers
  obtain ⟨e, rest, htakes, -, heq⟩ := htakers
  exact ⟨e, rest, heq, htakes⟩

/-- The routes of a command are the paths of the endpoints that take it. -/
theorem CommandUse.Gathered.routes_eq (h : Gathered (d.usesIn a) c) :
    c.routes = ((d.takers a c.schemaKey).map (·.path)).eraseDups := by
  have hpaths : List.Forall₂ (· = ·) ((d.takers a c.schemaKey).map (·.path))
      ((usesOf c.schemaKey (d.usesIn a)).map (·.operation.path)) := by
    rw [List.forall₂_map_left_iff, List.forall₂_map_right_iff]
    exact (d.forall₂_takers a c.schemaKey).imp fun e use htakes =>
      (Endpoint.eq_of_resolve htakes.resolves).1.symm
  rw [List.forall₂_eq_eq_eq] at hpaths
  rw [h.routes, hpaths]

end Gathered

/-- The commands of every aggregate of a document are grouped. -/
theorem commands_grouped (ha : a ∈ d.service.aggregates) : a.Grouped d := by
  have hgathered : CommandUse.AreGathered (d.usesIn a) a.commands := d.areGathered_of_mem ha
  have hkeys : a.commands.map (·.schemaKey)
      = (d.endpoints.filterMap (d.commandKey? a)).eraseDups := by
    rw [hgathered.keys, Document.usesIn_eq, List.map_filterMap]
    rfl
  constructor
  case rule => exact fun e key => Document.commandKey?_eq_some_iff
  case keys => exact hkeys
  case distinct =>
    rw [hkeys]
    exact nodup_eraseDups _
  case components => exact (d.service_attached a ha).commands
  case first => exact fun c hc => (hgathered.commands c hc).exists_first
  case routes => exact fun c hc => (hgathered.commands c hc).routes_eq
  case begins =>
    intro c hc
    obtain ⟨e, rest, htakers, htakes⟩ := (hgathered.commands c hc).exists_first
    rw [(hgathered.commands c hc).routes_eq, htakers, List.map_cons, List.eraseDups_cons,
      List.head?_cons, (Endpoint.eq_of_resolve htakes.resolves).1]
  case once =>
    intro c hc
    rw [(hgathered.commands c hc).routes]
    exact nodup_eraseDups _

/-- Two aggregates whose operations alternate, one of which takes a command of the other as well.
    A path takes the same command by two methods, and a command comes again after another. -/
def alternatingDocument : Document :=
  let takes (tag key : String) : Operation :=
    { tags := [tag]
      requestBody := some (.item
        { content := .ofList [("application/json", ⟨some (.referenceTo key)⟩)] })
      responses := .ofList [] }
  let create := takes "shop.order" "shop.order.Create"
  let cancel := takes "shop.order" "shop.order.Cancel"
  let copied := takes "shop.cart" "shop.order.Create"
  { paths := .ofList
      [("/cart/copy", { operation? := fun
          | .post => some copied
          | _ => none }),
       ("/order", { operation? := fun
          | .get | .put | .post => some create
          | _ => none }),
       ("/order/cancel", { operation? := fun
          | .put => some cancel
          | .delete => some copied
          | _ => none }),
       ("/order/list", { operation? := fun
          | .post => some create
          | _ => none }),
       ("/tenant/order", { operation? := fun
          | .post => some create
          | .patch => some cancel
          | _ => none })]
    components.schemas := .ofList
      [("shop.order.Cancel", { type := some (.single "object") }),
       ("shop.order.Create", { type := some (.single "object") })] }

theorem commands_grouped_alternating :
    ∃ a ∈ alternatingDocument.service.aggregates, a.name = "order" ∧
      a.commands.map (fun c => (c.schemaKey, c.routes))
        = [("shop.order.Create", ["/order", "/tenant/order"]),
           ("shop.order.Cancel", ["/order/cancel", "/tenant/order"])] ∧
      a.Grouped alternatingDocument := by
  have hrun : alternatingDocument.service.aggregates.any (fun a => a.name = "order" ∧
      a.commands.map (fun c => (c.schemaKey, c.routes))
        = [("shop.order.Create", ["/order", "/tenant/order"]),
           ("shop.order.Cancel", ["/order/cancel", "/tenant/order"])]) = true := by
    decide +kernel
  obtain ⟨a, ha, hcommands⟩ := List.any_eq_true.1 hrun
  obtain ⟨hname, hcommands⟩ := of_decide_eq_true hcommands
  exact ⟨a, ha, hname, hcommands, commands_grouped ha⟩

end ClientGen
