/-
  ClientGen.Proofs.Endpoint

  Which operations a document has, and in which order.  The endpoints are exactly
  the operations under the methods of the paths (`mem_endpoints_iff`), by path in
  document order and on one path in the order of methods (`pairwise_endpoints`), so
  none of them is listed twice.
-/
import ClientGen.OpenApi.Document
import ClientGen.Proofs.Map
import Mathlib.Data.List.Pairwise

namespace ClientGen

/-! ## Positions in a list -/

/-- Where nothing is repeated, items come in the order of their positions. -/
theorem pairwise_idxOf_lt {α : Type} [DecidableEq α] {l : List α} (h : l.Nodup) :
    l.Pairwise fun a b => l.idxOf a < l.idxOf b := by
  rw [List.pairwise_iff_getElem]
  intro i j hi hj hij
  rw [h.idxOf_getElem i, h.idxOf_getElem j]
  exact hij

/-! ## Operations of a document -/

variable {d : Document} {e : Endpoint}

/-- Whether a document has an operation: its path is one of the document, and has it under its
    method. -/
def Document.HasOperation (d : Document) (e : Endpoint) : Prop :=
  d.paths.get? e.path = some e.item ∧ e.item.operation? e.method = some e.operation

/-- Whether an operation comes before another one: on an earlier path, or on the same path under
    an earlier method. -/
def Endpoint.Before (d : Document) (e e' : Endpoint) : Prop :=
  d.paths.keys.idxOf e.path < d.paths.keys.idxOf e'.path ∨
    e.path = e'.path ∧ HttpMethod.all.idxOf e.method < HttpMethod.all.idxOf e'.method

theorem Endpoint.not_before_of_eq {e' : Endpoint}
    (h : (e.method, e.path) = (e'.method, e'.path)) : ¬e.Before d e' := by
  obtain ⟨hmethod, hpath⟩ := Prod.mk.inj h
  rw [Before, hmethod, hpath]
  rintro (hlt | ⟨-, hlt⟩)
  · exact Nat.lt_irrefl _ hlt
  · exact Nat.lt_irrefl _ hlt

theorem HttpMethod.mem_all (method : HttpMethod) : method ∈ all := by
  cases method <;> decide

namespace PathItem

/-- A path with one operation. -/
def only (method : HttpMethod) (operation : Operation) : PathItem :=
  { operation? := fun other => if other = method then some operation else none }

/-- A path without the operation of a method. -/
def without (item : PathItem) (method : HttpMethod) : PathItem :=
  { item with operation? := fun other => if other = method then none else item.operation? other }

variable {item : PathItem} {path : String}

theorem mem_endpoints_iff :
    e ∈ item.endpoints path ↔
      e.path = path ∧ e.item = item ∧ item.operation? e.method = some e.operation := by
  simp only [endpoints, List.mem_filterMap, Option.map_eq_some_iff]
  constructor
  · rintro ⟨method, -, operation, hoperation, rfl⟩
    exact ⟨rfl, rfl, hoperation⟩
  · rintro ⟨rfl, rfl, hoperation⟩
    exact ⟨e.method, e.method.mem_all, e.operation, hoperation, rfl⟩

/-- The operations of a path are listed in the order of their methods. -/
theorem pairwise_endpoints (item : PathItem) (path : String) :
    (item.endpoints path).Pairwise fun e e' =>
      HttpMethod.all.idxOf e.method < HttpMethod.all.idxOf e'.method := by
  have hmethods : HttpMethod.all.Pairwise fun m m' =>
      HttpMethod.all.idxOf m < HttpMethod.all.idxOf m' :=
    pairwise_idxOf_lt (by decide)
  rw [endpoints, List.pairwise_filterMap]
  apply hmethods.imp
  intro m m' hlt e he e' he'
  obtain ⟨operation, -, rfl⟩ := Option.map_eq_some_iff.1 he
  obtain ⟨operation', -, rfl⟩ := Option.map_eq_some_iff.1 he'
  exact hlt

/-- The operations that are left on a path are as they were, but for the path that they know. -/
theorem endpoints_without (item : PathItem) (path : String) (method : HttpMethod) :
    (item.without method).endpoints path
      = ((item.endpoints path).filter (·.method ≠ method)).map
          ({ · with item := item.without method }) := by
  rw [endpoints, endpoints, List.filter_filterMap, List.map_filterMap]
  apply List.filterMap_congr
  intro other _
  have hleft : (item.without method).operation? other
      = if other = method then none else item.operation? other := rfl
  rw [hleft]
  by_cases hmethod : other = method
  · cases item.operation? other <;> simp [hmethod, Option.filter]
  · cases item.operation? other <;> simp [hmethod, Option.filter]

/-- The operations of a path that are not a given one: on its own path those of other methods, and
    on another path all. -/
theorem filter_endpoints (item : PathItem) (path : String) (e : Endpoint) :
    (item.endpoints path).filter (fun e' => (e'.method, e'.path) ≠ (e.method, e.path))
      = if path = e.path then (item.endpoints path).filter (·.method ≠ e.method)
        else item.endpoints path := by
  have hpath : ∀ e' ∈ item.endpoints path, e'.path = path := fun e' he' =>
    (mem_endpoints_iff.1 he').1
  split
  · next heq =>
    apply List.filter_congr
    intro e' he'
    simp [hpath e' he', heq]
  · next hne =>
    rw [List.filter_eq_self]
    intro e' he'
    simp [hpath e' he', hne]

end PathItem

namespace Document

/-- The endpoints of a document are the operations that it has. -/
theorem mem_endpoints_iff : e ∈ d.endpoints ↔ d.HasOperation e := by
  simp only [HasOperation, endpoints, List.mem_flatMap, Prod.exists, PathItem.mem_endpoints_iff,
    OrderedMap.get?_eq_some_iff]
  constructor
  · rintro ⟨path, item, hentry, rfl, rfl, hoperation⟩
    exact ⟨hentry, hoperation⟩
  · rintro ⟨hentry, hoperation⟩
    exact ⟨e.path, e.item, hentry, rfl, rfl, hoperation⟩

/-- The operations of a document are listed path by path. -/
theorem pairwise_endpoints (d : Document) : d.endpoints.Pairwise (Endpoint.Before d) := by
  have hkeys : d.paths.keys.Pairwise fun key key' =>
      d.paths.keys.idxOf key < d.paths.keys.idxOf key' :=
    pairwise_idxOf_lt d.paths.nodup
  have hpaths := (List.pairwise_map (f := Prod.fst) (l := d.paths.entries)).1 hkeys
  -- two operations are on the same path, or on two paths of which one is earlier
  rw [endpoints, List.pairwise_flatMap]
  constructor
  · rintro ⟨path, item⟩ -
    apply (item.pairwise_endpoints path).imp_of_mem
    intro e e' he he' hlt
    have hpath := (PathItem.mem_endpoints_iff.1 he).1
    have hpath' := (PathItem.mem_endpoints_iff.1 he').1
    exact .inr ⟨hpath.trans hpath'.symm, hlt⟩
  · apply hpaths.imp
    rintro ⟨path, item⟩ ⟨path', item'⟩ hlt e he e' he'
    obtain ⟨rfl, -⟩ := PathItem.mem_endpoints_iff.1 he
    obtain ⟨rfl, -⟩ := PathItem.mem_endpoints_iff.1 he'
    exact .inl hlt

/-- By path and HTTP method, every operation of a document is there once. -/
theorem nodup_endpoints (d : Document) : (d.endpoints.map fun e => (e.method, e.path)).Nodup := by
  apply List.pairwise_map.2
  apply d.pairwise_endpoints.imp
  exact fun hbefore heq => Endpoint.not_before_of_eq heq hbefore

/-- The document without one of its operations. -/
def without (d : Document) (e : Endpoint) : Document :=
  { d with
    paths := ⟨d.paths.entries.map fun entry =>
      (entry.1, if entry.1 = e.path then entry.2.without e.method else entry.2), by
        rw [Entries.keys, List.map_map]
        exact d.paths.nodup⟩ }

/-- All other operations are left, in their order.  What is asked of them must not depend on
    which operations their paths have besides. -/
theorem map_endpoints_without {α : Type} (d : Document) (e : Endpoint) {f : Endpoint → α}
    (hf : ∀ (e' : Endpoint) (method : HttpMethod),
      f { e' with item := e'.item.without method } = f e') :
    (d.without e).endpoints.map f
      = (d.endpoints.filter fun e' => (e'.method, e'.path) ≠ (e.method, e.path)).map f := by
  rw [endpoints, endpoints, without, List.flatMap_map, List.filter_flatMap, List.map_flatMap,
    List.map_flatMap]
  apply List.flatMap_congr
  rintro ⟨path, item⟩ -
  rw [PathItem.filter_endpoints]
  by_cases heq : path = e.path
  · simp only [if_pos heq, PathItem.endpoints_without, List.map_map]
    apply List.map_congr_left
    intro e' he'
    -- what an endpoint of the path knows of the path is the path itself
    obtain ⟨-, hitem, -⟩ := PathItem.mem_endpoints_iff.1 (List.mem_of_mem_filter he')
    rw [Function.comp_apply, ← hitem, hf]
  · simp only [if_neg heq]

end Document

end ClientGen
