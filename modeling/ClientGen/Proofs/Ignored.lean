/-
  ClientGen.Proofs.Ignored

  The operations that are left out without a word.  Such an operation has no place,
  and what has no place leaves nothing behind: `sameOperations_without` compares a
  document with the one from which the operation was taken.  An aggregate may be
  there for its sake alone, but then it holds no operations.
-/
import ClientGen.Proofs.Partition

namespace ClientGen

variable {d : Document} {e : Endpoint}

/-! ## Operations without a place -/

namespace Endpoint

/-- The operations that are left out without a word: those without a tag, and those of an aggregate
    that neither are queries nor take a command. -/
inductive Ignored (d : Document) (e : Endpoint) : Prop
  | untagged {op : ResolvedOperation} (hop : e.resolve d = .ok op) (htags : op.tags = [])
  | idle {op : ResolvedOperation} {tag context name : String} (hop : e.resolve d = .ok op)
      (hfirst : op.FirstAggregate d tag context name) (hquery : op.isQuery = false)
      (hidle : ∀ pointer multipart, ¬op.TakesCommand pointer multipart)

theorem goesTo_nowhere_iff : e.GoesTo d .nowhere ↔ e.Ignored d := by
  constructor
  · intro h
    cases h with
    | untagged hop htags => exact .untagged hop htags
    | idle hop hfirst hquery hidle => exact .idle hop hfirst hquery hidle
  · intro h
    cases h with
    | untagged hop htags => exact .untagged hop htags
    | idle hop hfirst hquery hidle => exact .idle hop hfirst hquery hidle

theorem ignored_iff_place_eq : e.Ignored d ↔ e.place d = .nowhere :=
  goesTo_nowhere_iff.symm.trans goesTo_iff

end Endpoint

/-! ## Services with the same operations -/

namespace Service

variable {s s' : Service} {places places' : List Place}

/-- Services in which every operation is found where it is in the other. -/
structure SameOperations (s s' : Service) : Prop where
  queries : ∀ context name, s.queriesOf context name = s'.queriesOf context name
  commands : ∀ context name, s.commandsOf context name = s'.commandsOf context name
  operations : ∀ tag, s.operationsOf tag = s'.operationsOf tag
  records : s.skipped = s'.skipped

/-- What services hold is all that they have, so that places may differ in what is nowhere. -/
theorem Holds.sameOperations (h : s.Holds places) (h' : s'.Holds places')
    (hsame : ∀ {α : Type} (part? : Place → Option α), part? .nowhere = none →
      places.filterMap part? = places'.filterMap part?) : s.SameOperations s' where
  queries context name := by
    rw [h.queries, h'.queries, hsame _ rfl]
  commands context name := by
    have hgathered := h.commands context name
    rw [hsame _ rfl] at hgathered
    exact hgathered.eq (h'.commands context name)
  operations tag := by
    rw [h.operations, h'.operations, hsame _ rfl]
  records := by
    rw [h.records, h'.records, hsame _ rfl]

end Service

/-! ## Without an operation -/

/-- A document that lacks an operation of another one and is otherwise as that: it has the same
    other operations under the same methods and paths, in the same order, and differs in its paths
    only. -/
structure Document.IsWithout (d' d : Document) (e : Endpoint) : Prop where
  rest : ∃ paths, d' = { d with paths }
  operations : d'.endpoints.map (fun e' => (e'.method, e'.path, e'.operation, e'.item.parameters))
    = (d.endpoints.filter fun e' => (e'.method, e'.path) ≠ (e.method, e.path)).map
        fun e' => (e'.method, e'.path, e'.operation, e'.item.parameters)

theorem Document.isWithout (d : Document) (e : Endpoint) : (d.without e).IsWithout d e where
  rest := ⟨_, rfl⟩
  operations := d.map_endpoints_without e fun _ _ => rfl

/-- No operation has another place for want of another one: its place depends on the parameters of
    its path, which stay. -/
theorem places_without (d : Document) (e : Endpoint) :
    (d.without e).places
      = (d.endpoints.filter fun e' => (e'.method, e'.path) ≠ (e.method, e.path)).map (·.place d) :=
  d.map_endpoints_without e fun _ _ => rfl

/-- An ignored operation leaves nothing behind: all others are where they would be without it. -/
theorem sameOperations_without (he : e ∈ d.endpoints) (hignored : e.Ignored d) :
    d.parted.SameOperations (d.without e).parted := by
  apply d.parted_holds.sameOperations (d.without e).parted_holds
  intro α part? hnowhere
  rw [places_without, Document.places, List.filterMap_map, List.filterMap_map, List.filterMap_filter]
  apply List.filterMap_congr
  intro e' he'
  split
  · rfl
  · next hkey =>
    -- by its method and path it is the ignored one
    have heq : e' = e := List.inj_on_of_nodup_map d.nodup_endpoints he' he (by simpa using hkey)
    rw [Function.comp_apply, heq, Endpoint.ignored_iff_place_eq.1 hignored]
    exact hnowhere

end ClientGen
