/-
  ClientGen.Proofs.Service

  The keys that a service names.  Whatever key the resolution of aggregates
  attaches (of a state, of fields, of an event or of a command) is that of a
  component of the document, so the types of an aggregate never fail.
-/
import ClientGen.Proofs.Reference
import ClientGen.Service.Resolve

namespace ClientGen

/-! ## The keys of an aggregate -/

/-- Whether the document has a component schema of this key. -/
def Document.HasSchema (d : Document) (key : String) : Prop := ∃ s, d.schema? key = some s

/-- An aggregate that names components of the document only. -/
structure Aggregate.Attached (d : Document) (a : Aggregate) : Prop where
  state : ∀ key ∈ a.state, d.HasSchema key
  fields : ∀ key ∈ a.fields, d.HasSchema key
  events : ∀ e ∈ a.events, d.HasSchema e.schemaKey
  commands : ∀ c ∈ a.commands, d.HasSchema c.schemaKey

/-- A service whose aggregates name components of the document only. -/
def Service.Attached (d : Document) (s : Service) : Prop := ∀ a ∈ s.aggregates, a.Attached d

variable {d : Document}

theorem Document.hasSchema_of_resolveSchema {pointer referrer : String} {target : String × Schema}
    (h : d.resolveSchema pointer referrer = .ok target) : d.HasSchema target.1 :=
  ⟨target.2, (resolveSchema_eq_ok_iff.1 h).2⟩

theorem Document.hasSchema_of_mem {entry : String × Schema}
    (h : entry ∈ d.components.schemas.entries) : d.HasSchema entry.1 :=
  ⟨entry.2, mem_schemas_iff.1 h⟩

/-! ## Operations that are added to an aggregate -/

section Commands

variable {op : ResolvedOperation} {schemaKey : String} {multipart : Bool}

/-- The keys of commands are the former ones and that of the command that was added. -/
theorem schemaKey_of_mem_addCommand {cs : List Command} {c : Command}
    (h : c ∈ addCommand op schemaKey multipart cs) :
    c.schemaKey = schemaKey ∨ ∃ c' ∈ cs, c.schemaKey = c'.schemaKey := by
  induction cs with
  | nil =>
    rw [addCommand, List.mem_singleton] at h
    exact .inl (h ▸ rfl)
  | cons first rest ih =>
    unfold addCommand at h
    split at h
    · next heq =>
      rcases List.mem_cons.1 h with rfl | h
      · -- one more route does not change the key
        refine .inl ?_
        unfold Command.addRoute
        split <;> exact heq
      · exact .inr ⟨c, List.mem_cons_of_mem _ h, rfl⟩
    · rcases List.mem_cons.1 h with rfl | h
      · exact .inr ⟨c, List.mem_cons_self, rfl⟩
      · rcases ih h with heq | ⟨c', hc', heq⟩
        · exact .inl heq
        · exact .inr ⟨c', List.mem_cons_of_mem _ hc', heq⟩

/-- The key of a command is that of a component. -/
theorem hasSchema_of_role (h : op.role d = .ok (.command schemaKey multipart)) :
    d.HasSchema schemaKey := by
  unfold ResolvedOperation.role at h
  split at h
  · cases h
  · split at h
    · cases h
    · next pointer _ _ =>
      cases htarget : d.resolveSchema pointer op.identifier with
      | error e =>
        rw [htarget] at h
        cases h
      | ok target =>
        rw [htarget] at h
        cases h
        exact Document.hasSchema_of_resolveSchema htarget

end Commands

namespace Aggregate

variable {a : Aggregate} {op : ResolvedOperation}

/-- A new aggregate names nothing. -/
theorem attached_of_aggregate? (h : op.aggregate? d = some a) : a.Attached d := by
  obtain ⟨tag, -, htag⟩ := List.exists_of_findSome?_eq_some h
  obtain ⟨pair, -, rfl⟩ := Option.map_eq_some_iff.1 htag
  exact ⟨by simp, by simp, by simp, by simp⟩

theorem Attached.add {role : Role} (h : a.Attached d) (hrole : op.role d = .ok role) :
    (a.add op role).Attached d := by
  cases role with
  | query => exact ⟨h.state, h.fields, h.events, h.commands⟩
  | neither => exact h
  | command schemaKey multipart =>
    refine ⟨h.state, h.fields, h.events, fun c hc => ?_⟩
    rcases schemaKey_of_mem_addCommand hc with heq | ⟨c', hc', heq⟩
    · exact heq ▸ hasSchema_of_role hrole
    · exact heq ▸ h.commands c' hc'

/-! ## State, fields and events -/

theorem hasSchema_of_find? {p : String × Schema → Bool} {key : String}
    (h : ((a.schemas d).find? p).map Prod.fst = some key) : d.HasSchema key := by
  obtain ⟨entry, hentry, rfl⟩ := Option.map_eq_some_iff.1 h
  exact Document.hasSchema_of_mem (List.mem_filter.1 (List.mem_of_find?_eq_some hentry)).1

/-- Every event stems from a target of a reference. -/
theorem hasSchema_of_mem_addEvent {targets : List (String × Schema)} {events : List Event}
    (htargets : ∀ t ∈ targets, d.HasSchema t.1) (hevents : ∀ e ∈ events, d.HasSchema e.schemaKey) :
    ∀ e ∈ targets.foldl addEvent events, d.HasSchema e.schemaKey := by
  induction targets generalizing events with
  | nil => exact hevents
  | cons t rest ih =>
    rw [List.foldl_cons]
    apply ih (fun t' ht' => htargets t' (List.mem_cons_of_mem _ ht'))
    intro e he
    unfold addEvent at he
    split at he
    · exact hevents e he
    · rcases List.mem_append.1 he with he | he
      · exact hevents e he
      · rw [List.mem_singleton.1 he]
        exact htargets t List.mem_cons_self

theorem hasSchema_of_mem_resolvedEvents : ∀ e ∈ a.resolvedEvents d, d.HasSchema e.schemaKey := by
  unfold resolvedEvents
  apply hasSchema_of_mem_addEvent
  · intro t ht
    obtain ⟨⟨key, pointer⟩, -, hr⟩ := List.mem_filterMap.1 ht
    change (d.resolveSchema pointer key).toOption = some t at hr
    cases htarget : d.resolveSchema pointer key with
    | error e =>
      rw [htarget] at hr
      cases hr
    | ok target =>
      rw [htarget] at hr
      cases hr
      exact Document.hasSchema_of_resolveSchema htarget
  · simp

theorem Attached.withSchemas (h : a.Attached d) : (a.withSchemas d).Attached d where
  state _ hkey := hasSchema_of_find? hkey
  fields _ hkey := hasSchema_of_find? hkey
  events := hasSchema_of_mem_resolvedEvents
  commands := h.commands

end Aggregate

/-! ## The aggregates of a service -/

namespace Service

variable {s : Service} {a : Aggregate}

theorem mem_aggregates_iff :
    a ∈ s.aggregates ↔
      ∃ context found, s.contexts.get? context = some found ∧ ∃ name, found.get? name = some a := by
  simp only [aggregates, List.mem_flatMap, SortedMap.mem_values_iff]
  constructor
  · rintro ⟨found, ⟨context, hfound⟩, name, ha⟩
    exact ⟨context, found, hfound, name, ha⟩
  · rintro ⟨context, found, hfound, name, ha⟩
    exact ⟨found, ⟨context, hfound⟩, name, ha⟩

/-- An aggregate after a change was there before, or it is what the change made of one
    that was there or is new. -/
theorem mem_aggregates_alterAggregate {fresh : Aggregate} {change : Aggregate → Aggregate}
    (h : a ∈ (s.alterAggregate fresh change).aggregates) :
    a ∈ s.aggregates ∨ a = change fresh ∨ ∃ found ∈ s.aggregates, a = change found := by
  obtain ⟨context, found, hfound, name, ha⟩ := mem_aggregates_iff.1 h
  rw [alterAggregate, SortedMap.get?_alter] at hfound
  split at hfound
  · next hcontext =>
    rw [Option.some.injEq] at hfound
    subst hfound
    rw [SortedMap.get?_alter] at ha
    -- the context may be new; then it holds no aggregates yet
    have hold {n : String} {b : Aggregate}
        (hb : ((s.contexts.get? fresh.context).getD {}).get? n = some b) : b ∈ s.aggregates := by
      cases hold : s.contexts.get? fresh.context with
      | none =>
        rw [hold] at hb
        cases hb
      | some old =>
        rw [hold] at hb
        exact mem_aggregates_iff.2 ⟨_, old, hold, n, hb⟩
    split at ha
    · rw [Option.some.injEq] at ha
      cases hname : ((s.contexts.get? fresh.context).getD {}).get? fresh.name with
      | none =>
        rw [hname] at ha
        exact .inr (.inl ha.symm)
      | some b =>
        rw [hname] at ha
        exact .inr (.inr ⟨b, hold hname, ha.symm⟩)
    · exact .inl (hold ha)
  · exact .inl (mem_aggregates_iff.2 ⟨context, found, hfound, name, ha⟩)

section Forall

variable {holds : Aggregate → Prop}

theorem forall_alterAggregate {fresh : Aggregate} {change : Aggregate → Aggregate}
    (h : ∀ b ∈ s.aggregates, holds b) (hfresh : holds fresh)
    (hchange : ∀ b, holds b → holds (change b)) :
    ∀ b ∈ (s.alterAggregate fresh change).aggregates, holds b := by
  intro b hb
  rcases mem_aggregates_alterAggregate hb with hb | rfl | ⟨found, hfound, rfl⟩
  · exact h b hb
  · exact hchange _ hfresh
  · exact hchange _ (h found hfound)

variable (hfresh : ∀ op a, ResolvedOperation.aggregate? op d = some a → holds a)
  (hadd : ∀ op role a, ResolvedOperation.role op d = .ok role → holds a → holds (a.add op role))
include hfresh hadd

/-- One endpoint adds an operation to an aggregate that is new or was there before, or it changes
    no aggregate. -/
theorem forall_addEndpoint (h : ∀ b ∈ s.aggregates, holds b) (e : Endpoint) :
    ∀ b ∈ (s.addEndpoint d e).aggregates, holds b := by
  unfold Service.addEndpoint
  split
  · exact h
  · split
    · next fresh hfound =>
      have hnew := hfresh _ _ hfound
      split
      · next role hrole => exact forall_alterAggregate h hnew fun b hb => hadd _ _ b hrole hb
      · exact forall_alterAggregate h hnew fun b hb => hb
    · split <;> exact h

end Forall

end Service

/-- What holds of new aggregates, and still holds of them with one more operation, holds of all.
    The induction is on the endpoints. -/
theorem Document.forall_parted {holds : Aggregate → Prop} (d : Document)
    (hfresh : ∀ op a, ResolvedOperation.aggregate? op d = some a → holds a)
    (hadd : ∀ op role a, ResolvedOperation.role op d = .ok role → holds a → holds (a.add op role)) :
    ∀ a ∈ d.parted.aggregates, holds a := by
  have hrun (endpoints : List Endpoint) (s : Service) (h : ∀ b ∈ s.aggregates, holds b) :
      ∀ b ∈ (endpoints.foldl (Service.addEndpoint d) s).aggregates, holds b := by
    induction endpoints generalizing s with
    | nil => exact h
    | cons e rest ih => exact ih _ (Service.forall_addEndpoint hfresh hadd h e)
  exact hrun d.endpoints {} fun a ha => absurd ha List.not_mem_nil

theorem Document.parted_attached (d : Document) : d.parted.Attached d :=
  d.forall_parted (fun _ _ => Aggregate.attached_of_aggregate?) fun _ _ _ hrole h => h.add hrole

/-- Where all aggregates of the contexts are replaced, so are those that are listed. -/
theorem Service.aggregates_of_contexts {s s' : Service} {f : Aggregate → Aggregate}
    (h : s'.contexts = s.contexts.map (·.map f)) : s'.aggregates = s.aggregates.map f := by
  rw [aggregates, aggregates, h, SortedMap.values_map, List.flatMap_map, List.map_flatMap]
  simp only [SortedMap.values_map]

theorem Document.aggregates_service (d : Document) :
    d.service.aggregates = d.parted.aggregates.map (·.withSchemas d) :=
  Service.aggregates_of_contexts rfl

/-- The aggregates of a document name components of the document only. -/
theorem Document.service_attached (d : Document) : d.service.Attached d := by
  intro a ha
  rw [aggregates_service] at ha
  obtain ⟨b, hb, rfl⟩ := List.mem_map.1 ha
  exact (d.parted_attached b hb).withSchemas

/-! ## Types of aggregates -/

/-- The model of a component always has a type. -/
theorem result_modelType {key : String} (h : d.HasSchema key) (referrer : String) :
    (modelType d referrer key).result = .ok (ModelName.ofReference key).name := by
  obtain ⟨s, hs⟩ := h
  have hresolve : d.resolveSchema (schemaPointerStart ++ key) referrer = .ok (key, s) :=
    Document.resolveSchema_eq_ok_iff.2 ⟨schemaKey?_pointer key, hs⟩
  rw [modelType, referenceType, hresolve]
  rfl

theorem result_modelTypeOr {key? : Option String} (h : ∀ key ∈ key?, d.HasSchema key)
    (referrer default : String) : ∃ type, (modelTypeOr d referrer default key?).result = .ok type := by
  cases key? with
  | none => exact ⟨default, rfl⟩
  | some key => exact ⟨_, result_modelType (h key rfl) referrer⟩

theorem result_eventsType {events : List Event} (h : ∀ e ∈ events, d.HasSchema e.schemaKey)
    (referrer : String) : ∃ type, (eventsType d referrer events).result = .ok type := by
  unfold eventsType
  split
  · exact ⟨_, rfl⟩
  · have hall : ∀ e ∈ events, ∃ type, (modelType d referrer e.schemaKey).result = .ok type := by
      intro e he
      exact ⟨_, result_modelType (h e he) referrer⟩
    obtain ⟨types, htypes⟩ := Traced.result_mapM_of_forall hall
    rw [Traced.bind_of_ok htypes]
    exact ⟨_, rfl⟩

/-- The state, field and event types of an aggregate never fail. -/
theorem Aggregate.Attached.result_aggregateTypes {a : Aggregate} (h : a.Attached d) :
    ∃ types, (aggregateTypes d a).result = .ok types := by
  obtain ⟨state, hstate⟩ := result_modelTypeOr h.state a.tag.name TypeScript.anyType
  obtain ⟨fields, hfields⟩ := result_modelTypeOr h.fields a.tag.name "string"
  obtain ⟨events, hevents⟩ := result_eventsType h.events a.tag.name
  unfold aggregateTypes
  dsimp only
  rw [Traced.bind_of_ok hstate, Traced.bind_of_ok hfields, Traced.bind_of_ok hevents]
  exact ⟨_, rfl⟩

end ClientGen
