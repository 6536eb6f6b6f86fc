/-
  ClientGen.Proofs.DomainEvent

  The domain events of aggregates.  They are what the members of unions refer to, each
  once, and members that refer to nothing are recorded.  The members that are read are
  those of one composition keyword; `events_listed` says when these are all members of
  the unions and no others.
-/
import ClientGen.Proofs.Partition
import ClientGen.Proofs.Reference
import ClientGen.Proofs.Represented

namespace ClientGen

/-! ## Members of compositions -/

namespace Schema

variable {s : Schema}

/-- What members refer to. -/
def references (members : List Schema) : List String := members.filterMap (·.reference)

/-- What the members of a union refer to. -/
def unionReferences (s : Schema) : List String :=
  references (s.anyOf.getD [] ++ s.oneOf.getD [])

/-- What the members of the keyword in use refer to, in a schema that is a union. -/
def usedReferences (s : Schema) : List String :=
  if s.isUnion then references ((s.composition?.map (·.2)).getD []) else []

/-- Whether the keyword in use hides no member of the union, and adds none: `allOf` in front of
    the union refers to the same, and `oneOf` behind `anyOf` refers to nothing. -/
structure ShowsUnion (s : Schema) : Prop where
  allOf : s.isAllOf = true → references (s.allOf.getD []) = s.unionReferences
  anyOf : s.isAllOf = false → s.anyOf.getD [] ≠ [] → references (s.oneOf.getD []) = []

theorem members?_eq (members : Option (List Schema)) :
    members? members = if members.getD [] = [] then none else some (members.getD []) := by
  cases members with
  | none => rfl
  | some members => cases members <;> rfl

theorem isAllOf_iff : s.isAllOf = true ↔ s.allOf.getD [] ≠ [] := by
  rw [isAllOf, members?_eq]
  split <;> simp [*]

theorem isUnion_iff : s.isUnion = true ↔ s.anyOf.getD [] ≠ [] ∨ s.oneOf.getD [] ≠ [] := by
  rw [isUnion, members?_eq, members?_eq]
  split <;> split <;> simp [*]

/-- The members in use are those of `allOf`, or else those of `anyOf`, or else those of `oneOf`. -/
theorem membersInUse_eq :
    (s.composition?.map (·.2)).getD [] =
      if s.allOf.getD [] = [] then
        if s.anyOf.getD [] = [] then s.oneOf.getD [] else s.anyOf.getD []
      else s.allOf.getD [] := by
  rw [composition?, members?_eq, members?_eq, members?_eq]
  split
  · split
    · split <;> simp [*]
    · simp
  · simp

theorem usedReferences_eq_iff :
    s.usedReferences = s.unionReferences ↔ (s.isUnion = true → s.ShowsUnion) := by
  have hboth : s.unionReferences = references (s.anyOf.getD []) ++ references (s.oneOf.getD []) :=
    List.filterMap_append
  by_cases hunion : s.isUnion = true
  · rw [usedReferences, if_pos hunion, membersInUse_eq, forall_prop_of_true hunion]
    by_cases hall : s.allOf.getD [] = []
    · have hfalse : s.isAllOf = false := Bool.eq_false_iff.2 fun h => isAllOf_iff.1 h hall
      rw [if_pos hall]
      by_cases hany : s.anyOf.getD [] = []
      · -- the only keyword is `oneOf`
        refine iff_of_true ?_ ⟨fun h => ?_, fun _ h => absurd hany h⟩
        · rw [if_pos hany, hboth, hany]
          rfl
        · rw [hfalse] at h
          cases h
      · rw [if_neg hany, hboth, List.self_eq_append_right]
        refine ⟨fun h => ⟨fun htrue => ?_, fun _ _ => h⟩, fun h => h.anyOf hfalse hany⟩
        rw [hfalse] at htrue
        cases htrue
    · have htrue : s.isAllOf = true := isAllOf_iff.2 hall
      rw [if_neg hall]
      refine ⟨fun h => ⟨fun _ => h, fun hfalse => ?_⟩, fun h => h.allOf htrue⟩
      rw [htrue] at hfalse
      cases hfalse
  · -- without members there are no references
    have hnone : s.anyOf.getD [] = [] ∧ s.oneOf.getD [] = [] := by
      rw [isUnion_iff, not_or, not_not, not_not] at hunion
      exact hunion
    refine iff_of_true ?_ fun h => absurd h hunion
    rw [usedReferences, if_neg hunion, hboth, hnone.1, hnone.2]
    rfl

end Schema

/-! ## References of an aggregate -/

theorem flatMap_filter {α β : Type} (entries : List α) (p : α → Bool) (f : α → List β) :
    (entries.filter p).flatMap f
      = entries.flatMap fun entry => if p entry then f entry else [] := by
  induction entries with
  | nil => rfl
  | cons entry rest ih => cases h : p entry <;> simp [h, ih]

/-- What is listed under distinct keys can be told from the list of keyed items. -/
theorem flatMap_keyed_inj {α β : Type} {entries : List (String × α)} {f g : α → List β}
    (h : (entries.map Prod.fst).Nodup) :
    (entries.flatMap fun entry => (f entry.2).map (entry.1, ·))
        = (entries.flatMap fun entry => (g entry.2).map (entry.1, ·)) ↔
      ∀ entry ∈ entries, f entry.2 = g entry.2 := by
  refine ⟨fun heq => ?_, fun hall => List.flatMap_congr fun entry hentry => ?_⟩
  case refine_2 => rw [hall entry hentry]
  induction entries with
  | nil => exact fun _ hentry => absurd hentry List.not_mem_nil
  | cons first rest ih =>
    obtain ⟨hfirst, hrest⟩ := List.nodup_cons.1 h
    -- the items under the first key come first, and behind them this key is not met again
    have hkept (items : List β) :
        (items.map (first.1, ·)).filter (·.1 == first.1) = items.map (first.1, ·) := by
      simp
    have hdropped (k : α → List β) :
        (rest.flatMap fun entry => (k entry.2).map (entry.1, ·)).filter (·.1 == first.1) = [] := by
      apply List.filter_eq_nil_iff.2
      intro item hitem hkey
      obtain ⟨entry, hentry, hitem⟩ := List.mem_flatMap.1 hitem
      obtain ⟨_, -, rfl⟩ := List.mem_map.1 hitem
      exact hfirst (eq_of_beq hkey ▸ List.mem_map_of_mem hentry)
    have hunder := congrArg (List.filter (·.1 == first.1)) heq
    rw [List.flatMap_cons, List.flatMap_cons, List.filter_append, List.filter_append, hkept, hkept,
      hdropped f, hdropped g, List.append_nil, List.append_nil] at hunder
    have hitems : f first.2 = g first.2 :=
      List.map_injective_iff.2 (fun _ _ h => (Prod.mk.inj h).2) hunder
    rw [List.flatMap_cons, List.flatMap_cons, hitems, List.append_cancel_left_eq] at heq
    exact List.forall_mem_cons.2 ⟨hitems, ih hrest heq⟩

namespace Aggregate

variable {a : Aggregate} {d : Document}

/-- The schemas of an aggregate that are named like domain events. -/
def eventSchemas (a : Aggregate) (d : Document) : List (String × Schema) :=
  (a.schemas d).filter (named "DomainEvent")

/-- The references of the members of all unions among these, in order, each with the key of the
    union that holds it. -/
def unionReferences (a : Aggregate) (d : Document) : List (String × String) :=
  (a.eventSchemas d).flatMap fun entry => entry.2.unionReferences.map (entry.1, ·)

theorem eventReferences_eq (a : Aggregate) (d : Document) :
    a.eventReferences d
      = (a.eventSchemas d).flatMap fun entry => entry.2.usedReferences.map (entry.1, ·) := by
  have hunions : ((a.schemas d).filter fun entry => named "DomainEvent" entry && entry.2.isUnion)
      = (a.eventSchemas d).filter (·.2.isUnion) := by
    rw [eventSchemas, List.filter_filter]
    exact List.filter_congr fun entry _ => Bool.and_comm _ _
  rw [eventReferences, hunions, flatMap_filter]
  apply List.flatMap_congr
  intro entry _
  rw [Schema.usedReferences]
  split
  · rw [Schema.references, List.map_filterMap]
  · rfl

theorem nodup_eventSchemas (a : Aggregate) (d : Document) :
    ((a.eventSchemas d).map Prod.fst).Nodup := by
  have hkeys : (d.components.schemas.entries.map Prod.fst).Nodup := d.components.schemas.nodup
  have hkept : (a.eventSchemas d).Sublist d.components.schemas.entries :=
    List.filter_sublist.trans List.filter_sublist
  exact hkeys.sublist (hkept.map Prod.fst)

theorem eventReferences_eq_iff :
    a.eventReferences d = a.unionReferences d ↔
      ∀ entry ∈ a.eventSchemas d, entry.2.isUnion = true → entry.2.ShowsUnion := by
  rw [eventReferences_eq, unionReferences, flatMap_keyed_inj (a.nodup_eventSchemas d)]
  exact forall₂_congr fun entry _ => Schema.usedReferences_eq_iff

end Aggregate

/-! ## Events -/

/-- The component that a pointer means, if the document has it. -/
def Document.component? (d : Document) (pointer : String) : Option (String × Schema) :=
  (schemaKey? pointer).bind fun key => (d.schema? key).map (key, ·)

theorem Document.resolveSchema_eq (d : Document) (pointer referrer : String) :
    d.resolveSchema pointer referrer =
      match d.component? pointer with
      | some target => .ok target
      | none => .error (.unresolvedReference pointer referrer) := by
  unfold resolveSchema component?
  cases schemaKey? pointer with
  | none => rfl
  | some key =>
    cases hs : d.schema? key with
    | none => simp [hs]
    | some s => simp [hs]

namespace Aggregate

variable {a : Aggregate} {d : Document}

/-- The events and the records of an aggregate, if these are the references to its events. -/
structure ListsEvents (d : Document) (a : Aggregate) (references : List (String × String)) :
    Prop where
  /-- There is one event for every component, in the order in which they are first met. -/
  keys : a.events.map (·.schemaKey)
    = ((references.filterMap fun r => d.component? r.2).map Prod.fst).eraseDups
  events : ∀ e ∈ a.events, d.schema? e.schemaKey = some e.schema ∧
    e.name = (ModelName.ofReference e.schemaKey).name
  /-- There is one record for every reference that leads nowhere. -/
  records : a.skippedEvents d = (references.filter fun r => (d.component? r.2).isNone).map fun r =>
    .because r.1 (.unresolvedReference r.2 r.1)

theorem keys_addEvent (events : List Event) (target : String × Schema) :
    (addEvent events target).map (·.schemaKey) =
      if target.1 ∈ events.map (·.schemaKey) then events.map (·.schemaKey)
      else events.map (·.schemaKey) ++ [target.1] := by
  have hmem : events.any (·.schemaKey == target.1) = true ↔
      target.1 ∈ events.map (·.schemaKey) := by
    simp
  simp only [addEvent, hmem]
  split
  · rfl
  · exact List.map_append

theorem keys_foldl_addEvent (targets : List (String × Schema)) :
    (targets.foldl addEvent []).map (·.schemaKey) = (targets.map Prod.fst).eraseDups := by
  induction targets using List.reverseRecOn with
  | nil => rfl
  | append_singleton init last ih =>
    rw [List.foldl_concat, keys_addEvent, ih, List.map_append, List.map_singleton, eraseDups_concat]
    simp only [List.mem_eraseDups]

/-- Every event was made for one of the targets. -/
theorem exists_target_of_mem {targets : List (String × Schema)} {e : Event}
    (h : e ∈ targets.foldl addEvent []) :
    (e.schemaKey, e.schema) ∈ targets ∧ e.name = (ModelName.ofReference e.schemaKey).name := by
  induction targets using List.reverseRecOn with
  | nil => exact absurd h List.not_mem_nil
  | append_singleton init last ih =>
    have hbefore (h : e ∈ init.foldl addEvent []) :
        (e.schemaKey, e.schema) ∈ init ++ [last] ∧
          e.name = (ModelName.ofReference e.schemaKey).name :=
      ⟨List.mem_append_left _ (ih h).1, (ih h).2⟩
    rw [List.foldl_concat, addEvent] at h
    split at h
    · exact hbefore h
    · rcases List.mem_append.1 h with h | h
      · exact hbefore h
      · rw [List.mem_singleton.1 h]
        exact ⟨List.mem_append_right _ List.mem_cons_self, rfl⟩

theorem listsEvents_withSchemas (a : Aggregate) (d : Document) :
    (a.withSchemas d).ListsEvents d (a.eventReferences d) := by
  -- whether a reference resolves does not depend on the schema that holds it
  have hevents : a.resolvedEvents d
      = ((a.eventReferences d).filterMap fun r => d.component? r.2).foldl addEvent [] := by
    unfold resolvedEvents
    congr 1
    apply List.filterMap_congr
    rintro ⟨key, pointer⟩ -
    dsimp only
    rw [Document.resolveSchema_eq]
    cases d.component? pointer <;> rfl
  constructor
  case keys =>
    show (a.resolvedEvents d).map (·.schemaKey) = _
    rw [hevents, keys_foldl_addEvent]
  case events =>
    intro e he
    change e ∈ a.resolvedEvents d at he
    rw [hevents] at he
    obtain ⟨htarget, hname⟩ := exists_target_of_mem he
    obtain ⟨⟨key, pointer⟩, -, hr⟩ := List.mem_filterMap.1 htarget
    obtain ⟨target, -, hr⟩ := Option.bind_eq_some_iff.1 hr
    obtain ⟨s, hs, heq⟩ := Option.map_eq_some_iff.1 hr
    cases heq
    exact ⟨hs, hname⟩
  case records =>
    show a.skippedEvents d = _
    rw [skippedEvents, ← List.filterMap_eq_map, List.filterMap_filter]
    apply List.filterMap_congr
    rintro ⟨key, pointer⟩ -
    dsimp only
    rw [Document.resolveSchema_eq]
    cases d.component? pointer <;> rfl

end Aggregate

/-- The events of an aggregate are what the members in use of its unions refer to, and the records
    name the members that refer to nothing.  These members are all members of the unions just when
    the keyword in use hides none, in each of them. -/
theorem events_listed {d : Document} {a : Aggregate} (ha : a ∈ d.service.aggregates) :
    a.ListsEvents d (a.eventReferences d) ∧
      (a.eventReferences d = a.unionReferences d ↔
        ∀ entry ∈ a.eventSchemas d, entry.2.isUnion = true → entry.2.ShowsUnion) ∧
      ((∀ entry ∈ a.eventSchemas d, entry.2.isUnion = true → entry.2.ShowsUnion) →
        a.ListsEvents d (a.unionReferences d)) ∧
      d.service.skipped
        = d.parted.skipped ++ d.service.aggregates.flatMap (·.skippedEvents d) := by
  have hlisted : a.ListsEvents d (a.eventReferences d) := by
    rw [d.aggregates_service] at ha
    obtain ⟨b, -, rfl⟩ := List.mem_map.1 ha
    exact b.listsEvents_withSchemas d
  refine ⟨hlisted, Aggregate.eventReferences_eq_iff, fun hshown => ?_, ?_⟩
  · rw [← Aggregate.eventReferences_eq_iff.2 hshown]
    exact hlisted
  · rw [d.aggregates_service, List.flatMap_map]
    rfl

/-- An order with a schema that is named like its events. -/
def orderEventsDocument (events : Schema) : Document :=
  { paths := .ofList
      [("/order", .only .get { tags := ["shop.order"], responses := .ofList [] })]
    components.schemas := .ofList
      [("shop.order.Base", { type := some (.single "object") }),
       ("shop.order.Placed", { type := some (.single "object") }),
       ("shop.order.OrderDomainEvent", events)] }

/-- A union that refers to an event twice, and to one that is missing. -/
def placedDocument : Document :=
  orderEventsDocument
    { anyOf := some [.referenceTo "shop.order.Placed", .referenceTo "shop.order.Missing",
        .referenceTo "shop.order.Placed"] }

theorem events_listed_placed :
    ∃ a ∈ placedDocument.service.aggregates,
      a.ListsEvents placedDocument (a.unionReferences placedDocument) ∧
        a.events.map (·.schemaKey) = ["shop.order.Placed"] ∧
        (a.skippedEvents placedDocument).map (·.item) = ["shop.order.OrderDomainEvent"] := by
  have hrun : placedDocument.service.aggregates.any (fun a =>
      ((a.eventSchemas placedDocument).all fun entry =>
        !entry.2.isAllOf && (Schema.references (entry.2.oneOf.getD [])).isEmpty) &&
      (a.events.map (·.schemaKey) = ["shop.order.Placed"] ∧
        (a.skippedEvents placedDocument).map (·.item) = ["shop.order.OrderDomainEvent"]))
      = true := by
    decide +kernel
  obtain ⟨a, ha, hfound⟩ := List.any_eq_true.1 hrun
  obtain ⟨hplain, hlists⟩ := Bool.and_eq_true_iff.1 hfound
  have hshown : ∀ entry ∈ a.eventSchemas placedDocument, entry.2.isUnion = true →
      entry.2.ShowsUnion := by
    intro entry hentry _
    have hkeywords := List.all_eq_true.1 hplain entry hentry
    rw [Bool.and_eq_true, Bool.not_eq_true', List.isEmpty_iff] at hkeywords
    refine ⟨fun hall => ?_, fun _ _ => hkeywords.2⟩
    rw [hkeywords.1] at hall
    cases hall
  exact ⟨a, ha, (events_listed ha).2.2.1 hshown, of_decide_eq_true hlists⟩

/-- A union behind an `allOf`. -/
def hiddenDocument : Document :=
  orderEventsDocument
    { allOf := some [.referenceTo "shop.order.Base"]
      oneOf := some [.referenceTo "shop.order.Placed"] }

/-- What the union refers to. -/
def hiddenReferences : List (String × String) :=
  [("shop.order.OrderDomainEvent", "#/components/schemas/shop.order.Placed")]

/-- An aggregate whose event is no member of the union, while the member is no event. -/
theorem exists_hidden_event :
    ∃ a ∈ hiddenDocument.service.aggregates,
      a.events.map (·.schemaKey) = ["shop.order.Base"] ∧
        a.unionReferences hiddenDocument = hiddenReferences ∧
        ¬a.ListsEvents hiddenDocument (a.unionReferences hiddenDocument) := by
  have hrun : hiddenDocument.service.aggregates.any (fun a =>
      a.events.map (·.schemaKey) = ["shop.order.Base"] ∧
        a.unionReferences hiddenDocument = hiddenReferences) = true := by
    decide +kernel
  have htargets : ((hiddenReferences.filterMap fun r => hiddenDocument.component? r.2).map
      Prod.fst).eraseDups = ["shop.order.Placed"] := by
    decide +kernel
  obtain ⟨a, ha, hfound⟩ := List.any_eq_true.1 hrun
  obtain ⟨hkeys, hreferences⟩ := of_decide_eq_true hfound
  refine ⟨a, ha, hkeys, hreferences, fun hlists => ?_⟩
  have hmember := hlists.keys
  rw [hkeys, hreferences, htargets] at hmember
  exact absurd hmember (by decide)

end ClientGen
