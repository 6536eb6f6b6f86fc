/-
  ClientGen.Proofs.Partition

  The operations of a document are parted without loss and without repetition.
  One endpoint changes the service in its own place only, so after any number of
  endpoints the service holds what their places are, in their order;
  `service_partition` says this of all endpoints of a document, which are the
  operations of its paths.
-/
import ClientGen.Proofs.Endpoint
import ClientGen.Proofs.Place
import Mathlib.Data.List.Induction
import Mathlib.Data.List.Nodup

namespace ClientGen

/-! ## Lists without repeats -/

section Repeats

variable {α : Type} [DecidableEq α]

theorem eraseDups_concat (l : List α) (a : α) :
    (l ++ [a]).eraseDups = if a ∈ l then l.eraseDups else l.eraseDups ++ [a] := by
  rw [List.eraseDups_append]
  by_cases h : a ∈ l
  · have hnone : [a].removeAll l = [] := by
      simp [List.removeAll, h]
    rw [if_pos h, hnone, List.eraseDups_nil, List.append_nil]
  · have hsome : [a].removeAll l = [a] := by
      simp [List.removeAll, h]
    rw [if_neg h, hsome]
    rfl

theorem nodup_eraseDups (l : List α) : l.eraseDups.Nodup := by
  induction l using List.reverseRecOn with
  | nil => exact List.nodup_nil
  | append_singleton l a ih =>
    rw [eraseDups_concat]
    split
    · exact ih
    · next h =>
      refine List.nodup_append.2 ⟨ih, List.nodup_singleton a, fun b hb c hc => ?_⟩
      rw [List.mem_singleton.1 hc]
      rintro rfl
      exact h (List.mem_eraseDups.1 hb)

end Repeats

/-! ## Commands of an aggregate -/

/-- The command of the operation that first takes it. -/
def CommandUse.command (use : CommandUse) : Command :=
  { name := (ModelName.ofReference use.schemaKey).name
    schemaKey := use.schemaKey
    operation := use.operation
    routes := [use.operation.path]
    multipart := use.multipart }

/-- The operations that take the command of a key. -/
def usesOf (key : String) (uses : List CommandUse) : List CommandUse :=
  uses.filter (·.schemaKey = key)

/-- A command that stands for all operations that take it. -/
structure CommandUse.Gathered (uses : List CommandUse) (c : Command) : Prop where
  name : c.name = (ModelName.ofReference c.schemaKey).name
  /-- The first of the operations. -/
  first : (usesOf c.schemaKey uses).head? = some ⟨c.schemaKey, c.multipart, c.operation⟩
  /-- The paths of all of them, each once. -/
  routes : c.routes = ((usesOf c.schemaKey uses).map (·.operation.path)).eraseDups

/-- The commands of operations: one for each key. -/
structure CommandUse.AreGathered (uses : List CommandUse) (cs : List Command) : Prop where
  keys : cs.map (·.schemaKey) = (uses.map (·.schemaKey)).eraseDups
  commands : ∀ c ∈ cs, Gathered uses c

section Commands

variable {use : CommandUse} {uses : List CommandUse} {cs : List Command} {c : Command} {key : String}

theorem usesOf_concat_of_eq (h : use.schemaKey = key) :
    usesOf key (uses ++ [use]) = usesOf key uses ++ [use] := by
  simp [usesOf, h]

theorem usesOf_concat_of_ne (h : use.schemaKey ≠ key) :
    usesOf key (uses ++ [use]) = usesOf key uses := by
  simp [usesOf, h]

@[simp] theorem Command.schemaKey_addRoute (c : Command) (route : String) :
    (c.addRoute route).schemaKey = c.schemaKey := by
  unfold addRoute
  split <;> rfl

theorem map_schemaKey_addCommand (use : CommandUse) (cs : List Command) :
    (addCommand use.operation use.schemaKey use.multipart cs).map (·.schemaKey)
      = if use.schemaKey ∈ cs.map (·.schemaKey) then cs.map (·.schemaKey)
        else cs.map (·.schemaKey) ++ [use.schemaKey] := by
  induction cs with
  | nil => rfl
  | cons first rest ih =>
    unfold addCommand
    by_cases h : first.schemaKey = use.schemaKey
    · rw [if_pos h, List.map_cons, List.map_cons, Command.schemaKey_addRoute, if_pos (by simp [h])]
    · rw [if_neg h, List.map_cons, ih, List.map_cons]
      have hhead : use.schemaKey ∈ first.schemaKey :: rest.map (·.schemaKey) ↔
          use.schemaKey ∈ rest.map (·.schemaKey) := by
        rw [List.mem_cons, or_iff_right (Ne.symm h)]
      by_cases hrest : use.schemaKey ∈ rest.map (·.schemaKey)
      · rw [if_pos hrest, if_pos (hhead.2 hrest)]
      · rw [if_neg hrest, if_neg (fun hm => hrest (hhead.1 hm)), List.cons_append]

/-- What a command is after one more operation: it is as it was, or has one more route, or
    is new. -/
theorem mem_addCommand (hnodup : (cs.map (·.schemaKey)).Nodup)
    (h : c ∈ addCommand use.operation use.schemaKey use.multipart cs) :
    (c ∈ cs ∧ use.schemaKey ≠ c.schemaKey) ∨
      (∃ c' ∈ cs, use.schemaKey = c'.schemaKey ∧ c = c'.addRoute use.operation.path) ∨
      (use.schemaKey ∉ cs.map (·.schemaKey) ∧ c = use.command) := by
  induction cs with
  | nil =>
    rw [addCommand, List.mem_singleton] at h
    exact .inr (.inr ⟨List.not_mem_nil, h⟩)
  | cons first rest ih =>
    rw [List.map_cons, List.nodup_cons] at hnodup
    unfold addCommand at h
    by_cases hfirst : first.schemaKey = use.schemaKey
    · rw [if_pos hfirst] at h
      rcases List.mem_cons.1 h with rfl | h
      · exact .inr (.inl ⟨first, List.mem_cons_self, hfirst.symm, rfl⟩)
      · -- keys are distinct, so no later command has this one
        refine .inl ⟨List.mem_cons_of_mem _ h, fun heq => hnodup.1 ?_⟩
        rw [hfirst, heq]
        exact List.mem_map_of_mem h
    · rw [if_neg hfirst] at h
      rcases List.mem_cons.1 h with rfl | h
      · exact .inl ⟨List.mem_cons_self, Ne.symm hfirst⟩
      · rcases ih hnodup.2 h with ⟨hc, hne⟩ | ⟨c', hc', heq, rfl⟩ | ⟨hnot, rfl⟩
        · exact .inl ⟨List.mem_cons_of_mem _ hc, hne⟩
        · exact .inr (.inl ⟨c', List.mem_cons_of_mem _ hc', heq, rfl⟩)
        · refine .inr (.inr ⟨?_, rfl⟩)
          rw [List.map_cons, List.mem_cons, not_or]
          exact ⟨Ne.symm hfirst, hnot⟩

namespace CommandUse

theorem AreGathered.nil : AreGathered [] [] where
  keys := rfl
  commands _ h := absurd h List.not_mem_nil

/-- A further operation that takes a command adds its path. -/
theorem Gathered.addRoute (h : Gathered uses c) (heq : use.schemaKey = c.schemaKey) :
    Gathered (uses ++ [use]) (c.addRoute use.operation.path) := by
  have hroutes : (c.addRoute use.operation.path).routes
      = ((usesOf c.schemaKey uses).map (·.operation.path) ++ [use.operation.path]).eraseDups := by
    rw [eraseDups_concat, ← h.routes]
    have hmem : use.operation.path ∈ (usesOf c.schemaKey uses).map (·.operation.path) ↔
        c.routes.contains use.operation.path = true := by
      rw [List.contains_iff_mem, h.routes, List.mem_eraseDups]
    unfold Command.addRoute
    simp only [hmem]
    split <;> rfl
  have hsame : (c.addRoute use.operation.path).name = c.name ∧
      (c.addRoute use.operation.path).multipart = c.multipart ∧
      (c.addRoute use.operation.path).operation = c.operation := by
    unfold Command.addRoute
    split <;> exact ⟨rfl, rfl, rfl⟩
  obtain ⟨hname, hmultipart, hoperation⟩ := hsame
  constructor
  · rw [hname, Command.schemaKey_addRoute, h.name]
  · rw [Command.schemaKey_addRoute, usesOf_concat_of_eq heq, List.head?_append, h.first, hmultipart,
      hoperation]
    rfl
  · rw [Command.schemaKey_addRoute, usesOf_concat_of_eq heq, List.map_append]
    exact hroutes

theorem AreGathered.add (h : AreGathered uses cs) (use : CommandUse) :
    AreGathered (uses ++ [use]) (addCommand use.operation use.schemaKey use.multipart cs) := by
  have hnodup : (cs.map (·.schemaKey)).Nodup := by
    rw [h.keys]
    exact nodup_eraseDups _
  constructor
  · rw [map_schemaKey_addCommand, h.keys, List.map_append, List.map_cons, List.map_nil,
      eraseDups_concat]
    simp only [List.mem_eraseDups]
  · intro c hc
    rcases mem_addCommand hnodup hc with ⟨hc, hne⟩ | ⟨c', hc', heq, rfl⟩ | ⟨hnew, rfl⟩
    · obtain ⟨hname, hfirst, hroutes⟩ := h.commands c hc
      rw [← usesOf_concat_of_ne hne] at hfirst hroutes
      exact ⟨hname, hfirst, hroutes⟩
    · exact (h.commands c' hc').addRoute heq
    · -- no earlier operation takes the command
      have hnone : usesOf use.schemaKey uses = [] := by
        rw [h.keys, List.mem_eraseDups] at hnew
        rw [usesOf, List.filter_eq_nil_iff]
        intro other hother heq
        exact hnew (List.mem_map.2 ⟨other, hother, of_decide_eq_true heq⟩)
      have honly : usesOf use.schemaKey (uses ++ [use]) = [use] := by
        rw [usesOf_concat_of_eq rfl, hnone, List.nil_append]
      refine ⟨rfl, ?_, ?_⟩
      · show (usesOf use.schemaKey (uses ++ [use])).head? = some use
        rw [honly]
        rfl
      · show [use.operation.path]
          = ((usesOf use.schemaKey (uses ++ [use])).map (·.operation.path)).eraseDups
        rw [honly]
        rfl

/-- A command is known by the operations that take it and its key. -/
theorem Gathered.eq {c' : Command} (h : Gathered uses c) (h' : Gathered uses c')
    (hkey : c.schemaKey = c'.schemaKey) : c = c' := by
  have hfirst : (usesOf c.schemaKey uses).head? = some ⟨c'.schemaKey, c'.multipart, c'.operation⟩ :=
    hkey ▸ h'.first
  rw [h.first, Option.some.injEq, CommandUse.mk.injEq] at hfirst
  obtain ⟨-, hmultipart, hoperation⟩ := hfirst
  have hname : c.name = c'.name := by rw [h.name, h'.name, hkey]
  have hroutes : c.routes = c'.routes := by rw [h.routes, h'.routes, hkey]
  cases c
  cases c'
  rw [Command.mk.injEq]
  exact ⟨hname, hkey, hoperation, hroutes, hmultipart⟩

theorem AreGathered.eq {cs' : List Command} (h : AreGathered uses cs) (h' : AreGathered uses cs') :
    cs = cs' := by
  have hkeys : cs.map (·.schemaKey) = cs'.map (·.schemaKey) := h.keys.trans h'.keys.symm
  have hlength : cs.length = cs'.length := by
    simpa using congrArg List.length hkeys
  apply List.ext_getElem hlength
  intro i hi hi'
  apply (h.commands _ (List.getElem_mem hi)).eq (h'.commands _ (List.getElem_mem hi'))
  have hkey := List.getElem_of_eq hkeys (i := i) (by rwa [List.length_map])
  rwa [List.getElem_map, List.getElem_map] at hkey

end CommandUse

end Commands

/-! ## What places are to a service -/

namespace Place

variable (context name tag : String)

/-- The record of a place. -/
def record? : Place → Option Skipped
  | .skipped record => some record
  | _ => none

/-- The query that a place is to an aggregate. -/
def queryOf? : Place → Option ResolvedOperation
  | .query c n op => if c = context ∧ n = name then some op else none
  | _ => none

/-- The command that a place is to an aggregate. -/
def useOf? : Place → Option CommandUse
  | .command c n use => if c = context ∧ n = name then some use else none
  | _ => none

/-- The operation that a place is to a tag. -/
def taggedOf? : Place → Option ResolvedOperation
  | .tagged t op => if t = tag then some op else none
  | _ => none

section Found

variable {context name tag : String} {places : List Place}

/-- What is found among places is what they are. -/
theorem mem_queries_iff {op : ResolvedOperation} :
    op ∈ places.filterMap (queryOf? context name) ↔ .query context name op ∈ places := by
  have hplace (p : Place) : p.queryOf? context name = some op ↔ p = .query context name op := by
    cases p <;> simp [queryOf?, and_assoc]
  simp only [List.mem_filterMap, hplace, exists_eq_right]

theorem mem_uses_iff {use : CommandUse} :
    use ∈ places.filterMap (useOf? context name) ↔ .command context name use ∈ places := by
  have hplace (p : Place) : p.useOf? context name = some use ↔ p = .command context name use := by
    cases p <;> simp [useOf?, and_assoc]
  simp only [List.mem_filterMap, hplace, exists_eq_right]

theorem mem_tagged_iff {op : ResolvedOperation} :
    op ∈ places.filterMap (taggedOf? tag) ↔ .tagged tag op ∈ places := by
  have hplace (p : Place) : p.taggedOf? tag = some op ↔ p = .tagged tag op := by
    cases p <;> simp [taggedOf?]
  simp only [List.mem_filterMap, hplace, exists_eq_right]

end Found

/-- Places that are nothing but a part of one aggregate. -/
structure Within (p : Place) : Prop where
  record : p.record? = none
  tagged : ∀ t, p.taggedOf? t = none
  query : ∀ c n, ¬(c = context ∧ n = name) → p.queryOf? c n = none
  use : ∀ c n, ¬(c = context ∧ n = name) → p.useOf? c n = none

variable {context name}

theorem within_query (op : ResolvedOperation) : (query context name op).Within context name where
  record := rfl
  tagged _ := rfl
  query _ _ h := if_neg fun heq => h ⟨heq.1.symm, heq.2.symm⟩
  use _ _ _ := rfl

theorem within_command (use : CommandUse) : (command context name use).Within context name where
  record := rfl
  tagged _ := rfl
  query _ _ _ := rfl
  use _ _ h := if_neg fun heq => h ⟨heq.1.symm, heq.2.symm⟩

theorem within_nowhere : nowhere.Within context name where
  record := rfl
  tagged _ := rfl
  query _ _ _ := rfl
  use _ _ _ := rfl

end Place

namespace Service

/-- The aggregate of a context and a name. -/
def aggregate? (s : Service) (context name : String) : Option Aggregate :=
  (s.contexts.get? context).bind (·.get? name)

/-- The queries of an aggregate, of which there are none before the aggregate is there. -/
def queriesOf (s : Service) (context name : String) : List ResolvedOperation :=
  (s.aggregate? context name).elim [] (·.queries)

def commandsOf (s : Service) (context name : String) : List Command :=
  (s.aggregate? context name).elim [] (·.commands)

def operationsOf (s : Service) (tag : String) : List ResolvedOperation :=
  (s.apiTags.get? tag).elim [] (·.operations)

/-- A service that holds exactly what a list of places says. -/
structure Holds (s : Service) (places : List Place) : Prop where
  records : s.skipped = places.filterMap Place.record?
  named : ∀ context name a, s.aggregate? context name = some a → a.context = context ∧ a.name = name
  tags : ∀ tag t, s.apiTags.get? tag = some t → t.tag.name = tag
  queries : ∀ context name, s.queriesOf context name = places.filterMap (Place.queryOf? context name)
  commands : ∀ context name,
    CommandUse.AreGathered (places.filterMap (Place.useOf? context name)) (s.commandsOf context name)
  operations : ∀ tag, s.operationsOf tag = places.filterMap (Place.taggedOf? tag)

variable {d : Document} {s : Service} {places new : List Place} {context name : String}

theorem aggregate?_alterAggregate (s : Service) (fresh : Aggregate) (change : Aggregate → Aggregate) :
    (s.alterAggregate fresh change).aggregate? context name
      = if context = fresh.context ∧ name = fresh.name then
          some (change ((s.aggregate? context name).getD fresh))
        else s.aggregate? context name := by
  unfold aggregate? alterAggregate
  rw [SortedMap.get?_alter]
  by_cases hcontext : context = fresh.context
  · subst hcontext
    rw [if_pos rfl, Option.bind_some, SortedMap.get?_alter]
    -- a context that is new holds no aggregates yet
    have hold (n : String) : ((s.contexts.get? fresh.context).getD {}).get? n
        = (s.contexts.get? fresh.context).bind (·.get? n) := by
      cases s.contexts.get? fresh.context <;> rfl
    by_cases hname : name = fresh.name
    · subst hname
      rw [if_pos rfl, if_pos ⟨rfl, rfl⟩, hold]
    · rw [if_neg hname, if_neg (fun h => hname h.2), hold]
  · rw [if_neg hcontext, if_neg (fun h => hcontext h.1)]

theorem Holds.nil : Holds {} [] where
  records := rfl
  named _ _ _ h := by cases h
  tags _ _ h := by cases h
  queries _ _ := rfl
  commands _ _ := .nil
  operations _ := rfl

/-- A change of one aggregate. -/
theorem Holds.alterAggregate (h : s.Holds places) {fresh : Aggregate}
    {change : Aggregate → Aggregate} (hqueries : fresh.queries = []) (hcommands : fresh.commands = [])
    (hname : ∀ a, (change a).context = a.context ∧ (change a).name = a.name)
    (hquery : ∀ a, (change a).queries
      = a.queries ++ new.filterMap (Place.queryOf? fresh.context fresh.name))
    (hcommand : ∀ a uses, CommandUse.AreGathered uses a.commands → CommandUse.AreGathered
      (uses ++ new.filterMap (Place.useOf? fresh.context fresh.name)) (change a).commands)
    (hwithin : ∀ p ∈ new, p.Within fresh.context fresh.name) :
    (s.alterAggregate fresh change).Holds (places ++ new) := by
  constructor
  case records =>
    rw [List.filterMap_append, List.filterMap_eq_nil_iff.2 fun p hp => (hwithin p hp).record,
      List.append_nil]
    exact h.records
  case named =>
    intro context name a ha
    rw [aggregate?_alterAggregate] at ha
    split at ha
    · next heq =>
      obtain ⟨rfl, rfl⟩ := heq
      rw [← Option.some.inj ha]
      obtain ⟨hc, hn⟩ := hname ((s.aggregate? fresh.context fresh.name).getD fresh)
      cases hfound : s.aggregate? fresh.context fresh.name with
      | none =>
        rw [hfound] at hc hn
        exact ⟨hc, hn⟩
      | some found =>
        rw [hfound] at hc hn
        obtain ⟨hc', hn'⟩ := h.named _ _ found hfound
        exact ⟨hc.trans hc', hn.trans hn'⟩
    · exact h.named context name a ha
  case tags => exact h.tags
  case queries =>
    intro context name
    rw [List.filterMap_append, ← h.queries, queriesOf, queriesOf, aggregate?_alterAggregate]
    split
    · next heq =>
      obtain ⟨rfl, rfl⟩ := heq
      rw [Option.elim_some, hquery]
      cases s.aggregate? fresh.context fresh.name with
      | none => rw [Option.getD_none, hqueries, Option.elim_none]
      | some found => rw [Option.getD_some, Option.elim_some]
    · next hne =>
      rw [List.filterMap_eq_nil_iff.2 fun p hp => (hwithin p hp).query context name hne,
        List.append_nil]
  case commands =>
    intro context name
    have hgathered := h.commands context name
    rw [List.filterMap_append, commandsOf, aggregate?_alterAggregate]
    rw [commandsOf] at hgathered
    split
    · next heq =>
      obtain ⟨rfl, rfl⟩ := heq
      rw [Option.elim_some]
      apply hcommand
      cases hfound : s.aggregate? fresh.context fresh.name with
      | none =>
        rw [hfound, Option.elim_none] at hgathered
        rw [Option.getD_none, hcommands]
        exact hgathered
      | some found =>
        rw [hfound, Option.elim_some] at hgathered
        exact hgathered
    · next hne =>
      rw [List.filterMap_eq_nil_iff.2 fun p hp => (hwithin p hp).use context name hne,
        List.append_nil]
      exact hgathered
  case operations =>
    intro tag
    rw [List.filterMap_append, List.filterMap_eq_nil_iff.2 fun p hp => (hwithin p hp).tagged tag,
      List.append_nil]
    exact h.operations tag

theorem filterMap_concat {α : Type} (f : Place → Option α) (p : Place) :
    (places ++ [p]).filterMap f = places.filterMap f ++ (f p).toList := by
  rw [List.filterMap_append]
  cases h : f p with
  | none => rw [List.filterMap_cons_none h]; rfl
  | some b => rw [List.filterMap_cons_some h]; rfl

/-- A change that is no part of any aggregate. -/
theorem Holds.concat {s' : Service} {p : Place} (h : s.Holds places)
    (hcontexts : s'.contexts = s.contexts)
    (hquery : ∀ context name, p.queryOf? context name = none)
    (huse : ∀ context name, p.useOf? context name = none)
    (hrecords : s'.skipped = s.skipped ++ p.record?.toList)
    (htags : ∀ tag t, s'.apiTags.get? tag = some t → t.tag.name = tag)
    (hoperations : ∀ tag, s'.operationsOf tag = s.operationsOf tag ++ (p.taggedOf? tag).toList) :
    s'.Holds (places ++ [p]) := by
  have haggregate (context name : String) : s'.aggregate? context name = s.aggregate? context name := by
    rw [aggregate?, hcontexts, aggregate?]
  constructor
  case records => rw [filterMap_concat, hrecords, h.records]
  case named =>
    intro context name a ha
    rw [haggregate] at ha
    exact h.named context name a ha
  case tags => exact htags
  case queries =>
    intro context name
    rw [filterMap_concat, hquery, queriesOf, haggregate, ← h.queries]
    exact (List.append_nil _).symm
  case commands =>
    intro context name
    rw [filterMap_concat, huse, commandsOf, haggregate, Option.toList_none, List.append_nil]
    exact h.commands context name
  case operations =>
    intro tag
    rw [filterMap_concat, hoperations, h.operations]

/-- What is left out is recorded. -/
theorem Holds.skip (h : s.Holds places) (item : String) (err : GenerationError) :
    (s.skip item err).Holds (places ++ [.skipped (.because item err)]) :=
  h.concat rfl (fun _ _ => rfl) (fun _ _ => rfl) rfl h.tags fun _ => (List.append_nil _).symm

/-- What belongs nowhere leaves no trace. -/
theorem Holds.nowhere (h : s.Holds places) : s.Holds (places ++ [.nowhere]) :=
  h.concat rfl (fun _ _ => rfl) (fun _ _ => rfl) (List.append_nil _).symm h.tags
    fun _ => (List.append_nil _).symm

theorem name_tag (d : Document) (name : String) : (d.tag name).name = name := by
  unfold Document.tag
  cases h : d.tags.find? (·.name == name) with
  | none => rfl
  | some t => exact beq_iff_eq.1 (List.find?_some (p := fun t : Tag => t.name == name) h)

theorem operationsOf_addToTag (s : Service) (t : Tag) (op : ResolvedOperation) (tag : String) :
    (s.addToTag t op).operationsOf tag
      = s.operationsOf tag ++ if t.name = tag then [op] else [] := by
  unfold operationsOf addToTag
  rw [OrderedMap.get?_put]
  by_cases h : tag = t.name
  · subst h
    rw [if_pos rfl, if_pos rfl, Option.elim_some]
    cases s.apiTags.get? t.name <;> rfl
  · rw [if_neg h, if_neg (Ne.symm h), List.append_nil]

theorem Holds.addToTag (h : s.Holds places) (tag : String) (op : ResolvedOperation) :
    (s.addToTag (d.tag tag) op).Holds (places ++ [.tagged tag op]) := by
  have hcontexts : (s.addToTag (d.tag tag) op).contexts = s.contexts := rfl
  apply h.concat hcontexts (fun _ _ => rfl) (fun _ _ => rfl) (List.append_nil _).symm
  case htags =>
    intro key t ht
    unfold Service.addToTag at ht
    rw [OrderedMap.get?_put] at ht
    split at ht
    · next heq =>
      rw [← Option.some.inj ht, heq]
      cases hfound : s.apiTags.get? (d.tag tag).name with
      | none => rfl
      | some found => exact h.tags _ found hfound
    · exact h.tags key t ht
  case hoperations =>
    intro key
    rw [operationsOf_addToTag, name_tag, Place.taggedOf?]
    split <;> rfl

/-- An aggregate takes a place in by the role of its operation. -/
theorem Holds.add (h : s.Holds places) {fresh : Aggregate} (hqueries : fresh.queries = [])
    (hcommands : fresh.commands = []) (op : ResolvedOperation) (e : Endpoint) (role : Role) :
    (s.alterAggregate fresh (·.add op role)).Holds
      (places ++ [e.placeInRole fresh.context fresh.name op (.ok role)]) := by
  have hname (a : Aggregate) : (a.add op role).context = a.context ∧ (a.add op role).name = a.name := by
    cases role <;> exact ⟨rfl, rfl⟩
  apply h.alterAggregate hqueries hcommands hname
  case hquery =>
    intro a
    cases role with
    | query => simp [Endpoint.placeInRole, Place.queryOf?, Aggregate.add]
    | command schemaKey multipart => exact (List.append_nil _).symm
    | neither => exact (List.append_nil _).symm
  case hcommand =>
    intro a uses hgathered
    cases role with
    | query => exact (List.append_nil uses).symm ▸ hgathered
    -- the only role that changes commands
    | command schemaKey multipart =>
      have huse : [e.placeInRole fresh.context fresh.name op (.ok (.command schemaKey multipart))].filterMap
          (Place.useOf? fresh.context fresh.name) = [⟨schemaKey, multipart, op⟩] := by
        simp [Endpoint.placeInRole, Place.useOf?]
      rw [huse]
      exact hgathered.add ⟨schemaKey, multipart, op⟩
    | neither => exact (List.append_nil uses).symm ▸ hgathered
  case hwithin =>
    intro p hp
    rw [List.mem_singleton.1 hp]
    cases role with
    | query => exact Place.within_query op
    | command schemaKey multipart => exact Place.within_command _
    | neither => exact Place.within_nowhere

/-- An aggregate that is there, or is there from now on, without anything new in it. -/
theorem Holds.create (h : s.Holds places) {fresh : Aggregate} (hqueries : fresh.queries = [])
    (hcommands : fresh.commands = []) : (s.alterAggregate fresh id).Holds places := by
  have halter : (s.alterAggregate fresh id).Holds (places ++ []) := by
    apply h.alterAggregate hqueries hcommands (fun _ => ⟨rfl, rfl⟩)
    · exact fun a => (List.append_nil _).symm
    · exact fun a uses hgathered => (List.append_nil uses).symm ▸ hgathered
    · exact fun p hp => absurd hp List.not_mem_nil
  rw [List.append_nil] at halter
  exact halter

/-- One endpoint is taken in at its place. -/
theorem Holds.addEndpoint (h : s.Holds places) (e : Endpoint) :
    (s.addEndpoint d e).Holds (places ++ [e.place d]) := by
  unfold Service.addEndpoint
  cases hop : e.resolve d with
  | error err =>
    rw [Endpoint.place_of_error hop]
    exact h.skip e.label err
  | ok op =>
    rw [Endpoint.place_of_ok hop, Endpoint.placeOf]
    dsimp only
    cases haggregate : op.aggregate? d with
    | none =>
      dsimp only
      cases htags : op.tags.head? with
      | none => exact h.nowhere
      | some tag => exact h.addToTag tag op
    | some fresh =>
      obtain ⟨tag, context, name, -, rfl⟩ := ResolvedOperation.aggregate?_eq_some_iff.1 haggregate
      dsimp only
      cases hrole : op.role d with
      | ok role => exact h.add rfl rfl op e role
      | error err =>
        -- the aggregate is there from now on, though nothing of this operation is in it
        exact (h.create rfl rfl).skip e.label err

/-- By induction on the endpoints. -/
theorem Holds.foldl (h : s.Holds places) (endpoints : List Endpoint) :
    (endpoints.foldl (Service.addEndpoint d) s).Holds (places ++ endpoints.map (·.place d)) := by
  induction endpoints generalizing s places with
  | nil =>
    rw [List.map_nil, List.append_nil]
    exact h
  | cons e rest ih =>
    have hrest := ih (h.addEndpoint (d := d) e)
    rw [List.append_assoc] at hrest
    exact hrest

theorem mem_aggregates_iff_aggregate? {a : Aggregate} :
    a ∈ s.aggregates ↔ ∃ context name, s.aggregate? context name = some a := by
  simp only [mem_aggregates_iff, aggregate?, Option.bind_eq_some_iff]
  constructor
  · rintro ⟨context, found, hfound, name, ha⟩
    exact ⟨context, name, found, hfound, ha⟩
  · rintro ⟨context, name, found, hfound, ha⟩
    exact ⟨context, found, hfound, name, ha⟩

/-- An aggregate is what is found under its own context and name. -/
theorem Holds.aggregate?_of_mem (h : s.Holds places) {a : Aggregate} (ha : a ∈ s.aggregates) :
    s.aggregate? a.context a.name = some a := by
  obtain ⟨context, name, hfound⟩ := mem_aggregates_iff_aggregate?.1 ha
  obtain ⟨rfl, rfl⟩ := h.named context name a hfound
  exact hfound

/-- No two aggregates have both context and name in common. -/
theorem Holds.nodup_aggregates (h : s.Holds places) :
    (s.aggregates.map fun a => (a.context, a.name)).Nodup := by
  have hkeys : s.aggregates.map (fun a => (a.context, a.name))
      = s.contexts.entries.flatMap fun entry => entry.2.keys.map (entry.1, ·) := by
    rw [aggregates, SortedMap.values, List.flatMap_map, List.map_flatMap]
    apply List.flatMap_congr
    rintro ⟨context, found⟩ hcontext
    rw [SortedMap.values, SortedMap.keys, Entries.keys, List.map_map, List.map_map]
    apply List.map_congr_left
    rintro ⟨name, a⟩ hname
    have hfound : s.aggregate? context name = some a :=
      Option.bind_eq_some_iff.2
        ⟨found, SortedMap.get?_eq_some_iff.2 hcontext, SortedMap.get?_eq_some_iff.2 hname⟩
    obtain ⟨rfl, rfl⟩ := h.named context name a hfound
    rfl
  rw [hkeys, List.nodup_flatMap]
  constructor
  · intro entry _
    exact entry.2.sorted.nodup.map fun n n' heq => (Prod.mk.inj heq).2
  · -- pairs of two contexts differ in their first components
    apply List.Pairwise.imp _ (List.pairwise_map.1 s.contexts.sorted.nodup)
    intro entry entry' hne pair hpair hpair'
    obtain ⟨_, -, rfl⟩ := List.mem_map.1 hpair
    obtain ⟨_, -, heq⟩ := List.mem_map.1 hpair'
    exact hne (Prod.mk.inj heq).1.symm

theorem Holds.nodup_tags (h : s.Holds places) : (s.apiTags.values.map (·.tag.name)).Nodup := by
  have hkeys : s.apiTags.values.map (·.tag.name) = s.apiTags.keys := by
    rw [OrderedMap.values, OrderedMap.keys, Entries.keys, List.map_map]
    apply List.map_congr_left
    rintro ⟨tag, t⟩ ht
    exact h.tags tag t (OrderedMap.get?_eq_some_iff.2 ht)
  rw [hkeys]
  exact s.apiTags.nodup

theorem exists_of_mem_elim {α β : Type} {found? : Option α} {part : α → List β} {b : β}
    (h : b ∈ found?.elim [] part) : ∃ a, found? = some a := by
  cases found? with
  | none => exact absurd h List.not_mem_nil
  | some a => exact ⟨a, rfl⟩

/-- A query, a command and an operation of a tag have somewhere to be. -/
theorem Holds.exists_aggregate_of_query (h : s.Holds places) {op : ResolvedOperation}
    (hop : .query context name op ∈ places) : ∃ a, s.aggregate? context name = some a := by
  have hquery : op ∈ s.queriesOf context name := by
    rw [h.queries]
    exact Place.mem_queries_iff.2 hop
  exact exists_of_mem_elim hquery

theorem Holds.exists_aggregate_of_command (h : s.Holds places) {use : CommandUse}
    (huse : .command context name use ∈ places) : ∃ a, s.aggregate? context name = some a := by
  have hmem : use ∈ places.filterMap (Place.useOf? context name) := Place.mem_uses_iff.2 huse
  -- a command has the key of the operation
  have hkey : use.schemaKey ∈ (s.commandsOf context name).map (·.schemaKey) := by
    rw [(h.commands context name).keys, List.mem_eraseDups]
    exact List.mem_map_of_mem hmem
  obtain ⟨c, hc, -⟩ := List.mem_map.1 hkey
  exact exists_of_mem_elim hc

theorem Holds.exists_tag (h : s.Holds places) {tag : String} {op : ResolvedOperation}
    (hop : .tagged tag op ∈ places) : ∃ t ∈ s.apiTags.values, t.tag.name = tag := by
  have hoperation : op ∈ s.operationsOf tag := by
    rw [h.operations]
    exact Place.mem_tagged_iff.2 hop
  obtain ⟨t, ht⟩ := exists_of_mem_elim hoperation
  exact ⟨t, List.mem_map.2 ⟨(tag, t), OrderedMap.get?_eq_some_iff.1 ht, rfl⟩, h.tags tag t ht⟩

/-- The operations of a tag are those of its places. -/
theorem Holds.operations_of_mem (h : s.Holds places) {t : ApiTag} (ht : t ∈ s.apiTags.values) :
    t.operations = places.filterMap (Place.taggedOf? t.tag.name) := by
  obtain ⟨⟨tag, _⟩, hentry, rfl⟩ := List.mem_map.1 ht
  have hget : s.apiTags.get? tag = some _ := OrderedMap.get?_eq_some_iff.2 hentry
  rw [h.tags tag _ hget, ← h.operations, operationsOf, hget]
  rfl

end Service

/-! ## The partition -/

/-- The places of all operations, in document order. -/
def Document.places (d : Document) : List Place := d.endpoints.map (·.place d)

/-- A service in which every operation of a document is in its place and nowhere else. -/
structure Partition (d : Document) (s : Service) : Prop where
  /-- The operations that are parted are those which the paths of the document hold. -/
  listed : ∀ e : Endpoint, e ∈ d.endpoints ↔ d.HasOperation e
  /-- None of them is parted twice. -/
  once : (d.endpoints.map fun e => (e.method, e.path)).Nodup
  /-- Document order: that of the paths, and on one path that of the methods. -/
  ordered : d.endpoints.Pairwise (Endpoint.Before d)
  /-- There is one place for every operation. -/
  rule : ∀ (e : Endpoint) (p : Place), e.GoesTo d p ↔ e.place d = p
  unresolved : ∀ e : Endpoint, (∃ err, e.resolve d = .error err) ↔ e.Dangles d
  resolved : ∀ (e : Endpoint) (op : ResolvedOperation), e.resolve d = .ok op →
    op.path = e.path ∧ op.method = e.method ∧ op.tags = e.operation.tags
  /-- The queries of an aggregate are the operations that are placed there as such, in order. -/
  queries : ∀ a ∈ s.aggregates, a.queries = d.places.filterMap (Place.queryOf? a.context a.name)
  commands : ∀ a ∈ s.aggregates,
    CommandUse.AreGathered (d.places.filterMap (Place.useOf? a.context a.name)) a.commands
  operations : ∀ t ∈ s.apiTags.values,
    t.operations = d.places.filterMap (Place.taggedOf? t.tag.name)
  /-- The records of operations come first, and then those of events. -/
  records : s.skipped
    = d.places.filterMap Place.record? ++ s.aggregates.flatMap (·.skippedEvents d)
  aggregates : (s.aggregates.map fun a => (a.context, a.name)).Nodup
  tags : (s.apiTags.values.map (·.tag.name)).Nodup
  /-- Every place is there. -/
  query_home : ∀ context name op, .query context name op ∈ d.places →
    ∃ a ∈ s.aggregates, a.context = context ∧ a.name = name
  command_home : ∀ context name use, .command context name use ∈ d.places →
    ∃ a ∈ s.aggregates, a.context = context ∧ a.name = name
  tag_home : ∀ tag op, .tagged tag op ∈ d.places → ∃ t ∈ s.apiTags.values, t.tag.name = tag

theorem Document.parted_holds (d : Document) : d.parted.Holds d.places := by
  have hrun := Service.Holds.nil.foldl (d := d) d.endpoints
  rw [List.nil_append] at hrun
  exact hrun

/-- The schemas of an aggregate, which are found last, change no operation of it. -/
theorem Document.exists_parted_of_mem (d : Document) {a : Aggregate}
    (ha : a ∈ d.service.aggregates) :
    ∃ b, d.parted.aggregate? a.context a.name = some b ∧ a = b.withSchemas d := by
  rw [d.aggregates_service] at ha
  obtain ⟨b, hb, rfl⟩ := List.mem_map.1 ha
  exact ⟨b, d.parted_holds.aggregate?_of_mem hb, rfl⟩

theorem Document.queries_of_mem (d : Document) {a : Aggregate} (ha : a ∈ d.service.aggregates) :
    a.queries = d.places.filterMap (Place.queryOf? a.context a.name) := by
  obtain ⟨b, hb, rfl⟩ := d.exists_parted_of_mem ha
  rw [← d.parted_holds.queries, Service.queriesOf, hb]
  rfl

/-- The commands of an aggregate stand for the operations that are placed there as such. -/
theorem Document.areGathered_of_mem (d : Document) {a : Aggregate}
    (ha : a ∈ d.service.aggregates) :
    CommandUse.AreGathered (d.places.filterMap (Place.useOf? a.context a.name)) a.commands := by
  obtain ⟨b, hb, rfl⟩ := d.exists_parted_of_mem ha
  have hgathered := d.parted_holds.commands (b.withSchemas d).context (b.withSchemas d).name
  rw [Service.commandsOf, hb] at hgathered
  exact hgathered

/-- The operations of a document are parted by the rule: each is in one place, and every
    query, route of a command, operation of a tag and record stems from such an operation. -/
theorem service_partition (d : Document) : Partition d d.service := by
  have hparted := d.parted_holds
  have hhome : ∀ context name, (∃ b, d.parted.aggregate? context name = some b) →
      ∃ a ∈ d.service.aggregates, a.context = context ∧ a.name = name := by
    rintro context name ⟨b, hb⟩
    refine ⟨b.withSchemas d, ?_, hparted.named context name b hb⟩
    rw [d.aggregates_service]
    exact List.mem_map_of_mem (Service.mem_aggregates_iff_aggregate?.2 ⟨context, name, hb⟩)
  constructor
  case listed => exact fun e => Document.mem_endpoints_iff
  case once => exact d.nodup_endpoints
  case ordered => exact d.pairwise_endpoints
  case rule => exact fun e p => Endpoint.goesTo_iff
  case unresolved => exact fun e => Endpoint.exists_resolve_eq_error_iff
  case resolved => exact fun e op => Endpoint.eq_of_resolve
  case queries => exact fun a ha => d.queries_of_mem ha
  case commands => exact fun a ha => d.areGathered_of_mem ha
  case operations => exact fun t ht => hparted.operations_of_mem ht
  case records =>
    show d.parted.skipped ++ d.parted.aggregates.flatMap (·.skippedEvents d) = _
    rw [hparted.records, d.aggregates_service, List.flatMap_map]
    rfl
  case aggregates =>
    rw [d.aggregates_service, List.map_map]
    exact hparted.nodup_aggregates
  case tags => exact hparted.nodup_tags
  case query_home =>
    intro context name op hop
    exact hhome context name (hparted.exists_aggregate_of_query hop)
  case command_home =>
    intro context name use huse
    exact hhome context name (hparted.exists_aggregate_of_command huse)
  case tag_home => exact fun tag op hop => hparted.exists_tag hop

/-- Operations for every place.  Of an aggregate: a query, two that take one command, one whose
    body refers to a schema that is not there, and one without a body.  Besides: one of another
    tag, one with a parameter that is not there, and one without a tag. -/
def assortedDocument : Document :=
  let body (key : String) : Option (RefOr RequestBody) :=
    some (.item { content := .ofList [("application/json", ⟨some (.referenceTo key)⟩)] })
  let missing : RefOr Parameter := .reference "#/components/parameters/missing"
  let list : Operation := { tags := ["health", "example.order"], responses := .ofList [] }
  let create : Operation :=
    { tags := ["example.order"], requestBody := body "example.order.Create"
      responses := .ofList [] }
  { paths := .ofList
      [("/order", { operation? := fun
          | .get => some list
          | .post => some create
          | _ => none }),
       ("/order/import", .only .put create),
       ("/order/lost", .only .post { create with requestBody := body "example.order.Lost" }),
       ("/order/cancel", .only .post { create with requestBody := none }),
       ("/health", .only .get { tags := ["health"], responses := .ofList [] }),
       ("/broken", .only .get
         { tags := ["health"], parameters := [missing], responses := .ofList [] }),
       ("/untagged", .only .get { responses := .ofList [] })]
    components.schemas := .ofList [("example.order.Create", { type := some (.single "object") })] }

theorem service_partition_assorted :
    assortedDocument.endpoints.map (fun e => (e.method, e.path))
        = [(.get, "/order"), (.post, "/order"), (.put, "/order/import"), (.post, "/order/lost"),
          (.post, "/order/cancel"), (.get, "/health"), (.get, "/broken"), (.get, "/untagged")] ∧
      assortedDocument.service.skipped.map (·.item) = ["POST /order/lost", "GET /broken"] ∧
      (∃ a ∈ assortedDocument.service.aggregates, a.context = "example" ∧ a.name = "order" ∧
        a.queries.map (·.path) = ["/order"] ∧
        a.commands.map (·.schemaKey) = ["example.order.Create"] ∧
        ∀ c ∈ a.commands, c.routes = ["/order", "/order/import"]) ∧
      ∃ t ∈ assortedDocument.service.apiTags.values, t.tag.name = "health" ∧
        t.operations.map (·.path) = ["/health"] := by
  have hpartition := service_partition assortedDocument
  have hqueries : (assortedDocument.places.filterMap (Place.queryOf? "example" "order")).map (·.path)
      = ["/order"] := by
    decide +kernel
  have hhealth : (assortedDocument.places.filterMap (Place.taggedOf? "health")).map (·.path)
      = ["/health"] := by
    decide +kernel
  refine ⟨by decide +kernel, ?_, ?_, ?_⟩
  · rw [hpartition.records]
    decide +kernel
  · -- the query is in an aggregate, and that has the commands too
    obtain ⟨op, hop, -⟩ := List.mem_map.1 (hqueries ▸ List.mem_singleton_self "/order")
    obtain ⟨a, ha, hcontext, hname⟩ :=
      hpartition.query_home "example" "order" op (Place.mem_queries_iff.1 hop)
    have hcommands := hpartition.commands a ha
    rw [hcontext, hname] at hcommands
    have hkeys : a.commands.map (·.schemaKey) = ["example.order.Create"] := by
      rw [hcommands.keys]
      decide +kernel
    refine ⟨a, ha, hcontext, hname, ?_, hkeys, ?_⟩
    · rw [hpartition.queries a ha, hcontext, hname, hqueries]
    · intro c hc
      have hkey : c.schemaKey = "example.order.Create" :=
        List.mem_singleton.1 (hkeys ▸ List.mem_map_of_mem hc)
      rw [(hcommands.commands c hc).routes, hkey]
      decide +kernel
  · obtain ⟨op, hop, -⟩ := List.mem_map.1 (hhealth ▸ List.mem_singleton_self "/health")
    obtain ⟨t, ht, htag⟩ := hpartition.tag_home "health" op (Place.mem_tagged_iff.1 hop)
    refine ⟨t, ht, htag, ?_⟩
    rw [hpartition.operations t ht, htag, hhealth]

end ClientGen
