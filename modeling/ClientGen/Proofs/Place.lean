/-
  ClientGen.Proofs.Place

  Where an operation belongs.  `Endpoint.GoesTo` is the rule by which the
  operations of a document are parted, as a reader of tags, methods and bodies
  would put it; `goesTo_iff` shows that it sends every operation to one place,
  which can be computed.
-/
import ClientGen.Proofs.FilePath
import ClientGen.Proofs.Service

namespace ClientGen

/-! ## References that mean nothing -/

/-- Whether an item is a reference to a component that is not there. -/
def RefOr.Dangles {α : Type} (components : OrderedMap α) (start : String) (r : RefOr α) : Prop :=
  ∃ pointer, r = .reference pointer ∧ ∀ key, pointer = start ++ key → components.get? key = none

theorem RefOr.dangles_iff {α : Type} {components : OrderedMap α} {start : String} (r : RefOr α)
    (referrer : String) :
    r.Dangles components start ↔
      ∃ e, Document.resolveComponent components start r referrer = .error e := by
  unfold RefOr.Dangles Document.resolveComponent
  cases r with
  | item a => simp
  | reference pointer =>
    dsimp only
    cases h : (Text.afterStart? start pointer).bind components.get? with
    | some a =>
      simp only [reduceCtorEq, exists_false, iff_false]
      rintro ⟨_, heq, hnone⟩
      cases heq
      obtain ⟨key, hkey, ha⟩ := Option.bind_eq_some_iff.1 h
      rw [hnone key (Text.afterStart?_eq_some_iff.1 hkey)] at ha
      cases ha
    | none =>
      -- a pointer to elsewhere than the components fails as one to a missing component does
      refine ⟨fun _ => ⟨_, rfl⟩, fun _ => ⟨pointer, rfl, ?_⟩⟩
      rintro key rfl
      rw [Text.afterStart?_append, Option.bind_some] at h
      exact h

namespace Endpoint

variable {d : Document} {e : Endpoint} {op : ResolvedOperation}

/-- Whether a parameter, the body or a response of an endpoint refers to nothing. -/
def Dangles (e : Endpoint) (d : Document) : Prop :=
  (∃ p ∈ e.item.parameters ++ e.operation.parameters,
      p.Dangles d.components.parameters "#/components/parameters/") ∨
    (∃ body ∈ e.operation.requestBody,
      body.Dangles d.components.requestBodies "#/components/requestBodies/") ∨
    ∃ entry ∈ e.operation.responses.entries,
      entry.2.Dangles d.components.responses "#/components/responses/"

/-- An endpoint cannot be resolved just when one of its references dangles. -/
theorem exists_resolve_eq_error_iff : (∃ err, e.resolve d = .error err) ↔ e.Dangles d := by
  have hparameters : (∃ err, e.parameters d = .error err) ↔
      ∃ p ∈ e.item.parameters ++ e.operation.parameters,
        p.Dangles d.components.parameters "#/components/parameters/" := by
    simp only [RefOr.dangles_iff _ e.label]
    rw [parameters, bind_pure_comp, exists_map_eq_error_iff]
    exact exists_mapM_eq_error_iff
  have hbody : (∃ err, e.requestBody d = .error err) ↔ ∃ body ∈ e.operation.requestBody,
      body.Dangles d.components.requestBodies "#/components/requestBodies/" := by
    simp only [RefOr.dangles_iff _ e.label]
    unfold requestBody
    cases e.operation.requestBody with
    | none => simp
    | some body =>
      rw [exists_map_eq_error_iff]
      simp [Document.requestBody]
  have hresponses : (∃ err, e.operation.responses.traverse (d.response · e.label) = .error err) ↔
      ∃ entry ∈ e.operation.responses.entries,
        entry.2.Dangles d.components.responses "#/components/responses/" := by
    simp only [RefOr.dangles_iff _ e.label]
    rw [OrderedMap.traverse, exists_map_eq_error_iff, exists_mapM_eq_error_iff]
    simp only [exists_map_eq_error_iff, Document.response]
  -- no step depends on what the others gave, so one failing is enough
  rw [Dangles, ← hparameters, ← hbody, ← hresponses, resolve]
  apply exists_bind_eq_error_iff
  intro parameters
  apply exists_bind_eq_error_iff
  intro body
  rw [bind_pure_comp]
  exact exists_map_eq_error_iff

/-- An operation is that of its endpoint. -/
theorem eq_of_resolve (h : e.resolve d = .ok op) :
    op.path = e.path ∧ op.method = e.method ∧ op.tags = e.operation.tags := by
  obtain ⟨parameters, -, h⟩ := bind_eq_ok_iff.1 h
  obtain ⟨body, -, h⟩ := bind_eq_ok_iff.1 h
  obtain ⟨responses, -, h⟩ := bind_eq_ok_iff.1 h
  cases h
  exact ⟨rfl, rfl, rfl⟩

end Endpoint

/-! ## Tags of aggregates -/

/-- Whether a tag names an aggregate: it is made of a context and a name with a dot between
    them, and the context is the alias when there is one. -/
structure Document.IsAggregateTag (d : Document) (tag context name : String) : Prop where
  text : tag = context ++ "." ++ name
  context_ne : context ≠ ""
  name_ne : name ≠ ""
  context_dot : '.' ∉ context.toList
  name_dot : '.' ∉ name.toList
  own : ∀ name ∈ d.alias?, name = context

variable {d : Document}

/-- Two texts without dots are what the dot between them parts. -/
theorem splitOn_dot_eq_pair_iff {tag context name : String} :
    Text.splitOn (· == '.') tag = [context, name] ↔
      tag = context ++ "." ++ name ∧ '.' ∉ context.toList ∧ '.' ∉ name.toList := by
  have htext : (context ++ "." ++ name).toList = context.toList ++ '.' :: name.toList := by
    rw [String.toList_append, String.toList_append, List.append_assoc]
    rfl
  constructor
  · intro h
    -- no piece holds the character that it was cut at
    have hnot : ∀ s ∈ [context, name], '.' ∉ s.toList := by
      intro s hs hdot
      rw [← h] at hs
      have hno := Text.splitOn_all_not s hs '.' hdot
      cases hno
    refine ⟨?_, hnot context List.mem_cons_self, hnot name (by simp)⟩
    have hpieces : Text.pieces (· == '.') tag.toList = [context.toList, name.toList] := by
      have hmap := congrArg (List.map String.toList) h
      rw [Text.splitOn, List.map_map] at hmap
      simpa [Function.comp_def] using hmap
    rw [← String.toList_inj, htext, ← Text.intercalate_pieces '.' tag.toList, hpieces,
      List.intercalate_cons_cons, List.intercalate_singleton, List.append_assoc]
    rfl
  · rintro ⟨rfl, hcontext, hname⟩
    have hnot {s : String} (h : '.' ∉ s.toList) : ∀ c ∈ s.toList, (c == '.') = false := by
      intro c hc
      rw [beq_eq_false_iff_ne]
      rintro rfl
      exact h hc
    rw [Text.splitOn, htext, Text.pieces_append_cons (by decide),
      Text.pieces_of_all_not (hnot hcontext), Text.pieces_of_all_not (hnot hname)]
    simp

theorem Document.aggregateTag?_eq_some_iff {tag context name : String} :
    d.aggregateTag? tag = some (context, name) ↔ d.IsAggregateTag tag context name := by
  have hsplit := @splitOn_dot_eq_pair_iff tag context name
  unfold aggregateTag?
  constructor
  · intro h
    split at h
    · next first second heq =>
      split at h
      · cases h
      · next hfull =>
        split at h
        · next halias =>
          cases h
          obtain ⟨htext, hcontext, hname⟩ := hsplit.1 heq
          simp only [Bool.or_eq_true, String.isEmpty_iff, not_or] at hfull
          refine ⟨htext, hfull.1, hfull.2, hcontext, hname, fun own hown => ?_⟩
          rw [Option.mem_def.1 hown] at halias
          simpa using halias
        · cases h
    · cases h
  · intro h
    have heq := hsplit.2 ⟨h.text, h.context_dot, h.name_dot⟩
    have halias : d.alias?.all (· == context) = true := by
      cases halias : d.alias? with
      | none => rfl
      | some own =>
        rw [h.own own halias]
        simp
    rw [heq]
    simp [h.context_ne, h.name_ne, halias]

theorem Document.aggregateTag?_eq_none_iff {tag : String} :
    d.aggregateTag? tag = none ↔ ∀ context name, ¬d.IsAggregateTag tag context name := by
  rw [Option.eq_none_iff_forall_ne_some, Prod.forall]
  simp only [ne_eq, aggregateTag?_eq_some_iff]

namespace ResolvedOperation

variable {op : ResolvedOperation} {tag context name pointer : String} {multipart : Bool}

/-- The first tag of an operation that names an aggregate, and what it names. -/
structure FirstAggregate (op : ResolvedOperation) (d : Document) (tag context name : String) :
    Prop where
  first : ∃ before after, op.tags = before ++ tag :: after ∧
    ∀ other ∈ before, ∀ context name, ¬d.IsAggregateTag other context name
  names : d.IsAggregateTag tag context name

theorem aggregate?_eq_some_iff {a : Aggregate} :
    op.aggregate? d = some a ↔
      ∃ tag context name, op.FirstAggregate d tag context name ∧
        a = { context, name, tag := d.tag tag } := by
  rw [aggregate?, List.findSome?_eq_some_iff]
  simp only [Option.map_eq_some_iff, Option.map_eq_none_iff, Prod.exists,
    Document.aggregateTag?_eq_some_iff, Document.aggregateTag?_eq_none_iff]
  constructor
  · rintro ⟨before, tag, after, htags, ⟨context, name, hnames, rfl⟩, hbefore⟩
    exact ⟨tag, context, name, ⟨⟨before, after, htags, hbefore⟩, hnames⟩, rfl⟩
  · rintro ⟨tag, context, name, ⟨⟨before, after, htags, hbefore⟩, hnames⟩, rfl⟩
    exact ⟨before, tag, after, htags, ⟨context, name, hnames, rfl⟩, hbefore⟩

theorem aggregate?_eq_none_iff :
    op.aggregate? d = none ↔
      ∀ tag ∈ op.tags, ∀ context name, ¬d.IsAggregateTag tag context name := by
  rw [aggregate?, List.findSome?_eq_none_iff]
  simp only [Option.map_eq_none_iff, Document.aggregateTag?_eq_none_iff]

/-! ## Bodies of commands -/

/-- Whether the content of a body refers to a schema, as a form or as JSON. -/
structure RefersTo (entry : String × MediaType) (pointer : String) : Prop where
  type : entry.1 = multipartType ∨ isJsonType entry.1 = true
  schema : ∃ s, entry.2.schema = some s ∧ s.reference = some pointer

/-- The command that an operation takes: the first content of its body that refers to a schema,
    if the operation writes.  An operation that does not write has no command, whatever its
    body is. -/
structure TakesCommand (op : ResolvedOperation) (pointer : String) (multipart : Bool) : Prop where
  writes : op.method.isWrite = true
  body : ∃ body before entry after, op.requestBody = some body ∧
    body.content.entries = before ++ entry :: after ∧
    (∀ other ∈ before, ∀ pointer, ¬RefersTo other pointer) ∧ RefersTo entry pointer ∧
    multipart = decide (entry.1 = multipartType)

/-- The reference in the content of a body, and whether it is that of a form. -/
def contentReference? (entry : String × MediaType) : Option (String × Bool) :=
  if entry.1 == multipartType || isJsonType entry.1 then
    (entry.2.schema.bind (·.reference)).map (·, entry.1 == multipartType)
  else none

theorem contentReference?_eq_some_iff {entry : String × MediaType} :
    contentReference? entry = some (pointer, multipart) ↔
      RefersTo entry pointer ∧ multipart = decide (entry.1 = multipartType) := by
  unfold contentReference?
  by_cases htype : (entry.1 == multipartType || isJsonType entry.1) = true
  · rw [if_pos htype]
    simp only [Option.map_eq_some_iff, Option.bind_eq_some_iff, Prod.mk.injEq]
    simp only [Bool.or_eq_true, beq_iff_eq] at htype
    constructor
    · rintro ⟨_, ⟨s, hs, hpointer⟩, rfl, rfl⟩
      exact ⟨⟨htype, s, hs, hpointer⟩, rfl⟩
    · rintro ⟨⟨-, s, hs, hpointer⟩, rfl⟩
      exact ⟨pointer, ⟨s, hs, hpointer⟩, rfl, rfl⟩
  · rw [if_neg htype]
    simp only [Bool.or_eq_true, beq_iff_eq] at htype
    constructor
    · intro h
      cases h
    · rintro ⟨h, -⟩
      exact absurd h.type htype

theorem contentReference?_eq_none_iff {entry : String × MediaType} :
    contentReference? entry = none ↔ ∀ pointer, ¬RefersTo entry pointer := by
  rw [Option.eq_none_iff_forall_ne_some, Prod.forall]
  simp only [ne_eq, contentReference?_eq_some_iff, not_and]
  constructor
  · exact fun h pointer hrefers => h pointer _ hrefers rfl
  · exact fun h pointer _ hrefers => absurd hrefers (h pointer)

theorem commandReference?_eq_some_iff :
    op.commandReference? = some (pointer, multipart) ↔ op.TakesCommand pointer multipart := by
  have hcontent : op.commandReference?
      = if op.method.isWrite then
          op.requestBody.bind fun body => body.content.entries.findSome? contentReference?
        else none := rfl
  rw [hcontent]
  by_cases hwrites : op.method.isWrite = true
  · rw [if_pos hwrites]
    simp only [Option.bind_eq_some_iff, List.findSome?_eq_some_iff, contentReference?_eq_some_iff,
      contentReference?_eq_none_iff]
    constructor
    · rintro ⟨body, hbody, before, entry, after, hentries, ⟨hrefers, hmultipart⟩, hbefore⟩
      exact ⟨hwrites, body, before, entry, after, hbody, hentries, hbefore, hrefers, hmultipart⟩
    · rintro ⟨-, body, before, entry, after, hbody, hentries, hbefore, hrefers, hmultipart⟩
      exact ⟨body, hbody, before, entry, after, hentries, ⟨hrefers, hmultipart⟩, hbefore⟩
  · rw [if_neg hwrites]
    constructor
    · intro h
      cases h
    · exact fun h => absurd h.writes hwrites

theorem commandReference?_eq_none_iff :
    op.commandReference? = none ↔ ∀ pointer multipart, ¬op.TakesCommand pointer multipart := by
  rw [Option.eq_none_iff_forall_ne_some, Prod.forall]
  simp only [ne_eq, commandReference?_eq_some_iff]

end ResolvedOperation

/-! ## Places -/

/-- An operation that takes a command, with the key of its body. -/
structure CommandUse where
  schemaKey : String
  multipart : Bool
  operation : ResolvedOperation

/-- Where an operation can end. -/
inductive Place where
  | skipped (record : Skipped)
  | query (context name : String) (op : ResolvedOperation)
  | command (context name : String) (use : CommandUse)
  | tagged (tag : String) (op : ResolvedOperation)
  | nowhere

namespace Endpoint

/-- The rule by which operations are parted. -/
inductive GoesTo (d : Document) (e : Endpoint) : Place → Prop
  /-- A parameter, the body or a response refers to nothing. -/
  | unresolved {err : GenerationError} : e.resolve d = .error err →
      GoesTo d e (.skipped (.because e.label err))
  | query {op : ResolvedOperation} {tag context name : String} : e.resolve d = .ok op →
      op.FirstAggregate d tag context name → op.isQuery = true →
      GoesTo d e (.query context name op)
  /-- The command refers to nothing. -/
  | dangling {op : ResolvedOperation} {tag context name pointer : String} {multipart : Bool}
      {err : GenerationError} : e.resolve d = .ok op → op.FirstAggregate d tag context name →
      op.isQuery = false → op.TakesCommand pointer multipart →
      d.resolveSchema pointer op.identifier = .error err →
      GoesTo d e (.skipped (.because e.label err))
  | command {op : ResolvedOperation} {tag context name pointer : String} {multipart : Bool}
      {target : String × Schema} : e.resolve d = .ok op → op.FirstAggregate d tag context name →
      op.isQuery = false → op.TakesCommand pointer multipart →
      d.resolveSchema pointer op.identifier = .ok target →
      GoesTo d e (.command context name ⟨target.1, multipart, op⟩)
  /-- An operation of an aggregate that is no query and takes no command. -/
  | idle {op : ResolvedOperation} {tag context name : String} : e.resolve d = .ok op →
      op.FirstAggregate d tag context name → op.isQuery = false →
      (∀ pointer multipart, ¬op.TakesCommand pointer multipart) → GoesTo d e .nowhere
  | tagged {op : ResolvedOperation} {tag : String} {rest : List String} : e.resolve d = .ok op →
      (∀ tag ∈ op.tags, ∀ context name, ¬d.IsAggregateTag tag context name) →
      op.tags = tag :: rest → GoesTo d e (.tagged tag op)
  | untagged {op : ResolvedOperation} : e.resolve d = .ok op → op.tags = [] → GoesTo d e .nowhere

/-- The place of an operation of an aggregate, by its role there. -/
def placeInRole (e : Endpoint) (context name : String) (op : ResolvedOperation) :
    Except GenerationError Role → Place
  | .ok .query => .query context name op
  | .ok (.command schemaKey multipart) => .command context name ⟨schemaKey, multipart, op⟩
  | .ok .neither => .nowhere
  | .error err => .skipped (.because e.label err)

/-- The place of a resolved operation. -/
def placeOf (d : Document) (e : Endpoint) (op : ResolvedOperation) : Place :=
  match op.aggregate? d with
  | some a => e.placeInRole a.context a.name op (op.role d)
  | none => op.tags.head?.elim .nowhere (.tagged · op)

/-- The place of an endpoint's operation. -/
def place (d : Document) (e : Endpoint) : Place :=
  match e.resolve d with
  | .error err => .skipped (.because e.label err)
  | .ok op => placeOf d e op

variable {e : Endpoint} {op : ResolvedOperation} {p : Place}

theorem place_of_error {err : GenerationError} (h : e.resolve d = .error err) :
    e.place d = .skipped (.because e.label err) := by
  rw [place, h]

theorem place_of_ok (h : e.resolve d = .ok op) : e.place d = e.placeOf d op := by
  rw [place, h]

theorem placeOf_of_first {tag context name : String} (h : op.FirstAggregate d tag context name) :
    e.placeOf d op = e.placeInRole context name op (op.role d) := by
  have haggregate := ResolvedOperation.aggregate?_eq_some_iff.2 ⟨tag, context, name, h, rfl⟩
  rw [placeOf, haggregate]

theorem role_of_isQuery (h : op.isQuery = true) : op.role d = .ok .query := by
  rw [ResolvedOperation.role, if_pos h]

theorem role_of_takesCommand {pointer : String} {multipart : Bool} (hquery : op.isQuery = false)
    (h : op.TakesCommand pointer multipart) :
    op.role d = (fun target => Role.command target.1 multipart)
      <$> d.resolveSchema pointer op.identifier := by
  have hreference := ResolvedOperation.commandReference?_eq_some_iff.2 h
  simp only [ResolvedOperation.role, hquery, hreference, Bool.false_eq_true, if_false]

theorem role_of_idle (hquery : op.isQuery = false)
    (h : ∀ pointer multipart, ¬op.TakesCommand pointer multipart) : op.role d = .ok .neither := by
  have hreference := ResolvedOperation.commandReference?_eq_none_iff.2 h
  simp only [ResolvedOperation.role, hquery, hreference, Bool.false_eq_true, if_false]

/-- The rule leaves no choice. -/
theorem GoesTo.place_eq (h : e.GoesTo d p) : e.place d = p := by
  cases h with
  | unresolved herror => exact place_of_error herror
  | query hop hfirst hquery =>
    rw [place_of_ok hop, placeOf_of_first hfirst, role_of_isQuery hquery]
    rfl
  | dangling hop hfirst hquery htakes herror =>
    rw [place_of_ok hop, placeOf_of_first hfirst, role_of_takesCommand hquery htakes, herror]
    rfl
  | command hop hfirst hquery htakes htarget =>
    rw [place_of_ok hop, placeOf_of_first hfirst, role_of_takesCommand hquery htakes, htarget]
    rfl
  | idle hop hfirst hquery hidle =>
    rw [place_of_ok hop, placeOf_of_first hfirst, role_of_idle hquery hidle]
    rfl
  | tagged hop hnone htags =>
    rw [place_of_ok hop, placeOf, ResolvedOperation.aggregate?_eq_none_iff.2 hnone, htags]
    rfl
  | @untagged op hop htags =>
    have haggregate : op.aggregate? d = none := by
      rw [ResolvedOperation.aggregate?, htags]
      rfl
    rw [place_of_ok hop, placeOf, haggregate, htags]
    rfl

/-- The rule has a place for every operation. -/
theorem exists_goesTo (d : Document) (e : Endpoint) : ∃ p, e.GoesTo d p := by
  cases hop : e.resolve d with
  | error err => exact ⟨_, .unresolved hop⟩
  | ok op =>
    cases haggregate : op.aggregate? d with
    | some a =>
      obtain ⟨tag, context, name, hfirst, -⟩ := ResolvedOperation.aggregate?_eq_some_iff.1 haggregate
      cases hquery : op.isQuery with
      | true => exact ⟨_, .query hop hfirst hquery⟩
      | false =>
        cases htakes : op.commandReference? with
        | none =>
          exact ⟨_, .idle hop hfirst hquery (ResolvedOperation.commandReference?_eq_none_iff.1 htakes)⟩
        | some reference =>
          have htakes := ResolvedOperation.commandReference?_eq_some_iff.1 htakes
          cases htarget : d.resolveSchema reference.1 op.identifier with
          | error err => exact ⟨_, .dangling hop hfirst hquery htakes htarget⟩
          | ok target => exact ⟨_, .command hop hfirst hquery htakes htarget⟩
    | none =>
      cases htags : op.tags with
      | nil => exact ⟨_, .untagged hop htags⟩
      | cons tag rest =>
        exact ⟨_, .tagged hop (ResolvedOperation.aggregate?_eq_none_iff.1 haggregate) htags⟩

theorem goesTo_iff : e.GoesTo d p ↔ e.place d = p := by
  constructor
  · exact fun h => h.place_eq
  · rintro rfl
    obtain ⟨q, hq⟩ := exists_goesTo d e
    rw [hq.place_eq]
    exact hq

end Endpoint

end ClientGen
