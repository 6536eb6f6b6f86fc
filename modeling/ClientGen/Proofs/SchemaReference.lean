/-
  ClientGen.Proofs.SchemaReference

  Models behind schemas.  A type that is made of a schema is made of the schemas
  nested in it, and whatever model one of them refers to is noted on the way, unless
  the whole fails.  One lemma for each builder, up to the methods of the three kinds
  of clients.
-/
import ClientGen.Proofs.CommandRoute
import ClientGen.Proofs.ReferencedImport

namespace ClientGen

open TypeScript

/-! ## References of schemas -/

namespace Schema

/-- Whether the type of a schema is made with what a pointer refers to. -/
inductive RefersTo : Schema → String → Prop where
  | reference {s : Schema} {pointer : String} (h : s.kind = .reference pointer) : RefersTo s pointer
  | nested {s inner : Schema} {pointer : String} (hinner : inner ∈ s.nested)
      (h : RefersTo inner pointer) : RefersTo s pointer

/-- A reference refers to its component only. -/
theorem eq_of_refersTo_referenceTo {key pointer : String}
    (h : (referenceTo key).RefersTo pointer) : pointer = schemaPointerStart ++ key := by
  have hkind : (referenceTo key).kind = .reference (schemaPointerStart ++ key) := rfl
  cases h with
  | reference h =>
    rw [hkind, SchemaKind.reference.injEq] at h
    exact h.symm
  | nested hinner _ =>
    rw [nested, hkind] at hinner
    exact absurd hinner List.not_mem_nil

end Schema

/-- Whether an import is that of the model to which a pointer leads. -/
def TypeScript.Import.IsModelAt (d : Document) (pointer : String) (i : Import) : Prop :=
  ∃ key target, schemaKey? pointer = some key ∧ d.schema? key = some target ∧
    i = .model (.ofReference key)

section Types

variable {d : Document} {referrer pointer : String} {s : Schema}

theorem referenceType_notes (d : Document) (referrer pointer : String) :
    (referenceType d referrer pointer).Notes (Import.IsModelAt d pointer) := by
  unfold referenceType
  apply Traced.Notes.bind_right
  rintro ⟨key, target⟩ h
  obtain ⟨hkey, htarget⟩ := Document.resolveSchema_eq_ok_iff.1 h
  exact (Traced.Notes.note ⟨key, target, hkey, htarget, rfl⟩).bind_left

theorem typeOr_notes {N : Import → Prop} {type : Schema → Importing String} {s? : Option Schema}
    (hs : s ∈ s?) (h : (type s).Notes N) : (typeOr type s?).Notes N := by
  cases hs
  exact h

/-- A schema refers to what a node of its tree refers to. -/
theorem Schema.RefersTo.exists_node (h : s.RefersTo pointer) :
    ∃ n ∈ s.nodes, n.schema.kind = .reference pointer := by
  induction h with
  | @reference s pointer hkind => exact ⟨⟨0, s⟩, s.self_mem_nodes, hkind⟩
  | @nested s inner pointer hinner _ ih =>
    obtain ⟨n, hn, hkind⟩ := ih
    exact ⟨n.below, Node.below_mem_nodes hinner hn, hkind⟩

theorem typeOf_notes (h : s.RefersTo pointer) :
    (typeOf d referrer s).Notes (Import.IsModelAt d pointer) := by
  intro type htype
  obtain ⟨n, hn, hkind⟩ := h.exists_node
  obtain ⟨key, target, hkey, htarget⟩ :=
    (exists_type_iff.1 ⟨type, htype⟩ n hn).reference pointer hkind
  have hnode : n.key? = some key := by
    rw [Node.key?, hkind]
    exact hkey
  rw [notes_typeOf_of_ok htype]
  exact ⟨.ofKey key, List.mem_map_of_mem (List.mem_filterMap.2 ⟨n, hn, hnode⟩),
    key, target, hkey, htarget, rfl⟩

end Types

/-! ## Schemas of a method -/

/-- The first schema among the streamed contents of a response, or among the others. -/
def Response.schema? (r : Response) (streams : Bool) : Option Schema :=
  (r.content.entries.find? fun media =>
    Text.startsWith eventStreamType media.1 == streams && media.2.schema.isSome).bind (·.2.schema)

namespace ResolvedOperation

variable (op : ResolvedOperation)

/-- The schemas of which the types of an operation's response of success are made. -/
def responseSchemas : List Schema :=
  op.successResponse?.elim [] fun r => (r.schema? true).toList ++ (r.schema? false).toList

/-- The schema of which the type of an operation's body is made. -/
def bodySchema? : Option Schema :=
  op.requestBody.bind fun b => if b.content.contains multipartType then none else b.schema?

/-- The schemas of which the types of a method's arguments are made, when an operation is reached
    at a route. -/
def argumentSchemas (route : String) (ignored : List String) : List Schema :=
  ((Text.placeholders route).filter (!ignored.contains ·)).filterMap op.pathSchema?
    ++ (op.parametersIn .query).filterMap (·.schema)

/-- The schemas of which the types in the methods of an operation are made. -/
def methodSchemas (ignored : List String) : List Schema :=
  op.responseSchemas ++ op.bodySchema?.toList ++ op.argumentSchemas op.path ignored

end ResolvedOperation

/-- The schemas of which the types in the methods of a command are made. -/
def Command.methodSchemas (c : Command) (attribution : Attribution) (ignored : List String) :
    List Schema :=
  (if c.multipart then [] else [.referenceTo c.schemaKey])
    ++ c.operation.argumentSchemas (c.route attribution) ignored

/-! ## Types of a method -/

section Methods

variable {d : Document} {op : ResolvedOperation} {pointer : String} {s : Schema}

/-- The type that a response has so far for its streamed contents, or for the others. -/
def ResponseTypes.found? (r : ResponseTypes) (streams : Bool) : Option String :=
  if streams then r.event else r.plain

theorem ResponseTypes.add_notes {N : Import → Prop} {referrer : String} {media : String × MediaType}
    {r : ResponseTypes} (hs : media.2.schema = some s) (h : (typeOf d referrer s).Notes N)
    (hopen : r.found? (Text.startsWith eventStreamType media.1) = none) :
    (r.add d referrer media).Notes N := by
  unfold add
  unfold found? at hopen
  rw [hs]
  dsimp only
  split
  · next hstreams =>
    rw [if_pos hstreams] at hopen
    rw [hopen]
    exact h.bind_left
  · next hstreams =>
    rw [if_neg hstreams] at hopen
    rw [hopen]
    exact h.bind_left

/-- A content changes nothing, or it gives the type of its sort that was still to be found. -/
theorem ResponseTypes.add_cases {referrer : String} {media : String × MediaType}
    {r r' : ResponseTypes} (h : (r.add d referrer media).result = .ok r') :
    r' = r ∨ ∃ s type, media.2.schema = some s ∧ (typeOf d referrer s).result = .ok type ∧
      ((Text.startsWith eventStreamType media.1 = true ∧
          r' = { r with event := some (elementType type) }) ∨
        (Text.startsWith eventStreamType media.1 = false ∧ r' = { r with plain := some type })) := by
  unfold add at h
  cases hschema : media.2.schema with
  | none =>
    rw [hschema] at h
    cases h
    exact .inl rfl
  | some s =>
    rw [hschema] at h
    dsimp only at h
    split at h
    · next hstreams =>
      split at h
      · cases h
        exact .inl rfl
      · obtain ⟨type, htype, h⟩ := Traced.result_bind_eq_ok_iff.1 h
        cases h
        exact .inr ⟨s, type, rfl, htype, .inl ⟨hstreams, rfl⟩⟩
    · next hstreams =>
      split at h
      · cases h
        exact .inl rfl
      · obtain ⟨type, htype, h⟩ := Traced.result_bind_eq_ok_iff.1 h
        cases h
        exact .inr ⟨s, type, rfl, htype, .inr ⟨Bool.eq_false_iff.2 hstreams, rfl⟩⟩

/-- A content that is of the other sort, or has no schema, changes nothing about a sort. -/
theorem ResponseTypes.found?_of_add {referrer : String} {media : String × MediaType}
    {streams : Bool} {r r' : ResponseTypes}
    (hmedia : (Text.startsWith eventStreamType media.1 == streams && media.2.schema.isSome) = false)
    (h : (r.add d referrer media).result = .ok r') : r'.found? streams = r.found? streams := by
  rcases add_cases h with rfl | ⟨s, type, hschema, -, hsort⟩
  · rfl
  · -- the content has a schema, so it is the sort that is another
    rw [hschema, Option.isSome_some, Bool.and_true, beq_eq_false_iff_ne] at hmedia
    rcases hsort with ⟨hstreams, rfl⟩ | ⟨hstreams, rfl⟩
    · have hother : streams = false := by simpa [hstreams] using hmedia
      rw [hother]
      rfl
    · have hother : streams = true := by simpa [hstreams] using hmedia
      rw [hother]
      rfl

/-- The type of a response of success is made of the first schema of each sort. -/
theorem responseTypes_notes (hs : s ∈ op.responseSchemas) (h : s.RefersTo pointer) :
    (responseTypes d op).Notes (Import.IsModelAt d pointer) := by
  unfold ResolvedOperation.responseSchemas at hs
  unfold responseTypes
  cases hresponse : op.successResponse? with
  | none =>
    rw [hresponse] at hs
    exact absurd hs List.not_mem_nil
  | some response =>
    rw [hresponse, Option.elim_some] at hs
    have hsort : ∃ streams, response.schema? streams = some s := by
      rcases List.mem_append.1 hs with hs | hs
      · exact ⟨true, Option.mem_toList.1 hs⟩
      · exact ⟨false, Option.mem_toList.1 hs⟩
    obtain ⟨streams, hschema⟩ := hsort
    obtain ⟨media, hfind, hmedia⟩ := Option.bind_eq_some_iff.1 hschema
    have hkind := List.find?_some hfind
    rw [Bool.and_eq_true, beq_iff_eq] at hkind
    apply Traced.Notes.foldlM hfind (S := fun r => r.found? streams = none)
    · exact fun r other r' hother hopen hr => (ResponseTypes.found?_of_add hother hr).trans hopen
    · intro r hopen
      exact ResponseTypes.add_notes hmedia (typeOf_notes h) (by rw [hkind.1]; exact hopen)
    · cases streams <;> rfl

theorem bodyOf_notes (hs : op.bodySchema? = some s) (h : s.RefersTo pointer) :
    (bodyOf d op).Notes (Import.IsModelAt d pointer) := by
  obtain ⟨b, hb, hs⟩ := Option.bind_eq_some_iff.1 hs
  unfold bodyOf
  rw [hb]
  dsimp only
  split at hs
  · cases hs
  · next hform =>
    rw [if_neg hform, hs]
    exact Traced.Notes.bind_left (typeOf_notes h)

theorem pathParameterType_notes {name : String} (hs : op.pathSchema? name = some s)
    (h : s.RefersTo pointer) :
    (pathParameterType d op name).Notes (Import.IsModelAt d pointer) := by
  unfold ResolvedOperation.pathSchema? at hs
  unfold pathParameterType
  rw [hs]
  exact Traced.Notes.bind_left (typeOf_notes h)

theorem exists_mem_zip {α β : Type} {as : List α} {bs : List β} {a : α} (ha : a ∈ as)
    (h : as.length ≤ bs.length) : ∃ b, (a, b) ∈ as.zip bs := by
  rw [← List.map_fst_zip h] at ha
  obtain ⟨⟨_, b⟩, hb, rfl⟩ := List.mem_map.1 ha
  exact ⟨b, hb⟩

namespace MethodPlan

variable {p : MethodPlan}

theorem length_names (p : MethodPlan) :
    p.names.length = p.placeholders.length + p.queries.length := by
  rw [names, length_parameterNames, List.length_append, List.length_map]

theorem parameters_notes (hs : s ∈ p.operation.argumentSchemas p.route p.ignored)
    (h : s.RefersTo pointer) : (p.parameters d).Notes (Import.IsModelAt d pointer) := by
  have hlength := p.length_names
  unfold parameters
  rcases List.mem_append.1 hs with hs | hs
  · obtain ⟨name, hname, hs⟩ := List.mem_filterMap.1 hs
    obtain ⟨bound, hbound⟩ := exists_mem_zip hname
      (show p.placeholders.length ≤ p.names.length by omega)
    have hparameter : (p.pathParameter d (name, bound)).Notes (Import.IsModelAt d pointer) :=
      Traced.Notes.bind_left (pathParameterType_notes hs h)
    exact (Traced.Notes.mapM hbound hparameter).bind_left
  · obtain ⟨q, hq, hs⟩ := List.mem_filterMap.1 hs
    -- the names of the query parameters are those behind the names of the placeholders
    have hnames : p.queries.length ≤ (p.names.drop p.placeholders.length).length := by
      rw [List.length_drop]
      omega
    obtain ⟨bound, hbound⟩ := exists_mem_zip hq hnames
    have hparameter : (p.queryParameter d (q, bound)).Notes (Import.IsModelAt d pointer) :=
      Traced.Notes.bind_left (typeOr_notes hs (typeOf_notes h))
    exact Traced.Notes.bind_right fun _ _ => (Traced.Notes.mapM hbound hparameter).bind_left

theorem build_notes (hs : s ∈ p.operation.argumentSchemas p.route p.ignored)
    (h : s.RefersTo pointer) : (p.build d).Notes (Import.IsModelAt d pointer) :=
  Traced.Notes.bind_left (parameters_notes hs h)

end MethodPlan

/-- Whatever models the types in the methods of an operation mean are noted. -/
theorem operationMethods_notes {needs : ResponseTypes → List Import}
    {streams : ResponseTypes → Bool} {ignored : List String} {before : ClientPair}
    (hs : s ∈ op.methodSchemas ignored) (h : s.RefersTo pointer) :
    (operationMethods d needs streams ignored before op).Notes (Import.IsModelAt d pointer) := by
  unfold operationMethods
  rcases List.mem_append.1 hs with hs | hs
  · rcases List.mem_append.1 hs with hs | hs
    · exact (responseTypes_notes hs h).bind_left
    · have hbody := bodyOf_notes (d := d) (Option.mem_toList.1 hs) h
      exact Traced.Notes.bind_right fun _ _ => hbody.bind_left
  · apply Traced.Notes.bind_right
    intro types _
    apply Traced.Notes.bind_right
    intro body _
    apply Traced.Notes.bind_right
    intro _ _
    exact Traced.Notes.bind_left (MethodPlan.build_notes hs h)

theorem Command.body_notes {c : Command} (hs : ¬c.multipart = true)
    (h : (Schema.referenceTo c.schemaKey).RefersTo pointer) :
    (c.body d).Notes (Import.IsModelAt d pointer) := by
  unfold Command.body
  rw [if_neg hs]
  rw [Schema.eq_of_refersTo_referenceTo h]
  exact (referenceType_notes d _ _).bind_left

/-- Whatever models the types in the methods of a command mean are noted. -/
theorem commandMethods_notes {c : Command} {attribution : Attribution} {ignored : List String}
    {before : ClientPair} (hs : s ∈ c.methodSchemas attribution ignored) (h : s.RefersTo pointer) :
    (commandMethods d attribution ignored before c).Notes (Import.IsModelAt d pointer) := by
  unfold commandMethods
  rcases List.mem_append.1 hs with hs | hs
  · split at hs
    · exact absurd hs List.not_mem_nil
    · next hmultipart =>
      rw [List.mem_singleton.1 hs] at h
      exact (Command.body_notes hmultipart h).bind_left
  · apply Traced.Notes.bind_right
    intro body _
    exact Traced.Notes.bind_left (MethodPlan.build_notes hs h)

end Methods

end ClientGen
