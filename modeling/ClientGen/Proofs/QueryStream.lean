/-
  ClientGen.Proofs.QueryStream

  Which queries stream.  That a query lists something is told by the end of a printed type,
  and `endsWith_brackets_iff` says that no other schema than that of an array, which is not
  null, is printed with brackets at the end, whatever names and texts there are in it.
-/
import ClientGen.Proofs.ArrayType
import ClientGen.Proofs.SchemaReference
import ClientGen.Proofs.StreamName

namespace ClientGen

open TypeScript

/-! ## Ends of types -/

/-- Whether a schema is that of an array which is not null. -/
def Schema.IsPlainArray (s : Schema) : Prop :=
  (∃ items, s.kind = .array items) ∧ s.nullable = false

/-- Texts that do not end with a square bracket. -/
def Unbracketed (cs : List Char) : Prop := cs.getLast? ≠ some ']'

namespace Unbracketed

variable {cs others : List Char}

theorem append (h : Unbracketed cs) (h' : Unbracketed others) : Unbracketed (cs ++ others) := by
  unfold Unbracketed at h h' ⊢
  rw [List.getLast?_append]
  cases hlast : others.getLast? with
  | none => exact h
  | some c =>
    rw [hlast] at h'
    exact h'

/-- What a text ends with is all that matters. -/
theorem of_ending {ending : List Char} {c : Char} (h : ending.getLast? = some c) (hc : c ≠ ']') :
    Unbracketed (cs ++ ending) := by
  unfold Unbracketed
  rw [List.getLast?_append, h]
  exact fun heq => hc (Option.some.inj heq)

theorem of_not_mem (h : ']' ∉ cs) : Unbracketed cs := fun hlast => h (List.mem_of_getLast? hlast)

end Unbracketed

theorem endsWith_brackets_of_unbracketed {type : String} (h : Unbracketed type.toList) :
    Text.endsWith "[]" type = false := by
  rw [Bool.eq_false_iff]
  intro hends
  obtain ⟨front, hfront⟩ := List.isSuffixOf_iff_suffix.1 hends
  apply h
  rw [← hfront, List.getLast?_append]
  rfl

theorem endsWith_brackets_arrayType (element : String) :
    Text.endsWith "[]" (arrayType element) = true := by
  unfold arrayType Text.endsWith
  rw [List.isSuffixOf_iff_suffix]
  split
  · rw [toList_groupArray]
    exact List.suffix_append _ _
  · rw [String.toList_append]
    exact List.suffix_append _ _

section Forms

variable {d : Document} {Inner : Schema → String → Prop} {s : Schema} {type : String}

theorem unbracketed_stringLiteral (s : String) : Unbracketed (stringLiteral s).toList := by
  rw [stringLiteral, String.toList_ofList, quotedChars, ← List.cons_append]
  exact .of_ending rfl (by decide)

theorem unbracketed_literal (value : Constant) : Unbracketed value.literal.toList := by
  cases value with
  | null => exact .of_not_mem (by decide)
  | boolean b => cases b <;> exact .of_not_mem (by decide)
  | number n =>
    exact .of_not_mem fun hmem => absurd (Number.isNumeral_text n ']' hmem) (by decide)
  | text t => exact unbracketed_stringLiteral t
  | compound => exact .of_not_mem (by decide)

theorem unbracketed_union {types : List String} (h : ∀ type ∈ types, Unbracketed type.toList) :
    Unbracketed (" | ".intercalate types).toList :=
  intercalate_induction (.of_not_mem List.not_mem_nil) (fun _ _ => .append)
    (.of_not_mem (by decide)) h

theorem unbracketed_primitiveUnion (names : List String) :
    Unbracketed (primitiveUnion names).toList := by
  have hprimitive (name : String) : Unbracketed (primitiveType name).toList := by
    unfold primitiveType
    repeat' split
    all_goals exact .of_not_mem (by decide)
  unfold primitiveUnion
  dsimp only
  split
  · exact .of_not_mem (by decide)
  · apply unbracketed_union
    intro type htype
    obtain ⟨name, -, rfl⟩ := List.mem_map.1 (List.mem_eraseDups.1 htype)
    exact hprimitive name

theorem unbracketed_joinTypes (separator : String) (types : List String) :
    Unbracketed (joinTypes separator types).toList := by
  unfold joinTypes
  split
  · exact .of_not_mem (by decide)
  · rw [String.toList_append]
    exact .of_ending rfl (by decide)

theorem unbracketed_objectType (members : List PropertyDecl) (index : Option String) :
    Unbracketed (objectType members index).toList := by
  unfold objectType
  dsimp only
  split
  · exact .of_not_mem (by decide)
  · rw [String.toList_append]
    exact .of_ending rfl (by decide)

/-- A type that admits null ends as null does, or is any. -/
theorem unbracketed_withNull (type : String) : Unbracketed (withNull type).toList := by
  unfold withNull
  split
  · next hnull =>
    rcases hnull with rfl | rfl | hends
    · exact .of_not_mem (by decide)
    · exact .of_not_mem (by decide)
    · obtain ⟨front, hfront⟩ := List.isSuffixOf_iff_suffix.1 hends
      rw [← hfront]
      exact .of_ending rfl (by decide)
  · rw [String.toList_append]
    exact .of_ending rfl (by decide)

/-- One form after the other: only the types of arrays end with brackets. -/
theorem unbracketed_of_typeForm (h : TypeForm d Inner s type)
    (hkind : ¬∃ items, s.kind = .array items) : Unbracketed type.toList := by
  cases h with
  | reference _ _ _ =>
    rw [ModelName.name_ofReference]
    exact .of_not_mem fun hmem =>
      absurd (ModelName.isAlphanum_of_mem_name_ofKey ']' hmem) (by decide)
  | map _ _ =>
    rw [String.toList_append]
    exact .of_ending rfl (by decide)
  | const _ => exact unbracketed_literal _
  | enum _ =>
    apply unbracketed_union
    intro type htype
    obtain ⟨member, -, rfl⟩ := List.mem_map.1 htype
    exact unbracketed_stringLiteral member
  | composition _ _ => exact unbracketed_joinTypes _ _
  | array harray _ => exact absurd ⟨_, harray⟩ hkind
  | object _ _ _ => exact unbracketed_objectType _ _
  | primitive _ => exact unbracketed_primitiveUnion _
  | unknown _ => exact .of_not_mem (by decide)

theorem endsWith_brackets_of_typeForm (h : TypeForm d Inner s type) :
    Text.endsWith "[]" type = true ↔ ∃ items, s.kind = .array items := by
  constructor
  · intro hends
    by_contra hkind
    rw [endsWith_brackets_of_unbracketed (unbracketed_of_typeForm h hkind)] at hends
    exact Bool.false_ne_true hends
  · rintro ⟨items, hkind⟩
    cases h with
    | array _ _ => exact endsWith_brackets_arrayType _
    | _ =>
      -- a schema is of one kind
      simp_all

end Forms

/-- The type of a schema ends with brackets if the schema is that of an array which is not null,
    and in no other case. -/
theorem endsWith_brackets_iff {d : Document} {referrer type : String} {s : Schema}
    (h : (typeOf d referrer s).result = .ok type) :
    Text.endsWith "[]" type = true ↔ s.IsPlainArray := by
  obtain ⟨bare, hbare, rfl⟩ := typeForm_of_typedWithin h
  unfold Schema.IsPlainArray admitNull
  cases hnull : s.nullable with
  | true =>
    rw [if_pos rfl, endsWith_brackets_of_unbracketed (unbracketed_withNull bare)]
    exact iff_of_false Bool.false_ne_true fun hplain => Bool.noConfusion hplain.2
  | false =>
    rw [if_neg Bool.false_ne_true, endsWith_brackets_of_typeForm hbare]
    exact (and_iff_left rfl).symm

/-! ## Types of responses -/

namespace ResponseTypes

variable {d : Document} {referrer : String} {streams : Bool} {r r' : ResponseTypes}

/-- What is kept of the type of a content: of a streamed one, the type of one event. -/
def kept (streams : Bool) (type : String) : String := if streams then elementType type else type

/-- The first content of a sort gives its type, and the others change nothing about it. -/
theorem found?_add {media : String × MediaType} {s : Schema} (hschema : media.2.schema = some s)
    (hsort : Text.startsWith eventStreamType media.1 = streams)
    (h : (r.add d referrer media).result = .ok r') :
    (∃ type, r.found? streams = some type ∧ r'.found? streams = some type) ∨
      (r.found? streams = none ∧ ∃ type, (typeOf d referrer s).result = .ok type ∧
        r'.found? streams = some (kept streams type)) := by
  unfold add at h
  rw [hschema] at h
  dsimp only at h
  cases streams with
  | true =>
    rw [if_pos hsort] at h
    cases hevent : r.event with
    | some event =>
      rw [hevent] at h
      cases h
      exact .inl ⟨event, hevent, hevent⟩
    | none =>
      rw [hevent] at h
      obtain ⟨type, htype, h⟩ := Traced.result_bind_eq_ok_iff.1 h
      cases h
      exact .inr ⟨hevent, type, htype, rfl⟩
  | false =>
    rw [if_neg (by simp [hsort])] at h
    cases hplain : r.plain with
    | some plain =>
      rw [hplain] at h
      cases h
      exact .inl ⟨plain, hplain, hplain⟩
    | none =>
      rw [hplain] at h
      obtain ⟨type, htype, h⟩ := Traced.result_bind_eq_ok_iff.1 h
      cases h
      exact .inr ⟨hplain, type, htype, rfl⟩

/-- A type that is found stays as it is. -/
theorem found?_foldlM_of_some {entries : List (String × MediaType)} {type : String}
    (hfound : r.found? streams = some type)
    (h : (entries.foldlM (add d referrer) r).result = .ok r') :
    r'.found? streams = some type := by
  refine Traced.foldlM_induction (P := fun r => r.found? streams = some type) ?_ hfound h
  intro before media after hbefore hafter
  cases hkind : (Text.startsWith eventStreamType media.1 == streams
      && media.2.schema.isSome) with
  | false => rw [found?_of_add hkind hafter, hbefore]
  | true =>
    rw [Bool.and_eq_true, beq_iff_eq, Option.isSome_iff_exists] at hkind
    obtain ⟨hsort, s, hschema⟩ := hkind
    rcases found?_add hschema hsort hafter with ⟨_, hold, hnew⟩ | ⟨hnone, -⟩
    · rw [hnew, ← hold, hbefore]
    · rw [hnone] at hbefore
      cases hbefore

/-- By induction on the contents: the type of a sort is that of the first schema of the sort. -/
theorem found?_foldlM {entries : List (String × MediaType)} (streams : Bool)
    (hopen : r.found? streams = none)
    (h : (entries.foldlM (add d referrer) r).result = .ok r') :
    Option.Rel (fun s found => ∃ type, (typeOf d referrer s).result = .ok type ∧
        found = kept streams type)
      ((entries.find? fun media => Text.startsWith eventStreamType media.1 == streams
        && media.2.schema.isSome).bind (·.2.schema))
      (r'.found? streams) := by
  induction entries generalizing r with
  | nil =>
    cases h
    rw [hopen]
    exact .none
  | cons media rest ih =>
    rw [List.foldlM_cons] at h
    obtain ⟨next, hnext, h⟩ := Traced.result_bind_eq_ok_iff.1 h
    cases hkind : (Text.startsWith eventStreamType media.1 == streams
        && media.2.schema.isSome) with
    | false =>
      rw [List.find?_cons_of_neg (by simp [hkind])]
      exact ih ((found?_of_add hkind hnext).trans hopen) h
    | true =>
      have hfirst : (media :: rest).find? (fun media =>
          Text.startsWith eventStreamType media.1 == streams && media.2.schema.isSome)
            = some media :=
        List.find?_cons_of_pos hkind
      rw [hfirst, Option.bind_some]
      rw [Bool.and_eq_true, beq_iff_eq, Option.isSome_iff_exists] at hkind
      obtain ⟨hsort, s, hschema⟩ := hkind
      rcases found?_add hschema hsort hnext with ⟨_, hold, -⟩ | ⟨-, type, htype, hfound⟩
      · rw [hopen] at hold
        cases hold
      · rw [hschema, found?_foldlM_of_some hfound h]
        exact .some ⟨type, htype, rfl⟩

end ResponseTypes

/-! ## Queries that stream -/

theorem isSome_of_rel {α β : Type} {R : α → β → Prop} {a? : Option α} {b? : Option β}
    (h : Option.Rel R a? b?) : b?.isSome = a?.isSome := by
  cases h <;> rfl

/-- Options that go together have one of a kind alike. -/
theorem any_iff_of_rel {α β : Type} {R : α → β → Prop} {P : α → Prop} {p : β → Bool}
    {a? : Option α} {b? : Option β} (h : Option.Rel R a? b?) (hR : ∀ a b, R a b → (p b = true ↔ P a)) :
    b?.any p = true ↔ ∃ a, a? = some a ∧ P a := by
  cases h with
  | none => simp
  | some hab => simp [hR _ _ hab]

namespace ResolvedOperation

variable {d : Document} {op : ResolvedOperation}

/-- Whether an operation declares that it streams, or lists something: it responds in success with
    events that have a schema, or the first schema of another content is that of an array. -/
def DeclaresStream (op : ResolvedOperation) : Prop :=
  ∃ response, op.successResponse? = some response ∧
    ((∃ media ∈ response.content.entries,
        Text.startsWith eventStreamType media.1 = true ∧ media.2.schema.isSome = true) ∨
      ∃ s, response.schema? false = some s ∧ s.IsPlainArray)

/-- There is a streamed schema if there is any content for one. -/
theorem isSome_schema?_iff {response : Response} :
    (response.schema? true).isSome = true ↔ ∃ media ∈ response.content.entries,
      Text.startsWith eventStreamType media.1 = true ∧ media.2.schema.isSome = true := by
  constructor
  · intro h
    obtain ⟨s, hs⟩ := Option.isSome_iff_exists.1 h
    obtain ⟨media, hfind, -⟩ := Option.bind_eq_some_iff.1 hs
    have hkind := List.find?_some hfind
    rw [Bool.and_eq_true, beq_iff_eq] at hkind
    exact ⟨media, List.mem_of_find?_eq_some hfind, hkind⟩
  · rintro ⟨media, hmem, hstreams, hschema⟩
    have hsome : (response.content.entries.find? fun media =>
        Text.startsWith eventStreamType media.1 == true && media.2.schema.isSome).isSome = true := by
      rw [List.find?_isSome]
      exact ⟨media, hmem, by simp [hstreams, hschema]⟩
    obtain ⟨found, hfound⟩ := Option.isSome_iff_exists.1 hsome
    have hkind := List.find?_some hfound
    rw [Bool.and_eq_true] at hkind
    rw [Response.schema?, hfound, Option.bind_some]
    exact hkind.2

/-- The types of an operation's responses tell what the operation declares. -/
theorem streamsQuery_iff {types : ResponseTypes} (h : (responseTypes d op).result = .ok types) :
    types.streamsQuery = true ↔ op.DeclaresStream := by
  unfold responseTypes at h
  unfold DeclaresStream ResponseTypes.streamsQuery
  cases hresponse : op.successResponse? with
  | none =>
    rw [hresponse] at h
    cases h
    refine iff_of_false Bool.false_ne_true ?_
    rintro ⟨response, hsome, -⟩
    cases hsome
  | some response =>
    rw [hresponse] at h
    have hevent : types.event.isSome = (response.schema? true).isSome :=
      isSome_of_rel (ResponseTypes.found?_foldlM true rfl h)
    have hplain : types.plain.any (Text.endsWith "[]") = true
        ↔ ∃ s, response.schema? false = some s ∧ s.IsPlainArray := by
      apply any_iff_of_rel (ResponseTypes.found?_foldlM false rfl h)
      rintro s _ ⟨type, htype, rfl⟩
      exact endsWith_brackets_iff htype
    rw [Bool.or_eq_true, hplain, hevent, isSome_schema?_iff]
    simp

end ResolvedOperation

section Queries

variable {d : Document} {op : ResolvedOperation}

/-- A query has a streaming method if it declares that it streams. -/
theorem isSome_stream?_iff {ignored : List String} {before : ClientPair} {plain : MethodDecl}
    {stream? : Option MethodDecl}
    (h : (queryMethods d ignored before op).result = .ok (plain, stream?)) :
    stream?.isSome = true ↔ op.DeclaresStream := by
  rw [queryMethods_eq] at h
  obtain ⟨types, body, htypes, -, hstreams, -⟩ := built_of_operationMethods h
  rw [hstreams]
  exact ResolvedOperation.streamsQuery_iff htypes

end Queries

/-- Of a query whose methods do not fail, one is added to the streaming client just when the query
    declares that it streams or lists something: the printed type of any schema ends with brackets
    just when the schema is that of an array which is not null.  So it is for each query of an
    aggregate that does not fail, whichever were added before. -/
theorem query_streams_iff (d : Document) (config : Configuration) (a : Aggregate) :
    (∀ referrer type (s : Schema), (typeOf d referrer s).result = .ok type →
      (Text.endsWith "[]" type = true ↔ s.IsPlainArray)) ∧
    (∀ ignored c op plain stream?, (queryMethods d ignored c op).result = .ok (plain, stream?) →
      (addQuery d ignored c op).plain.methods = c.plain.methods ++ [plain] ∧
        (addQuery d ignored c op).stream.methods = c.stream.methods ++ stream?.toList ∧
        (stream?.isSome = true ↔ op.DeclaresStream)) ∧
    (queryClients d config a).BuiltInPairs (a.withoutFaults d config).queries
      (queryPairs d config a) ∧
    ∀ p ∈ queryPairs d config a, p.stream?.isSome = true ↔ p.item.DeclaresStream := by
  refine ⟨fun _ _ _ => endsWith_brackets_iff, ?_, builtInPairs_queryPairs d config a, ?_⟩
  · intro ignored c op plain stream? h
    obtain ⟨hplain, hstream⟩ := ClientPair.methods_addBuilt_of_ok c op.identifier h
    exact ⟨hplain, hstream, isSome_stream?_iff h⟩
  · intro p hp
    obtain ⟨before, hbuilt⟩ := ClientPair.exists_built_of_mem_pairs hp
    exact isSome_stream?_iff hbuilt

/-- Queries for a list, for a list that may be null, and for a text that ends with brackets. -/
def listingDocument : Document :=
  let list : Schema := { type := some (.single "array"), items := some {} }
  let responds (identifier : String) (s : Schema) : PathItem :=
    let response : Response := { content := .ofList [("application/json", ⟨some s⟩)] }
    .only .get { operationId := some identifier, tags := ["shop.order"]
                 responses := .ofList [("200", .item response)] }
  { paths := .ofList
      [("/order/list", responds "order.list" list),
       ("/order/maybe", responds "order.maybe" { list with nullable := true }),
       ("/order/text", responds "order.text" { enumValues := some [.text "text[]"] })] }

theorem query_streams_iff_listing :
    ∃ a ∈ listingDocument.service.aggregates,
      (queryClients listingDocument {} a).plainNames = ["list", "maybe", "text"] ∧
      (queryClients listingDocument {} a).streamNames = ["list"] ∧
      ∀ p ∈ queryPairs listingDocument {} a, p.stream?.isSome = true ↔ p.item.DeclaresStream := by
  have hrun : listingDocument.service.aggregates.any (fun a =>
      (queryClients listingDocument {} a).plainNames = ["list", "maybe", "text"]
        && (queryClients listingDocument {} a).streamNames = ["list"]) = true := by
    decide +kernel
  obtain ⟨a, ha, hnames⟩ := List.any_eq_true.1 hrun
  rw [Bool.and_eq_true, decide_eq_true_eq, decide_eq_true_eq] at hnames
  obtain ⟨-, -, -, hstreams⟩ := query_streams_iff listingDocument {} a
  exact ⟨a, ha, hnames.1, hnames.2, hstreams⟩

end ClientGen
