/-
  ClientGen.Proofs.InlineTree

  The tree of schemas that are written in place.  The type of a schema is made along
  this tree, every node before those below it; a reference is a leaf.  What is noted on
  the way, and how it fails, depends on the nodes alone (`course_typeWithin`), and
  `typeOf_outcome` says which node decides.
-/
import ClientGen.Proofs.Reference

namespace ClientGen

open TypeScript

/-! ## Nested schemas -/

namespace Entries

variable {α : Type} {key : String} {value : α} {entries : List (String × α)} {entry : String × α}

theorem mem_of_mem_put (h : entry ∈ put key value entries) :
    entry = (key, value) ∨ entry ∈ entries := by
  induction entries with
  | nil => exact .inl (List.mem_singleton.1 h)
  | cons first rest ih =>
    unfold put at h
    grind

/-- Merging repeated keys makes up no entry. -/
theorem mem_of_mem_collapse (h : entry ∈ collapse entries) : entry ∈ entries := by
  -- the entries are put one after the other into what is there already
  have hfold (entries acc : List (String × α))
      (h : entry ∈ entries.foldl (fun acc entry => put entry.1 entry.2 acc) acc) :
      entry ∈ acc ∨ entry ∈ entries := by
    induction entries generalizing acc with
    | nil => exact .inl h
    | cons first rest ih =>
      rcases ih _ h with h | h
      · rcases mem_of_mem_put h with rfl | h
        · exact .inr List.mem_cons_self
        · exact .inl h
      · exact .inr (List.mem_cons_of_mem _ h)
  exact (hfold entries [] h).resolve_left List.not_mem_nil

end Entries

namespace Schema

variable {s inner : Schema}

/-- The schemas nested in a schema of which its type is made. -/
def nested (s : Schema) : List Schema :=
  match s.kind with
  | .map values => values.toList
  | .composition _ members => members
  | .array items => items.toList
  | .object properties => properties.map Prod.snd ++ s.additionalSchema?.toList
  | _ => []

/-! ### What a kind says of the keywords -/

theorem additionalSchema?_of_kind_map {values : Option Schema} (h : s.kind = .map values) :
    s.additionalSchema? = values := by
  grind [Schema.kind]

theorem items_of_kind_array {items : Option Schema} (h : s.kind = .array items) :
    s.items = items := by
  grind [Schema.kind]

theorem properties?_of_kind_object {properties : List (String × Schema)}
    (h : s.kind = .object properties) : s.properties? = some properties := by
  grind [Schema.kind]

theorem composition?_of_kind_composition {c : Composition} {members : List Schema}
    (h : s.kind = .composition c members) : s.composition? = some (c, members) := by
  grind [Schema.kind]

/-- The members of a composition are those of a keyword that has some. -/
theorem keyword_of_composition? {c : Composition} {members : List Schema}
    (h : s.composition? = some (c, members)) :
    members ≠ [] ∧ (s.allOf = some members ∨ s.anyOf = some members ∨ s.oneOf = some members) := by
  simp only [composition?, members?, Option.or_eq_some_iff, Option.map_eq_some_iff,
    Option.filter_eq_some_iff, Prod.mk.injEq] at h
  rcases h with ⟨_, ⟨hkeyword, hne⟩, -, rfl⟩ |
    ⟨-, ⟨_, ⟨hkeyword, hne⟩, -, rfl⟩ | ⟨-, _, ⟨hkeyword, hne⟩, -, rfl⟩⟩
  · exact ⟨by simpa using hne, .inl hkeyword⟩
  · exact ⟨by simpa using hne, .inr (.inl hkeyword)⟩
  · exact ⟨by simpa using hne, .inr (.inr hkeyword)⟩

theorem ne_nil_of_kind_enum {members : List String} (h : s.kind = .enum members) :
    members ≠ [] := by
  grind [Schema.kind, Schema.isEnum]

theorem mem_primitiveNames_of_kind_primitive {names : List String} (h : s.kind = .primitive names) :
    names ≠ [] ∧ ∀ name ∈ names, name ∈ primitiveNames := by
  have hprimitive : s.isPrimitive = true ∧ (s.type.map TypeNames.toList).getD [] = names := by
    grind [Schema.kind]
  obtain ⟨hprimitive, rfl⟩ := hprimitive
  unfold isPrimitive at hprimitive
  split at hprimitive
  · next type htype => simpa [htype] using hprimitive
  · cases hprimitive

/-! ### Sizes -/

/-- A schema is larger than each of its keywords that can hold schemas. -/
theorem sizeOf_keywords_lt (s : Schema) :
    sizeOf s.propertyEntries < sizeOf s ∧ sizeOf s.additional < sizeOf s ∧
      sizeOf s.items < sizeOf s ∧ sizeOf s.allOf < sizeOf s ∧ sizeOf s.anyOf < sizeOf s ∧
      sizeOf s.oneOf < sizeOf s := by
  cases s
  rw [Schema.mk.sizeOf_spec]
  dsimp only
  omega

theorem sizeOf_lt_of_additionalSchema? (h : s.additionalSchema? = some inner) :
    sizeOf inner < sizeOf s := by
  obtain ⟨-, hadditional, -⟩ := s.sizeOf_keywords_lt
  unfold additionalSchema? at h
  split at h
  · next values hvalues =>
    rw [Option.some.injEq] at h
    rw [hvalues, Option.some.sizeOf_spec, Additional.schema.sizeOf_spec, h] at hadditional
    omega
  · cases h

theorem sizeOf_lt_of_mem_properties {properties : List (String × Schema)}
    {property : String × Schema} (h : s.properties? = some properties)
    (hmem : property ∈ properties) : sizeOf property.2 < sizeOf s := by
  obtain ⟨hproperties, -⟩ := s.sizeOf_keywords_lt
  obtain ⟨entries, hentries, rfl⟩ := Option.map_eq_some_iff.1 h
  have hentry := List.sizeOf_lt_of_mem (Entries.mem_of_mem_collapse hmem)
  obtain ⟨name, inner⟩ := property
  rw [Prod.mk.sizeOf_spec] at hentry
  rw [hentries, Option.some.sizeOf_spec] at hproperties
  dsimp only
  omega

theorem sizeOf_lt_of_mem_members {c : Composition} {members : List Schema}
    (h : s.composition? = some (c, members)) (hmem : inner ∈ members) : sizeOf inner < sizeOf s := by
  have hsize := List.sizeOf_lt_of_mem hmem
  obtain ⟨-, -, -, hall, hany, hone⟩ := s.sizeOf_keywords_lt
  rcases (keyword_of_composition? h).2 with hkeyword | hkeyword | hkeyword
  · rw [hkeyword, Option.some.sizeOf_spec] at hall
    omega
  · rw [hkeyword, Option.some.sizeOf_spec] at hany
    omega
  · rw [hkeyword, Option.some.sizeOf_spec] at hone
    omega

/-- A schema is larger than what is nested in it. -/
theorem sizeOf_lt_of_mem_nested (h : inner ∈ s.nested) : sizeOf inner < sizeOf s := by
  unfold nested at h
  cases hkind : s.kind with
  | map values =>
    rw [hkind] at h
    exact sizeOf_lt_of_additionalSchema?
      ((additionalSchema?_of_kind_map hkind).trans (Option.mem_toList.1 h))
  | composition c members =>
    rw [hkind] at h
    exact sizeOf_lt_of_mem_members (composition?_of_kind_composition hkind) h
  | array items =>
    rw [hkind] at h
    obtain ⟨-, -, hitems, -⟩ := s.sizeOf_keywords_lt
    rw [items_of_kind_array hkind, Option.mem_toList.1 h, Option.some.sizeOf_spec] at hitems
    omega
  | object properties =>
    rw [hkind] at h
    rcases List.mem_append.1 h with h | h
    · obtain ⟨property, hproperty, rfl⟩ := List.mem_map.1 h
      exact sizeOf_lt_of_mem_properties (properties?_of_kind_object hkind) hproperty
    · exact sizeOf_lt_of_additionalSchema? (Option.mem_toList.1 h)
  | _ =>
    rw [hkind] at h
    exact absurd h List.not_mem_nil

end Schema

/-! ## The tree -/

/-- A node of the tree of a schema. -/
structure Node where
  /-- The steps down to it. -/
  steps : Nat
  schema : Schema

/-- The same node one step further down. -/
def Node.below (n : Node) : Node := { n with steps := n.steps + 1 }

/-- The nodes of the tree of a schema, every node before those below it. -/
def Schema.nodes (s : Schema) : List Node :=
  ⟨0, s⟩ :: s.nested.attach.flatMap fun inner => (nodes inner.1).map .below
termination_by sizeOf s
decreasing_by exact Schema.sizeOf_lt_of_mem_nested inner.2

theorem Schema.nodes_eq (s : Schema) :
    s.nodes = ⟨0, s⟩ :: s.nested.flatMap fun inner => inner.nodes.map .below := by
  rw [nodes, List.flatMap_subtype (g := fun inner => inner.nodes.map Node.below) fun _ _ => rfl,
    List.unattach_attach]

theorem Schema.self_mem_nodes (s : Schema) : ⟨0, s⟩ ∈ s.nodes := by
  rw [nodes_eq]
  exact List.mem_cons_self

/-- The nodes of what is nested in a schema are nodes of the schema, one step further down. -/
theorem Node.below_mem_nodes {s inner : Schema} {n : Node} (hinner : inner ∈ s.nested)
    (hn : n ∈ inner.nodes) : n.below ∈ s.nodes := by
  rw [Schema.nodes_eq]
  exact List.mem_cons_of_mem _ (List.mem_flatMap.2 ⟨inner, hinner, List.mem_map_of_mem hn⟩)

namespace Node

/-- Whether a node can be passed: it is at most 64 steps down, and if it is a reference, then to
    a component. -/
structure Passable (d : Document) (n : Node) : Prop where
  steps : n.steps ≤ 64
  reference : ∀ pointer, n.schema.kind = .reference pointer →
    ∃ key target, schemaKey? pointer = some key ∧ d.schema? key = some target

/-- How the making of a type for `referrer` fails at a node. -/
inductive Fails (d : Document) (referrer : String) (n : Node) : GenerationError → Prop
  | deep (h : 64 < n.steps) : Fails d referrer n (.tooDeep referrer 64)
  | dangling {pointer : String} (h : n.steps ≤ 64) (hkind : n.schema.kind = .reference pointer)
      (hnone : ∀ key, schemaKey? pointer = some key → d.schema? key = none) :
      Fails d referrer n (.unresolvedReference pointer referrer)

end Node

/-! ## Types along the tree -/

section Types

variable {d : Document} {referrer : String} {inner : Schema → Importing String}

/-- What is done for a schema by itself, apart from what is nested in it. -/
def Schema.visit (d : Document) (referrer : String) (s : Schema) : Importing Unit :=
  match s.kind with
  | .reference pointer => (referenceType d referrer pointer).course
  | _ => return ()

/-- What is done at a node when the nesting may go `levels` deep. -/
def Node.visit (d : Document) (referrer : String) (levels : Nat) (n : Node) : Importing Unit :=
  if n.steps < levels then n.schema.visit d referrer else .fail (.tooDeep referrer nestingLimit)

theorem Node.visit_below (levels : Nat) (n : Node) :
    n.below.visit d referrer (levels + 1) = n.visit d referrer levels := by
  unfold visit below
  simp only [Nat.add_lt_add_iff_right]

theorem course_typeOr (s? : Option Schema) :
    (typeOr inner s?).course = forM s?.toList fun s => (inner s).course := by
  cases s? with
  | none => rfl
  | some s => simp [typeOr]

theorem course_indexType (s : Schema) :
    (indexType inner s).course = forM s.additionalSchema?.toList fun s => (inner s).course := by
  unfold indexType Schema.additionalSchema?
  split <;> simp_all

/-- A schema is visited by itself, and then what is nested in it. -/
theorem course_typeByKind (s : Schema) :
    (typeByKind d referrer inner s).course =
      s.visit d referrer >>= fun _ => forM s.nested fun s => (inner s).course := by
  unfold typeByKind Schema.visit Schema.nested
  cases s.kind with
  | reference pointer => simp
  | map values => rw [Traced.course_bind_pure, pure_bind, course_typeOr]
  | composition c members => rw [Traced.course_bind_pure, pure_bind, Traced.course_mapM]
  | array items => rw [Traced.course_bind_pure, pure_bind, course_typeOr]
  | object properties =>
    -- first the properties, and then what an index signature is made of
    rw [Traced.course_bind fun _ => Traced.course_bind_pure, Traced.course_mapM, pure_bind,
      List.forM_append, List.forM_map, course_indexType]
    simp only [memberType, Traced.course_bind_pure]
  | _ => simp

/-- By induction on the levels that are left. -/
theorem course_typeWithin (levels : Nat) (s : Schema) :
    (typeWithin d referrer levels s).course = forM s.nodes (Node.visit d referrer levels) := by
  induction levels generalizing s with
  | zero =>
    -- not even the schema itself is visited
    rw [Schema.nodes_eq, List.forM_cons, Node.visit, if_neg (Nat.lt_irrefl 0)]
    rfl
  | succ levels ih =>
    have htop : Node.visit d referrer (levels + 1) ⟨0, s⟩ = s.visit d referrer :=
      if_pos (Nat.succ_pos levels)
    rw [typeWithin, Traced.course_map, course_typeByKind, Schema.nodes_eq, List.forM_cons, htop,
      Traced.forM_flatMap]
    simp only [ih, List.forM_map, Node.visit_below]

end Types

/-! ## Visits of single nodes -/

section References

variable {d : Document} {pointer key : String} {target : Schema}

/-- A reference to a component notes its model. -/
theorem referenceType_of_some (referrer : String) (hkey : schemaKey? pointer = some key)
    (htarget : d.schema? key = some target) :
    referenceType d referrer pointer
      = ⟨[.model (.ofReference key)], .ok (ModelName.ofReference key).name⟩ := by
  have hresolve : d.resolveSchema pointer referrer = .ok (key, target) :=
    Document.resolveSchema_eq_ok_iff.2 ⟨hkey, htarget⟩
  rw [referenceType, hresolve]
  rfl

/-- Any other reference notes nothing. -/
theorem referenceType_of_none (referrer : String)
    (h : ∀ key, schemaKey? pointer = some key → d.schema? key = none) :
    referenceType d referrer pointer = ⟨[], .error (.unresolvedReference pointer referrer)⟩ := by
  have hresolve : d.resolveSchema pointer referrer = .error (.unresolvedReference pointer referrer) := by
    unfold Document.resolveSchema
    cases hkey : schemaKey? pointer with
    | none => rfl
    | some key => simp only [h key hkey]
  rw [referenceType, hresolve]
  rfl

end References

namespace Node

variable {d : Document} {referrer : String} {n : Node} {e : GenerationError}

/-- The component key to which a node refers. -/
def key? (n : Node) : Option String :=
  match n.schema.kind with
  | .reference pointer => schemaKey? pointer
  | _ => none

/-- A node that is passed notes the model to which it refers, if it does. -/
theorem Passable.visit_eq (h : n.Passable d) (referrer : String) :
    n.visit d referrer (nestingLimit + 1)
      = ⟨n.key?.toList.map fun key => .model (.ofReference key), .ok ()⟩ := by
  have hsteps : n.steps < nestingLimit + 1 := Nat.lt_succ_of_le h.steps
  rw [visit, if_pos hsteps, Schema.visit, key?]
  cases hkind : n.schema.kind with
  | reference pointer =>
    obtain ⟨key, target, hkey, htarget⟩ := h.reference pointer hkind
    simp only [referenceType_of_some referrer hkey htarget, hkey]
    rfl
  | _ => rfl

/-- A node that is not passed notes nothing. -/
theorem Fails.visit_eq (h : n.Fails d referrer e) :
    n.visit d referrer (nestingLimit + 1) = ⟨[], .error e⟩ := by
  cases h with
  | deep h =>
    have hsteps : ¬n.steps < nestingLimit + 1 := Nat.not_lt.2 h
    rw [visit, if_neg hsteps]
    rfl
  | dangling h hkind hnone =>
    have hsteps : n.steps < nestingLimit + 1 := Nat.lt_succ_of_le h
    rw [visit, if_pos hsteps, Schema.visit, hkind]
    simp only [referenceType_of_none referrer hnone]
    rfl

theorem passable_or_fails (d : Document) (referrer : String) (n : Node) :
    n.Passable d ∨ ∃ e, n.Fails d referrer e := by
  by_cases hsteps : n.steps ≤ 64
  · by_cases hreference : ∃ pointer, n.schema.kind = .reference pointer ∧
        ∀ key, schemaKey? pointer = some key → d.schema? key = none
    · obtain ⟨pointer, hkind, hnone⟩ := hreference
      exact .inr ⟨_, .dangling hsteps hkind hnone⟩
    · -- a reference that does not dangle has a key with a target
      refine .inl ⟨hsteps, fun pointer hkind => ?_⟩
      by_contra hnone
      refine hreference ⟨pointer, hkind, fun key hkey => ?_⟩
      exact Option.eq_none_iff_forall_ne_some.2 fun target htarget =>
        hnone ⟨key, target, hkey, htarget⟩
  · exact .inr ⟨_, .deep (Nat.not_le.1 hsteps)⟩

theorem fault?_visit_eq_none_iff :
    (n.visit d referrer (nestingLimit + 1)).fault? = none ↔ n.Passable d := by
  constructor
  · intro h
    rcases n.passable_or_fails d referrer with hpass | ⟨e, hfail⟩
    · exact hpass
    · rw [hfail.visit_eq] at h
      cases h
  · intro h
    rw [h.visit_eq]
    rfl

theorem fault?_visit_eq_some_iff :
    (n.visit d referrer (nestingLimit + 1)).fault? = some e ↔ n.Fails d referrer e := by
  constructor
  · intro h
    rcases n.passable_or_fails d referrer with hpass | ⟨e', hfail⟩
    · rw [hpass.visit_eq] at h
      cases h
    · rw [hfail.visit_eq] at h
      cases h
      exact hfail
  · intro h
    rw [h.visit_eq]
    rfl

end Node

/-! ## Outcomes -/

theorem course_typeOf (d : Document) (referrer : String) (s : Schema) :
    (typeOf d referrer s).course
      = forM s.nodes (Node.visit d referrer (nestingLimit + 1)) :=
  course_typeWithin _ s

theorem fault?_typeOf (d : Document) (referrer : String) (s : Schema) :
    (typeOf d referrer s).fault?
      = s.nodes.findSome? fun n => (n.visit d referrer (nestingLimit + 1)).fault? := by
  rw [← Traced.fault?_course, course_typeOf, Traced.fault?_forM]

theorem exists_type_iff {d : Document} {referrer : String} {s : Schema} :
    (∃ type, (typeOf d referrer s).result = .ok type) ↔ ∀ n ∈ s.nodes, n.Passable d := by
  rw [← Traced.fault?_eq_none_iff, fault?_typeOf, List.findSome?_eq_none_iff]
  simp only [Node.fault?_visit_eq_none_iff]

theorem typeOf_eq_error_iff {d : Document} {referrer : String} {s : Schema} {e : GenerationError} :
    (typeOf d referrer s).result = .error e ↔ ∃ before n after,
      s.nodes = before ++ n :: after ∧ (∀ earlier ∈ before, earlier.Passable d) ∧
        n.Fails d referrer e := by
  rw [← Traced.fault?_eq_some_iff, fault?_typeOf, List.findSome?_eq_some_iff]
  simp only [Node.fault?_visit_eq_none_iff, Node.fault?_visit_eq_some_iff]
  constructor
  · rintro ⟨before, n, after, hnodes, hfails, hbefore⟩
    exact ⟨before, n, after, hnodes, hbefore, hfails⟩
  · rintro ⟨before, n, after, hnodes, hbefore, hfails⟩
    exact ⟨before, n, after, hnodes, hfails, hbefore⟩

/-- The type of a schema can be made just when all nodes of its tree can be passed, and
    otherwise it fails at the first of them that cannot: either it is too far down, or it is a
    reference to nothing. -/
theorem typeOf_outcome (d : Document) (referrer : String) (s : Schema) :
    ((∃ type, (typeOf d referrer s).result = .ok type) ↔ ∀ n ∈ s.nodes, n.Passable d) ∧
      ∀ e, (typeOf d referrer s).result = .error e ↔ ∃ before n after,
        s.nodes = before ++ n :: after ∧ (∀ earlier ∈ before, earlier.Passable d) ∧
          n.Fails d referrer e :=
  ⟨exists_type_iff, fun _ => typeOf_eq_error_iff⟩

end ClientGen
