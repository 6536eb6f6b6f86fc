/-
  ClientGen.Proofs.DeclarationDepth

  How deep the declarations of a schema may go.  Interfaces are lifted out of each
  other, and all other types are written in place.  Either recursion counts its own
  levels and follows 64 of them; a type starts to count afresh below its interface.
  `declaration_depth` says which schemas are declared in view of that, and which are
  recorded as too deep.
-/
import ClientGen.Proofs.Accounting
import ClientGen.Proofs.InlineTree
import Mathlib.Logic.Function.Iterate

namespace ClientGen

open TypeScript

/-- The first of what is found in lists that are put together. -/
theorem findSome?_flatMap {α β γ : Type} {f : β → Option γ} {g : α → List β} (as : List α) :
    (as.flatMap g).findSome? f = as.findSome? fun a => (g a).findSome? f := by
  induction as with
  | nil => rfl
  | cons a rest ih =>
    rw [List.flatMap_cons, List.findSome?_append, ih, List.findSome?_cons]
    cases (g a).findSome? f <;> rfl

/-! ## The tree of declarations -/

/-- A node of the tree along which the declarations of a schema are made. -/
structure DeclNode extends Node where
  /-- How many of the steps down to it are counted. -/
  counted : Nat
  /-- Whether it is declared by itself, or else written in place. -/
  declared : Bool

namespace DeclNode

/-- The same node one step further down. -/
def below (n : DeclNode) : DeclNode := { n with toNode := n.toNode.below }

/-- The same node below the interface out of which it is lifted.  What is written in place keeps
    its own count. -/
def lifted (n : DeclNode) : DeclNode :=
  { n.below with counted := if n.declared then n.counted + 1 else n.counted }

/-- A node of the type of a whole schema. -/
def inAlias (n : Node) : DeclNode := ⟨n, n.steps, false⟩

/-- A node of a type in an interface, of which the step down from the interface is not counted. -/
def inInterface (n : Node) : DeclNode := ⟨n.below, n.steps, false⟩

end DeclNode

namespace Schema

theorem sizeOf_lt_of_mem_declared {s : Schema} {property : String × Schema}
    (h : property ∈ s.properties?.getD []) : sizeOf property.2 < sizeOf s := by
  cases hproperties : s.properties? with
  | none =>
    rw [hproperties] at h
    exact absurd h List.not_mem_nil
  | some properties =>
    rw [hproperties] at h
    exact sizeOf_lt_of_mem_properties hproperties h

/-- The nodes of an object schema that is declared as an interface. -/
def interfaceNodes (s : Schema) : List DeclNode :=
  ⟨⟨0, s⟩, 0, true⟩ ::
    ((s.properties?.getD []).attach.flatMap fun property =>
        if property.1.2.isLiftable then (interfaceNodes property.1.2).map .lifted
        else property.1.2.nodes.map .inInterface)
      ++ s.additionalSchema?.toList.flatMap fun values => values.nodes.map .inInterface
termination_by sizeOf s
decreasing_by exact sizeOf_lt_of_mem_declared property.2

/-- The nodes below a property of an interface. -/
def propertyNodes (s : Schema) : List DeclNode :=
  if s.isLiftable then s.interfaceNodes.map .lifted else s.nodes.map .inInterface

theorem interfaceNodes_eq (s : Schema) :
    s.interfaceNodes = ⟨⟨0, s⟩, 0, true⟩ ::
      ((s.properties?.getD []).flatMap fun property => property.2.propertyNodes)
        ++ s.additionalSchema?.toList.flatMap fun values => values.nodes.map .inInterface := by
  rw [interfaceNodes, List.flatMap_subtype (g := fun property => property.2.propertyNodes)
    fun _ _ => rfl, List.unattach_attach]

end Schema

/-- The nodes of the tree along which the declarations of a schema are made. -/
def Document.declNodes (d : Document) (s : Schema) : List DeclNode :=
  if s.isEnum then [⟨⟨0, s⟩, 0, true⟩]
  else if s.isObject then s.interfaceNodes
  else match s.extension? with
    | some (pointer, own) =>
      -- the reference is followed before it is decided how the schema is declared
      (((s.allOf.getD []).filter (·.isReference)).map fun parent => ⟨⟨1, parent⟩, 1, false⟩)
        ++ match (schemaKey? pointer).bind d.schema? with
          | none => []
          | some parent =>
            if parent.isExtensible d then own.interfaceNodes.map .below
            else s.nodes.map .inAlias
    | none => s.nodes.map .inAlias

/-! ## Faults along the tree -/

namespace DeclNode

variable (d : Document) (key : String)

/-- How the making of declarations fails at a node when lifting may go `levels` deep. -/
def fault? (levels : Nat) (n : DeclNode) : Option GenerationError :=
  if n.declared then
    if n.counted < levels then none else some (.tooDeep key nestingLimit)
  else (Node.visit d key (nestingLimit + 1) ⟨n.counted, n.schema⟩).fault?

theorem fault?_lifted (levels : Nat) (n : DeclNode) :
    n.lifted.fault? d key (levels + 1) = n.fault? d key levels := by
  obtain ⟨node, counted, declared⟩ := n
  cases declared with
  | true =>
    unfold fault? lifted
    simp [below]
  | false => rfl

theorem fault?_inInterface (levels : Nat) (n : Node) :
    (inInterface n).fault? d key levels = (n.visit d key (nestingLimit + 1)).fault? := rfl

theorem fault?_inAlias (levels : Nat) (n : Node) :
    (inAlias n).fault? d key levels = (n.visit d key (nestingLimit + 1)).fault? := rfl

end DeclNode

section Faults

variable {d : Document} {key : String}

theorem fault?_declaredType (s : Schema) :
    (declaredType d key s).fault?
      = s.nodes.findSome? fun n => (n.visit d key (nestingLimit + 1)).fault? := by
  rw [declaredType, Traced.fault?_mapNotes, fault?_typeOf]

theorem fault?_indexType (s : Schema) :
    (indexType (typeOf d key) s).fault? = s.additionalSchema?.toList.findSome? fun values =>
      values.nodes.findSome? fun n => (n.visit d key (nestingLimit + 1)).fault? := by
  rw [← Traced.fault?_course, course_indexType, Traced.fault?_forM]
  simp only [Traced.fault?_course, fault?_typeOf]

/-- A property fails as the nodes below it do. -/
theorem fault?_propertyType (model : ModelName)
    {lift : ModelName → Schema → Declaring (List InterfaceDecl)} {levels : Nat}
    (hlift : ∀ m s, (lift m s).fault? = s.interfaceNodes.findSome? (DeclNode.fault? d key levels))
    (property : String × Schema) :
    (propertyType d key model lift property).fault?
      = property.2.propertyNodes.findSome? (DeclNode.fault? d key (levels + 1)) := by
  obtain ⟨name, s⟩ := property
  unfold propertyType Schema.propertyNodes
  dsimp only
  split
  · have hclaim (c : Claim) : (Traced.note (Need.claim c)).fault? = none := rfl
    rw [Traced.fault?_bind fun _ => (Traced.fault?_bind_of_none fun _ => rfl).trans (hlift _ s),
      hclaim, Option.none_or, List.findSome?_map]
    simp only [Function.comp_def, DeclNode.fault?_lifted]
  · rw [Traced.fault?_bind_of_none fun _ => rfl, fault?_declaredType, List.findSome?_map]
    simp only [Function.comp_def, DeclNode.fault?_inInterface]

/-- By induction on the levels of lifting that are left. -/
theorem fault?_interfacesWithin (levels : Nat) (docs parents : List String) (model : ModelName)
    (s : Schema) : (interfacesWithin d key levels docs parents model s).fault?
      = s.interfaceNodes.findSome? (DeclNode.fault? d key levels) := by
  induction levels generalizing docs parents model s with
  | zero =>
    rw [Schema.interfaceNodes_eq]
    rfl
  | succ levels ih =>
    have htop : DeclNode.fault? d key (levels + 1) ⟨⟨0, s⟩, 0, true⟩ = none := by
      simp [DeclNode.fault?]
    have hproperty (property : String × Schema) :=
      fault?_propertyType model (fun m inner => ih inner.docs [] m inner) property
    unfold interfacesWithin
    rw [Traced.fault?_bind fun _ => Traced.fault?_bind_of_none fun _ => rfl, Traced.fault?_mapM,
      Traced.fault?_mapNotes, fault?_indexType, Schema.interfaceNodes_eq, List.cons_append,
      List.findSome?_cons, htop, List.findSome?_append, findSome?_flatMap, findSome?_flatMap]
    simp only [hproperty, List.findSome?_map, Function.comp_def, DeclNode.fault?_inInterface]

theorem fault?_interfaces (docs parents : List String) (model : ModelName) (s : Schema) :
    (interfaces d key docs parents model s).fault?
      = s.interfaceNodes.findSome? (DeclNode.fault? d key (nestingLimit + 1)) := by
  rw [interfaces, Traced.fault?_map, fault?_interfacesWithin]

theorem fault?_aliasOf (model : ModelName) (s : Schema) :
    (aliasOf d key model s).fault?
      = (s.nodes.map .inAlias).findSome? (DeclNode.fault? d key (nestingLimit + 1)) := by
  rw [aliasOf, Traced.fault?_bind_of_none fun _ => rfl, fault?_declaredType, List.findSome?_map]
  simp only [Function.comp_def, DeclNode.fault?_inAlias]

theorem Schema.kind_of_reference {s : Schema} {pointer : String} (h : s.reference = some pointer) :
    s.kind = .reference pointer := by
  rw [kind, h]

/-- The member of an extending schema that is a reference. -/
theorem Schema.exists_parent_of_extension? {s own : Schema} {pointer : String}
    (h : s.extension? = some (pointer, own)) :
    ∃ parent, (s.allOf.getD []).filter (·.isReference) = [parent] ∧
      parent.kind = .reference pointer := by
  unfold extension? at h
  split at h
  · next a b hmembers =>
    rw [hmembers]
    split at h
    · next p ha hb =>
      split at h
      · cases h
        exact ⟨a, by simp [isReference, ha, hb], kind_of_reference ha⟩
      · cases h
    · next p ha hb =>
      split at h
      · cases h
        exact ⟨b, by simp [isReference, ha, hb], kind_of_reference hb⟩
      · cases h
    · cases h
  · cases h

/-- A reference fails to be resolved when it leads to no component. -/
theorem resolveSchema_of_none {pointer referrer : String}
    (h : (schemaKey? pointer).bind d.schema? = none) :
    d.resolveSchema pointer referrer = .error (.unresolvedReference pointer referrer) := by
  cases hresolve : d.resolveSchema pointer referrer with
  | error e => rw [Document.resolveSchema_eq_error hresolve]
  | ok target =>
    obtain ⟨hkey, htarget⟩ := Document.resolveSchema_eq_ok_iff.1 hresolve
    rw [hkey, Option.bind_some, htarget] at h
    cases h

theorem fault?_extendingInterface (model : ModelName) {s own : Schema} {pointer : String}
    (h : s.extension? = some (pointer, own)) (henum : s.isEnum = false)
    (hobject : s.isObject = false) :
    (extendingInterface d key model s pointer own).fault?
      = (d.declNodes s).findSome? (DeclNode.fault? d key (nestingLimit + 1)) := by
  obtain ⟨parent, hparent, hkind⟩ := Schema.exists_parent_of_extension? h
  have hvisit : DeclNode.fault? d key (nestingLimit + 1) ⟨⟨1, parent⟩, 1, false⟩
      = (referenceType d key pointer).fault? := by
    show (Node.visit d key (nestingLimit + 1) ⟨1, parent⟩).fault? = _
    rw [Node.visit, if_pos (Nat.succ_lt_succ (by decide)), Schema.visit, hkind,
      Traced.fault?_course]
  unfold Document.declNodes extendingInterface
  rw [if_neg (Bool.eq_false_iff.1 henum), if_neg (Bool.eq_false_iff.1 hobject), h]
  dsimp only
  rw [hparent, List.map_singleton, List.singleton_append, List.findSome?_cons, hvisit]
  cases htarget : (schemaKey? pointer).bind d.schema? with
  | none =>
    rw [referenceType, resolveSchema_of_none htarget]
    rfl
  | some target =>
    obtain ⟨k, hk, htarget⟩ := Option.bind_eq_some_iff.1 htarget
    rw [referenceType_of_some key hk htarget, Document.resolveSchema_eq_ok_iff.2 ⟨hk, htarget⟩]
    show (if target.isExtensible d then _ else _ : Declaring (List Declaration)).fault? = _
    dsimp only
    split
    · have hname : (Traced.mapNotes Need.import (⟨[.model (.ofReference k)],
          .ok (ModelName.ofReference k).name⟩ : Importing String)).fault? = none := rfl
      rw [Traced.fault?_bind fun _ => fault?_interfaces _ _ _ _, hname, Option.none_or,
        List.findSome?_map]
      rfl
    · exact fault?_aliasOf model s

/-- The declarations of a schema fail as the first node of their tree does that fails. -/
theorem fault?_modelDecls (s : Schema) :
    (modelDecls d key s).fault?
      = (d.declNodes s).findSome? (DeclNode.fault? d key (nestingLimit + 1)) := by
  unfold modelDecls
  dsimp only
  split
  · next henum =>
    rw [Document.declNodes, if_pos henum]
    rfl
  · next henum =>
    have henum := Bool.eq_false_iff.2 henum
    split
    · next hobject =>
      rw [Document.declNodes, if_neg (Bool.eq_false_iff.1 henum), if_pos hobject,
        fault?_interfaces]
    · next hobject =>
      split
      · next pointer own hextension =>
        exact fault?_extendingInterface _ hextension henum (Bool.eq_false_iff.2 hobject)
      · next hextension =>
        rw [Document.declNodes, if_neg (Bool.eq_false_iff.1 henum), if_neg hobject, hextension,
          fault?_aliasOf]

end Faults

/-! ## Nodes that are passed -/

namespace DeclNode

/-- Whether a node is no reference that is written in place, or else one to a component. -/
def Leads (d : Document) (n : DeclNode) : Prop :=
  n.declared = false → ∀ pointer, n.schema.kind = .reference pointer →
    ∃ key target, schemaKey? pointer = some key ∧ d.schema? key = some target

/-- Whether a node can be passed: it leads on, and no more than 64 of the steps down to it are
    counted. -/
structure Passable (d : Document) (n : DeclNode) : Prop where
  counted : n.counted ≤ 64
  leads : n.Leads d

variable {d : Document} {key : String} {n : DeclNode}

theorem fault?_eq_none_iff : n.fault? d key (nestingLimit + 1) = none ↔ n.Passable d := by
  unfold fault?
  split
  · next hdeclared =>
    have hleads : n.Leads d := by
      intro hwritten
      rw [hdeclared] at hwritten
      cases hwritten
    constructor
    · intro h
      split at h
      · next hlt => exact ⟨Nat.lt_succ_iff.1 hlt, hleads⟩
      · cases h
    · exact fun h => if_pos (Nat.lt_succ_iff.2 h.counted)
  · next hdeclared =>
    rw [Node.fault?_visit_eq_none_iff]
    constructor
    · exact fun h => ⟨h.steps, fun _ => h.reference⟩
    · exact fun h => ⟨h.counted, h.leads (Bool.eq_false_iff.2 hdeclared)⟩

theorem fault?_eq_tooDeep_iff :
    n.fault? d key (nestingLimit + 1) = some (.tooDeep key 64) ↔ 64 < n.counted := by
  unfold fault?
  split
  · constructor
    · intro h
      split at h
      · cases h
      · next hlt => exact Nat.not_lt.1 hlt
    · exact fun h => if_neg (Nat.not_lt.2 h)
  · rw [Node.fault?_visit_eq_some_iff]
    constructor
    · intro h
      cases h with
      | deep h => exact h
    · exact fun h => .deep h

end DeclNode

section Outcomes

variable {d : Document} {key : String} {s : Schema}

theorem exists_decls_iff :
    (∃ decls, (modelDecls d key s).result = .ok decls) ↔ ∀ n ∈ d.declNodes s, n.Passable d := by
  rw [← Traced.fault?_eq_none_iff, fault?_modelDecls, List.findSome?_eq_none_iff]
  simp only [DeclNode.fault?_eq_none_iff]

theorem modelDecls_eq_tooDeep_iff :
    (modelDecls d key s).result = .error (.tooDeep key 64) ↔ ∃ before n after,
      d.declNodes s = before ++ n :: after ∧ (∀ earlier ∈ before, earlier.Passable d) ∧
        64 < n.counted := by
  rw [← Traced.fault?_eq_some_iff, fault?_modelDecls, List.findSome?_eq_some_iff]
  simp only [DeclNode.fault?_eq_none_iff, DeclNode.fault?_eq_tooDeep_iff]
  constructor
  · rintro ⟨before, n, after, hnodes, hdeep, hbefore⟩
    exact ⟨before, n, after, hnodes, hbefore, hdeep⟩
  · rintro ⟨before, n, after, hnodes, hbefore, hdeep⟩
    exact ⟨before, n, after, hnodes, hdeep, hbefore⟩

/-- Where all references lead to components, only the counts decide. -/
theorem modelDecls_eq_tooDeep_iff_of_leads (h : ∀ n ∈ d.declNodes s, n.Leads d) :
    (modelDecls d key s).result = .error (.tooDeep key 64) ↔ ∃ n ∈ d.declNodes s, 64 < n.counted := by
  rw [modelDecls_eq_tooDeep_iff]
  constructor
  · rintro ⟨before, n, after, hnodes, -, hdeep⟩
    exact ⟨n, by simp [hnodes], hdeep⟩
  · rintro ⟨n, hn, hdeep⟩
    -- the first node that is counted too deep
    obtain ⟨m, hm⟩ : ∃ m, (d.declNodes s).find? (64 < ·.counted) = some m :=
      Option.isSome_iff_exists.1 (List.find?_isSome.2 ⟨n, hn, by simpa using hdeep⟩)
    obtain ⟨hdeep, before, after, hnodes, hbefore⟩ := List.find?_eq_some_iff_append.1 hm
    refine ⟨before, m, after, hnodes, fun earlier hearlier => ⟨?_, ?_⟩, by simpa using hdeep⟩
    · simpa using hbefore earlier hearlier
    · exact h earlier (by simp [hnodes, hearlier])

end Outcomes

/-! ## Steps and counts -/

namespace DeclNode

/-- Whether the steps down to a node of an interface's tree are those of lifting, or these and one
    more and those that its type counts. -/
def Spans (nodes : List DeclNode) (n : DeclNode) : Prop :=
  (n.declared = true ∧ n.steps = n.counted) ∨
    n.declared = false ∧ ∃ m ∈ nodes, m.declared = true ∧ n.steps = m.counted + 1 + n.counted

theorem Spans.lifted {nodes : List DeclNode} {n : DeclNode} (h : n.Spans nodes) :
    n.lifted.Spans (nodes.map lifted) := by
  rcases h with ⟨hdeclared, hsteps⟩ | ⟨hdeclared, m, hm, hmdeclared, hsteps⟩
  · exact .inl ⟨hdeclared, by simp [DeclNode.lifted, DeclNode.below, Node.below, hdeclared, hsteps]⟩
  · refine .inr ⟨hdeclared, m.lifted, List.mem_map_of_mem hm, hmdeclared, ?_⟩
    simp only [DeclNode.lifted, DeclNode.below, Node.below, hdeclared, hmdeclared, hsteps]
    simp only [if_true, Bool.false_eq_true, if_false]
    omega

theorem Spans.mono {nodes others : List DeclNode} {n : DeclNode} (h : n.Spans nodes)
    (hsub : nodes ⊆ others) : n.Spans others := by
  rcases h with h | ⟨hdeclared, m, hm, h⟩
  · exact .inl h
  · exact .inr ⟨hdeclared, m, hsub hm, h⟩

/-- A type in an interface spans the step down from the interface. -/
theorem spans_inInterface {nodes : List DeclNode} {s : Schema} (h : ⟨⟨0, s⟩, 0, true⟩ ∈ nodes)
    (n : Node) : (inInterface n).Spans nodes :=
  .inr ⟨rfl, _, h, rfl, by simp only [inInterface, Node.below]; omega⟩

end DeclNode

/-- By induction on the schema, as its interfaces are lifted out of each other. -/
theorem spans_of_mem_interfaceNodes {s : Schema} {n : DeclNode} (hn : n ∈ s.interfaceNodes) :
    n.Spans s.interfaceNodes := by
  have htop : ⟨⟨0, s⟩, 0, true⟩ ∈ s.interfaceNodes := by
    rw [Schema.interfaceNodes_eq]
    exact List.mem_cons_self
  have hn' := hn
  rw [Schema.interfaceNodes_eq, List.cons_append, List.mem_cons, List.mem_append,
    List.mem_flatMap, List.mem_flatMap] at hn
  rcases hn with rfl | ⟨property, hproperty, hn⟩ | ⟨values, hvalues, hn⟩
  · exact .inl ⟨rfl, rfl⟩
  · unfold Schema.propertyNodes at hn
    split at hn
    · next hliftable =>
      obtain ⟨m, hm, rfl⟩ := List.mem_map.1 hn
      have hsize := Schema.sizeOf_lt_of_mem_declared hproperty
      refine (spans_of_mem_interfaceNodes hm).lifted.mono fun other hother => ?_
      rw [Schema.interfaceNodes_eq s]
      refine List.mem_append_left _ (List.mem_cons_of_mem _ (List.mem_flatMap.2 ⟨property, hproperty, ?_⟩))
      rw [Schema.propertyNodes, if_pos hliftable]
      exact hother
    · obtain ⟨m, -, rfl⟩ := List.mem_map.1 hn
      exact DeclNode.spans_inInterface htop m
  · obtain ⟨m, -, rfl⟩ := List.mem_map.1 hn
    exact DeclNode.spans_inInterface htop m
termination_by sizeOf s

/-- What the declarations of a schema are made along: an interface, an alias or neither, behind what
    is looked at before. -/
theorem declNodes_cases (d : Document) (s : Schema) :
    ∃ front rest, d.declNodes s = front ++ rest ∧ (∀ n ∈ front, n.steps = n.counted) ∧
      (rest = [] ∨ rest = s.nodes.map .inAlias ∨
        ∃ own : Schema, rest = own.interfaceNodes ∨ rest = own.interfaceNodes.map .below) := by
  unfold Document.declNodes
  split
  · exact ⟨[⟨⟨0, s⟩, 0, true⟩], [], rfl, by simp, .inl rfl⟩
  · split
    · exact ⟨[], s.interfaceNodes, rfl, by simp, .inr (.inr ⟨s, .inl rfl⟩)⟩
    · split
      · next pointer own _ =>
        refine ⟨_, _, rfl, fun n hn => ?_, ?_⟩
        · obtain ⟨parent, -, rfl⟩ := List.mem_map.1 hn
          rfl
        · split
          · exact .inl rfl
          · split
            · exact .inr (.inr ⟨own, .inr rfl⟩)
            · exact .inr (.inl rfl)
      · exact ⟨[], s.nodes.map .inAlias, rfl, by simp, .inr (.inl rfl)⟩

/-- No more steps are counted than there are.  Those that are not counted are one at most, or those
    of lifting and two more. -/
theorem steps_of_mem_declNodes {d : Document} {s : Schema} {n : DeclNode} (hn : n ∈ d.declNodes s) :
    n.counted ≤ n.steps ∧ (n.steps ≤ n.counted + 1 ∨
      ∃ m ∈ d.declNodes s, m.declared = true ∧ n.steps ≤ m.counted + n.counted + 2) := by
  obtain ⟨front, rest, hnodes, hfront, hrest⟩ := declNodes_cases d s
  rw [hnodes] at hn ⊢
  rcases List.mem_append.1 hn with hn | hn
  · have hsteps := hfront n hn
    exact ⟨by omega, .inl (by omega)⟩
  · rcases hrest with rfl | rfl | ⟨own, rfl | rfl⟩
    · exact absurd hn List.not_mem_nil
    · obtain ⟨m, -, rfl⟩ := List.mem_map.1 hn
      exact ⟨Nat.le_refl _, .inl (Nat.le_succ _)⟩
    · rcases spans_of_mem_interfaceNodes hn with ⟨-, hsteps⟩ | ⟨-, m, hm, hdeclared, hsteps⟩
      · exact ⟨by omega, .inl (by omega)⟩
      · exact ⟨by omega, .inr ⟨m, List.mem_append_right _ hm, hdeclared, by omega⟩⟩
    · obtain ⟨n, hown, rfl⟩ := List.mem_map.1 hn
      show n.counted ≤ n.steps + 1 ∧ (n.steps + 1 ≤ n.counted + 1 ∨
        ∃ m ∈ front ++ own.interfaceNodes.map .below, m.declared = true ∧
          n.steps + 1 ≤ m.counted + n.counted + 2)
      rcases spans_of_mem_interfaceNodes hown with ⟨-, hsteps⟩ | ⟨-, m, hm, hdeclared, hsteps⟩
      · exact ⟨by omega, .inl (by omega)⟩
      · refine ⟨by omega, .inr ⟨m.below, ?_, hdeclared, ?_⟩⟩
        · exact List.mem_append_right _ (List.mem_map_of_mem hm)
        · show n.steps + 1 ≤ m.counted + n.counted + 2
          omega

/-- Nothing that is declared goes further down than the two limits and two steps together. -/
theorem steps_le_of_passable {d : Document} {s : Schema}
    (h : ∀ n ∈ d.declNodes s, n.Passable d) : ∀ n ∈ d.declNodes s, n.steps ≤ 130 := by
  intro n hn
  have hcounted := (h n hn).counted
  obtain ⟨-, hsteps | ⟨m, hm, -, hsteps⟩⟩ := steps_of_mem_declNodes hn
  · omega
  · have hlifted := (h m hm).counted
    omega

/-! ## The tree of the schema -/

section Trees

variable {d : Document} {s : Schema}

theorem Schema.isObject_of_kind {properties : List (String × Schema)}
    (h : s.kind = .object properties) : s.isEnum = false ∧ s.isObject = true := by
  obtain ⟨entries, hentries, -⟩ := Option.map_eq_some_iff.1 (properties?_of_kind_object h)
  exact ⟨by grind [Schema.kind], by rw [isObject, hentries, Option.isSome_some]⟩

/-- The interfaces of an object are made along its tree.  By induction on the schema. -/
theorem map_toNode_interfaceNodes {s : Schema} {properties : List (String × Schema)}
    (h : s.kind = .object properties) : s.interfaceNodes.map (·.toNode) = s.nodes := by
  have hproperties := Schema.properties?_of_kind_object h
  have hproperty : ∀ property ∈ properties,
      property.2.propertyNodes.map (·.toNode) = property.2.nodes.map .below := by
    intro property hmem
    have hsize := Schema.sizeOf_lt_of_mem_properties hproperties hmem
    unfold Schema.propertyNodes
    split
    · next hliftable =>
      unfold Schema.isLiftable at hliftable
      split at hliftable
      · next inner hkind =>
        rw [← map_toNode_interfaceNodes hkind, List.map_map, List.map_map]
        rfl
      · cases hliftable
    · rw [List.map_map]
      rfl
  have hinterface (s : Schema) :
      (s.nodes.map DeclNode.inInterface).map (·.toNode) = s.nodes.map .below := by
    rw [List.map_map]
    rfl
  rw [Schema.interfaceNodes_eq, Schema.nodes_eq, Schema.nested, h, hproperties, Option.getD_some,
    List.cons_append, List.map_cons, List.map_append, List.map_flatMap, List.map_flatMap,
    List.flatMap_congr hproperty, List.flatMap_append, List.flatMap_map]
  simp only [hinterface]
termination_by sizeOf s

/-- An object and an alias are declared along their trees. -/
theorem map_toNode_declNodes (h : (∃ properties, s.kind = .object properties) ∨
    s.isEnum = false ∧ s.isObject = false ∧ s.extension? = none) :
    (d.declNodes s).map (·.toNode) = s.nodes := by
  unfold Document.declNodes
  rcases h with ⟨properties, hkind⟩ | ⟨henum, hobject, hextension⟩
  · obtain ⟨henum, hobject⟩ := Schema.isObject_of_kind hkind
    rw [if_neg (Bool.eq_false_iff.1 henum), if_pos hobject, map_toNode_interfaceNodes hkind]
  · rw [if_neg (Bool.eq_false_iff.1 henum), if_neg (Bool.eq_false_iff.1 hobject), hextension,
      List.map_map]
    exact List.map_id _

end Trees

/-! ## Records -/

theorem GenerationError.message_tooDeep (referrer : String) (depth : Nat) :
    (tooDeep referrer depth).message = "Cyclic inline schema in " ++ referrer
      ++ (" (nesting deeper than " ++ toString depth ++ ")") := by
  have htext : (tooDeep referrer depth).message = "Cyclic inline schema in " ++ referrer
      ++ " (nesting deeper than " ++ toString depth ++ ")" := rfl
  rw [htext]
  simp only [String.append_assoc]

/-- The text of a record tells nesting that is too deep from a reference to nothing. -/
theorem GenerationError.eq_tooDeep_of_message {e : GenerationError} (he : e.IsSchemaFault)
    {key : String} (h : e.message = (tooDeep key nestingLimit).message) :
    e = .tooDeep key nestingLimit := by
  rw [message_tooDeep] at h
  rcases he with ⟨pointer, referrer, rfl⟩ | ⟨referrer, rfl⟩
  · -- the two texts begin with different letters
    have htext : (unresolvedReference pointer referrer).message
        = "Unresolved reference '" ++ pointer ++ "' in " ++ referrer := rfl
    have hhead := congrArg (·.toList.head?) (htext.symm.trans h)
    simp [String.toList_append] at hhead
  · rw [message_tooDeep, String.append_left_inj, String.append_right_inj] at h
    rw [h]

section Records

variable {d : Document} {g : Generation} {key : String} {s : Schema}

variable (h : generateModels d = .ok g) (hs : (key, s) ∈ d.modelSchemas)
include h hs

/-- A schema is recorded as too deep just when that is how its declarations fail. -/
theorem mem_skipped_iff :
    .because key (.tooDeep key 64) ∈ g.report.skipped ↔
      (modelDecls d key s).result = .error (.tooDeep key 64) := by
  rw [generateModels_eq_ok h, Generation.skipped_ofPieces]
  constructor
  · intro hrecord
    obtain ⟨s', e, hs', herror, hfault, hsame⟩ := exists_error_of_mem_skipped hrecord
    cases (schema?_of_mem_modelSchemas hs).symm.trans hs'
    rw [GenerationError.eq_tooDeep_of_message hfault (congrArg Skipped.reason hsame).symm] at herror
    exact herror
  · intro herror
    refine List.mem_flatMap.2 ⟨modelPiece d (key, s), List.mem_map_of_mem hs, ?_⟩
    rw [@modelPiece_of_error d (key, s) _ herror]
    exact List.mem_singleton_self _

/-- A schema whose declarations can be made has them in its file. -/
theorem exists_declared_iff :
    (∃ decls f, (modelDecls d key s).result = .ok decls ∧
      g.project.get? (ModelName.ofKey key).file = some f ∧ ∀ decl ∈ decls, decl ∈ f.declarations) ↔
        ∃ decls, (modelDecls d key s).result = .ok decls := by
  constructor
  · rintro ⟨decls, -, hdecls, -⟩
    exact ⟨decls, hdecls⟩
  · rintro ⟨decls, hdecls⟩
    have hmem : modelContribution d (key, s) decls ∈ contributionsOf d.modelPieces := by
      refine List.mem_filterMap.2 ⟨modelPiece d (key, s), List.mem_map_of_mem hs, ?_⟩
      rw [@modelPiece_of_ok d (key, s) _ hdecls]
    obtain ⟨f, hf, hmem⟩ := Project.exists_file_of_mem hmem
    rw [modelContribution_file] at hf
    rw [generateModels_eq_ok h, Generation.project_ofPieces]
    exact ⟨decls, f, hdecls, hf, hmem⟩

end Records

/-- Models are declared along the trees of their schemas.  Those are declared of which every node
    can be passed, and those are recorded as too deep of which the first node that cannot be passed
    is counted more than 64 steps down.  The steps down to a node are counted up to one, or up to
    those of lifting and two, so what is declared is at most 130 steps deep. -/
theorem declaration_depth {d : Document} {g : Generation} (h : generateModels d = .ok g)
    {key : String} {s : Schema} (hs : (key, s) ∈ d.modelSchemas) :
    let nodes := d.declNodes s
    let tooDeep := Skipped.because key (.tooDeep key 64)
    ((∃ properties, s.kind = .object properties) ∨
          s.isEnum = false ∧ s.isObject = false ∧ s.extension? = none →
        nodes.map (·.toNode) = s.nodes) ∧
      ((∃ decls f, (modelDecls d key s).result = .ok decls ∧
          g.project.get? (ModelName.ofKey key).file = some f ∧
          ∀ decl ∈ decls, decl ∈ f.declarations) ↔ ∀ n ∈ nodes, n.Passable d) ∧
      (tooDeep ∈ g.report.skipped ↔ ∃ before n after, nodes = before ++ n :: after ∧
        (∀ earlier ∈ before, earlier.Passable d) ∧ 64 < n.counted) ∧
      ((∀ n ∈ nodes, n.Leads d) →
        (tooDeep ∈ g.report.skipped ↔ ∃ n ∈ nodes, 64 < n.counted)) ∧
      (∀ n ∈ nodes, n.counted ≤ n.steps ∧ (n.steps ≤ n.counted + 1 ∨
        ∃ m ∈ nodes, m.declared = true ∧ n.steps ≤ m.counted + n.counted + 2)) ∧
      ((∀ n ∈ nodes, n.Passable d) → ∀ n ∈ nodes, n.steps ≤ 130) := by
  intro nodes tooDeep
  refine ⟨map_toNode_declNodes, ?_, ?_, fun hleads => ?_, fun n => steps_of_mem_declNodes,
    steps_le_of_passable⟩
  · rw [exists_declared_iff h hs, exists_decls_iff]
  · rw [mem_skipped_iff h hs, modelDecls_eq_tooDeep_iff]
  · rw [mem_skipped_iff h hs, modelDecls_eq_tooDeep_iff_of_leads hleads]

/-- An array of what a schema describes. -/
def arrayOf (s : Schema) : Schema := { type := some (.single "array"), items := some s }

/-- Arrays in arrays, too many of them. -/
def deepArray : Schema := arrayOf^[65] { type := some (.single "string") }

def arraysDocument : Document := { components.schemas := .ofList [("a.Deep", deepArray)] }

theorem declaration_depth_arrays :
    ∃ g, generateModels arraysDocument = .ok g ∧
      g.report.skipped = [.because "a.Deep" (.tooDeep "a.Deep" 64)] ∧
      ∃ n ∈ arraysDocument.declNodes deepArray, 64 < n.counted := by
  have hrun : (generateModels arraysDocument).toOption.any (fun g =>
      g.report.skipped = [.because "a.Deep" (.tooDeep "a.Deep" 64)]) = true := by
    decide +kernel
  obtain ⟨g, hg, hskipped⟩ := exists_ok_of_any hrun
  have hskipped := of_decide_eq_true hskipped
  have hs : ("a.Deep", deepArray) ∈ arraysDocument.modelSchemas :=
    List.mem_filter.2 ⟨List.mem_singleton_self _, by decide +kernel⟩
  obtain ⟨-, -, hrecord, -⟩ := declaration_depth hg hs
  obtain ⟨before, n, after, hnodes, -, hdeep⟩ := hrecord.1 (hskipped ▸ List.mem_singleton_self _)
  refine ⟨g, hg, hskipped, n, ?_, hdeep⟩
  rw [hnodes]
  exact List.mem_append_right _ List.mem_cons_self

/-! ## Levels that are not counted -/

/-- An object with one property. -/
def objectWith (s : Schema) : Schema :=
  { type := some (.single "object"), propertyEntries := some [("n", s)] }

/-- Objects in objects around arrays in arrays. -/
def layeredSchema : Schema :=
  objectWith^[33] (arrayOf^[33] { type := some (.single "string") })

def layeredDocument : Document := { components.schemas := .ofList [("deep.Thing", layeredSchema)] }

/-- A node is further down by as many steps as a schema is wrapped. -/
theorem mem_nodes_iterate {wrap : Schema → Schema} (hwrap : ∀ s, s ∈ (wrap s).nested) {s : Schema}
    {n : Node} (hn : n ∈ s.nodes) (times : Nat) :
    ⟨n.steps + times, n.schema⟩ ∈ (wrap^[times] s).nodes := by
  induction times with
  | zero => exact hn
  | succ times ih =>
    rw [Function.iterate_succ_apply']
    exact Node.below_mem_nodes (hwrap _) ih

/-- Neither the objects nor the arrays alone are nested too deep, so the schema is declared. -/
theorem exists_declared_too_deep :
    ∃ g, generateModels layeredDocument = .ok g ∧ g.report.models = 1 ∧ g.report.skipped = [] ∧
      layeredDocument.modelSchemas = [("deep.Thing", layeredSchema)] ∧
      ∃ n ∈ layeredSchema.nodes, n.steps = 66 := by
  have hrun : (generateModels layeredDocument).toOption.any (fun g =>
      g.report.models = 1 ∧ g.report.skipped = []) = true := by
    decide +kernel
  obtain ⟨g, hg, hreport⟩ := exists_ok_of_any hrun
  obtain ⟨hmodels, hskipped⟩ := of_decide_eq_true hreport
  have harray (s : Schema) : s ∈ (arrayOf s).nested := List.mem_singleton_self _
  have hobject (s : Schema) : s ∈ (objectWith s).nested := List.mem_singleton_self _
  have hleaf := mem_nodes_iterate hobject
    (mem_nodes_iterate harray (Schema.self_mem_nodes { type := some (.single "string") }) 33) 33
  exact ⟨g, hg, hmodels, hskipped, rfl, _, hleaf, rfl⟩

end ClientGen
