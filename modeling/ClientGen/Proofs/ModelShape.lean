/-
  ClientGen.Proofs.ModelShape

  What the model of a schema is declared as.  An enum, an interface or an alias: the schema
  says which, and `declaredAs_of_modelDecls` that the model is declared so whenever it can
  be.  Only an interface that extends a reference has a parent, the extensible component
  that the reference means (`exists_parent_of_modelDecls`).
-/
import ClientGen.Proofs.InlineTree
import ClientGen.Proofs.Lifting

namespace ClientGen

open TypeScript

/-- What the model of a schema is declared as. -/
inductive ModelShape where
  | enum
  | interface
  | alias
deriving DecidableEq

/-- The schema that a pointer means. -/
def Document.target? (d : Document) (pointer : String) : Option Schema :=
  (schemaKey? pointer).bind d.schema?

/-- What the model of a schema is declared as: an enum of its texts, an interface of its
    properties, an interface that extends another model, or else an alias of its type. -/
def Schema.shape (d : Document) (s : Schema) : ModelShape :=
  if s.isEnum then .enum
  else if s.isObject then .interface
  else match s.extension? with
    | some (pointer, _) =>
      if (d.target? pointer).any (·.isExtensible d) then .interface else .alias
    | none => .alias

theorem shape_eq_enum_iff {d : Document} {s : Schema} : s.shape d = .enum ↔ s.isEnum = true := by
  unfold Schema.shape
  split
  · next henum => exact iff_of_true rfl henum
  · next henum =>
    refine iff_of_false ?_ henum
    split
    · exact ModelShape.noConfusion
    · split
      · split <;> exact ModelShape.noConfusion
      · exact ModelShape.noConfusion

/-- A declaration of a certain shape for a schema. -/
inductive DeclaredAs (d : Document) (key : String) (s : Schema) :
    ModelShape → Declaration → Prop
  | enum (decl : EnumDecl) : DeclaredAs d key s .enum (.enum decl)
  | interface (decl : InterfaceDecl) : DeclaredAs d key s .interface (.interface decl)
  | alias (decl : AliasDecl) (h : (typeOf d key s).result = .ok decl.typeExpr) :
      DeclaredAs d key s .alias (.alias decl)

section Models

variable {d : Document} {key : String} {s : Schema}

theorem target?_of_resolveSchema {pointer referrer key : String} {t : Schema}
    (h : d.resolveSchema pointer referrer = .ok (key, t)) : d.target? pointer = some t := by
  obtain ⟨hkey, ht⟩ := Document.resolveSchema_eq_ok_iff.1 h
  rw [Document.target?, hkey, Option.bind_some, ht]

/-- Only the interface that comes last has the parents; those that are lifted have none.  By
    induction on the levels of lifting that are left. -/
theorem parents_of_interfacesWithin {levels : Nat} {docs parents : List String} {model : ModelName}
    {decls : List InterfaceDecl}
    (h : (interfacesWithin d key levels docs parents model s).result = .ok decls) :
    ∃ front last, decls = front ++ [last] ∧ last.parents = parents ∧
      ∀ i ∈ front, i.parents = [] := by
  induction levels generalizing docs parents model s decls with
  | zero => cases h
  | succ levels ih =>
    unfold interfacesWithin at h
    obtain ⟨results, hresults, h⟩ := Traced.result_bind_eq_ok_iff.1 h
    obtain ⟨index, -, h⟩ := Traced.result_bind_eq_ok_iff.1 h
    cases h
    refine ⟨_, _, rfl, rfl, fun i hi => ?_⟩
    obtain ⟨⟨lifted, type⟩, hmem, hi⟩ := List.mem_flatMap.1 hi
    obtain ⟨⟨name, inner⟩, -, hresult⟩ := Traced.exists_of_mem_mapM hresults hmem
    rcases propertyType_cases hresult with ⟨-, hlifted, -⟩ | ⟨-, rfl, -⟩
    · obtain ⟨front, last, rfl, hlast, hfront⟩ := ih hlifted
      rcases List.mem_append.1 hi with hi | hi
      · exact hfront i hi
      · rw [List.mem_singleton.1 hi]
        exact hlast
    · exact absurd hi List.not_mem_nil

/-- How interfaces are declared: the model last, with its parents, behind those lifted out of it,
    which have none. -/
theorem interfaces_cases {docs parents : List String} {model : ModelName} {decls : List Declaration}
    (h : (interfaces d key docs parents model s).result = .ok decls) :
    ∃ (front : List InterfaceDecl) (last : InterfaceDecl),
      decls = front.map .interface ++ [.interface last] ∧ last.parents = parents ∧
        ∀ i ∈ front, i.parents = [] := by
  obtain ⟨decls, hdecls, rfl⟩ := Traced.result_map_eq_ok_iff.1 h
  obtain ⟨front, last, rfl, hlast, hfront⟩ := parents_of_interfacesWithin hdecls
  exact ⟨front, last, List.map_append, hlast, hfront⟩

theorem aliasOf_cases {model : ModelName} {decls : List Declaration}
    (h : (aliasOf d key model s).result = .ok decls) :
    ∃ decl, decls = [.alias decl] ∧ (typeOf d key s).result = .ok decl.typeExpr := by
  obtain ⟨type, htype, h⟩ := Traced.result_bind_eq_ok_iff.1 h
  cases h
  exact ⟨_, rfl, htype⟩

/-- The ways in which a schema can be declared. -/
inductive DeclaredIn (d : Document) (key : String) (s : Schema) (decls : List Declaration) : Prop
  | enum (hshape : s.shape d = .enum) {decl : EnumDecl} (h : decls = [.enum decl])
  | object (hshape : s.shape d = .interface) {docs : List String} {model : ModelName} {own : Schema}
      (h : (interfaces d key docs [] model own).result = .ok decls)
  | extension (hshape : s.shape d = .interface) {docs : List String} {model : ModelName}
      {own own' t : Schema} {pointer p : String} (hextension : s.extension? = some (pointer, own'))
      (htarget : d.resolveSchema pointer key = .ok (p, t)) (hextensible : t.isExtensible d = true)
      (h : (interfaces d key docs [(ModelName.ofReference p).name] model own).result = .ok decls)
  | aliased (hshape : s.shape d = .alias) {model : ModelName}
      (h : (aliasOf d key model s).result = .ok decls)

/-- How an intersection with a reference is declared. -/
theorem declaredIn_of_extendingInterface {pointer : String} {own : Schema} {model : ModelName}
    {decls : List Declaration} (hextension : s.extension? = some (pointer, own))
    (hshape : s.shape d
      = if (d.target? pointer).any (·.isExtensible d) then .interface else .alias)
    (h : (extendingInterface d key model s pointer own).result = .ok decls) :
    DeclaredIn d key s decls := by
  obtain ⟨⟨p, t⟩, htarget, h⟩ := Traced.result_bind_eq_ok_iff.1 h
  dsimp only at h
  have htarget' : d.target? pointer = some t := target?_of_resolveSchema htarget
  obtain ⟨hkey, ht⟩ := Document.resolveSchema_eq_ok_iff.1 htarget
  rw [htarget', Option.any_some] at hshape
  split at h
  · next hextensible =>
    obtain ⟨name, hname, h⟩ := Traced.result_bind_eq_ok_iff.1 h
    -- the reference is resolved once more, with the same result
    have hname' : (referenceType d key pointer).result = .ok name := hname
    rw [referenceType_of_some key hkey ht, Except.ok.injEq] at hname'
    subst hname'
    rw [if_pos hextensible] at hshape
    exact .extension hshape hextension htarget hextensible h
  · next hextensible =>
    rw [if_neg hextensible] at hshape
    exact .aliased hshape h

theorem declaredIn_of_modelDecls {decls : List Declaration}
    (h : (modelDecls d key s).result = .ok decls) : DeclaredIn d key s decls := by
  unfold modelDecls at h
  dsimp only at h
  split at h
  · next henum =>
    cases h
    exact .enum (if_pos henum) rfl
  · next henum =>
    have hnoEnum : s.shape d = _ := if_neg henum
    split at h
    · next hobject => exact .object (hnoEnum.trans (if_pos hobject)) h
    · next hobject =>
      have hnoObject := hnoEnum.trans (if_neg hobject)
      split at h
      · next hextension =>
        rw [hextension] at hnoObject
        exact declaredIn_of_extendingInterface hextension hnoObject h
      · next hextension =>
        rw [hextension] at hnoObject
        exact .aliased hnoObject h

/-- The model of a schema comes last, and is declared as its schema says. -/
theorem declaredAs_of_modelDecls {decls : List Declaration}
    (h : (modelDecls d key s).result = .ok decls) :
    ∃ front last, decls = front ++ [last] ∧ DeclaredAs d key s (s.shape d) last := by
  cases declaredIn_of_modelDecls h with
  | enum hshape h =>
    rw [hshape, h]
    exact ⟨[], _, rfl, .enum _⟩
  | object hshape h =>
    obtain ⟨front, last, hdecls, -⟩ := interfaces_cases h
    rw [hshape, hdecls]
    exact ⟨_, _, rfl, .interface last⟩
  | extension hshape _ _ _ h =>
    obtain ⟨front, last, hdecls, -⟩ := interfaces_cases h
    rw [hshape, hdecls]
    exact ⟨_, _, rfl, .interface last⟩
  | aliased hshape h =>
    obtain ⟨decl, hdecls, htype⟩ := aliasOf_cases h
    rw [hshape, hdecls]
    exact ⟨[], _, rfl, .alias decl htype⟩

/-- All interfaces but the last have no parents. -/
theorem parents_of_mem_interfaces {docs parents : List String} {model : ModelName}
    {decls : List Declaration} {i : InterfaceDecl}
    (h : (interfaces d key docs parents model s).result = .ok decls) (hi : .interface i ∈ decls)
    (hparents : i.parents ≠ []) : i.parents = parents := by
  obtain ⟨front, last, rfl, hlast, hfront⟩ := interfaces_cases h
  rcases List.mem_append.1 hi with hi | hi
  · obtain ⟨other, hother, heq⟩ := List.mem_map.1 hi
    cases heq
    exact absurd (hfront i hother) hparents
  · cases List.mem_singleton.1 hi
    exact hlast

/-- An interface with parents has one, the model of the component that its schema extends, and this
    is extensible. -/
theorem exists_parent_of_modelDecls {decls : List Declaration} {i : InterfaceDecl}
    (h : (modelDecls d key s).result = .ok decls) (hi : .interface i ∈ decls)
    (hparents : i.parents ≠ []) :
    ∃ pointer own p t, s.extension? = some (pointer, own) ∧
      d.resolveSchema pointer key = .ok (p, t) ∧ t.isExtensible d = true ∧
      i.parents = [(ModelName.ofReference p).name] := by
  cases declaredIn_of_modelDecls h with
  | enum _ h =>
    rw [h] at hi
    cases List.mem_singleton.1 hi
  | object _ h => exact absurd (parents_of_mem_interfaces h hi hparents) hparents
  | extension _ hextension htarget hextensible h =>
    exact ⟨_, _, _, _, hextension, htarget, hextensible, parents_of_mem_interfaces h hi hparents⟩
  | aliased _ h =>
    obtain ⟨decl, hdecls, -⟩ := aliasOf_cases h
    rw [hdecls] at hi
    cases List.mem_singleton.1 hi

end Models

end ClientGen
