/-
  ClientGen.Proofs.Lifting

  What the declarations of a schema are called.  An interface is lifted out of
  an object at a path of property names, and is called after the model and that
  path; the declarations are those of all such paths and that of the model
  itself.
-/
import ClientGen.Generate.ModelDecl
import ClientGen.Proofs.Traced
import Mathlib.Data.List.Nodup

namespace ClientGen

open TypeScript

/-! ## Paths of property names -/

/-- The model of the interface that is lifted out of a path. -/
def ModelName.liftedAt (m : ModelName) (path : List String) : ModelName := path.foldl lifted m

/-- The claim of the interface that is lifted out of a path. -/
def liftedClaim (key : String) (m : ModelName) (path : List String) : Claim :=
  ⟨m.liftedAt path, key ++ "#" ++ path.getLastD ""⟩

/-- The paths at which a property leads to interfaces, itself the first. -/
def pathsThrough (inner : Schema → List (List String)) (property : String × Schema) :
    List (List String) :=
  if property.2.isLiftable then [property.1] :: (inner property.2).map (property.1 :: ·) else []

/-- The paths of the interfaces that are lifted out of a schema within so many levels. -/
def Schema.liftedPaths : Nat → Schema → List (List String)
  | 0, _ => []
  | levels + 1, s => (s.properties?.getD []).flatMap (pathsThrough (liftedPaths levels))

/-- Paths that are different, not empty, and together with all their beginnings. -/
structure PathTree (paths : List (List String)) : Prop where
  nodup : paths.Nodup
  ne_nil : ∀ p ∈ paths, p ≠ []
  closed : ∀ p name, p ++ [name] ∈ paths → p ≠ [] → p ∈ paths

namespace PathTree

theorem nil : PathTree [] where
  nodup := List.nodup_nil
  ne_nil _ h := absurd h List.not_mem_nil
  closed _ _ h := absurd h List.not_mem_nil

variable {inner : Schema → List (List String)} (hinner : ∀ s, PathTree (inner s))
include hinner

theorem through (property : String × Schema) : PathTree (pathsThrough inner property) := by
  obtain ⟨name, s⟩ := property
  unfold pathsThrough
  split
  · have hs := hinner s
    refine ⟨?_, ?_, ?_⟩
    · rw [List.nodup_cons]
      -- the path of the property alone is not among the longer ones
      refine ⟨fun hm => ?_, hs.nodup.map (List.cons_injective)⟩
      obtain ⟨p, hp, heq⟩ := List.mem_map.1 hm
      exact hs.ne_nil p hp (List.cons.inj heq).2
    · intro p hp
      rcases List.mem_cons.1 hp with rfl | hp
      · exact List.cons_ne_nil _ _
      · obtain ⟨q, -, rfl⟩ := List.mem_map.1 hp
        exact List.cons_ne_nil _ _
    · intro p last hp hne
      obtain ⟨first, rest, rfl⟩ := List.exists_cons_of_ne_nil hne
      rcases List.mem_cons.1 hp with heq | hp
      · simp at heq
      · obtain ⟨q, hq, heq⟩ := List.mem_map.1 hp
        obtain ⟨rfl, rfl⟩ := List.cons.inj heq
        -- either the path ends with its first name, or the rest is a path by itself
        by_cases hrest : rest = []
        · rw [hrest]
          exact List.mem_cons_self
        · exact List.mem_cons_of_mem _ (List.mem_map_of_mem (hs.closed rest last hq hrest))
  · exact nil

omit hinner in
/-- The first name of a path through a property is that of the property. -/
theorem head?_of_mem_through {property : String × Schema} {p : List String}
    (h : p ∈ pathsThrough inner property) : p.head? = some property.1 := by
  unfold pathsThrough at h
  split at h
  · rcases List.mem_cons.1 h with rfl | h
    · rfl
    · obtain ⟨q, -, rfl⟩ := List.mem_map.1 h
      rfl
  · exact absurd h List.not_mem_nil

theorem flatMap {properties : List (String × Schema)} (h : (Entries.keys properties).Nodup) :
    PathTree (properties.flatMap (pathsThrough inner)) := by
  refine ⟨?_, ?_, ?_⟩
  · rw [List.nodup_flatMap]
    refine ⟨fun property _ => (through hinner property).nodup, ?_⟩
    -- paths through two properties differ in their first names
    apply List.Pairwise.imp _ (List.pairwise_map.1 h)
    intro a b hne p ha hb
    have hhead := (head?_of_mem_through ha).symm.trans (head?_of_mem_through hb)
    exact hne (Option.some.inj hhead)
  · intro p hp
    obtain ⟨property, -, hp⟩ := List.mem_flatMap.1 hp
    exact (through hinner property).ne_nil p hp
  · intro p name hp hne
    obtain ⟨property, hproperty, hp⟩ := List.mem_flatMap.1 hp
    exact List.mem_flatMap.2 ⟨property, hproperty, (through hinner property).closed p name hp hne⟩

end PathTree

theorem nodup_keys_properties (s : Schema) : (Entries.keys (s.properties?.getD [])).Nodup := by
  cases h : s.properties? with
  | none => exact Entries.nodup_nil
  | some properties => exact Schema.nodup_properties h

/-- By induction on the levels that are left. -/
theorem Schema.pathTree_liftedPaths (levels : Nat) (s : Schema) :
    PathTree (s.liftedPaths levels) := by
  induction levels generalizing s with
  | zero => exact .nil
  | succ levels ih => exact .flatMap ih (nodup_keys_properties s)

/-! ## Claims -/

@[simp] theorem claimsOf_append (needs needs' : List Need) :
    claimsOf (needs ++ needs') = claimsOf needs ++ claimsOf needs' :=
  List.filterMap_append

theorem claimsOf_flatMap {α : Type} (f : α → List Need) (as : List α) :
    claimsOf (as.flatMap f) = as.flatMap fun a => claimsOf (f a) :=
  List.filterMap_flatMap

@[simp] theorem claimsOf_map_import (imports : List Import) :
    claimsOf (imports.map .import) = [] := by
  rw [claimsOf, List.filterMap_map, List.filterMap_eq_nil_iff]
  exact fun _ _ => rfl

/-- The claim of a path below a lifted interface is that of the whole path. -/
theorem liftedClaim_cons (key : String) (m : ModelName) (name : String) {path : List String}
    (h : path ≠ []) : liftedClaim key (m.lifted name) path = liftedClaim key m (name :: path) := by
  obtain ⟨first, rest, rfl⟩ := List.exists_cons_of_ne_nil h
  rfl

/-! ## Declarations -/

/-- What a successful builder of declarations for a model has claimed and declared. -/
structure Lifts (key : String) (m : ModelName) (paths : List (List String))
    (claims : List Claim) (names : List String) : Prop where
  tree : PathTree paths
  claims_eq : claims = paths.map (liftedClaim key m)
  names_perm : names.Perm (paths.map (fun p => (m.liftedAt p).name) ++ [m.name])

section Interfaces

variable {d : Document} {key : String}

/-- The object of a property is lifted, or the property has a type of its own. -/
theorem propertyType_cases {model : ModelName}
    {lift : ModelName → Schema → Declaring (List InterfaceDecl)} {name : String} {s : Schema}
    {decls : List InterfaceDecl} {type : String}
    (h : (propertyType d key model lift (name, s)).result = .ok (decls, type)) :
    (s.isLiftable = true ∧ (lift (model.lifted name) s).result = .ok decls ∧
        type = admitNull s (model.lifted name).name) ∨
      (s.isLiftable = false ∧ decls = [] ∧ (typeOf d key s).result = .ok type) := by
  by_cases hs : s.isLiftable = true
  · simp only [propertyType, hs, if_true] at h
    obtain ⟨_, -, h⟩ := Traced.result_bind_eq_ok_iff.1 h
    obtain ⟨decls', hdecls, h⟩ := Traced.result_bind_eq_ok_iff.1 h
    cases h
    exact .inl ⟨hs, hdecls, rfl⟩
  · simp only [propertyType, hs] at h
    obtain ⟨type', htype, h⟩ := Traced.result_bind_eq_ok_iff.1 h
    cases h
    exact .inr ⟨Bool.eq_false_iff.2 hs, rfl, htype⟩

/-- The claims and names that a property leads to. -/
theorem propertyType_lifts {model : ModelName}
    {lift : ModelName → Schema → Declaring (List InterfaceDecl)} {inner : Schema → List (List String)}
    (hlift : ∀ m s decls, (lift m s).result = .ok decls →
      Lifts key m (inner s) (claimsOf (lift m s).notes) (decls.map (·.name)))
    {property : String × Schema} {decls : List InterfaceDecl} {type : String}
    (h : (propertyType d key model lift property).result = .ok (decls, type)) :
    claimsOf (propertyType d key model lift property).notes
        = (pathsThrough inner property).map (liftedClaim key model) ∧
      (decls.map (·.name)).Perm
        ((pathsThrough inner property).map fun p => (model.liftedAt p).name) := by
  obtain ⟨name, s⟩ := property
  by_cases hs : s.isLiftable = true
  · simp only [propertyType, hs, if_true, pathsThrough] at h ⊢
    obtain ⟨_, -, h⟩ := Traced.result_bind_eq_ok_iff.1 h
    obtain ⟨decls', hdecls, h⟩ := Traced.result_bind_eq_ok_iff.1 h
    cases h
    obtain ⟨htree, hclaims, hnames⟩ := hlift _ _ _ hdecls
    constructor
    · -- the claim of the property comes first, and is followed by those inside it
      rw [Traced.bind_of_ok (Traced.result_note _), Traced.bind_of_ok hdecls]
      simp only [Traced.notes_note, Traced.notes_pure, List.append_nil, claimsOf_append, hclaims,
        List.map_cons, List.map_map]
      have hpaths : (inner s).map (liftedClaim key (model.lifted name))
          = (inner s).map (liftedClaim key model ∘ (name :: ·)) := by
        apply List.map_congr_left
        exact fun p hp => liftedClaim_cons key model name (htree.ne_nil p hp)
      rw [hpaths]
      rfl
    · -- the interface itself is declared last
      refine hnames.trans ?_
      rw [List.map_cons, List.map_map]
      exact List.perm_append_singleton _ _
  · simp only [propertyType, hs, pathsThrough] at h ⊢
    obtain ⟨type', htype, h⟩ := Traced.result_bind_eq_ok_iff.1 h
    cases h
    rw [Traced.bind_of_ok htype]
    simp [declaredType]

/-- What holds for each of two lists' items holds for what they lead to together. -/
theorem perm_flatMap_of_forall₂ {α β γ : Type} {as : List α} {bs : List β} {f : α → List γ}
    {g : β → List γ} (h : List.Forall₂ (fun a b => (g b).Perm (f a)) as bs) :
    (bs.flatMap g).Perm (as.flatMap f) := by
  induction h with
  | nil => exact .refl _
  | cons hab _ ih =>
    rw [List.flatMap_cons, List.flatMap_cons]
    exact hab.append ih

theorem flatMap_congr_of_forall₂ {α β γ : Type} {as : List α} {bs : List β} {f g : α → List γ}
    (h : List.Forall₂ (fun a _ => f a = g a) as bs) : as.flatMap f = as.flatMap g := by
  induction h with
  | nil => rfl
  | cons hab _ ih => rw [List.flatMap_cons, List.flatMap_cons, hab, ih]

/-- By induction on the levels of lifting that are left. -/
theorem interfacesWithin_lifts {levels : Nat} {docs parents : List String} {model : ModelName}
    {s : Schema} {decls : List InterfaceDecl}
    (h : (interfacesWithin d key levels docs parents model s).result = .ok decls) :
    Lifts key model (s.liftedPaths levels)
      (claimsOf (interfacesWithin d key levels docs parents model s).notes)
      (decls.map (·.name)) := by
  induction levels generalizing docs parents model s decls with
  | zero => cases h
  | succ levels ih =>
    unfold interfacesWithin at h ⊢
    obtain ⟨types, htypes, h⟩ := Traced.result_bind_eq_ok_iff.1 h
    obtain ⟨index, hindex, h⟩ := Traced.result_bind_eq_ok_iff.1 h
    cases h
    obtain ⟨hall, hnotes⟩ := Traced.mapM_of_ok htypes
    -- every property, with what it has become
    have hproperties := hall.imp fun property result hresult =>
      propertyType_lifts (fun (_ : ModelName) _ _ hdecls => ih hdecls) hresult
    rw [Traced.bind_of_ok htypes, Traced.bind_of_ok hindex, hnotes]
    refine ⟨s.pathTree_liftedPaths (levels + 1), ?_, ?_⟩
    · simp only [claimsOf_append, claimsOf_flatMap, Traced.notes_mapNotes, claimsOf_map_import,
        Traced.notes_pure, List.append_nil, Schema.liftedPaths, List.map_flatMap]
      exact flatMap_congr_of_forall₂ (hproperties.imp fun _ _ h => h.1)
    · rw [List.map_append, List.map_flatMap, Schema.liftedPaths, List.map_flatMap]
      apply List.Perm.append_right
      exact perm_flatMap_of_forall₂ (hproperties.imp fun _ _ h => h.2)

end Interfaces

/-! ## Models -/

section Models

variable {d : Document} {key : String} {model : ModelName} {s : Schema} {decls : List Declaration}

/-- A declaration without lifted interfaces claims nothing. -/
theorem Lifts.single (key : String) (m : ModelName) : Lifts key m [] [] [m.name] :=
  ⟨.nil, rfl, .refl _⟩

/-- A builder of declarations that, when it succeeds, has lifted interfaces from some paths. -/
def LiftsFrom (key : String) (m : ModelName) (t : Declaring (List Declaration)) : Prop :=
  ∀ decls, t.result = .ok decls →
    ∃ paths, Lifts key m paths (claimsOf t.notes) (decls.map (·.name))

/-- What goes before a builder does not matter when it claims nothing. -/
theorem LiftsFrom.bind {α : Type} {t : Declaring α} {f : α → Declaring (List Declaration)}
    (ht : claimsOf t.notes = []) (hf : ∀ a, t.result = .ok a → LiftsFrom key model (f a)) :
    LiftsFrom key model (t >>= f) := by
  intro decls h
  obtain ⟨a, ha, h⟩ := Traced.result_bind_eq_ok_iff.1 h
  rw [Traced.bind_of_ok ha, claimsOf_append, ht, List.nil_append]
  exact hf a ha decls h

theorem interfaces_lifts (docs parents : List String) :
    LiftsFrom key model (interfaces d key docs parents model s) := by
  intro decls h
  obtain ⟨decls', hdecls, rfl⟩ := Traced.result_map_eq_ok_iff.1 h
  refine ⟨s.liftedPaths (nestingLimit + 1), ?_⟩
  rw [interfaces, Traced.notes_map, List.map_map]
  exact interfacesWithin_lifts hdecls

theorem aliasOf_lifts : LiftsFrom key model (aliasOf d key model s) := by
  apply LiftsFrom.bind (claimsOf_map_import _)
  rintro type - decls h
  cases h
  exact ⟨[], .single key model⟩

theorem extendingInterface_lifts (pointer : String) (own : Schema) :
    LiftsFrom key model (extendingInterface d key model s pointer own) := by
  apply LiftsFrom.bind rfl
  rintro ⟨_, parent⟩ -
  dsimp only
  split
  · exact LiftsFrom.bind (claimsOf_map_import _) fun name _ => interfaces_lifts s.docs [name]
  · exact aliasOf_lifts

/-- The declarations of a schema are its model and the interfaces lifted out of some paths. -/
theorem modelDecls_lifts : LiftsFrom key (.ofKey key) (modelDecls d key s) := by
  unfold modelDecls
  dsimp only
  split
  · intro decls h
    cases h
    exact ⟨[], .single key _⟩
  · split
    · exact interfaces_lifts s.docs []
    · split
      · exact extendingInterface_lifts _ _
      · exact aliasOf_lifts

/-- The model of a schema is among its declarations. -/
theorem exists_model_of_modelDecls (h : (modelDecls d key s).result = .ok decls) :
    ∃ decl ∈ decls, decl.name = (ModelName.ofKey key).name := by
  obtain ⟨paths, hlifts⟩ := modelDecls_lifts decls h
  have hmem : (ModelName.ofKey key).name ∈ decls.map (·.name) :=
    hlifts.names_perm.mem_iff.2 (List.mem_append_right _ (List.mem_singleton_self _))
  exact List.mem_map.1 hmem

end Models

end ClientGen
