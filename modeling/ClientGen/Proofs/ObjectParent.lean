/-
  ClientGen.Proofs.ObjectParent

  What interfaces extend.  An interface can extend an object type only, or an alias of
  one.  Whether it extends a model is decided by the schema of that model, without making
  its type: null, and whatever precedes an object there, are overlooked.
  `isObjectModel_of_parent_iff` says when an extended model is an object type.
-/
import ClientGen.Proofs.Assembly
import ClientGen.Proofs.ModelShape
import ClientGen.Proofs.TypeForm

namespace ClientGen

open TypeScript

/-! ## Object types -/

namespace Schema

section Classes

-- `framework` says which reserved keys have object types, as nothing is generated for them
variable (d : Document) (framework : String → Prop)

/-- Whether the type of a schema is an object type or an intersection of such types, when the
    aliases in it are followed.  Types of maps and arrays are object types too, and so is a union
    of a single one. -/
inductive IsObjectType : Schema → Prop
  | map {s : Schema} {values : Option Schema} (hkind : s.kind = .map values)
      (hnull : s.nullable = false) : IsObjectType s
  | array {s : Schema} {items : Option Schema} (hkind : s.kind = .array items)
      (hnull : s.nullable = false) : IsObjectType s
  | object {s : Schema} {properties : List (String × Schema)} (hkind : s.kind = .object properties)
      (hnull : s.nullable = false) : IsObjectType s
  | composition {s : Schema} {c : Composition} {members : List Schema}
      (hkind : s.kind = .composition c members) (hnull : s.nullable = false)
      (hmeet : c = .allOf ∨ members.length = 1) (hmembers : ∀ m ∈ members, IsObjectType m) :
      IsObjectType s
  | framework {s : Schema} {key : String} {t : Schema} (hkey : s.referencedKey? = some key)
      (htarget : d.schema? key = some t) (hnull : s.nullable = false)
      (hreserved : ModelName.isReserved key = true) (hframework : framework key) : IsObjectType s
  | interface {s : Schema} {key : String} {t : Schema} (hkey : s.referencedKey? = some key)
      (htarget : d.schema? key = some t) (hnull : s.nullable = false)
      (hreserved : ModelName.isReserved key = false) (hshape : t.shape d = .interface) :
      IsObjectType s
  | aliased {s : Schema} {key : String} {t : Schema} (hkey : s.referencedKey? = some key)
      (htarget : d.schema? key = some t) (hnull : s.nullable = false)
      (hreserved : ModelName.isReserved key = false) (hshape : t.shape d = .alias)
      (ht : IsObjectType t) : IsObjectType s

/-- Whether the model of a schema is an interface, or the alias of an object type. -/
def IsObjectModel (s : Schema) : Prop :=
  s.shape d = .interface ∨ s.shape d = .alias ∧ s.IsObjectType d framework

/-- The schemas on which the type of a schema rests: itself, the members of an intersection that
    has no properties of its own, and the schemas of the aliases that it refers to. -/
inductive RestsOn : Schema → Schema → Prop
  | refl (s : Schema) : RestsOn s s
  | member {s m u : Schema} {c : Composition} {members : List Schema}
      (hkind : s.kind = .composition c members) (hobject : s.isObject = false) (hm : m ∈ members)
      (h : RestsOn m u) : RestsOn s u
  | aliased {s t u : Schema} {key : String} (hkey : s.referencedKey? = some key)
      (htarget : d.schema? key = some t) (hreserved : ModelName.isReserved key = false)
      (hshape : t.shape d = .alias) (h : RestsOn t u) : RestsOn s u

/-- Whether a schema stays an object by itself: null is not admitted, a reference is to no enum,
    and neither a constant, an enumeration nor a union precedes the properties.  The members of an
    intersection count here when it has properties of its own. -/
def KeepsObject (s : Schema) : Prop :=
  s.nullable = false ∧
    match s.kind with
    | .map _ | .array _ | .object _ => True
    | .reference _ => ∃ key t, s.referencedKey? = some key ∧ d.schema? key = some t ∧
        (ModelName.isReserved key = true → framework key) ∧
        (ModelName.isReserved key = false → t.shape d ≠ .enum)
    | .composition c members => (c = .allOf ∨ members.length = 1) ∧
        (s.isObject = true → ∀ m ∈ members, m.IsObjectType d framework)
    | .const _ | .enum _ | .primitive _ | .unknown => False

end Classes

variable {d : Document} {framework : String → Prop} {s u : Schema}

/-! ### What a kind says of the rest -/

theorem kind_of_referencedKey? {key : String} (h : s.referencedKey? = some key) :
    ∃ pointer, s.kind = .reference pointer := by
  obtain ⟨pointer, hpointer, -⟩ := Option.bind_eq_some_iff.1 h
  refine ⟨pointer, ?_⟩
  unfold kind
  rw [hpointer]

theorem referencedKey?_of_kind_composition {c : Composition} {members : List Schema}
    (h : s.kind = .composition c members) : s.referencedKey? = none := by
  cases hkey : s.referencedKey? with
  | none => rfl
  | some key =>
    obtain ⟨pointer, hkind⟩ := kind_of_referencedKey? hkey
    rw [h] at hkind
    cases hkind

/-! ### What makes an object type -/

/-- What an object type is made of, by its kind. -/
theorem IsObjectType.inv (h : s.IsObjectType d framework) :
    s.nullable = false ∧
      match s.kind with
      | .map _ | .array _ | .object _ => True
      | .reference _ => ∃ key t, s.referencedKey? = some key ∧ d.schema? key = some t ∧
          (ModelName.isReserved key = true → framework key) ∧
          (ModelName.isReserved key = false →
            t.shape d = .interface ∨ t.shape d = .alias ∧ t.IsObjectType d framework)
      | .composition c members => (c = .allOf ∨ members.length = 1) ∧
          ∀ m ∈ members, m.IsObjectType d framework
      | .const _ | .enum _ | .primitive _ | .unknown => False := by
  cases h with
  | map hkind hnull | array hkind hnull | object hkind hnull =>
    rw [hkind]
    exact ⟨hnull, trivial⟩
  | composition hkind hnull hmeet hmembers =>
    rw [hkind]
    exact ⟨hnull, hmeet, hmembers⟩
  | framework hkey htarget hnull hreserved hframework =>
    obtain ⟨pointer, hkind⟩ := kind_of_referencedKey? hkey
    rw [hkind]
    exact ⟨hnull, _, _, hkey, htarget, fun _ => hframework, fun h => by simp [hreserved] at h⟩
  | interface hkey htarget hnull hreserved hshape =>
    obtain ⟨pointer, hkind⟩ := kind_of_referencedKey? hkey
    rw [hkind]
    exact ⟨hnull, _, _, hkey, htarget, fun h => by simp [hreserved] at h, fun _ => .inl hshape⟩
  | aliased hkey htarget hnull hreserved hshape ht =>
    obtain ⟨pointer, hkind⟩ := kind_of_referencedKey? hkey
    rw [hkind]
    exact ⟨hnull, _, _, hkey, htarget, fun h => by simp [hreserved] at h,
      fun _ => .inr ⟨hshape, ht⟩⟩

theorem IsObjectType.nullable (h : s.IsObjectType d framework) : s.nullable = false := h.inv.1

theorem IsObjectType.keepsObject (h : s.IsObjectType d framework) : s.KeepsObject d framework := by
  obtain ⟨hnull, hown⟩ := h.inv
  refine ⟨hnull, ?_⟩
  cases hkind : s.kind with
  | reference pointer =>
    rw [hkind] at hown
    obtain ⟨key, t, hkey, htarget, hframework, hmodel⟩ := hown
    refine ⟨key, t, hkey, htarget, hframework, fun hreserved => ?_⟩
    rcases hmodel hreserved with hshape | ⟨hshape, -⟩ <;> rw [hshape] <;> decide
  | composition c members =>
    rw [hkind] at hown
    exact ⟨hown.1, fun _ => hown.2⟩
  | _ =>
    rw [hkind] at hown
    exact hown

/-- An alias that is an object type is the alias of one. -/
theorem IsObjectType.target {key : String} {t : Schema} (h : s.IsObjectType d framework)
    (hkey : s.referencedKey? = some key) (htarget : d.schema? key = some t)
    (hreserved : ModelName.isReserved key = false) (hshape : t.shape d = .alias) :
    t.IsObjectType d framework := by
  obtain ⟨pointer, hkind⟩ := kind_of_referencedKey? hkey
  obtain ⟨-, hown⟩ := h.inv
  rw [hkind] at hown
  obtain ⟨_, _, hkey', htarget', -, hmodel⟩ := hown
  cases hkey.symm.trans hkey'
  cases htarget.symm.trans htarget'
  rcases hmodel hreserved with hinterface | ⟨-, ht⟩
  · cases hshape.symm.trans hinterface
  · exact ht

/-- The members of an object type are object types. -/
theorem IsObjectType.member {c : Composition} {members : List Schema}
    (h : s.IsObjectType d framework) (hkind : s.kind = .composition c members) :
    ∀ m ∈ members, m.IsObjectType d framework := by
  obtain ⟨-, hown⟩ := h.inv
  rw [hkind] at hown
  exact hown.2

/-- An object type rests on object types. -/
theorem IsObjectType.of_restsOn (h : s.IsObjectType d framework) (hrests : s.RestsOn d u) :
    u.IsObjectType d framework := by
  induction hrests with
  | refl => exact h
  | member hkind _ hm _ ih => exact ih (h.member hkind _ hm)
  | aliased hkey htarget hreserved hshape _ ih =>
    exact ih (h.target hkey htarget hreserved hshape)

/-! ### What is extended -/

/-- A reference is extended when what it means is. -/
theorem isExtensibleWithin_target {levels : Nat} {key : String} {t : Schema}
    (h : s.isExtensibleWithin d (levels + 1) = true) (hkey : s.referencedKey? = some key)
    (htarget : d.schema? key = some t) : t.isExtensibleWithin d levels = true := by
  unfold isExtensibleWithin at h
  rw [hkey] at h
  dsimp only at h
  rw [htarget] at h
  exact h

/-- What is composed without properties of its own is extended when all members are. -/
theorem isExtensibleWithin_member {levels : Nat} {c : Composition} {members : List Schema}
    (h : s.isExtensibleWithin d (levels + 1) = true) (hkind : s.kind = .composition c members)
    (hobject : s.isObject = false) : ∀ m ∈ members, m.isExtensibleWithin d levels = true := by
  have hcomposed := composition?_of_kind_composition hkind
  unfold isExtensibleWithin at h
  rw [referencedKey?_of_kind_composition hkind] at h
  dsimp only at h
  rw [hobject, Bool.false_or] at h
  split at h
  · next all hall =>
    rw [composition?, hall, Option.map_some, Option.some_or, Option.some.injEq, Prod.mk.injEq]
      at hcomposed
    rw [← hcomposed.2]
    exact List.all_eq_true.1 (Bool.and_eq_true_iff.1 h).2
  · cases h

/-- What is extended is an object type when all that it rests on stays one.  By induction on the
    levels, since each step on which a type rests takes one. -/
theorem isObjectType_of_isExtensibleWithin {levels : Nat}
    (h : s.isExtensibleWithin d levels = true)
    (hkeeps : ∀ u, s.RestsOn d u → u.KeepsObject d framework) : s.IsObjectType d framework := by
  induction levels generalizing s with
  | zero => cases h
  | succ levels ih =>
    obtain ⟨hnull, hown⟩ := hkeeps s (.refl s)
    cases hkind : s.kind with
    | map values => exact .map hkind hnull
    | array items => exact .array hkind hnull
    | object properties => exact .object hkind hnull
    | reference pointer =>
      rw [hkind] at hown
      obtain ⟨key, t, hkey, htarget, hframework, hnoEnum⟩ := hown
      cases hreserved : ModelName.isReserved key with
      | true => exact .framework hkey htarget hnull hreserved (hframework hreserved)
      | false =>
        cases hshape : t.shape d with
        | enum => exact absurd hshape (hnoEnum hreserved)
        | interface => exact .interface hkey htarget hnull hreserved hshape
        | «alias» =>
          refine .aliased hkey htarget hnull hreserved hshape ?_
          exact ih (isExtensibleWithin_target h hkey htarget) fun u hu =>
            hkeeps u (.aliased hkey htarget hreserved hshape hu)
    | composition c members =>
      rw [hkind] at hown
      refine .composition hkind hnull hown.1 fun m hm => ?_
      cases hobject : s.isObject with
      | true => exact hown.2 hobject m hm
      | false =>
        exact ih (isExtensibleWithin_member h hkind hobject m hm) fun u hu =>
          hkeeps u (.member hkind hobject hm hu)
    | _ =>
      rw [hkind] at hown
      exact hown.elim

theorem isObjectType_iff_of_isExtensible (h : s.isExtensible d = true) :
    s.IsObjectType d framework ↔ ∀ u, s.RestsOn d u → u.KeepsObject d framework :=
  ⟨fun hs _ hu => (hs.of_restsOn hu).keepsObject, isObjectType_of_isExtensibleWithin h⟩

theorem isObjectModel_iff_of_isExtensible (h : s.isExtensible d = true) :
    s.IsObjectModel d framework ↔
      s.shape d ≠ .enum ∧
        (s.shape d = .alias → ∀ u, s.RestsOn d u → u.KeepsObject d framework) := by
  rw [IsObjectModel, isObjectType_iff_of_isExtensible h]
  cases s.shape d <;> simp

end Schema

/-! ## Parents -/

/-- A generated interface extends at most one model: that of the component to which the schema of
    the interface refers, if this is extensible.  It is declared as its own schema says, and it is
    an object model just when it is no enum and, if it is an alias, all that the alias rests on
    stays an object. -/
theorem isObjectModel_of_parent_iff {d : Document} {config : Configuration} {g : Generation}
    {path : String} {f : SourceFile} {i : InterfaceDecl} (framework : String → Prop)
    (h : generation d d.service config = .ok g) (hf : g.project.get? path = some f)
    (hi : .interface i ∈ f.declarations) (hparents : i.parents ≠ []) :
    ∃ entry ∈ d.modelSchemas, ∃ models pointer own p t,
      (modelDecls d entry.1 entry.2).result = .ok models ∧ .interface i ∈ models ∧
      entry.2.extension? = some (pointer, own) ∧
      d.resolveSchema pointer entry.1 = .ok (p, t) ∧ t.isExtensible d = true ∧
      i.parents = [(ModelName.ofReference p).name] ∧ d.schema? p = some t ∧
      (∀ decls, (modelDecls d p t).result = .ok decls →
        ∃ front last, decls = front ++ [last] ∧ DeclaredAs d p t (t.shape d) last) ∧
      (t.IsObjectModel d framework ↔
        t.shape d ≠ .enum ∧
          (t.shape d = .alias → ∀ s, t.RestsOn d s → s.KeepsObject d framework)) := by
  rw [generation_eq_ok h, Generation.project_ofPieces] at hf
  rw [Project.declarations_of_get? hf] at hi
  obtain ⟨c, hc, hi⟩ := List.mem_flatMap.1 hi
  obtain ⟨entry, hentry, hdecls, -⟩ :=
    exists_model_of_decl (mem_contributionsTo.1 hc).1 hi (.inr ⟨i, rfl⟩)
  obtain ⟨pointer, own, p, t, hextension, htarget, hextensible, hp⟩ :=
    exists_parent_of_modelDecls hdecls hi hparents
  obtain ⟨-, ht⟩ := Document.resolveSchema_eq_ok_iff.1 htarget
  exact ⟨entry, hentry, c.decls, pointer, own, p, t, hdecls, hi, hextension, htarget, hextensible,
    hp, ht, fun _ => declaredAs_of_modelDecls,
    Schema.isObjectModel_iff_of_isExtensible hextensible⟩

/-! ### A pair and its child -/

/-- Whether an interface extends just what is called by a name. -/
def TypeScript.Declaration.isChildOf (name : String) : Declaration → Bool
  | .interface i => i.parents = [name]
  | _ => false

/-- A base and a mark, a pair that is made of them, and a child of the pair. -/
def pairDocument (pair : Schema) : Document :=
  let text : Schema := { type := some (.single "string") }
  let own : Schema := { propertyEntries := some [("x", text)] }
  { components.schemas := .ofList
      [("a.Base", { propertyEntries := some [("id", text)] }),
       ("a.Mark", { propertyEntries := some [("m", text)] }),
       ("a.Pair", pair),
       ("a.Child", { allOf := some [.referenceTo "a.Pair", own] })] }

/-- What is both a base and a mark. -/
def baseAndMark : Schema := { allOf := some [.referenceTo "a.Base", .referenceTo "a.Mark"] }

theorem eq_of_name_pair {pair t : Schema} {p : String}
    (hname : (ModelName.ofReference p).name = "Pair")
    (h : (pairDocument pair).schema? p = some t) : t = pair := by
  have hkeys : ∀ key ∈ ["a.Base", "a.Mark", "a.Pair", "a.Child"],
      (ModelName.ofReference key).name = "Pair" → key = "a.Pair" := by
    decide +kernel
  have hkey : p ∈ (pairDocument pair).components.schemas.keys :=
    List.mem_map_of_mem (OrderedMap.get?_eq_some_iff.1 h)
  have hpair : (pairDocument pair).schema? "a.Pair" = some pair := rfl
  rw [hkeys p hkey hname, hpair] at h
  exact (Option.some.inj h).symm

theorem exists_child_of_run {d : Document}
    (hrun : (generation d d.service {}).toOption.any (fun g =>
      (g.project.get? "a/types.ts").any (·.declarations.any (·.isChildOf "Pair"))) = true) :
    ∃ g f i, generation d d.service {} = .ok g ∧ g.project.get? "a/types.ts" = some f ∧
      .interface i ∈ f.declarations ∧ i.parents = ["Pair"] := by
  obtain ⟨g, hg, hfile⟩ := exists_ok_of_any hrun
  obtain ⟨f, hf, hchild⟩ := (Option.any_eq_true _ _).1 hfile
  obtain ⟨child, hmem, hchild⟩ := List.any_eq_true.1 hchild
  cases child with
  | interface i => exact ⟨g, f, i, hg, hf, hmem, of_decide_eq_true hchild⟩
  | _ => cases hchild

/-- A document in which the pair is that. -/
def markedDocument : Document := pairDocument baseAndMark

/-- The child extends the pair, and the pair is an object model. -/
theorem isObjectModel_of_parent_iff_pair :
    ∃ g f i, generation markedDocument markedDocument.service {} = .ok g ∧
      g.project.get? "a/types.ts" = some f ∧ .interface i ∈ f.declarations ∧
      i.parents = ["Pair"] ∧ baseAndMark.shape markedDocument = .alias ∧
      baseAndMark.IsObjectModel markedDocument (fun _ => False) := by
  obtain ⟨g, f, i, hg, hf, hi, hparents⟩ :=
    exists_child_of_run (d := markedDocument) (by decide +kernel)
  obtain ⟨-, -, -, -, -, p, t, -, -, -, -, -, hp, htarget, -, hiff⟩ :=
    isObjectModel_of_parent_iff (fun _ => False) hg hf hi (hparents ▸ List.cons_ne_nil _ _)
  have ht : t = baseAndMark :=
    eq_of_name_pair (List.singleton_inj.1 (hp.symm.trans hparents)) htarget
  subst ht
  have hshape : baseAndMark.shape markedDocument = .alias := rfl
  have hkind : baseAndMark.kind
      = .composition .allOf [.referenceTo "a.Base", .referenceTo "a.Mark"] := rfl
  have hkeeps : ∀ s, baseAndMark.RestsOn markedDocument s →
      s.KeepsObject markedDocument (fun _ => False) := by
    intro s hs
    cases hs with
    | refl => exact ⟨rfl, .inl rfl, fun h => nomatch h⟩
    | @member _ m _ _ _ hkind' _ hm hs =>
      cases hkind.symm.trans hkind'
      -- both members are references to interfaces
      have hm : m.IsObjectType markedDocument (fun _ => False) := by
        rcases List.mem_pair.1 hm with rfl | rfl <;> exact .interface rfl rfl rfl rfl rfl
      exact (hm.of_restsOn hs).keepsObject
    | aliased hkey _ _ _ _ => cases hkey
  exact ⟨g, f, i, hg, hf, hi, hparents, hshape, hiff.2 ⟨by rw [hshape]; decide, fun _ => hkeeps⟩⟩

/-- Such a pair, or null. -/
def pairOrNull : Schema := { baseAndMark with nullable := true }

/-- A document in which the pair may be null. -/
def nullableDocument : Document := pairDocument pairOrNull

/-- The child extends the pair just the same when it may be null, though the alias of the pair is a
    union then. -/
theorem exists_union_parent :
    ∃ g f i decl, generation nullableDocument nullableDocument.service {} = .ok g ∧
      g.project.get? "a/types.ts" = some f ∧ .interface i ∈ f.declarations ∧
      i.parents = ["Pair"] ∧
      (modelDecls nullableDocument "a.Pair" pairOrNull).result = .ok [.alias decl] ∧
      decl.name = "Pair" ∧ decl.typeExpr = "(Base & Mark) | null" ∧
      ∀ framework, ¬ pairOrNull.IsObjectModel nullableDocument framework := by
  obtain ⟨g, f, i, hg, hf, hi, hparents⟩ :=
    exists_child_of_run (d := nullableDocument) (by decide +kernel)
  refine ⟨g, f, i, { name := "Pair", typeExpr := "(Base & Mark) | null" }, hg, hf, hi, hparents,
    rfl, rfl, rfl, ?_⟩
  rintro framework (hshape | ⟨-, hobject⟩)
  · cases hshape
  · cases hobject.nullable

end ClientGen
