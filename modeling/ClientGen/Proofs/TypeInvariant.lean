/-
  ClientGen.Proofs.TypeInvariant

  Properties of the types of schemas.  What every way of making a type keeps holds of
  the type of every schema, whatever is nested in it.
-/
import ClientGen.Proofs.TypeForm

namespace ClientGen

open TypeScript

/-- Whether a property of types is kept by all ways in which types are made.  There is one for
    each kind of schema, and one by which null is admitted. -/
structure TypeInvariant (P : String → Prop) : Prop where
  any : P anyType
  reference : ∀ key, P (ModelName.ofReference key).name
  map : ∀ values, P values → P ("Record<string, " ++ values ++ ">")
  const : ∀ value : Constant, P value.literal
  enum : ∀ members : List String, P (" | ".intercalate (members.map stringLiteral))
  composition : ∀ (c : Composition) (types : List String), (∀ type ∈ types, P type) →
    P (joinTypes c.operator types)
  array : ∀ items, P items → P (arrayType items)
  object : ∀ (members : List PropertyDecl) (index : Option String),
    (∀ p ∈ members, P p.typeExpr) → (∀ type ∈ index, P type) → P (objectType members index)
  primitive : ∀ names, P (primitiveUnion names)
  null : ∀ s type, P type → P (admitNull s type)

namespace TypeInvariant

variable {P : String → Prop} {d : Document} {Inner : Schema → String → Prop} {s : Schema}
  {referrer type : String}

theorem optionalForm (hP : TypeInvariant P) (hinner : ∀ s type, Inner s type → P type)
    {s? : Option Schema} (h : OptionalForm Inner s? type) : P type := by
  cases s? with
  | none =>
    cases h
    exact hP.any
  | some s => exact hinner s type h

theorem indexForm (hP : TypeInvariant P) (hinner : ∀ s type, Inner s type → P type)
    {index : Option String} (h : IndexForm Inner s index) : ∀ type ∈ index, P type := by
  intro type htype
  cases h with
  | schema _ hvalues =>
    cases htype
    exact hinner _ type hvalues
  | any _ =>
    cases htype
    exact hP.any
  | closed _ => cases htype

/-- One form after the other. -/
theorem typeForm (hP : TypeInvariant P) (hinner : ∀ s type, Inner s type → P type)
    (h : TypeForm d Inner s type) : P type := by
  cases h with
  | reference _ _ _ => exact hP.reference _
  | map _ hvalues => exact hP.map _ (hP.optionalForm hinner hvalues)
  | const _ => exact hP.const _
  | enum _ => exact hP.enum _
  | composition _ htypes =>
    refine hP.composition _ _ fun type htype => ?_
    obtain ⟨member, -, hmember⟩ := exists_of_mem_of_forall₂ htypes htype
    exact hinner member type hmember
  | array _ hitems => exact hP.array _ (hP.optionalForm hinner hitems)
  | object _ hmembers hindex =>
    refine hP.object _ _ (fun p hp => ?_) (hP.indexForm hinner hindex)
    obtain ⟨property, -, hproperty⟩ := exists_of_mem_of_forall₂ hmembers hp
    exact hinner property.2 p.typeExpr hproperty.type
  | primitive _ => exact hP.primitive _
  | unknown _ => exact hP.any

/-- By induction on the levels that are left. -/
theorem typeWithin (hP : TypeInvariant P) {levels : Nat}
    (h : (ClientGen.typeWithin d referrer levels s).result = .ok type) : P type := by
  induction levels generalizing s type with
  | zero => cases h
  | succ levels ih =>
    obtain ⟨bare, hbare, rfl⟩ := typeForm_of_typedWithin h
    exact hP.null s bare (hP.typeForm (fun _ _ hnested => ih hnested) hbare)

/-- An invariant holds of the types of all schemas. -/
theorem typeOf (hP : TypeInvariant P) (h : (ClientGen.typeOf d referrer s).result = .ok type) : P type :=
  hP.typeWithin h

end TypeInvariant

end ClientGen
