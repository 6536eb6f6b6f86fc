/-
  ClientGen.Proofs.TypeForm

  How the types of schemas are made.  There is one form for each kind of schema, made of
  the types of what is nested in it; `typeForm_of_typeByKind` says that no type comes about
  in another way.  How deep the nesting may still go, and what a type is for, matters for
  failures only (`typeWithin_extends`), so a schema has one type (`TypedWithin.unique`).
-/
import ClientGen.Generate.SchemaType
import ClientGen.Proofs.Reference

namespace ClientGen

open TypeScript

/-! ## Forms -/

section Forms

variable (d : Document) (Inner : Schema → String → Prop)

/-- The type of an optional schema. -/
def OptionalForm : Option Schema → String → Prop
  | some s, type => Inner s type
  | none, type => type = anyType

/-- A member of an object type that is made of a property. -/
structure MemberForm (required : List String) (property : String × Schema) (member : PropertyDecl) :
    Prop where
  name : member.name = property.1
  optional : member.optional = !required.contains property.1
  type : Inner property.2 member.typeExpr

/-- The type of the values under further keys, when those are allowed. -/
inductive IndexForm (s : Schema) : Option String → Prop
  | schema {values : Schema} {type : String} (h : s.additional = some (.schema values))
      (hvalues : Inner values type) : IndexForm s (some type)
  | any (h : s.additional = some (.allowed true)) : IndexForm s (some anyType)
  | closed (h : s.isOpen = false) : IndexForm s none

/-- A type of a schema, apart from null, that is made of the types `Inner` of what is nested
    in it. -/
inductive TypeForm (s : Schema) : String → Prop
  | reference {pointer key : String} {target : Schema} (hkind : s.kind = .reference pointer)
      (hkey : schemaKey? pointer = some key) (htarget : d.schema? key = some target) :
      TypeForm s (ModelName.ofReference key).name
  | map {values : Option Schema} {type : String} (hkind : s.kind = .map values)
      (hvalues : OptionalForm Inner values type) : TypeForm s ("Record<string, " ++ type ++ ">")
  | const {value : Constant} (hkind : s.kind = .const value) : TypeForm s value.literal
  | enum {members : List String} (hkind : s.kind = .enum members) :
      TypeForm s (" | ".intercalate (members.map stringLiteral))
  | composition {c : Composition} {members : List Schema} {types : List String}
      (hkind : s.kind = .composition c members) (htypes : List.Forall₂ Inner members types) :
      TypeForm s (joinTypes c.operator types)
  | array {items : Option Schema} {type : String} (hkind : s.kind = .array items)
      (hitems : OptionalForm Inner items type) : TypeForm s (arrayType type)
  | object {properties : List (String × Schema)} {members : List PropertyDecl}
      {index : Option String} (hkind : s.kind = .object properties)
      (hmembers : List.Forall₂ (MemberForm Inner s.required) properties members)
      (hindex : IndexForm Inner s index) : TypeForm s (objectType members index)
  | primitive {names : List String} (hkind : s.kind = .primitive names) :
      TypeForm s (primitiveUnion names)
  | unknown (hkind : s.kind = .unknown) : TypeForm s anyType

end Forms

section Making

variable {d : Document} {referrer type : String} {inner : Schema → Importing String}

/-- The types that a builder gives. -/
def Makes (build : Schema → Importing String) (s : Schema) (type : String) : Prop :=
  (build s).result = .ok type

theorem optionalForm_of_typeOr {s? : Option Schema} (h : (typeOr inner s?).result = .ok type) :
    OptionalForm (Makes inner) s? type := by
  cases s? with
  | none =>
    cases h
    rfl
  | some s => exact h

theorem memberForm_of_memberType {required : List String} {property : String × Schema}
    {member : PropertyDecl} (h : (memberType inner required property).result = .ok member) :
    MemberForm (Makes inner) required property member := by
  obtain ⟨type, htype, h⟩ := Traced.result_bind_eq_ok_iff.1 h
  cases h
  exact ⟨rfl, rfl, htype⟩

theorem indexForm_of_indexType {s : Schema} {index : Option String}
    (h : (indexType inner s).result = .ok index) : IndexForm (Makes inner) s index := by
  unfold indexType at h
  split at h
  · next values hvalues =>
    obtain ⟨type, htype, rfl⟩ := Traced.result_map_eq_ok_iff.1 h
    exact .schema hvalues htype
  · next hany =>
    cases h
    exact .any hany
  · next hschema hany =>
    cases h
    refine .closed ?_
    unfold Schema.isOpen
    split
    · next b hb =>
      cases b with
      | true => exact absurd hb hany
      | false => rfl
    · next values hvalues => exact absurd hvalues (hschema values)
    · rfl

/-- One kind of schema after the other. -/
theorem typeForm_of_typeByKind {s : Schema} (h : (typeByKind d referrer inner s).result = .ok type) :
    TypeForm d (Makes inner) s type := by
  unfold typeByKind at h
  cases hkind : s.kind with
  | reference pointer =>
    rw [hkind] at h
    obtain ⟨⟨key, target⟩, htarget, h⟩ := Traced.result_bind_eq_ok_iff.1 h
    obtain ⟨_, -, h⟩ := Traced.result_bind_eq_ok_iff.1 h
    cases h
    obtain ⟨hkey, hs⟩ := Document.resolveSchema_eq_ok_iff.1 htarget
    exact .reference hkind hkey hs
  | map values =>
    rw [hkind] at h
    obtain ⟨value, hvalue, h⟩ := Traced.result_bind_eq_ok_iff.1 h
    cases h
    exact .map hkind (optionalForm_of_typeOr hvalue)
  | const value =>
    rw [hkind] at h
    cases h
    exact .const hkind
  | enum members =>
    rw [hkind] at h
    cases h
    exact .enum hkind
  | composition c members =>
    rw [hkind] at h
    obtain ⟨types, htypes, h⟩ := Traced.result_bind_eq_ok_iff.1 h
    cases h
    exact .composition hkind (Traced.mapM_of_ok htypes).1
  | array items =>
    rw [hkind] at h
    obtain ⟨element, helement, h⟩ := Traced.result_bind_eq_ok_iff.1 h
    cases h
    exact .array hkind (optionalForm_of_typeOr helement)
  | object properties =>
    rw [hkind] at h
    obtain ⟨members, hmembers, h⟩ := Traced.result_bind_eq_ok_iff.1 h
    obtain ⟨index, hindex, h⟩ := Traced.result_bind_eq_ok_iff.1 h
    cases h
    obtain ⟨hall, -⟩ := Traced.mapM_of_ok hmembers
    exact .object hkind (hall.imp fun _ _ h => memberForm_of_memberType h)
      (indexForm_of_indexType hindex)
  | primitive names =>
    rw [hkind] at h
    cases h
    exact .primitive hkind
  | unknown =>
    rw [hkind] at h
    cases h
    exact .unknown hkind

/-- The types of schemas whose nesting may go `levels` deep. -/
abbrev TypedWithin (d : Document) (referrer : String) (levels : Nat) : Schema → String → Prop :=
  Makes (typeWithin d referrer levels)

/-- A type that was made is that of a form, perhaps with null. -/
theorem typeForm_of_typedWithin {levels : Nat} {s : Schema}
    (h : TypedWithin d referrer (levels + 1) s type) :
    ∃ bare, TypeForm d (TypedWithin d referrer levels) s bare ∧ type = admitNull s bare := by
  obtain ⟨bare, hbare, rfl⟩ := Traced.result_map_eq_ok_iff.1 h
  exact ⟨bare, typeForm_of_typeByKind hbare, rfl⟩

end Making

/-! ## More levels -/

section Levels

variable {d : Document} {referrer referrer' : String} {inner inner' : Schema → Importing String}

/-- What a type is for matters only when the reference means nothing. -/
theorem referenceType_extends (pointer : String) :
    (referenceType d referrer' pointer).Extends (referenceType d referrer pointer) := by
  have hresolve : (Traced.ofExcept (d.resolveSchema pointer referrer') : Importing _).Extends
      (.ofExcept (d.resolveSchema pointer referrer)) := by
    rintro ⟨key, target⟩ h
    exact Document.resolveSchema_eq_ok_iff.2 (Document.resolveSchema_eq_ok_iff.1 h)
  exact hresolve.bind fun _ => .rfl

theorem typeOr_extends (h : ∀ s, (inner' s).Extends (inner s)) (s? : Option Schema) :
    (typeOr inner' s?).Extends (typeOr inner s?) := by
  cases s? with
  | none => exact .rfl
  | some s => exact h s

theorem indexType_extends (h : ∀ s, (inner' s).Extends (inner s)) (s : Schema) :
    (indexType inner' s).Extends (indexType inner s) := by
  unfold indexType
  split
  · exact (h _).map _
  · exact .rfl
  · exact .rfl

theorem typeByKind_extends (h : ∀ s, (inner' s).Extends (inner s)) (s : Schema) :
    (typeByKind d referrer' inner' s).Extends (typeByKind d referrer inner s) := by
  unfold typeByKind
  cases s.kind with
  | reference pointer => exact referenceType_extends pointer
  | map values => exact (typeOr_extends h values).bind fun _ => .rfl
  | composition c members => exact (Traced.Extends.mapM h).bind fun _ => .rfl
  | array items => exact (typeOr_extends h items).bind fun _ => .rfl
  | object properties =>
    have hmember (property : String × Schema) :
        (memberType inner' s.required property).Extends (memberType inner s.required property) :=
      (h property.2).bind fun _ => .rfl
    exact (Traced.Extends.mapM hmember).bind fun _ => (indexType_extends h s).bind fun _ => .rfl
  | _ =>
    -- nothing is nested in the other kinds
    exact .rfl

/-- More levels, and another purpose, only matter for types that fail. -/
theorem typeWithin_extends {levels levels' : Nat} (h : levels ≤ levels') (s : Schema) :
    (typeWithin d referrer' levels' s).Extends (typeWithin d referrer levels s) := by
  induction levels generalizing levels' s with
  | zero =>
    intro type h
    cases h
  | succ levels ih =>
    obtain ⟨levels', rfl⟩ := Nat.exists_eq_add_of_lt h
    exact (typeByKind_extends (ih (Nat.le_add_right ..)) s).map _

/-- A schema has one type, however it was made. -/
theorem TypedWithin.unique {levels levels' : Nat} {s : Schema} {type type' : String}
    (h : TypedWithin d referrer levels s type) (h' : TypedWithin d referrer' levels' s type') :
    type = type' := by
  -- both are the type that is made within the more levels of the two
  have hmax : TypedWithin d referrer (max levels levels') s type :=
    typeWithin_extends (Nat.le_max_left ..) s type h
  have hmax' : TypedWithin d referrer (max levels levels') s type' :=
    typeWithin_extends (Nat.le_max_right ..) s type' h'
  exact Except.ok.inj (hmax.symm.trans hmax')

end Levels

end ClientGen
