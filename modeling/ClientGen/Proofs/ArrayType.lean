/-
  ClientGen.Proofs.ArrayType

  Array types.  The type of an array puts the type of its items in parentheses when a scan
  finds an operator in it, and the type of an element is taken out again by another scan.
  `typeWithin_array` says when both do what they are for: always, unless a text that is
  spelt out in the type of the items has an apostrophe.
-/
import ClientGen.Proofs.FilePath
import ClientGen.Proofs.LegibleType

namespace ClientGen

open TypeScript

/-! ## Bare unions -/

/-- Whether the type of a kind of schema is a union without parentheses. -/
def SchemaKind.isBareUnion : SchemaKind → Bool
  | .enum members => 1 < members.length
  | .primitive names => 1 < (names.map primitiveType).eraseDups.length
  | _ => false

/-- Whether the type of a kind of schema is null or anything, so that null is not added to it. -/
def SchemaKind.includesNull : SchemaKind → Bool
  | .const .null | .const .compound | .unknown => true
  | .primitive names => (names.map primitiveType).eraseDups == [nullType]
  | _ => false

/-- Whether the type of a schema is a union without parentheses: that of several texts, that of
    several primitive types, or that to which null is added. -/
def Schema.isBareUnion (s : Schema) : Bool :=
  s.kind.isBareUnion || (s.nullable && !s.kind.includesNull)

/-! ## Ends of types -/

section Ends

variable {d : Document} {Inner : Schema → String → Prop} {s : Schema} {type : String}

theorem getLast?_arrayType (element : String) :
    (arrayType element).toList.getLast? = some ']' := by
  have hlast (front : List Char) : (front ++ "[]".toList).getLast? = some ']' := by
    rw [List.getLast?_append]
    rfl
  unfold arrayType
  split
  · rw [toList_groupArray, hlast]
  · rw [String.toList_append, hlast]

theorem head?_recordType (values : String) :
    ("Record<string, " ++ values ++ ">").toList.head? = some 'R' := by
  rw [toList_recordType, List.head?_append]
  rfl

theorem head?_objectType (members : List PropertyDecl) (index : Option String) :
    (objectType members index).toList.head? = some 'R' ∨
      (objectType members index).toList.head? = some '{' := by
  unfold objectType
  dsimp only
  split
  · exact .inl (head?_recordType "never")
  · rw [toList_braces]
    exact .inr rfl

theorem head?_stringLiteral (s : String) : (stringLiteral s).toList.head? = some '\x27' := by
  rw [stringLiteral, String.toList_ofList]
  rfl

theorem head?_enumType {members : List String} (h : members ≠ []) :
    (" | ".intercalate (members.map stringLiteral)).toList.head? = some '\x27' := by
  obtain ⟨first, others, rfl⟩ := List.exists_cons_of_ne_nil h
  cases others with
  | nil =>
    rw [List.map_singleton, String.intercalate_singleton]
    exact head?_stringLiteral first
  | cons second others =>
    rw [List.map_cons, List.map_cons, String.intercalate_cons_cons, String.append_assoc,
      String.toList_append, List.head?_append, head?_stringLiteral]
    rfl

/-- There is a type for each member of a composition, which has one at least. -/
theorem ne_nil_of_composition {c : Composition} {members : List Schema} {types : List String}
    (hkind : s.kind = .composition c members) (h : List.Forall₂ Inner members types) :
    types ≠ [] := by
  rintro rfl
  have hne := (Schema.keyword_of_composition? (Schema.composition?_of_kind_composition hkind)).1
  exact hne (List.forall₂_nil_right_iff.1 h)

theorem paren_not_mem_primitiveUnion (names : List String) :
    '(' ∉ (primitiveUnion names).toList := by
  have hprimitive (name : String) : '(' ∉ (primitiveType name).toList := by
    unfold primitiveType
    repeat' split
    all_goals decide
  unfold primitiveUnion
  dsimp only
  split
  · decide
  · intro hmem
    rcases Text.mem_intercalate hmem with hmem | ⟨type, htype, hmem⟩
    · exact absurd hmem (by decide)
    · obtain ⟨name, -, rfl⟩ := List.mem_map.1 (List.mem_eraseDups.1 htype)
      exact hprimitive name hmem

/-- A type that is put in parentheses as a whole is that of a composition. -/
theorem exists_closed_of_parentheses (hclosed : ∀ s type, Inner s type → Closed type.toList)
    (h : TypeForm d Inner s type) (hhead : type.toList.head? = some '(')
    (hlast : type.toList.getLast? = some ')') :
    ∃ inner, type = "(" ++ inner ++ ")" ∧ Closed inner.toList := by
  have hmem := List.mem_of_head? hhead
  cases h with
  | reference _ _ _ =>
    rw [ModelName.name_ofReference] at hmem
    exact absurd (ModelName.isAlphanum_of_mem_name_ofKey _ hmem) (by decide)
  | map _ _ =>
    rw [head?_recordType] at hhead
    cases hhead
  | @const value _ =>
    cases value with
    | null => cases hhead
    | boolean b => cases b <;> cases hhead
    | number n => exact absurd (Number.isNumeral_text n _ hmem) (by decide)
    | text t =>
      rw [Constant.literal, head?_stringLiteral] at hhead
      cases hhead
    | compound => cases hhead
  | @enum members hkind =>
    rw [head?_enumType (Schema.ne_nil_of_kind_enum hkind)] at hhead
    cases hhead
  | @composition c members types hkind htypes =>
    have hseparator : Closed c.operator.toList := by cases c <;> decide
    obtain ⟨first, others, rfl⟩ := List.exists_cons_of_ne_nil (ne_nil_of_composition hkind htypes)
    refine ⟨c.operator.intercalate (first :: others), rfl, .intercalate hseparator ?_⟩
    intro type htype
    obtain ⟨member, -, hmember⟩ := exists_of_mem_of_forall₂ htypes htype
    exact hclosed member type hmember
  | array _ _ =>
    rw [getLast?_arrayType] at hlast
    cases hlast
  | object _ _ _ =>
    rcases head?_objectType _ _ with h | h
    all_goals
      rw [h] at hhead
      cases hhead
  | primitive _ => exact absurd hmem (paren_not_mem_primitiveUnion _)
  | unknown _ => cases hhead

end Ends

/-! ## Null -/

section Null

variable {d : Document} {Inner : Schema → String → Prop} {s : Schema} {type : String}

theorem primitiveUnion_of_ne_nil {names : List String} (h : names ≠ []) :
    primitiveUnion names = " | ".intercalate (names.map primitiveType).eraseDups := by
  obtain ⟨first, others, rfl⟩ := List.exists_cons_of_ne_nil h
  rw [primitiveUnion, List.map_cons, List.eraseDups_cons]
  rfl

theorem primitiveUnion_eq_iff {names : List String} (hne : names ≠ [])
    (hnames : ∀ name ∈ names, name ∈ Schema.primitiveNames) :
    primitiveUnion names = nullType ∨ primitiveUnion names = anyType ↔
      (names.map primitiveType).eraseDups = [nullType] := by
  have hmem {type : String} (h : type ∈ (names.map primitiveType).eraseDups) :
      type ∈ Schema.primitiveNames.map primitiveType := by
    obtain ⟨name, hname, rfl⟩ := List.mem_map.1 (List.mem_eraseDups.1 h)
    exact List.mem_map_of_mem (hnames name hname)
  rw [primitiveUnion_of_ne_nil hne]
  obtain ⟨first, others, rfl⟩ := List.exists_cons_of_ne_nil hne
  rw [List.map_cons, List.eraseDups_cons] at hmem ⊢
  generalize ((others.map primitiveType).filter (!· == primitiveType first)).eraseDups = more at *
  cases more with
  | nil =>
    have hany : primitiveType first ≠ anyType := by
      intro heq
      exact absurd (heq ▸ hmem List.mem_cons_self) (by decide)
    simp [hany]
  | cons second rest =>
    -- two types have blanks between them
    have hblank : ' ' ∈ (" | ".intercalate (primitiveType first :: second :: rest)).toList := by
      rw [String.intercalate_cons_cons, String.toList_append, String.toList_append]
      exact List.mem_append_left _ (List.mem_append_right _ (by decide))
    refine iff_of_false ?_ (by simp)
    rintro (h | h)
    all_goals
      rw [h] at hblank
      exact absurd hblank (by decide)

/-- Whether a type is null or anything depends on the kind of the schema only. -/
theorem includesNull_of_typeForm (h : TypeForm d Inner s type) :
    type = nullType ∨ type = anyType ↔ s.kind.includesNull = true := by
  have hopens {type : String} (hhead : type.toList.head?.any Char.isLower = false) :
      ¬(type = nullType ∨ type = anyType) := by
    rintro (rfl | rfl) <;> cases hhead
  have hends {type : String} (hlast : type.toList.getLast? = some ']') :
      ¬(type = nullType ∨ type = anyType) := by
    rintro (rfl | rfl) <;> cases hlast
  cases h with
  | @reference pointer key target hkind _ _ =>
    rw [hkind, ModelName.name_ofReference]
    exact iff_of_false (hopens (ModelName.any_isLower_head?_name_ofKey key)) Bool.false_ne_true
  | @map values type hkind _ =>
    have hhead := head?_recordType type
    rw [hkind]
    exact iff_of_false (hopens (hhead ▸ rfl)) Bool.false_ne_true
  | @const value hkind =>
    rw [hkind]
    cases value with
    | null => exact iff_of_true (.inl rfl) rfl
    | boolean b => cases b <;> exact iff_of_false (by decide) Bool.false_ne_true
    | number n =>
      refine iff_of_false ?_ Bool.false_ne_true
      have hnumeral := Number.isNumeral_text n 'n'
      rintro (h | h)
      all_goals
        rw [show n.text = _ from h] at hnumeral
        exact absurd (hnumeral (by decide)) (by decide)
    | text t =>
      have hhead := head?_stringLiteral t
      exact iff_of_false (hopens (hhead ▸ rfl)) Bool.false_ne_true
    | compound => exact iff_of_true (.inr rfl) rfl
  | @enum members hkind =>
    have hhead := head?_enumType (Schema.ne_nil_of_kind_enum hkind)
    rw [hkind]
    exact iff_of_false (hopens (hhead ▸ rfl)) Bool.false_ne_true
  | @composition c members types hkind htypes =>
    obtain ⟨first, others, rfl⟩ := List.exists_cons_of_ne_nil (ne_nil_of_composition hkind htypes)
    have hhead : (joinTypes c.operator (first :: others)).toList.head? = some '(' := by
      rw [toList_joinTypes]
      rfl
    rw [hkind]
    exact iff_of_false (hopens (hhead ▸ rfl)) Bool.false_ne_true
  | @array items type hkind _ =>
    rw [hkind]
    exact iff_of_false (hends (getLast?_arrayType type)) Bool.false_ne_true
  | @object properties members index hkind _ _ =>
    rw [hkind]
    refine iff_of_false (hopens ?_) Bool.false_ne_true
    rcases head?_objectType members index with hhead | hhead
    · rw [hhead]; rfl
    · rw [hhead]; rfl
  | @primitive names hkind =>
    obtain ⟨hne, hnames⟩ := Schema.mem_primitiveNames_of_kind_primitive hkind
    rw [hkind, primitiveUnion_eq_iff hne hnames, SchemaKind.includesNull, beq_iff_eq]
  | unknown hkind =>
    rw [hkind]
    exact iff_of_true (.inr rfl) rfl

end Null

/-! ## What shows in types -/

namespace TypeScript

/-- A spot that a reader can come to: only quotes open literals. -/
def Spot.Quoted : Spot → Prop
  | .literal quote _ _ => isQuote quote = true
  | .outside _ => True

theorem Spot.quoted_of_walk? {spot next : Spot} {cs : List Char} (h : spot.walk? cs = some next)
    (hspot : spot.Quoted) : next.Quoted := by
  induction cs generalizing spot with
  | nil =>
    cases h
    exact hspot
  | cons c rest ih =>
    rw [Spot.walk?_cons] at h
    obtain ⟨spot', hstep, h⟩ := Option.bind_eq_some_iff.1 h
    refine ih h ?_
    cases spot with
    | literal quote escaped closers => cases escaped <;> grind [Spot.after?, Spot.Quoted]
    | outside closers => grind [Spot.after?, Spot.Quoted]

/-- Null at the end of a closed text is outside of all brackets and literals. -/
theorem Closed.front_of_null {front : List Char} (h : Closed (front ++ "| null".toList)) :
    Closed front := by
  rw [Closed, Spot.walk?_append] at h
  obtain ⟨spot, hfront, hend⟩ := Option.bind_eq_some_iff.1 h
  have hquoted := Spot.quoted_of_walk? hfront trivial
  -- nothing in the end leads out of a literal or a bracket
  have hspot : spot = .outside [] := by
    have hchars : "| null".toList = ['|', ' ', 'n', 'u', 'l', 'l'] := rfl
    rw [hchars] at hend
    cases spot with
    | literal quote escaped closers =>
      rcases Bool.or_eq_true_iff.1 hquoted with hquote | hquote
      all_goals
        rw [eq_of_beq hquote] at hend
        cases escaped <;> simp [Spot.walk?_cons, Spot.after?] at hend
    | outside closers =>
      have hstay : Spot.walk? (.outside closers) ['|', ' ', 'n', 'u', 'l', 'l']
          = some (.outside closers) := rfl
      exact Option.some.inj (hstay.symm.trans hend)
  rw [Closed, hfront, hspot]

/-- If null is admitted at the end of a closed text, the text is a union. -/
theorem shows_bar_of_endsWith {type : String} (hclosed : Closed type.toList)
    (h : Text.endsWith "| null" type = true) : shows '|' type.toList = true := by
  rw [Text.endsWith, List.isSuffixOf_iff_suffix] at h
  obtain ⟨front, htext⟩ := h
  rw [← htext] at hclosed ⊢
  rw [shows_append hclosed.front_of_null, Bool.or_eq_true]
  exact .inr rfl

theorem shows_of_not_mem {p : Char} {cs : List Char} (h : p ∉ cs) : shows p cs = false :=
  Bool.eq_false_iff.2 fun hshows => h (mem_of_showsFrom hshows)

end TypeScript

section Shows

variable {d : Document} {referrer type : String} {levels : Nat} {s : Schema}
  {Inner : Schema → String → Prop}

theorem shows_bar_literal (value : Constant) : shows '|' value.literal.toList = false := by
  cases value with
  | null => rfl
  | boolean b => cases b <;> rfl
  | number n =>
    exact shows_of_not_mem fun hmem => absurd (Number.isNumeral_text n _ hmem) (by decide)
  | text t => exact shows_stringLiteral (by decide) t
  | compound => rfl

theorem shows_bar_recordType {values : String} (h : Closed values.toList) :
    shows '|' ("Record<string, " ++ values ++ ">").toList = false := by
  have hname : Closed "Record".toList := by decide
  have hstring : Closed "string, ".toList := by decide
  rw [toList_recordType, shows_append hname, shows_bracket rfl (by decide) (hstring.append h)]
  rfl

/-- A union of types that are no unions is bare when there are several. -/
theorem shows_bar_union {types : List String} (hclosed : ∀ type ∈ types, Closed type.toList)
    (hnone : ∀ type ∈ types, shows '|' type.toList = false) :
    shows '|' (" | ".intercalate types).toList = decide (1 < types.length) := by
  have hseparator : shows '|' " | ".toList = true := by decide
  have hany : types.any (shows '|' ·.toList) = false :=
    List.any_eq_false.2 fun type htype => Bool.eq_false_iff.1 (hnone type htype)
  rw [shows_intercalate (by decide) hclosed, hany, hseparator, Bool.false_or, Bool.and_true]

/-- An array of a legible type is no union: if the type of its items is, it is in parentheses. -/
theorem shows_bar_arrayType {element : String} (h : Legible element.toList) :
    shows '|' (arrayType element).toList = false := by
  unfold arrayType
  split
  · rw [toList_groupArray, shows_append (h.closed.bracket rfl),
      shows_bracket rfl (by decide) h.closed]
    rfl
  · next hnone =>
    rw [h.hasTopLevelOperator_eq, Bool.or_eq_true, not_or] at hnone
    rw [String.toList_append, shows_append h.closed, Bool.eq_false_iff.2 hnone.1]
    rfl

/-- Inside brackets no operator shows, so the kind alone decides. -/
theorem shows_bar_of_typeForm (hwhole : ∀ s type, Inner s type → Whole type.toList)
    (hitems : ∀ items type, s.kind = .array items → OptionalForm Inner items type →
      Legible type.toList)
    (h : TypeForm d Inner s type) : shows '|' type.toList = s.kind.isBareUnion := by
  cases h with
  | @reference pointer key target hkind _ _ =>
    rw [hkind, ModelName.name_ofReference]
    exact shows_of_not_mem fun hmem =>
      absurd (ModelName.isAlphanum_of_mem_name_ofKey _ hmem) (by decide)
  | map hkind hvalues =>
    rw [hkind]
    exact shows_bar_recordType (whole_invariant.optionalForm hwhole hvalues).closed
  | const hkind =>
    rw [hkind]
    exact shows_bar_literal _
  | @enum members hkind =>
    rw [hkind, shows_bar_union, List.length_map]
    · rfl
    · intro type htype
      obtain ⟨member, -, rfl⟩ := List.mem_map.1 htype
      exact closed_stringLiteral member
    · intro type htype
      obtain ⟨member, -, rfl⟩ := List.mem_map.1 htype
      exact shows_stringLiteral (by decide) member
  | @composition c members types hkind htypes =>
    have hseparator : Closed c.operator.toList := by cases c <;> decide
    obtain ⟨first, others, rfl⟩ := List.exists_cons_of_ne_nil (ne_nil_of_composition hkind htypes)
    rw [hkind, toList_joinTypes]
    refine shows_bracket rfl (by decide) (.intercalate hseparator fun type htype => ?_)
    obtain ⟨member, -, hmember⟩ := exists_of_mem_of_forall₂ htypes htype
    exact (hwhole member type hmember).closed
  | array hkind hitem =>
    have hlegible := hitems _ _ hkind hitem
    rw [hkind]
    exact shows_bar_arrayType hlegible
  | @object properties members index hkind hmembers hindex =>
    have hall : ∀ p ∈ members, Whole p.typeExpr.toList := by
      intro p hp
      obtain ⟨property, -, hform⟩ := exists_of_mem_of_forall₂ hmembers hp
      exact hwhole property.2 p.typeExpr hform.type
    rw [hkind]
    rcases objectType_braces hall (whole_invariant.indexForm hwhole hindex) with
      hempty | ⟨inner, hclosed, htext⟩
    · rw [hempty]
      rfl
    · rw [htext]
      exact shows_bracket rfl (by decide) hclosed
  | @primitive names hkind =>
    obtain ⟨hne, -⟩ := Schema.mem_primitiveNames_of_kind_primitive hkind
    rw [hkind, primitiveUnion_of_ne_nil hne, shows_bar_union]
    · rfl
    · intro type htype
      obtain ⟨name, -, rfl⟩ := List.mem_map.1 (List.mem_eraseDups.1 htype)
      exact (legible_primitiveType name).closed
    · intro type htype
      obtain ⟨name, -, rfl⟩ := List.mem_map.1 (List.mem_eraseDups.1 htype)
      unfold primitiveType
      repeat' split
      all_goals rfl
  | unknown hkind =>
    rw [hkind]
    rfl

/-- Null is added where it is not there yet. -/
theorem shows_bar_admitNull {bare : String} (hclosed : Closed bare.toList)
    (hnull : bare = nullType ∨ bare = anyType ↔ s.kind.includesNull = true)
    (h : shows '|' bare.toList = s.kind.isBareUnion) :
    shows '|' (admitNull s bare).toList = s.isBareUnion := by
  unfold admitNull Schema.isBareUnion
  split
  · next hnullable =>
    rw [hnullable, Bool.true_and]
    unfold withNull
    split
    · next hthere =>
      rw [← or_assoc, hnull] at hthere
      rcases hthere with hthere | hends
      · rw [h, hthere, Bool.not_true, Bool.or_false]
      · rw [← h, shows_bar_of_endsWith hclosed hends, Bool.true_or]
    · next hmissing =>
      have hnone : s.kind.includesNull = false := by
        rw [← Bool.not_eq_true, ← hnull]
        exact fun hthere => hmissing (or_assoc.1 (.inl hthere))
      have hbar : shows '|' " | null".toList = true := by decide
      rw [String.toList_append, shows_append hclosed, hbar, Bool.or_true, hnone, Bool.not_false,
        Bool.or_true]
  · next hnullable =>
    rw [h, Bool.eq_false_iff.2 hnullable, Bool.false_and, Bool.or_false]

/-- The type of a schema shows a union just when the schema says so. -/
theorem shows_bar_of_typedWithin (hs : s.NoApostrophe) (h : TypedWithin d referrer levels s type) :
    shows '|' type.toList = s.isBareUnion := by
  cases levels with
  | zero => cases h
  | succ levels =>
    obtain ⟨bare, hbare, rfl⟩ := typeForm_of_typedWithin h
    have hwhole : ∀ s type, TypedWithin d referrer levels s type → Whole type.toList :=
      fun _ _ htype => whole_invariant.typeWithin htype
    have hclosed : Closed bare.toList := (whole_invariant.typeForm hwhole hbare).closed
    refine shows_bar_admitNull hclosed (includesNull_of_typeForm hbare)
      (shows_bar_of_typeForm hwhole (fun items type hkind hitem => ?_) hbare)
    cases items with
    | none =>
      cases hitem
      exact .of_ordinary (by decide)
    | some item =>
      have hnested : item ∈ s.nested := by
        rw [Schema.nested, hkind]
        exact List.mem_singleton_self item
      exact legible_of_typedWithin (hs.nested hnested) hitem

end Shows

/-! ## Element types -/

section Elements

variable {type element : String}

theorem hasTopLevelOperator_append_brackets (type : String) :
    hasTopLevelOperator (type ++ "[]") = hasTopLevelOperator type := by
  rw [hasTopLevelOperator, String.toList_append, operatorFrom_append, operatorFrom_brackets,
    Bool.or_false, hasTopLevelOperator]

/-- The scan of an array type finds nothing when that of its parentheses does not. -/
theorem elementType_groupArray (h : hasTopLevelOperator ("(" ++ type ++ ")[]") = false) :
    elementType ("(" ++ type ++ ")[]") = type := by
  have htext : "(" ++ type ++ ")[]" = "(" ++ (type ++ ")") ++ "[]" := by
    simp [← String.toList_inj]
  rw [elementType, h, if_neg Bool.false_ne_true, htext, Text.beforeEnd?_append]
  dsimp only
  rw [Text.afterStart?_append, Option.bind_some, Text.beforeEnd?_append, Option.getD_some]

/-- Parentheses around the items of an array are taken for its own. -/
theorem elementType_append_brackets (h : hasTopLevelOperator type = false) :
    elementType (type ++ "[]") = type ∨ type = "(" ++ elementType (type ++ "[]") ++ ")" := by
  rw [elementType, hasTopLevelOperator_append_brackets, h, if_neg Bool.false_ne_true,
    Text.beforeEnd?_append]
  dsimp only
  cases hinner : (Text.afterStart? "(" type).bind (Text.beforeEnd? ")") with
  | none => exact .inl rfl
  | some inner =>
    obtain ⟨rest, hrest, hend⟩ := Option.bind_eq_some_iff.1 hinner
    rw [Text.afterStart?_eq_some_iff] at hrest
    rw [Text.beforeEnd?_eq_some_iff] at hend
    rw [hrest, hend, Option.getD_some, String.append_assoc]
    exact .inr rfl

end Elements

/-! ## Array types -/

/-- How the type of an array is written and taken apart: the type of the items is in parentheses
    just when it is a bare union, and what is taken out again is this type, perhaps without
    parentheses around it that belong together. -/
structure ArrayWritten (item : Schema) (type array : String) : Prop where
  written : array = if item.isBareUnion then "(" ++ type ++ ")[]" else type ++ "[]"
  element : elementType array = type ∨
    (type = "(" ++ elementType array ++ ")" ∧ Closed (elementType array).toList)

section Arrays

variable {d : Document} {referrer type : String} {levels : Nat} {s item : Schema}

/-- Parentheses at both ends of a type belong together. -/
theorem closed_of_typedWithin {inner : String} (h : TypedWithin d referrer levels item type)
    (htype : type = "(" ++ inner ++ ")") : Closed inner.toList := by
  have htext : type.toList = ('(' :: inner.toList) ++ [')'] := by simp [htype]
  have hhead : type.toList.head? = some '(' := by
    rw [htext]
    rfl
  have hlast : type.toList.getLast? = some ')' := by rw [htext, List.getLast?_concat]
  cases levels with
  | zero => cases h
  | succ levels =>
    obtain ⟨bare, hbare, htyped⟩ := typeForm_of_typedWithin h
    have hsame : type = bare := by
      unfold admitNull withNull at htyped
      split at htyped
      · split at htyped
        · exact htyped
        · -- null at the end is not in parentheses
          rw [htyped, String.toList_append, List.getLast?_append] at hlast
          cases hlast
      · exact htyped
    subst hsame
    obtain ⟨other, hother, hclosed⟩ := exists_closed_of_parentheses
      (fun _ _ htype => (whole_invariant.typeWithin htype).closed) hbare hhead hlast
    rw [htype] at hother
    have hinner : inner = other := by
      simpa [← String.toList_inj] using hother
    rwa [hinner]

/-- The type of an array is written as it should be just when the scans of its own type and of
    that of its items find what there is. -/
theorem arrayWritten_iff (h : TypedWithin d referrer levels item type) :
    ArrayWritten item type (arrayType type) ↔
      hasTopLevelOperator type = item.isBareUnion ∧
        (item.isBareUnion = true → hasTopLevelOperator (arrayType type) = false) := by
  -- the lengths tell whether there are parentheses
  have hlength (text : String) : ("(" ++ text ++ ")[]").length = text.length + 4 := by
    rw [String.length_append, String.length_append]
    show 1 + text.length + 3 = text.length + 4
    omega
  have hne : type ++ "[]" ≠ "(" ++ type ++ ")[]" := by
    intro heq
    have hlengths := congrArg String.length heq
    rw [hlength, String.length_append] at hlengths
    exact absurd (Nat.add_left_cancel hlengths) (by decide)
  have hgroup : arrayType type = "(" ++ type ++ ")[]" ↔ hasTopLevelOperator type = true := by
    unfold arrayType
    split
    · next hscan => exact iff_of_true rfl hscan
    · next hscan => exact iff_of_false hne hscan
  constructor
  · rintro ⟨hwritten, helement⟩
    have hscan : hasTopLevelOperator type = item.isBareUnion := by
      rw [Bool.eq_iff_iff, ← hgroup, hwritten]
      split
      · next hbare => exact iff_of_true rfl hbare
      · next hbare => exact iff_of_false hne hbare
    refine ⟨hscan, fun hbare => ?_⟩
    by_contra hfound
    -- a type in which an operator is found is taken for no array
    have hwhole : elementType (arrayType type) = arrayType type :=
      if_pos (Bool.not_eq_false _ ▸ hfound)
    rw [hwhole, hgroup.2 (hscan.trans hbare)] at helement
    rcases helement with helement | ⟨helement, -⟩
    · have hlengths := congrArg String.length helement
      rw [hlength] at hlengths
      omega
    · have hlengths := congrArg String.length helement
      rw [String.length_append, String.length_append, hlength] at hlengths
      omega
  · rintro ⟨hscan, hscan'⟩
    cases hbare : item.isBareUnion with
    | true =>
      have harray : arrayType type = "(" ++ type ++ ")[]" := hgroup.2 (hscan.trans hbare)
      have hnone := hscan' hbare
      rw [harray] at hnone ⊢
      exact ⟨by rw [hbare, if_pos rfl], .inl (elementType_groupArray hnone)⟩
    | false =>
      rw [hbare] at hscan
      have harray : arrayType type = type ++ "[]" := by
        rw [arrayType, hscan, if_neg Bool.false_ne_true]
      rw [harray]
      refine ⟨by rw [hbare, if_neg Bool.false_ne_true], ?_⟩
      exact (elementType_append_brackets hscan).imp_right fun htype =>
        ⟨htype, closed_of_typedWithin h htype⟩

/-- The scans find what there is when no text with an apostrophe is spelt out. -/
theorem arrayWritten_of_noApostrophe (hitem : item.NoApostrophe)
    (h : TypedWithin d referrer levels item type) : ArrayWritten item type (arrayType type) := by
  have hlegible : Legible type.toList := legible_of_typedWithin hitem h
  have hwhole : Whole type.toList := whole_invariant.typeWithin h
  refine (arrayWritten_iff h).2 ⟨?_, fun _ => ?_⟩
  · rw [hlegible.hasTopLevelOperator_eq, hwhole.joined, Bool.or_false,
      shows_bar_of_typedWithin hitem h]
  · rw [(legible_arrayType hlegible).hasTopLevelOperator_eq, shows_bar_arrayType hlegible,
      (whole_arrayType hwhole).joined, Bool.or_false]

/-- The type of an array that admits no null can be made when that of its items can, one level
    down.  It is written as it should be just when the scans find what there is, and so whenever
    no text with an apostrophe is spelt out in the items. -/
theorem typeWithin_array (hkind : s.kind = .array (some item)) (hnull : s.nullable = false)
    (h : (typeWithin d referrer levels item).result = .ok type) :
    ∃ array, (typeWithin d referrer (levels + 1) s).result = .ok array ∧
      (ArrayWritten item type array ↔
        hasTopLevelOperator type = item.isBareUnion ∧
          (item.isBareUnion = true → hasTopLevelOperator array = false)) ∧
      (item.NoApostrophe → ArrayWritten item type array) := by
  have hmade : (typeByKind d referrer (typeWithin d referrer levels) s).result
      = .ok (arrayType type) := by
    unfold typeByKind
    rw [hkind]
    exact Traced.result_bind_eq_ok_iff.2 ⟨type, h, rfl⟩
  have hadmit : admitNull s (arrayType type) = arrayType type := by
    rw [admitNull, hnull, if_neg Bool.false_ne_true]
  exact ⟨arrayType type, Traced.result_map_eq_ok_iff.2 ⟨_, hmade, hadmit⟩, arrayWritten_iff h,
    fun hitem => arrayWritten_of_noApostrophe hitem h⟩

/-- An array of the texts of an enumeration. -/
def choices : Schema := { type := some (.single "array"), items := some choice }

/-- The union is in parentheses, and is taken out of them again. -/
theorem typeWithin_array_choices :
    choice.NoApostrophe ∧
      (typeWithin lettersDocument "a.All" nestingLimit choice).result = .ok "'A' | 'B'" ∧
      (typeOf lettersDocument "a.All" choices).result = .ok "('A' | 'B')[]" ∧
      ArrayWritten choice "'A' | 'B'" "('A' | 'B')[]" := by
  have hnone : choice.NoApostrophe := by
    have hnested : choice.nested = [] := rfl
    have htexts : choice.literals = ["A", "B"] := rfl
    intro n hn t ht
    rw [Schema.nodes_eq, hnested, List.flatMap_nil, List.mem_singleton] at hn
    subst hn
    rw [htexts] at ht
    revert t
    decide
  have hitems : (typeWithin lettersDocument "a.All" nestingLimit choice).result
      = .ok "'A' | 'B'" := rfl
  obtain ⟨array, harray, -, hwritten⟩ := typeWithin_array (s := choices) rfl rfl hitems
  have hmade : (typeOf lettersDocument "a.All" choices).result = .ok "('A' | 'B')[]" := rfl
  have hsame : array = "('A' | 'B')[]" := Except.ok.inj (harray.symm.trans hmade)
  subst hsame
  exact ⟨hnone, hitems, hmade, hwritten hnone⟩

/-- An enumeration of two texts, one with an apostrophe. -/
def quoted : Schema := { enumValues := some [.text "a'", .text "b"] }

/-- An array of such texts. -/
def quotedItems : Schema := { type := some (.single "array"), items := some quoted }

/-- The scan takes the apostrophe for the end of the text, and so the operator for a part of the
    next one: only the last text is that of an array. -/
theorem quotedItems_misread :
    quotedItems.kind = .array (some quoted) ∧ quotedItems.nullable = false ∧
      quoted.isBareUnion = true ∧
      (typeOf lettersDocument "a.All" quoted).result = .ok "'a\\'' | 'b'" ∧
      (typeOf lettersDocument "a.All" quotedItems).result = .ok "'a\\'' | 'b'[]" ∧
      ¬ArrayWritten quoted "'a\\'' | 'b'" "'a\\'' | 'b'[]" := by
  refine ⟨rfl, rfl, rfl, rfl, rfl, ?_⟩
  rintro ⟨hwritten, -⟩
  exact absurd hwritten (by decide)

end Arrays

end ClientGen
