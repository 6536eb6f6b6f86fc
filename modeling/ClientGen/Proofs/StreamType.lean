/-
  ClientGen.Proofs.StreamType

  Types of schemas do not look like streams.  Whatever a schema says, its type does
  not begin as the type of a stream of events does; so a method that is seen to
  return a stream was made to return one.
-/
import ClientGen.Generate.Method
import ClientGen.Proofs.FilePath
import ClientGen.Proofs.TypeInvariant
import ClientGen.Proofs.Words

namespace ClientGen

open TypeScript

/-! ## Beginnings of texts -/

/-- What the type of a stream of events begins with. -/
def streamStart : String := eventStreamName ++ "<"

/-- Whether a type is written as a stream of events. -/
def isStreamType (type : String) : Bool := Text.startsWith streamStart type

namespace Text

/-- What is put behind a text plays no part in its beginning, unless it could go on with it. -/
theorem startsWith_append {start front rest : String} {c : Char} {cs : List Char}
    (hrest : rest.toList = c :: cs) (hc : c ∉ start.toList) (h : startsWith start front = false) :
    startsWith start (front ++ rest) = false := by
  rw [startsWith, Bool.eq_false_iff, ne_eq, List.isPrefixOf_iff_prefix] at h ⊢
  rw [String.toList_append, hrest]
  exact fun hprefix => h (prefix_of_prefix_append hc hprefix)

theorem startsWith_of_not_mem {start s : String} {c : Char} (hstart : c ∈ start.toList)
    (hs : c ∉ s.toList) : startsWith start s = false := by
  rw [startsWith, Bool.eq_false_iff, ne_eq, List.isPrefixOf_iff_prefix]
  exact fun h => hs (h.subset hstart)

end Text

/-- A text that begins with another character. -/
theorem isStreamType_of_head {first : Char} {type : String} {rest : List Char} (hfirst : first ≠ 'J')
    (htype : type.toList = first :: rest) : isStreamType type = false := by
  have hstart : streamStart.toList = 'J' :: streamStart.toList.tail := by decide
  rw [isStreamType, Text.startsWith, htype, hstart, List.isPrefixOf_cons_cons]
  simp [Ne.symm hfirst]

/-- A text in front of which another stands that begins with another character. -/
theorem isStreamType_append {front rest : String} {first : Char} {others : List Char}
    (hfirst : first ≠ 'J') (hfront : front.toList = first :: others) :
    isStreamType (front ++ rest) = false := by
  apply isStreamType_of_head hfirst
  rw [String.toList_append, hfront]
  rfl

/-! ## Names and literals -/

/-- No bracket is part of the name of a model. -/
theorem ModelName.angle_not_mem_ofReference (key : String) : '<' ∉ (ofReference key).name.toList := by
  rw [name_ofReference]
  exact fun hmem => absurd (isAlphanum_of_mem_name_ofKey '<' hmem) (by decide)

namespace Number

/-- A character of a number. -/
def IsNumeral (c : Char) : Prop := c.isDigit = true ∨ c ∈ ['.', '-', '+', 'e']

instance : DecidablePred IsNumeral := fun c =>
  inferInstanceAs (Decidable (c.isDigit = true ∨ c ∈ ['.', '-', '+', 'e']))

theorem isNumeral_toDigits {n : Nat} : ∀ c ∈ Nat.toDigits 10 n, IsNumeral c :=
  fun _ hc => .inl (Nat.isDigit_of_mem_toDigits (by decide) (by decide) hc)

theorem isNumeral_significantDigits {n : Nat} : ∀ c ∈ (significantDigits n).1, IsNumeral c := by
  intro c hc
  -- what is kept of the digits are digits
  have hkept := (List.dropWhile_suffix (· == '0')).subset (List.mem_reverse.1 hc)
  exact isNumeral_toDigits c (List.mem_reverse.1 hkept)

theorem isNumeral_plainChars {digits : List Char} {point : Int} (h : ∀ c ∈ digits, IsNumeral c) :
    ∀ c ∈ plainChars digits point, IsNumeral c := by
  have hzero : IsNumeral '0' := .inl (by decide)
  have hdot : IsNumeral '.' := .inr (by decide)
  intro c hc
  unfold plainChars at hc
  split at hc
  · simp only [List.mem_cons, List.mem_append, List.mem_replicate] at hc
    rcases hc with rfl | rfl | ⟨-, rfl⟩ | hc
    · exact hzero
    · exact hdot
    · exact hzero
    · exact h c hc
  · simp only [List.mem_cons, List.mem_append, List.mem_replicate] at hc
    rcases hc with (hc | ⟨-, rfl⟩) | rfl | hc
    · exact h c (List.mem_of_mem_take hc)
    · exact hzero
    · exact hdot
    · split at hc
      · rw [List.mem_singleton.1 hc]
        exact hzero
      · exact h c (List.mem_of_mem_drop hc)

theorem isNumeral_scientificChars {digits : List Char} {exponent : Int}
    (h : ∀ c ∈ digits, IsNumeral c) : ∀ c ∈ scientificChars digits exponent, IsNumeral c := by
  have hmark : ∀ c ∈ 'e' :: (if exponent < 0 then '-' else '+') :: Nat.toDigits 10 exponent.natAbs,
      IsNumeral c := by
    intro c hc
    rcases List.mem_cons.1 hc with rfl | hc
    · exact .inr (by decide)
    · rcases List.mem_cons.1 hc with rfl | hc
      · split <;> exact .inr (by decide)
      · exact isNumeral_toDigits c hc
  intro c hc
  unfold scientificChars at hc
  dsimp only at hc
  generalize 'e' :: (if exponent < 0 then '-' else '+') :: Nat.toDigits 10 exponent.natAbs = mark
    at hmark hc
  split at hc
  · rcases List.mem_cons.1 hc with rfl | hc
    · exact .inl (by decide)
    · exact hmark c hc
  · rcases List.mem_cons.1 hc with rfl | hc
    · exact h _ List.mem_cons_self
    · exact hmark c hc
  · simp only [List.cons_append, List.mem_cons, List.mem_append] at hc
    rcases hc with rfl | rfl | hc | hc
    · exact h _ List.mem_cons_self
    · exact .inr (by decide)
    · exact h c (List.mem_cons_of_mem _ hc)
    · exact hmark c (by simpa using hc)

theorem isNumeral_chars {style : DoubleStyle} {decimal : Decimal} :
    ∀ c ∈ style.chars decimal, IsNumeral c := by
  intro c hc
  unfold DoubleStyle.chars at hc
  dsimp only at hc
  split at hc
  · simp only [List.mem_cons, List.not_mem_nil, or_false] at hc
    rcases hc with rfl | rfl | rfl
    · exact .inl (by decide)
    · exact .inr (by decide)
    · exact .inl (by decide)
  · split at hc
    · exact isNumeral_plainChars isNumeral_significantDigits c hc
    · exact isNumeral_scientificChars isNumeral_significantDigits c hc

/-- A number is written with digits, signs, a point and an exponent mark only. -/
theorem isNumeral_text (n : Number) : ∀ c ∈ n.text.toList, IsNumeral c := by
  have hsign {negative : Prop} [Decidable negative] {chars : List Char}
      (h : ∀ c ∈ chars, IsNumeral c) :
      ∀ c ∈ (if negative then '-' :: chars else chars), IsNumeral c := by
    intro c hc
    split at hc
    · rcases List.mem_cons.1 hc with rfl | hc
      · exact .inr (by decide)
      · exact h c hc
    · exact h c hc
  cases n with
  | integer n =>
    rw [Number.text, integerText, String.toList_ofList]
    exact hsign isNumeral_toDigits
  | double x =>
    rw [Number.text, doubleText, String.toList_ofList]
    exact hsign isNumeral_chars

end Number

/-! ## Types of schemas -/

/-- Member types in a row begin as the first of them does. -/
theorem isStreamType_intercalate {types : List String}
    (h : ∀ type ∈ types, ∃ first rest, type.toList = first :: rest ∧ first ≠ 'J') :
    isStreamType (" | ".intercalate types) = false := by
  cases types with
  | nil => decide
  | cons type others =>
    obtain ⟨first, rest, htext, hne⟩ := h type List.mem_cons_self
    cases others with
    | nil =>
      rw [String.intercalate_singleton]
      exact isStreamType_of_head hne htext
    | cons second others =>
      rw [String.intercalate_cons_cons, String.append_assoc]
      exact isStreamType_append hne htext

theorem isStreamType_admitNull {s : Schema} {type : String} (h : isStreamType type = false) :
    isStreamType (admitNull s type) = false := by
  unfold admitNull withNull
  split
  · split
    · exact h
    · exact Text.startsWith_append rfl (by decide) h
  · exact h

theorem isStreamType_literal (value : Constant) : isStreamType value.literal = false := by
  cases value with
  | null => decide
  | boolean b => cases b <;> decide
  | number n =>
    have hangle : '<' ∉ n.text.toList := fun hmem =>
      absurd (Number.isNumeral_text n '<' hmem) (by decide)
    exact Text.startsWith_of_not_mem (by decide) hangle
  | text t => exact isStreamType_of_head (by decide) (String.toList_ofList)
  | compound => decide

theorem isStreamType_primitiveUnion (names : List String) :
    isStreamType (primitiveUnion names) = false := by
  have hprimitive (name : String) :
      ∃ first rest, (primitiveType name).toList = first :: rest ∧ first ≠ 'J' := by
    unfold primitiveType
    repeat' split
    all_goals exact ⟨_, _, rfl, by decide⟩
  unfold primitiveUnion
  dsimp only
  split
  · decide
  · apply isStreamType_intercalate
    intro type htype
    obtain ⟨name, -, rfl⟩ := List.mem_map.1 (List.mem_eraseDups.1 htype)
    exact hprimitive name

theorem isStreamType_arrayType {element : String} (h : isStreamType element = false) :
    isStreamType (arrayType element) = false := by
  unfold arrayType
  split
  · rw [String.append_assoc]
    exact isStreamType_append (by decide) rfl
  · exact Text.startsWith_append rfl (by decide) h

theorem isStreamType_joinTypes (separator : String) (members : List String) :
    isStreamType (joinTypes separator members) = false := by
  unfold joinTypes
  split
  · decide
  · rw [String.append_assoc]
    exact isStreamType_append (by decide) rfl

theorem isStreamType_objectType (members : List PropertyDecl) (index : Option String) :
    isStreamType (objectType members index) = false := by
  unfold objectType
  dsimp only
  split
  · decide
  · rw [String.append_assoc]
    exact isStreamType_append (by decide) rfl

/-- Only arrays, and types that admit null, begin as another type does. -/
theorem isStreamType_invariant : TypeInvariant (isStreamType · = false) where
  any := by decide
  reference key :=
    Text.startsWith_of_not_mem (c := '<') (by decide) (ModelName.angle_not_mem_ofReference key)
  map values _ := by
    rw [String.append_assoc]
    exact isStreamType_append (by decide) rfl
  const := isStreamType_literal
  enum members := by
    apply isStreamType_intercalate
    intro type htype
    obtain ⟨member, -, rfl⟩ := List.mem_map.1 htype
    exact ⟨_, _, String.toList_ofList, by decide⟩
  composition c types _ := isStreamType_joinTypes c.operator types
  array _ := isStreamType_arrayType
  object members index _ _ := isStreamType_objectType members index
  primitive := isStreamType_primitiveUnion
  null _ _ := isStreamType_admitNull

theorem isStreamType_typeOf {d : Document} {referrer type : String} {s : Schema}
    (h : (typeOf d referrer s).result = .ok type) : isStreamType type = false :=
  isStreamType_invariant.typeOf h

end ClientGen
