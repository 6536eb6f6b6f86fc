/-
  ClientGen.Proofs.Intersection

  What the types of intersections mean.  Every type that is made of a schema is closed
  and shows no `&`, whatever texts the schema holds, so joined members stay whole as
  long as none of them is a bare union; `read_allOf_iff` says that nothing else can go
  wrong.
-/
import ClientGen.Proofs.InlineTree
import ClientGen.Proofs.StreamType
import ClientGen.Proofs.TypeReading

namespace ClientGen

open TypeScript

/-! ## Plain texts -/

namespace TypeScript

variable {c : Char} {cs others : List Char}

/-- The characters that mean something to a reader of types, other than `|`. -/
def marks : List Char := ['\x27', '"', '(', ')', '[', ']', '{', '}', '<', '>', '&']

theorem after?_of_not_mem_marks (h : c ∉ marks) :
    Spot.after? (.outside []) c = some (.outside []) := by
  simp only [marks, List.mem_cons, List.not_mem_nil, or_false, not_or] at h
  simp [Spot.after?, isQuote, isCloser, closerOf?, h]

namespace Whole

theorem append (h : Whole cs) (h' : Whole others) : Whole (cs ++ others) where
  closed := h.closed.append h'.closed
  joined := by rw [shows_append h.closed, h.joined, h'.joined, Bool.or_false]

theorem of_bracket {opener closer : Char} (hopener : closerOf? opener = some closer)
    (h : Closed cs) : Whole (opener :: (cs ++ [closer])) where
  closed := h.bracket hopener
  joined := by
    refine shows_bracket hopener ?_ h
    rintro rfl
    cases hopener

/-- A text without marks is read as it stands. -/
theorem of_plain (h : ∀ c ∈ cs, c ∉ marks) : Whole cs where
  closed := by
    induction cs with
    | nil => rfl
    | cons c rest ih =>
      obtain ⟨hc, hrest⟩ := List.forall_mem_cons.1 h
      rw [Closed, Spot.walk?_cons, after?_of_not_mem_marks hc]
      exact ih hrest
  joined := by
    rw [← Bool.not_eq_true]
    exact fun hshows => h '&' (mem_of_showsFrom hshows) (by decide)

/-- So is a text of characters with a property that no mark has. -/
theorem of_forall {p : Char → Prop} [DecidablePred p] (hmarks : marks.any (p ·) = false)
    (h : ∀ c ∈ cs, p c) : Whole cs :=
  of_plain fun c hc hmark => List.any_eq_false.1 hmarks c hmark (decide_eq_true (h c hc))

theorem intercalate {types : List String} {separator : String} (hseparator : Whole separator.toList)
    (h : ∀ type ∈ types, Whole type.toList) : Whole (separator.intercalate types).toList :=
  intercalate_induction (of_plain fun _ hc => absurd hc List.not_mem_nil) (fun _ _ => append)
    hseparator h

end Whole

/-! ## Literals -/

/-- The spot inside a single-quoted literal. -/
def insideLiteral : Spot := .literal '\x27' false []

/-- A character that is written into a literal neither ends it nor shows. -/
theorem quotedChar_inside (c : Char) :
    insideLiteral.walk? (quotedChar c) = some insideLiteral ∧
      ∀ p, showsFrom p insideLiteral (quotedChar c) = false := by
  unfold quotedChar
  split
  · exact ⟨by decide, fun p => rfl⟩
  · next hslash =>
    split
    · exact ⟨by decide, fun p => rfl⟩
    · next hquote =>
      split
      · exact ⟨by decide, fun p => rfl⟩
      · split
        · exact ⟨by decide, fun p => rfl⟩
        · -- any other character stands for itself
          have hafter : insideLiteral.after? c = some insideLiteral := by
            rw [insideLiteral, Spot.after?, if_neg hslash, if_neg hquote]
          constructor
          · rw [Spot.walk?_cons, hafter]
            rfl
          · intro p
            rw [showsFrom, hafter]
            rfl

theorem flatMap_quotedChar_inside (cs : List Char) :
    insideLiteral.walk? (cs.flatMap quotedChar) = some insideLiteral ∧
      ∀ p, showsFrom p insideLiteral (cs.flatMap quotedChar) = false := by
  induction cs with
  | nil => exact ⟨rfl, fun _ => rfl⟩
  | cons c rest ih =>
    obtain ⟨hwalk, hshows⟩ := quotedChar_inside c
    rw [List.flatMap_cons, Spot.walk?_append, hwalk]
    refine ⟨ih.1, fun p => ?_⟩
    rw [showsFrom_append hwalk, hshows, ih.2, Bool.or_false]

/-- Whatever text a literal holds, it ends where it should. -/
theorem closed_stringLiteral (s : String) : Closed (stringLiteral s).toList := by
  obtain ⟨hwalk, -⟩ := flatMap_quotedChar_inside s.toList
  have hopen : Spot.after? (.outside []) '\x27' = some insideLiteral := by decide
  rw [stringLiteral, String.toList_ofList, quotedChars, Closed, Spot.walk?_cons, hopen,
    Option.bind_some, Spot.walk?_append, hwalk]
  rfl

/-- Nothing shows of a literal but its quotes. -/
theorem shows_stringLiteral {p : Char} (hp : p ≠ '\x27') (s : String) :
    shows p (stringLiteral s).toList = false := by
  obtain ⟨hwalk, hshows⟩ := flatMap_quotedChar_inside s.toList
  have hopen : Spot.after? (.outside []) '\x27' = some insideLiteral := by decide
  have hfirst : ('\x27' == p) = false := beq_eq_false_iff_ne.2 hp.symm
  rw [stringLiteral, String.toList_ofList, quotedChars, shows, showsFrom, hfirst, Bool.and_false,
    Bool.false_or, hopen, Option.any_some, showsFrom_append hwalk, hshows, Bool.false_or]
  rfl

theorem whole_stringLiteral (s : String) : Whole (stringLiteral s).toList :=
  ⟨closed_stringLiteral s, shows_stringLiteral (by decide) s⟩

theorem whole_propertyKey (name : String) : Whole (propertyKey name).toList := by
  unfold propertyKey
  split
  · next h => exact .of_forall (by decide) (isIdentifier_iff.1 h).2
  · exact whole_stringLiteral name

end TypeScript

/-! ## Types of schemas -/

section Types

variable {d : Document} {referrer : String}

theorem whole_literal (value : Constant) : Whole value.literal.toList := by
  cases value with
  | null => exact ⟨by decide, by decide⟩
  | boolean b => cases b <;> exact ⟨by decide, by decide⟩
  | number n => exact .of_forall (by decide) (Number.isNumeral_text n)
  | text t => exact whole_stringLiteral t
  | compound => exact ⟨by decide, by decide⟩

theorem whole_primitiveUnion (names : List String) : Whole (primitiveUnion names).toList := by
  have hprimitive (name : String) : Whole (primitiveType name).toList := by
    unfold primitiveType
    repeat' split
    all_goals exact ⟨by decide, by decide⟩
  unfold primitiveUnion
  dsimp only
  split
  · exact ⟨by decide, by decide⟩
  · refine .intercalate ⟨by decide, by decide⟩ fun type htype => ?_
    obtain ⟨name, -, rfl⟩ := List.mem_map.1 (List.mem_eraseDups.1 htype)
    exact hprimitive name

theorem toList_groupArray (element : String) :
    ("(" ++ element ++ ")[]").toList = ('(' :: (element.toList ++ [')'])) ++ "[]".toList := by
  simp

theorem whole_arrayType {element : String} (h : Whole element.toList) :
    Whole (arrayType element).toList := by
  have hbrackets : Whole "[]".toList := ⟨by decide, by decide⟩
  unfold arrayType
  split
  · rw [toList_groupArray]
    exact (Whole.of_bracket rfl h.closed).append hbrackets
  · rw [String.toList_append]
    exact h.append hbrackets

theorem whole_joinTypes {separator : String} {types : List String}
    (hseparator : Closed separator.toList) (h : ∀ type ∈ types, Whole type.toList) :
    Whole (joinTypes separator types).toList := by
  cases types with
  | nil =>
    have hany : Whole anyType.toList := ⟨by decide, by decide⟩
    exact hany
  | cons first others =>
    rw [toList_joinTypes]
    exact .of_bracket rfl (.intercalate hseparator fun type htype => (h type htype).closed)

theorem toList_recordType (values : String) :
    ("Record<string, " ++ values ++ ">").toList
      = "Record".toList ++ '<' :: (("string, ".toList ++ values.toList) ++ ['>']) := by
  simp

theorem whole_recordType {values : String} (h : Whole values.toList) :
    Whole ("Record<string, " ++ values ++ ">").toList := by
  have hstring : Closed "string, ".toList := by decide
  rw [toList_recordType]
  exact .append ⟨by decide, by decide⟩ (.of_bracket rfl (hstring.append h.closed))

theorem whole_signature {p : PropertyDecl} (h : Whole p.typeExpr.toList) :
    Whole p.signature.toList := by
  have hmark : Whole (optionalMark p.optional).toList := by
    cases p.optional <;> exact ⟨by decide, by decide⟩
  rw [PropertyDecl.signature, String.toList_append, String.toList_append, String.toList_append]
  exact (((whole_propertyKey p.name).append hmark).append ⟨by decide, by decide⟩).append h

/-- The texts of the members of an object type. -/
theorem forall_mem_objectTexts {P : String → Prop} {members : List PropertyDecl}
    {index : Option String} (hmembers : ∀ p ∈ members, P p.signature)
    (hindex : ∀ type ∈ index, P ("[key: string]: " ++ type)) :
    ∀ text ∈ members.map (·.signature) ++ (index.map ("[key: string]: " ++ ·)).toList, P text := by
  intro text h
  rcases List.mem_append.1 h with h | h
  · obtain ⟨p, hp, rfl⟩ := List.mem_map.1 h
    exact hmembers p hp
  · obtain ⟨type, htype, rfl⟩ := Option.map_eq_some_iff.1 (Option.mem_toList.1 h)
    exact hindex type htype

theorem toList_braces (text : String) :
    ("\x7b " ++ text ++ " \x7d").toList
      = '{' :: ((" ".toList ++ text.toList ++ " ".toList) ++ ['}']) := by
  simp

/-- An object type is empty, or has braces around it. -/
theorem objectType_braces {members : List PropertyDecl} {index : Option String}
    (hmembers : ∀ p ∈ members, Whole p.typeExpr.toList)
    (hindex : ∀ type ∈ index, Whole type.toList) :
    objectType members index = emptyObjectType ∨
      ∃ inner, Closed inner ∧ (objectType members index).toList = '{' :: (inner ++ ['}']) := by
  unfold objectType
  dsimp only
  split
  · exact .inl rfl
  · have hspace : Closed " ".toList := by decide
    have hkey : Closed "[key: string]: ".toList := by decide
    have htexts : ∀ text ∈ members.map (·.signature)
        ++ (index.map ("[key: string]: " ++ ·)).toList, Closed text.toList := by
      apply forall_mem_objectTexts
      · exact fun p hp => (whole_signature (hmembers p hp)).closed
      · intro type htype
        rw [String.toList_append]
        exact hkey.append (hindex type htype).closed
    rw [toList_braces]
    exact .inr ⟨_, (hspace.append (.intercalate (by decide) htexts)).append hspace, rfl⟩

theorem whole_objectType {members : List PropertyDecl} {index : Option String}
    (hmembers : ∀ p ∈ members, Whole p.typeExpr.toList)
    (hindex : ∀ type ∈ index, Whole type.toList) :
    Whole (objectType members index).toList := by
  rcases objectType_braces hmembers hindex with hempty | ⟨inner, hclosed, htext⟩
  · rw [hempty]
    exact ⟨by decide, by decide⟩
  · rw [htext]
    exact .of_bracket rfl hclosed

theorem whole_admitNull {s : Schema} {type : String} (h : Whole type.toList) :
    Whole (admitNull s type).toList := by
  unfold admitNull withNull
  split
  · split
    · exact h
    · rw [String.toList_append]
      exact h.append ⟨by decide, by decide⟩
  · exact h

theorem whole_name_ofReference (key : String) : Whole (ModelName.ofReference key).name.toList := by
  rw [ModelName.name_ofReference]
  exact .of_forall (by decide) ModelName.isAlphanum_of_mem_name_ofKey

/-- The types of all schemas are whole. -/
theorem whole_invariant : TypeInvariant (Whole ·.toList) where
  any := ⟨by decide, by decide⟩
  reference := whole_name_ofReference
  map _ := whole_recordType
  const := whole_literal
  enum members := by
    refine .intercalate ⟨by decide, by decide⟩ fun type htype => ?_
    obtain ⟨member, -, rfl⟩ := List.mem_map.1 htype
    exact whole_stringLiteral member
  composition c types := whole_joinTypes (by cases c <;> decide)
  array _ := whole_arrayType
  object _ _ := whole_objectType
  primitive := whole_primitiveUnion
  null _ _ := whole_admitNull

/-! ## Members of an intersection -/

/-- What a type means that admits null when the schema says so. -/
def TypeScript.TypeTerm.admittingNull (term : TypeTerm) (s : Schema) : TypeTerm :=
  if s.nullable then .union [term, .operand nullType.toList] else term

theorem TypeScript.TypeTerm.admittingNull_inj {s : Schema} {term other : TypeTerm} :
    term.admittingNull s = other.admittingNull s ↔ term = other := by
  unfold admittingNull
  split <;> simp

/-- No type that admits null anyway ends with any other letter. -/
theorem withNull_of_getLast? {type : String} {c : Char} (h : type.toList.getLast? = some c)
    (hc : c ∉ ['l', 'y']) : withNull type = type ++ " | null" := by
  unfold withNull
  rw [if_neg]
  rintro (rfl | rfl | hsuffix)
  · cases h
    exact hc (by decide)
  · cases h
    exact hc (by decide)
  · rw [Text.endsWith, List.isSuffixOf_iff_suffix] at hsuffix
    obtain ⟨front, htext⟩ := hsuffix
    rw [← htext, List.getLast?_append] at h
    cases h
    exact hc (by decide)

/-- Members in parentheses are widened by null as a whole. -/
theorem read_admitNull_joinTypes (s : Schema) {type : String} {types : List String}
    (h : Closed (" & ".intercalate (type :: types)).toList) :
    read (admitNull s (joinTypes " & " (type :: types))).toList
      = (read (joinTypes " & " (type :: types)).toList).admittingNull s := by
  have htext := toList_joinTypes " & " type types
  have hlast : (joinTypes " & " (type :: types)).toList.getLast? = some ')' := by
    rw [htext, ← List.cons_append, List.getLast?_append]
    rfl
  unfold admitNull TypeTerm.admittingNull
  split
  · rw [withNull_of_getLast? hlast (by decide), String.toList_append, htext]
    exact read_append_null (h.bracket rfl) (shows_bracket rfl (by decide) h)
  · rfl

/-- The type of an intersection, apart from null, means the intersection of what the types of its
    members mean, just when there is one member only or no member's type is a bare union. -/
theorem read_allOf_iff {s : Schema} {members : List Schema} {type : String}
    (hkind : s.kind = .composition .allOf members)
    (h : (typeOf d referrer s).result = .ok type) :
    ∃ types, List.Forall₂ (fun member t => (typeOf d referrer member).result = .ok t) members types ∧
      (read type.toList
          = (TypeTerm.intersectionOf (types.map (read ·.toList))).admittingNull s ↔
        types.length = 1 ∨ ∀ t ∈ types, ¬IsBareUnion t) := by
  obtain ⟨bare, hbare, rfl⟩ := Traced.result_map_eq_ok_iff.1 h
  unfold typeByKind at hbare
  rw [hkind] at hbare
  obtain ⟨types, htypes, hbare⟩ := Traced.result_bind_eq_ok_iff.1 hbare
  cases hbare
  obtain ⟨hall, -⟩ := Traced.mapM_of_ok htypes
  have hwhole : ∀ t ∈ types, Whole t.toList := by
    intro t ht
    obtain ⟨member, -, hmember⟩ := Traced.exists_of_mem_mapM htypes ht
    exact whole_invariant.typeWithin hmember
  -- what a member gives one level down it gives by itself
  have hmembers : List.Forall₂ (fun member t => (typeOf d referrer member).result = .ok t)
      members types :=
    hall.imp fun member t ht => typeWithin_extends (Nat.le_succ nestingLimit) member t ht
  refine ⟨types, hmembers, ?_⟩
  cases types with
  | nil =>
    -- a keyword without members makes no composition
    have hne := (Schema.keyword_of_composition? (Schema.composition?_of_kind_composition hkind)).1
    exact absurd (List.forall₂_nil_right_iff.1 hall) hne
  | cons first others =>
    have hclosed : Closed (" & ".intercalate (first :: others)).toList :=
      .intercalate (by decide) fun t ht => (hwhole t ht).closed
    have hlength : (first :: others).length = 1 ↔ others = [] := by
      rw [List.length_cons, Nat.add_eq_right, List.length_eq_zero_iff]
    rw [Composition.operator, read_admitNull_joinTypes s hclosed, TypeTerm.admittingNull_inj,
      read_joinTypes hwhole, hlength]

/-- Two models. -/
def lettersDocument : Document :=
  { components.schemas := .ofList
      [("a.Letter", { type := some (.single "string") }),
       ("a.Mark", { type := some (.single "string") })] }

/-- Models are never torn, and the whole intersection may be null. -/
theorem read_allOf_iff_references :
    let s : Schema :=
      { allOf := some [.referenceTo "a.Letter", .referenceTo "a.Mark"], nullable := true }
    (typeOf lettersDocument "a.Both" s).result = .ok "(Letter & Mark) | null" ∧
      read "(Letter & Mark) | null".toList
        = (TypeTerm.intersectionOf [read "Letter".toList, read "Mark".toList]).admittingNull s := by
  intro s
  have htype : (typeOf lettersDocument "a.Both" s).result = .ok "(Letter & Mark) | null" := rfl
  have hletter :
      (typeOf lettersDocument "a.Both" (.referenceTo "a.Letter")).result = .ok "Letter" := rfl
  have hmark : (typeOf lettersDocument "a.Both" (.referenceTo "a.Mark")).result = .ok "Mark" := rfl
  have hkind : s.kind
      = .composition .allOf [.referenceTo "a.Letter", .referenceTo "a.Mark"] := rfl
  obtain ⟨types, hall, hread⟩ := read_allOf_iff hkind htype
  obtain ⟨first, others, hfirst, hothers, rfl⟩ := List.forall₂_cons_left_iff.1 hall
  obtain ⟨second, none, hsecond, hnone, rfl⟩ := List.forall₂_cons_left_iff.1 hothers
  cases List.forall₂_nil_left_iff.1 hnone
  rw [hletter, Except.ok.injEq] at hfirst
  rw [hmark, Except.ok.injEq] at hsecond
  subst hfirst hsecond
  exact ⟨htype, hread.2 (.inr (by decide))⟩

/-- An enumeration of two texts. -/
def choice : Schema := { enumValues := some [.text "A", .text "B"] }

/-- An intersection with such an enumeration. -/
def choiceAndLetter : Schema := { allOf := some [choice, .referenceTo "a.Letter"] }

/-- Only the last text of the enumeration is joined to the other member. -/
theorem choice_torn :
    choiceAndLetter.kind = .composition .allOf [choice, .referenceTo "a.Letter"] ∧
      (typeOf lettersDocument "a.Both" choice).result = .ok "'A' | 'B'" ∧
      (typeOf lettersDocument "a.Both" (.referenceTo "a.Letter")).result = .ok "Letter" ∧
      (typeOf lettersDocument "a.Both" choiceAndLetter).result = .ok "('A' | 'B' & Letter)" ∧
      read "('A' | 'B' & Letter)".toList
        ≠ .intersection [read "'A' | 'B'".toList, read "Letter".toList] := by
  refine ⟨rfl, rfl, rfl, rfl, ?_⟩
  have hclosed : Closed "'A' | 'B' & Letter".toList := by decide
  have hunion : shows '|' "'A' | 'B' & Letter".toList = true := by decide
  have hread : read "('A' | 'B' & Letter)".toList = _ :=
    (read_group hclosed).trans (read_of_union hunion)
  rw [hread]
  exact nofun

end Types

end ClientGen
