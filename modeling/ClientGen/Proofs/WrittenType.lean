/-
  ClientGen.Proofs.WrittenType

  What the types of schemas are written with: literals of the texts of the schema, brackets
  in pairs, and characters that mean nothing by themselves.  This is a grammar, and what a
  reader meets in a type follows by induction on it.  `type_lexically_closed` says that no
  text of a document gets out of its literal, breaks the line, or opens or closes a bracket.
-/
import ClientGen.Proofs.OperatorScan
import ClientGen.Proofs.TypeForm

namespace ClientGen

open TypeScript

namespace TypeScript

/-! ## The grammar -/

/-- Whether a character neither opens nor closes anything, nor ends a line. -/
def isPlain (c : Char) : Bool := isOrdinary c && c != '\n' && c != '\r'

theorem all_isOrdinary_of_isPlain {cs : List Char} (h : cs.all isPlain = true) :
    cs.all isOrdinary = true := by
  refine List.all_eq_true.2 fun c hc => ?_
  have hplain := List.all_eq_true.1 h c hc
  rw [isPlain, Bool.and_eq_true, Bool.and_eq_true] at hplain
  exact hplain.1.1

/-- Texts that are put together of plain characters, of literals of certain texts, and of brackets
    with such a text in between. -/
inductive Written (texts : String → Prop) : List Char → Prop where
  | plain {cs : List Char} (h : cs.all isPlain = true) : Written texts cs
  | literal {t : String} (h : texts t) : Written texts (stringLiteral t).toList
  | bracket {opener closer : Char} {cs : List Char} (hopener : closerOf? opener = some closer)
      (h : Written texts cs) : Written texts (opener :: (cs ++ [closer]))
  | append {cs others : List Char} (h : Written texts cs) (h' : Written texts others) :
      Written texts (cs ++ others)

namespace Written

variable {texts : String → Prop} {cs others : List Char}

theorem mono {texts' : String → Prop} (h : Written texts cs) (hsub : ∀ t, texts t → texts' t) :
    Written texts' cs := by
  induction h with
  | plain h => exact .plain h
  | literal h => exact .literal (hsub _ h)
  | bracket hopener _ ih => exact ih.bracket hopener
  | append _ _ ih ih' => exact ih.append ih'

/-- Characters with a property that no mark and no line break has are plain. -/
theorem of_forall {p : Char → Prop} [DecidablePred p]
    (hmarks : (marks ++ ['\n', '\r']).any (p ·) = false) (h : ∀ c ∈ cs, p c) : Written texts cs := by
  refine .plain (List.all_eq_true.2 fun c hc => ?_)
  have hmark : c ∉ marks ++ ['\n', '\r'] := fun hmem =>
    List.any_eq_false.1 hmarks c hmem (decide_eq_true (h c hc))
  rw [List.mem_append, not_or] at hmark
  have hbreaks : c ≠ '\n' ∧ c ≠ '\r' := by simpa using hmark.2
  simp [isPlain, isOrdinary_of_not_mem_marks hmark.1, hbreaks]

theorem intercalate {types : List String} {separator : String}
    (hseparator : Written texts separator.toList) (h : ∀ type ∈ types, Written texts type.toList) :
    Written texts (separator.intercalate types).toList :=
  intercalate_induction (.plain rfl) (fun _ _ => append) hseparator h

end Written

/-! ## What a reader meets -/

/-- By induction on the text of a literal: its characters do not break the line. -/
theorem lineBreaks_not_mem_stringLiteral (t : String) :
    '\n' ∉ (stringLiteral t).toList ∧ '\r' ∉ (stringLiteral t).toList := by
  have hchar (c : Char) : '\n' ∉ quotedChar c ∧ '\r' ∉ quotedChar c := by
    unfold quotedChar
    grind
  rw [stringLiteral, String.toList_ofList, quotedChars]
  simp only [List.mem_cons, List.mem_append, List.mem_flatMap, List.not_mem_nil, or_false, not_or]
  refine ⟨⟨by decide, ?_, by decide⟩, ⟨by decide, ?_, by decide⟩⟩
  · rintro ⟨c, -, hc⟩
    exact (hchar c).1 hc
  · rintro ⟨c, -, hc⟩
    exact (hchar c).2 hc

/-- A character is written as it is, or behind a backslash. -/
theorem quotedChar_cases (c : Char) : quotedChar c = [c] ∨ ∃ x, quotedChar c = ['\\', x] := by
  unfold quotedChar
  repeat' split
  all_goals first
    | exact .inl rfl
    | exact .inr ⟨_, rfl⟩

/-- Within a character that is written into a literal, a reader is inside the literal, perhaps right
    behind a backslash. -/
theorem inside_of_prefix_quotedChar {front : List Char} {c : Char} (h : front <+: quotedChar c) :
    ∃ escaped, insideLiteral.walk? front = some (.literal '\x27' escaped []) := by
  by_cases hwhole : front = quotedChar c
  · rw [hwhole]
    exact ⟨false, (quotedChar_inside c).1⟩
  · rcases quotedChar_cases c with hchar | ⟨x, hchar⟩
    · rw [hchar] at h hwhole
      rcases List.prefix_cons_iff.1 h with rfl | ⟨behind, rfl, hbehind⟩
      · exact ⟨false, rfl⟩
      · rw [List.prefix_nil.1 hbehind] at hwhole
        exact absurd rfl hwhole
    · rw [hchar] at h hwhole
      rcases List.prefix_cons_iff.1 h with rfl | ⟨behind, rfl, hbehind⟩
      · exact ⟨false, rfl⟩
      · rcases List.prefix_cons_iff.1 hbehind with rfl | ⟨last, rfl, hlast⟩
        · exact ⟨true, rfl⟩
        · rw [List.prefix_nil.1 hlast] at hwhole
          exact absurd rfl hwhole

/-- A reader that is not yet through with the text of a literal is inside the literal. -/
theorem inside_of_prefix {front cs : List Char} (h : front <+: cs.flatMap quotedChar) :
    ∃ escaped, insideLiteral.walk? front = some (.literal '\x27' escaped []) := by
  induction cs generalizing front with
  | nil =>
    rw [List.flatMap_nil, List.prefix_nil] at h
    rw [h]
    exact ⟨false, rfl⟩
  | cons c rest ih =>
    rw [List.flatMap_cons] at h
    rcases List.prefix_or_prefix_of_prefix h (List.prefix_append _ _) with hfirst | ⟨behind, rfl⟩
    · exact inside_of_prefix_quotedChar hfirst
    · rw [List.prefix_append_right_inj] at h
      rw [Spot.walk?_append, (quotedChar_inside c).1]
      exact ih h

/-- A character of two texts in a row stands in the first of them or in the second. -/
theorem append_eq_append_cons {as bs front rest : List Char} {c : Char}
    (h : as ++ bs = front ++ c :: rest) :
    (∃ more, as = front ++ c :: more ∧ rest = more ++ bs) ∨
      ∃ more, front = as ++ more ∧ bs = more ++ c :: rest := by
  rcases List.append_eq_append_iff.1 h with ⟨more, hfront, hbs⟩ | ⟨more, has, hrest⟩
  · exact .inr ⟨more, hfront, hbs⟩
  · rcases List.cons_eq_append_iff.1 hrest with ⟨rfl, hbs⟩ | ⟨others, rfl, hothers⟩
    · rw [List.append_nil] at has
      exact .inr ⟨[], by rw [has, List.append_nil], hbs⟩
    · exact .inl ⟨others, has, hothers⟩

theorem toList_stringLiteral (t : String) :
    (stringLiteral t).toList = '\x27' :: (t.toList.flatMap quotedChar ++ ['\x27']) :=
  String.toList_ofList

/-- A literal opens with its first character and nowhere else. -/
theorem front_eq_nil_of_outside {t : String} {front rest : List Char} {c : Char}
    {closers closers' : List Char} (hsplit : (stringLiteral t).toList = front ++ c :: rest)
    (hwalk : Spot.walk? (.outside closers) front = some (.outside closers')) : front = [] := by
  rw [toList_stringLiteral] at hsplit
  rcases List.cons_eq_append_iff.1 hsplit with ⟨hnil, -⟩ | ⟨behind, rfl, hbehind⟩
  · exact hnil
  · -- behind the first quote, the reader has not come to the last one
    have hprefix : behind <+: t.toList.flatMap quotedChar := by
      rcases append_eq_append_cons hbehind with ⟨more, hbody, -⟩ | ⟨more, hfront, hlast⟩
      · rw [hbody]
        exact List.prefix_append _ _
      · have hmore : more = [] := by
          cases more with
          | nil => rfl
          | cons first others => simp at hlast
        rw [hfront, hmore, List.append_nil]
    obtain ⟨escaped, hinside⟩ := inside_of_prefix hprefix
    have hopen : Spot.after? (.outside closers) '\x27' = some (insideLiteral.under closers) := rfl
    rw [Spot.walk?_cons, hopen, Option.bind_some, Spot.walk?_under closers hinside] at hwalk
    cases hwalk

/-- What a text is to a reader who knows brackets and literals: it opens and closes its own, it is
    on one line, and each literal that opens in it is that of one of certain texts. -/
structure LexicallyClosed (texts : String → Prop) (cs : List Char) : Prop where
  closed : Closed cs
  line_feed : '\n' ∉ cs
  carriage_return : '\r' ∉ cs
  literals : ∀ front c rest closers, cs = front ++ c :: rest →
    Spot.walk? (.outside []) front = some (.outside closers) → isQuote c = true →
      ∃ t, texts t ∧ (stringLiteral t).toList <+: c :: rest

namespace Written

variable {texts : String → Prop} {cs : List Char}

theorem not_quote_of_closerOf? {opener closer : Char} (h : closerOf? opener = some closer) :
    isQuote opener = false ∧ isQuote closer = false := by
  unfold closerOf? at h
  grind [isQuote]

theorem closed (h : Written texts cs) : Closed cs := by
  induction h with
  | plain h => exact (Legible.of_ordinary (all_isOrdinary_of_isPlain h)).closed
  | literal _ => exact closed_stringLiteral _
  | bracket hopener _ ih => exact ih.bracket hopener
  | append _ _ ih ih' => exact ih.append ih'

theorem lineBreaks_not_mem (h : Written texts cs) : '\n' ∉ cs ∧ '\r' ∉ cs := by
  induction h with
  | plain h =>
    constructor <;> exact fun hmem => absurd (List.all_eq_true.1 h _ hmem) (by decide)
  | literal _ => exact lineBreaks_not_mem_stringLiteral _
  | @bracket opener closer cs hopener _ ih =>
    have hbrackets : opener ≠ '\n' ∧ opener ≠ '\r' ∧ closer ≠ '\n' ∧ closer ≠ '\r' := by
      unfold closerOf? at hopener
      grind
    simp only [List.mem_cons, List.mem_append, List.not_mem_nil, or_false, not_or]
    grind
  | append _ _ ih ih' =>
    simp only [List.mem_append, not_or]
    exact ⟨⟨ih.1, ih'.1⟩, ⟨ih.2, ih'.2⟩⟩

/-- By induction on how a text is written: a quote outside of literals opens one of the literals
    that the text is written with. -/
theorem literal_of_quote (h : Written texts cs) {front rest : List Char} {c : Char}
    {closers closers' : List Char} (hsplit : cs = front ++ c :: rest)
    (hwalk : Spot.walk? (.outside closers) front = some (.outside closers'))
    (hc : isQuote c = true) : ∃ t, texts t ∧ (stringLiteral t).toList <+: c :: rest := by
  induction h generalizing front rest closers closers' with
  | plain h =>
    have hmem : c ∈ front ++ c :: rest := List.mem_append_right _ List.mem_cons_self
    have hplain := List.all_eq_true.1 h c (hsplit ▸ hmem)
    rw [isPlain, isOrdinary, hc] at hplain
    cases hplain
  | @literal t ht =>
    have hfront : front = [] := front_eq_nil_of_outside hsplit hwalk
    rw [hfront, List.nil_append] at hsplit
    exact ⟨t, ht, hsplit ▸ List.prefix_refl _⟩
  | @bracket opener closer cs hopener h ih =>
    obtain ⟨hquote, hquote'⟩ := not_quote_of_closerOf? hopener
    rcases List.cons_eq_append_iff.1 hsplit with ⟨-, hfirst⟩ | ⟨behind, rfl, hbehind⟩
    · rw [List.cons.injEq] at hfirst
      rw [← hfirst.1, hc] at hquote
      cases hquote
    · have hopened :
          Spot.after? (.outside closers) opener = some (.outside (closer :: closers)) :=
        Spot.after?_under closers (after?_bracket hopener).1
      rw [Spot.walk?_cons, hopened, Option.bind_some] at hwalk
      rcases append_eq_append_cons hbehind with ⟨more, hcs, rfl⟩ | ⟨more, -, hlast⟩
      · obtain ⟨t, ht, hprefix⟩ := ih hcs hwalk
        exact ⟨t, ht, hprefix.trans (List.prefix_append (c :: more) [closer])⟩
      · -- what closes the bracket is no quote
        have hmem : c ∈ [closer] := hlast ▸ List.mem_append_right more List.mem_cons_self
        rw [← List.mem_singleton.1 hmem, hc] at hquote'
        cases hquote'
  | @append cs others h h' ih ih' =>
    rcases append_eq_append_cons hsplit with ⟨more, hcs, rfl⟩ | ⟨more, rfl, hothers⟩
    · obtain ⟨t, ht, hprefix⟩ := ih hcs hwalk
      exact ⟨t, ht, hprefix.trans (List.prefix_append (c :: more) others)⟩
    · rw [Spot.walk?_append, h.closed.walk?, Option.bind_some] at hwalk
      exact ih' hothers hwalk

theorem lexicallyClosed (h : Written texts cs) : LexicallyClosed texts cs where
  closed := h.closed
  line_feed := h.lineBreaks_not_mem.1
  carriage_return := h.lineBreaks_not_mem.2
  literals _ _ _ _ hsplit hwalk hc := h.literal_of_quote hsplit hwalk hc

end Written

end TypeScript

/-! ## Texts that are spelt out -/

namespace Schema

variable {s inner : Schema} {t : String}

/-- The texts that the type of a schema spells out, apart from what is nested in it. -/
def literals (s : Schema) : List String :=
  match s.kind with
  | .const (.text t) => [t]
  | .enum members => members
  | .object properties => properties.map Prod.fst
  | _ => []

/-- Whether the type of a schema spells out a text, somewhere in its tree. -/
def Spells (s : Schema) (t : String) : Prop := ∃ n ∈ s.nodes, t ∈ n.schema.literals

theorem Spells.own (h : t ∈ s.literals) : s.Spells t := ⟨⟨0, s⟩, s.self_mem_nodes, h⟩

theorem Spells.nested (hinner : inner ∈ s.nested) (h : inner.Spells t) : s.Spells t := by
  obtain ⟨n, hn, ht⟩ := h
  exact ⟨n.below, Node.below_mem_nodes hinner hn, ht⟩

end Schema

/-! ## Types of schemas -/

section Forms

variable {texts : String → Prop}

theorem written_literal {value : Constant} (h : ∀ t, value = .text t → texts t) :
    Written texts value.literal.toList := by
  cases value with
  | null => exact .plain (by decide)
  | boolean b => cases b <;> exact .plain (by decide)
  | number n => exact .of_forall (by decide) (Number.isNumeral_text n)
  | text t => exact .literal (h t rfl)
  | compound => exact .plain (by decide)

theorem written_primitiveUnion (names : List String) :
    Written texts (primitiveUnion names).toList := by
  have hprimitive (name : String) : Written texts (primitiveType name).toList := by
    unfold primitiveType
    repeat' split
    all_goals exact .plain (by decide)
  unfold primitiveUnion
  dsimp only
  split
  · exact .plain (by decide)
  · refine .intercalate (.plain (by decide)) fun type htype => ?_
    obtain ⟨name, -, rfl⟩ := List.mem_map.1 (List.mem_eraseDups.1 htype)
    exact hprimitive name

theorem written_arrayType {element : String} (h : Written texts element.toList) :
    Written texts (arrayType element).toList := by
  have hnone : Written texts [] := .plain rfl
  have hbrackets : Written texts "[]".toList := hnone.bracket rfl
  unfold arrayType
  split
  · rw [toList_groupArray]
    exact (h.bracket rfl).append hbrackets
  · rw [String.toList_append]
    exact h.append hbrackets

theorem written_joinTypes {separator : String} {types : List String}
    (hseparator : Written texts separator.toList) (h : ∀ type ∈ types, Written texts type.toList) :
    Written texts (joinTypes separator types).toList := by
  cases types with
  | nil =>
    have hany : Written texts anyType.toList := .plain (by decide)
    exact hany
  | cons first others =>
    rw [toList_joinTypes]
    exact .bracket rfl (.intercalate hseparator h)

theorem written_recordType {values : String} (h : Written texts values.toList) :
    Written texts ("Record<string, " ++ values ++ ">").toList := by
  have hstring : Written texts "string, ".toList := .plain (by decide)
  rw [toList_recordType]
  exact .append (.plain (by decide)) (.bracket rfl (hstring.append h))

/-- A name that is no identifier is quoted. -/
theorem written_propertyKey {name : String} (h : texts name) :
    Written texts (propertyKey name).toList := by
  unfold propertyKey
  split
  · next hname => exact .of_forall (by decide) (isIdentifier_iff.1 hname).2
  · exact .literal h

theorem written_signature {p : PropertyDecl} (hname : texts p.name)
    (h : Written texts p.typeExpr.toList) : Written texts p.signature.toList := by
  have hmark : Written texts (optionalMark p.optional).toList := by
    cases p.optional <;> exact .plain (by decide)
  rw [PropertyDecl.signature, String.toList_append, String.toList_append, String.toList_append]
  exact (((written_propertyKey hname).append hmark).append (.plain (by decide))).append h

theorem written_objectType {members : List PropertyDecl} {index : Option String}
    (hmembers : ∀ p ∈ members, Written texts p.signature.toList)
    (hindex : ∀ type ∈ index, Written texts type.toList) :
    Written texts (objectType members index).toList := by
  unfold objectType
  dsimp only
  split
  · have hnever : Written texts "never".toList := .plain (by decide)
    exact written_recordType hnever
  · have hspace : Written texts " ".toList := .plain (by decide)
    have hkey : Written texts "[key: string]: ".toList := by
      have hname : Written texts "key: string".toList := .plain (by decide)
      have hcolon : Written texts ": ".toList := .plain (by decide)
      exact (hname.bracket rfl).append hcolon
    have htexts : ∀ text ∈ members.map (·.signature)
        ++ (index.map ("[key: string]: " ++ ·)).toList, Written texts text.toList := by
      apply forall_mem_objectTexts (P := fun text => Written texts text.toList) hmembers
      intro type htype
      rw [String.toList_append]
      exact hkey.append (hindex type htype)
    rw [toList_braces]
    exact .bracket rfl
      ((hspace.append (.intercalate (.plain (by decide)) htexts)).append hspace)

theorem written_admitNull {s : Schema} {type : String} (h : Written texts type.toList) :
    Written texts (admitNull s type).toList := by
  unfold admitNull withNull
  split
  · split
    · exact h
    · rw [String.toList_append]
      exact h.append (.plain (by decide))
  · exact h

end Forms

section Types

variable {d : Document} {referrer type : String} {levels : Nat} {s : Schema}
  {Inner : Schema → String → Prop}

/-- One form after the other: what a type spells out are texts of its schema, and what is nested in
    it is written with those of what is nested in the schema. -/
theorem written_of_typeForm {texts : String → Prop} (hown : ∀ t ∈ s.literals, texts t)
    (hinner : ∀ inner ∈ s.nested, ∀ type, Inner inner type → Written texts type.toList)
    (h : TypeForm d Inner s type) : Written texts type.toList := by
  have hany : Written texts anyType.toList := .plain (by decide)
  have hoptional {s? : Option Schema} {type : String} (hnested : s?.toList = s.nested)
      (h : OptionalForm Inner s? type) : Written texts type.toList := by
    cases s? with
    | none =>
      cases h
      exact hany
    | some inner => exact hinner inner (hnested ▸ List.mem_singleton_self inner) type h
  cases h with
  | reference _ _ _ =>
    rw [ModelName.name_ofReference]
    exact .of_forall (by decide) ModelName.isAlphanum_of_mem_name_ofKey
  | @map values type hkind hvalues =>
    have hnested : s.nested = values.toList := by rw [Schema.nested, hkind]
    exact written_recordType (hoptional hnested.symm hvalues)
  | const hkind =>
    refine written_literal ?_
    rintro t rfl
    have hliterals : s.literals = [t] := by rw [Schema.literals, hkind]
    exact hown t (hliterals ▸ List.mem_singleton_self t)
  | @enum members hkind =>
    have hliterals : s.literals = members := by rw [Schema.literals, hkind]
    refine .intercalate (.plain (by decide)) fun type htype => ?_
    obtain ⟨member, hmember, rfl⟩ := List.mem_map.1 htype
    exact .literal (hown member (hliterals ▸ hmember))
  | @composition c members types hkind htypes =>
    have hnested : s.nested = members := by rw [Schema.nested, hkind]
    have hoperator : Written texts c.operator.toList := by
      cases c <;> exact .plain (by decide)
    refine written_joinTypes hoperator fun type htype => ?_
    obtain ⟨member, hmember, htype⟩ := exists_of_mem_of_forall₂ htypes htype
    exact hinner member (hnested ▸ hmember) type htype
  | @array items type hkind hitems =>
    have hnested : s.nested = items.toList := by rw [Schema.nested, hkind]
    exact written_arrayType (hoptional hnested.symm hitems)
  | @object properties members index hkind hmembers hindex =>
    have hnested : s.nested = properties.map Prod.snd ++ s.additionalSchema?.toList := by
      rw [Schema.nested, hkind]
    have hliterals : s.literals = properties.map Prod.fst := by rw [Schema.literals, hkind]
    refine written_objectType (fun p hp => ?_) fun type htype => ?_
    · obtain ⟨property, hproperty, hform⟩ := exists_of_mem_of_forall₂ hmembers hp
      have hname := hown property.1 (hliterals ▸ List.mem_map_of_mem hproperty)
      have hmem := List.mem_append_left s.additionalSchema?.toList
        (List.mem_map_of_mem (f := Prod.snd) hproperty)
      rw [← hform.name] at hname
      exact written_signature hname (hinner property.2 (hnested ▸ hmem) _ hform.type)
    · cases hindex with
      | schema hadditional hvalues =>
        cases htype
        refine hinner _ ?_ type hvalues
        rw [hnested, Schema.additionalSchema?, hadditional]
        exact List.mem_append_right _ (List.mem_singleton_self _)
      | any _ =>
        cases htype
        exact hany
      | closed _ => cases htype
  | primitive _ => exact written_primitiveUnion _
  | unknown _ => exact hany

/-- By induction on the levels that are left. -/
theorem written_of_typedWithin (h : TypedWithin d referrer levels s type) :
    Written s.Spells type.toList := by
  induction levels generalizing s type with
  | zero => cases h
  | succ levels ih =>
    obtain ⟨bare, hbare, rfl⟩ := typeForm_of_typedWithin h
    refine written_admitNull (written_of_typeForm (fun _ => .own) ?_ hbare)
    intro inner hinner type htype
    exact (ih htype).mono fun _ => .nested hinner

/-- The type of a schema is lexically closed, whatever the document is: every literal that opens in
    it is one of an enumeration's text, a constant or a property name in the tree of the schema, as
    a whole.  So none of these texts ends a literal early, breaks the line, or opens or closes a
    bracket, and the names of models do neither. -/
theorem type_lexically_closed {d : Document} {referrer type : String} {s : Schema}
    (h : (typeOf d referrer s).result = .ok type) : LexicallyClosed s.Spells type.toList :=
  (written_of_typedWithin h).lexicallyClosed

/-- An object of which every text would end a literal, a bracket or a line. -/
def hostile : Schema :=
  { propertyEntries := some
      [("a'\x7d", { enumValues := some [.text "b'|'", .text "c\n]"] }),
       ("d\\", { constValue := some (.text "'>") })] }

theorem type_lexically_closed_hostile :
    ∃ type, (typeOf {} "hostile" hostile).result = .ok type ∧
      type = "\x7b 'a\\'\x7d'?: 'b\\'|\\'' | 'c\\n]'; 'd\\\\'?: '\\'>' \x7d" ∧
      LexicallyClosed hostile.Spells type.toList := by
  have hrun : (typeOf {} "hostile" hostile).result.toOption.any (fun type =>
      type = "\x7b 'a\\'\x7d'?: 'b\\'|\\'' | 'c\\n]'; 'd\\\\'?: '\\'>' \x7d") = true := by
    decide +kernel
  obtain ⟨type, htype, htext⟩ := exists_ok_of_any hrun
  exact ⟨type, htype, of_decide_eq_true htext, type_lexically_closed htype⟩

end Types

end ClientGen
