/-
  ClientGen.Proofs.PathTemplate

  The placeholders of a path.  An opening brace begins a placeholder anew whatever stands
  before it, and the placeholder is there if the next brace closes it and a name is between
  them; what stands behind is read on its own.  So the names that a template is made of are
  read back from it in turn, and the names that are read from any path stand in it between
  braces; `placeholders_read_back` puts the two together.
-/
import ClientGen.Proofs.FilePath
import ClientGen.Text.Template
import Mathlib.Data.List.TakeWhile

namespace ClientGen

/-- What a placeholder can have as its name: some text without braces. -/
structure IsPlaceholderName (name : List Char) : Prop where
  ne_nil : name ≠ []
  opening_not_mem : '{' ∉ name
  closing_not_mem : '}' ∉ name

namespace Text

/-! ## The pieces of a text in turn -/

/-- The first piece of a text reaches up to the first separator. -/
theorem pieces_eq_cons (p : Char → Bool) (cs : List Char) :
    pieces p cs = cs.takeWhile (!p ·) :: (pieces p cs).tail := by
  induction cs with
  | nil => rfl
  | cons c rest ih =>
    rw [pieces, List.takeWhile_cons]
    cases p c with
    | true => rfl
    | false =>
      rw [ih]
      rfl

/-- The later pieces do not depend on what stands in front of the first separator. -/
theorem tail_pieces_cons_of_neg {p : Char → Bool} {c : Char} (hc : p c = false) (cs : List Char) :
    (pieces p (c :: cs)).tail = (pieces p cs).tail := by
  rw [pieces, pieces_eq_cons p cs, hc]
  rfl

theorem tail_pieces_cons_of_pos {p : Char → Bool} {c : Char} (hc : p c = true) (cs : List Char) :
    (pieces p (c :: cs)).tail = pieces p cs := by
  rw [pieces, if_pos hc, List.tail_cons]

/-! ## The name behind an opening brace -/

/-- The name that a text begins with when it stands behind an opening brace: it is there if
    the first brace closes it. -/
def nameAt? (cs : List Char) : Option (List Char) :=
  (beforeBrace? (cs.takeWhile (· != '{'))).filter (!·.isEmpty)

theorem beforeBrace?_append {name : List Char} (h : '}' ∉ name) (rest : List Char) :
    beforeBrace? (name ++ '}' :: rest) = some name := by
  rw [beforeBrace?, if_pos (by simp), takeWhile_append_of_not_mem h,
    List.takeWhile_cons_of_neg (by decide), List.append_nil]

theorem beforeBrace?_eq_some_iff {cs name : List Char} :
    beforeBrace? cs = some name ↔ '}' ∉ name ∧ ∃ rest, cs = name ++ '}' :: rest := by
  constructor
  · intro h
    have hmem : '}' ∈ cs := by
      by_contra hmem
      rw [beforeBrace?, if_neg (by simpa using hmem)] at h
      cases h
    obtain ⟨front, rest, rfl, hfront⟩ := List.eq_append_cons_of_mem hmem
    rw [beforeBrace?_append hfront, Option.some.injEq] at h
    exact h ▸ ⟨hfront, rest, rfl⟩
  · rintro ⟨hname, rest, rfl⟩
    exact beforeBrace?_append hname rest

/-- A name is read where a text goes on with it and a closing brace. -/
theorem nameAt?_eq_some_iff {cs name : List Char} :
    nameAt? cs = some name ↔ IsPlaceholderName name ∧ ∃ rest, cs = name ++ '}' :: rest := by
  rw [nameAt?, Option.filter_eq_some_iff, beforeBrace?_eq_some_iff]
  constructor
  · rintro ⟨⟨hclosing, rest, hcs⟩, hne⟩
    -- the name comes from a text that ends before the next opening brace
    have hopening : '{' ∉ name := by
      intro h
      have hmem : '{' ∈ cs.takeWhile (· != '{') := hcs ▸ List.mem_append_left _ h
      exact absurd (List.mem_takeWhile_imp hmem) (by decide)
    refine ⟨⟨by simpa using hne, hopening, hclosing⟩, rest ++ cs.dropWhile (· != '{'), ?_⟩
    calc cs = cs.takeWhile (· != '{') ++ cs.dropWhile (· != '{') :=
          List.takeWhile_append_dropWhile.symm
      _ = name ++ '}' :: (rest ++ cs.dropWhile (· != '{')) := by
          rw [hcs, List.append_assoc, List.cons_append]
  · rintro ⟨hname, rest, rfl⟩
    refine ⟨⟨hname.closing_not_mem, rest.takeWhile (· != '{'), ?_⟩, by simpa using hname.ne_nil⟩
    rw [takeWhile_append_of_not_mem hname.opening_not_mem, List.takeWhile_cons_of_pos (by decide)]

/-! ## Reading along a path -/

theorem placeholderChars_cons_of_ne {c : Char} (hc : c ≠ '{') (cs : List Char) :
    placeholderChars (c :: cs) = placeholderChars cs := by
  have htail : (pieces (· == '{') (c :: cs)).tail = (pieces (· == '{') cs).tail :=
    tail_pieces_cons_of_neg (p := (· == '{')) (beq_eq_false_iff_ne.2 hc) cs
  rw [placeholderChars, placeholderChars, htail]

/-- At an opening brace there may be a name, and it is the first. -/
theorem placeholderChars_cons_opening (cs : List Char) :
    placeholderChars ('{' :: cs) = (nameAt? cs).toList ++ placeholderChars cs := by
  have hpieces : (pieces (· == '{') ('{' :: cs)).tail
      = cs.takeWhile (· != '{') :: (pieces (· == '{') cs).tail := by
    rw [tail_pieces_cons_of_pos (by decide)]
    exact pieces_eq_cons _ cs
  rw [placeholderChars, hpieces, List.filterMap_cons, nameAt?, placeholderChars]
  cases beforeBrace? (cs.takeWhile (· != '{')) with
  | none => rfl
  | some name =>
    rw [List.filter_cons, Option.filter_some]
    split <;> rfl

/-- Text without an opening brace can be passed over. -/
theorem placeholderChars_append_of_not_mem {front : List Char} (h : '{' ∉ front)
    (cs : List Char) : placeholderChars (front ++ cs) = placeholderChars cs := by
  induction front with
  | nil => rfl
  | cons c rest ih =>
    rw [List.cons_append, placeholderChars_cons_of_ne (List.ne_of_not_mem_cons h).symm,
      ih (List.not_mem_of_not_mem_cons h)]

theorem placeholderChars_of_not_mem {cs : List Char} (h : '{' ∉ cs) :
    placeholderChars cs = [] := by
  have hpassed := placeholderChars_append_of_not_mem h []
  rwa [List.append_nil] at hpassed

/-- Nothing that stands before an opening brace reaches beyond it. -/
theorem placeholderChars_append_opening (before cs : List Char) :
    placeholderChars (before ++ '{' :: cs)
      = placeholderChars before ++ placeholderChars ('{' :: cs) := by
  rw [placeholderChars, pieces_append_cons (by decide),
    List.tail_append_of_ne_nil (pieces_ne_nil _ _), List.filterMap_append, List.filter_append,
    placeholderChars, placeholderChars, tail_pieces_cons_of_pos (by decide)]

/-- A placeholder parts the placeholders before it from those after it, whatever the texts on
    its two sides are. -/
theorem placeholderChars_append_name {name : List Char} (h : IsPlaceholderName name)
    (before after : List Char) :
    placeholderChars (before ++ '{' :: (name ++ '}' :: after))
      = placeholderChars before ++ name :: placeholderChars after := by
  have hname : nameAt? (name ++ '}' :: after) = some name :=
    nameAt?_eq_some_iff.2 ⟨h, after, rfl⟩
  rw [placeholderChars_append_opening, placeholderChars_cons_opening, hname,
    placeholderChars_append_of_not_mem h.opening_not_mem, placeholderChars_cons_of_ne (by decide)]
  rfl

/-- The names that are read are those that stand between braces. -/
theorem mem_placeholderChars_iff {cs name : List Char} :
    name ∈ placeholderChars cs ↔
      IsPlaceholderName name ∧
        ∃ before after, cs = before ++ '{' :: (name ++ '}' :: after) := by
  constructor
  · intro h
    induction cs with
    | nil => cases h
    | cons c rest ih =>
      -- the name stands at this brace, or further on
      have hhere : (c = '{' ∧ nameAt? rest = some name) ∨ name ∈ placeholderChars rest := by
        by_cases hc : c = '{'
        · subst hc
          rw [placeholderChars_cons_opening, List.mem_append, Option.mem_toList] at h
          exact h.imp_left fun hname => ⟨rfl, hname⟩
        · rw [placeholderChars_cons_of_ne hc] at h
          exact .inr h
      rcases hhere with ⟨rfl, hname⟩ | hlater
      · obtain ⟨hisName, after, hrest⟩ := nameAt?_eq_some_iff.1 hname
        exact ⟨hisName, [], after, by rw [hrest, List.nil_append]⟩
      · obtain ⟨hisName, before, after, hrest⟩ := ih hlater
        exact ⟨hisName, c :: before, after, by rw [hrest, List.cons_append]⟩
  · rintro ⟨hname, before, after, rfl⟩
    rw [placeholderChars_append_name hname]
    exact List.mem_append_right _ List.mem_cons_self

end Text

/-! ## Templates -/

/-- A placeholder of a path template, and the literal text between it and the next one. -/
structure PathSlot where
  name : String
  text : String
  isName : IsPlaceholderName name.toList
  opening_not_mem : '{' ∉ text.toList

/-- A path template in its parts: the literal text in front, and the placeholders.  Literal
    text may hold closing braces. -/
structure PathTemplate where
  front : String
  slots : List PathSlot
  opening_not_mem : '{' ∉ front.toList

/-- A placeholder as it is written, with the text behind it. -/
def PathSlot.render (s : PathSlot) : String := "\x7b" ++ s.name ++ "\x7d" ++ s.text

/-- A template as it is written. -/
def PathTemplate.render (t : PathTemplate) : String :=
  t.front ++ String.join (t.slots.map (·.render))

/-- The names of the placeholders of a template, in order and with repeats. -/
def PathTemplate.names (t : PathTemplate) : List String := t.slots.map (·.name)

theorem PathSlot.toList_render (s : PathSlot) :
    s.render.toList = '{' :: (s.name.toList ++ '}' :: s.text.toList) := by
  rw [render, String.toList_append, String.toList_append, String.toList_append, List.append_assoc]
  rfl

/-- The names of slots are read off behind any text that opens no placeholder. -/
theorem Text.placeholderChars_slots (slots : List PathSlot) {front : List Char}
    (h : '{' ∉ front) :
    placeholderChars (front ++ slots.flatMap (·.render.toList)) = slots.map (·.name.toList) := by
  induction slots generalizing front with
  | nil =>
    rw [List.flatMap_nil, List.append_nil, List.map_nil, placeholderChars_of_not_mem h]
  | cons s rest ih =>
    -- the first slot parts the text in front from its own text, which the other slots are behind
    rw [List.flatMap_cons, s.toList_render, List.cons_append, List.append_assoc, List.cons_append,
      placeholderChars_append_name s.isName, placeholderChars_of_not_mem h, ih s.opening_not_mem]
    rfl

theorem PathTemplate.placeholders_render (t : PathTemplate) :
    Text.placeholders t.render = t.names := by
  have hchars : t.render.toList = t.front.toList ++ t.slots.flatMap (·.render.toList) := by
    rw [render, String.toList_append, String.toList_join, List.flatMap_map]
  rw [Text.placeholders, hchars, Text.placeholderChars_slots t.slots t.opening_not_mem, names,
    List.map_map]
  exact List.map_congr_left fun s _ => String.ofList_toList

/-! ## Names that are read back -/

theorem Text.mem_placeholders_iff_toList {path name : String} :
    name ∈ placeholders path ↔ name.toList ∈ placeholderChars path.toList := by
  rw [placeholders, List.mem_map]
  constructor
  · rintro ⟨cs, hcs, rfl⟩
    rwa [String.toList_ofList]
  · intro h
    exact ⟨name.toList, h, String.ofList_toList⟩

theorem Text.mem_placeholders_iff {path name : String} :
    name ∈ placeholders path ↔
      IsPlaceholderName name.toList ∧
        ∃ before after, path = before ++ "\x7b" ++ name ++ "\x7d" ++ after := by
  have hchars (before after : String) : (before ++ "\x7b" ++ name ++ "\x7d" ++ after).toList
      = before.toList ++ '{' :: (name.toList ++ '}' :: after.toList) := by
    simp [String.toList_append]
  rw [mem_placeholders_iff_toList, mem_placeholderChars_iff]
  apply and_congr_right
  intro _
  constructor
  · rintro ⟨before, after, hpath⟩
    refine ⟨String.ofList before, String.ofList after, String.toList_inj.1 ?_⟩
    rw [hchars, String.toList_ofList, String.toList_ofList, hpath]
  · rintro ⟨before, after, rfl⟩
    exact ⟨before.toList, after.toList, hchars before after⟩

/-- A template that is rendered gives back the names of its placeholders, in order and with
    repeats.  And from any path, well formed or not, exactly those names are read that are some
    text without braces and stand in it between an opening brace and a closing one, which is the
    next since the name holds none. -/
theorem placeholders_read_back :
    (∀ t : PathTemplate, Text.placeholders t.render = t.names) ∧
    ∀ path name, name ∈ Text.placeholders path ↔
      IsPlaceholderName name.toList ∧
        ∃ before after, path = before ++ "\x7b" ++ name ++ "\x7d" ++ after :=
  ⟨PathTemplate.placeholders_render, fun _ _ => Text.mem_placeholders_iff⟩

-- a closing brace in literal text, a repeated name; then a nested, an empty and an open brace
example : PathTemplate.render
    { front := "/\x7d"
      slots := [⟨"id", "/", ⟨by decide, by decide, by decide⟩, by decide⟩,
        ⟨"id", "", ⟨by decide, by decide, by decide⟩, by decide⟩]
      opening_not_mem := by decide } = "/\x7d\x7bid\x7d/\x7bid\x7d" := by decide

example : Text.placeholders "/\x7ba\x7bid\x7d\x7d/\x7b\x7d/\x7bopen" = ["id"] := by decide

end ClientGen
