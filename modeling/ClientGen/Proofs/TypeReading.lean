/-
  ClientGen.Proofs.TypeReading

  How a type expression is read.  The brackets of arrays bind more tightly than `&`, and
  `&` more tightly than `|`; an operator inside brackets or a literal does not count, and
  parentheses only group.  What opens and closes its own brackets and literals can stand
  anywhere without being read differently, unless it shows an operator that binds less
  tightly than those around it: `read_joinTypes` says what becomes of members that are
  joined by `&`.
-/
import ClientGen.TypeScript.Literal
import ClientGen.TypeScript.TypeExpr
import Mathlib.Data.List.Basic

namespace ClientGen.TypeScript

/-! ## Brackets and literals -/

/-- The character that closes a bracket. -/
def closerOf? (c : Char) : Option Char :=
  if c = '(' then some ')'
  else if c = '[' then some ']'
  else if c = '{' then some '}'
  else if c = '<' then some '>'
  else none

/-- Whether a character closes a bracket. -/
def isCloser (c : Char) : Bool := c == ')' || c == ']' || c == '}' || c == '>'

/-- Whether a character opens and closes literals. -/
def isQuote (c : Char) : Bool := c == '\x27' || c == '"'

/-- Where a reader of a type expression stands: inside a literal, perhaps right behind a
    backslash, or outside of all literals.  In either case brackets may be open that are to be
    closed by certain characters, the innermost first. -/
inductive Spot where
  | literal (quote : Char) (escaped : Bool) (closers : List Char)
  | outside (closers : List Char)
deriving DecidableEq

namespace Spot

variable {spot next : Spot} {c : Char} {cs others : List Char}

/-- The spot behind a character, unless this closes a bracket that is not open. -/
def after? : Spot → Char → Option Spot
  | .literal quote true closers, _ => some (.literal quote false closers)
  | .literal quote false closers, c =>
    if c = '\\' then some (.literal quote true closers)
    else if c = quote then some (.outside closers)
    else some (.literal quote false closers)
  | .outside closers, c =>
    if isQuote c then some (.literal c false closers)
    else if isCloser c then
      if closers.head? = some c then some (.outside closers.tail) else none
    else match closerOf? c with
      | some closer => some (.outside (closer :: closers))
      | none => some (.outside closers)

/-- The spot behind a text. -/
def walk? (spot : Spot) (cs : List Char) : Option Spot := cs.foldlM after? spot

/-- The same spot with further brackets open around it. -/
def under (closers : List Char) : Spot → Spot
  | .literal quote escaped own => .literal quote escaped (own ++ closers)
  | .outside own => .outside (own ++ closers)

@[simp] theorem walk?_nil : spot.walk? [] = some spot := rfl

theorem walk?_cons : spot.walk? (c :: cs) = (spot.after? c).bind (·.walk? cs) :=
  List.foldlM_cons ..

theorem walk?_append : spot.walk? (cs ++ others) = (spot.walk? cs).bind (·.walk? others) :=
  List.foldlM_append ..

/-- Brackets that are open around a text play no part in it: a bracket of its own is the innermost,
    unless it has none, in which case none is closed. -/
theorem after?_under (closers : List Char) (h : spot.after? c = some next) :
    (spot.under closers).after? c = some (next.under closers) := by
  cases spot with
  | literal quote escaped own =>
    cases escaped <;> grind [after?, under]
  | outside own =>
    cases own <;> grind [after?, under]

theorem walk?_under (closers : List Char) (h : spot.walk? cs = some next) :
    (spot.under closers).walk? cs = some (next.under closers) := by
  induction cs generalizing spot with
  | nil =>
    cases h
    rfl
  | cons c rest ih =>
    rw [walk?_cons] at h ⊢
    obtain ⟨spot', hspot, h⟩ := Option.bind_eq_some_iff.1 h
    rw [after?_under closers hspot]
    exact ih h

end Spot

/-- Whether a text opens and closes its own brackets and literals. -/
def Closed (cs : List Char) : Prop := Spot.walk? (.outside []) cs = some (.outside [])

instance (cs : List Char) : Decidable (Closed cs) := inferInstanceAs (Decidable (_ = _))

/-- A bracket waits for what closes it. -/
theorem after?_bracket {opener closer : Char} (h : closerOf? opener = some closer) :
    Spot.after? (.outside []) opener = some (.outside [closer]) ∧
      Spot.after? (.outside [closer]) closer = some (.outside []) := by
  unfold closerOf? at h
  grind [Spot.after?, isQuote, isCloser, closerOf?]

namespace Closed

variable {cs others : List Char}

theorem walk? (h : Closed cs) (closers : List Char) :
    Spot.walk? (.outside closers) cs = some (.outside closers) :=
  Spot.walk?_under closers h

theorem append (h : Closed cs) (h' : Closed others) : Closed (cs ++ others) := by
  rw [Closed, Spot.walk?_append, h]
  exact h'

/-- What is closed can be put into brackets. -/
theorem bracket {opener closer : Char} (hopener : closerOf? opener = some closer)
    (h : Closed cs) : Closed (opener :: (cs ++ [closer])) := by
  obtain ⟨hopened, hclosed⟩ := after?_bracket hopener
  rw [Closed, Spot.walk?_cons, hopened, Option.bind_some, Spot.walk?_append, h.walk?,
    Option.bind_some, Spot.walk?_cons, hclosed, Option.bind_some, Spot.walk?_nil]

end Closed

/-! ## Characters outside of brackets and literals -/

/-- Whether a character stands outside of all brackets and literals, in a text behind a spot. -/
def showsFrom (p : Char) : Spot → List Char → Bool
  | _, [] => false
  | spot, c :: rest =>
    (spot = .outside [] && c == p) || (spot.after? c).any fun next => showsFrom p next rest

/-- Whether a character stands outside of all brackets and literals in a text. -/
def shows (p : Char) (cs : List Char) : Bool := showsFrom p (.outside []) cs

/-- The parts of a text between the places where a character stands outside of all brackets and
    literals, behind a spot.  What closes a bracket that is not open is not read any further. -/
def partsFrom (p : Char) : Spot → List Char → List (List Char)
  | _, [] => [[]]
  | spot, c :: rest =>
    if spot = .outside [] ∧ c = p then [] :: partsFrom p (.outside []) rest
    else match spot.after? c with
      | some next => (partsFrom p next rest).modifyHead (c :: ·)
      | none => [c :: rest]

/-- The parts of a text between the places where a character stands outside of all brackets and
    literals. -/
def parts (p : Char) (cs : List Char) : List (List Char) := partsFrom p (.outside []) cs

section Shows

variable {p c : Char} {spot next : Spot} {cs others part : List Char}

theorem showsFrom_append (h : spot.walk? cs = some next) :
    showsFrom p spot (cs ++ others) = (showsFrom p spot cs || showsFrom p next others) := by
  induction cs generalizing spot with
  | nil =>
    cases h
    rw [List.nil_append, showsFrom, Bool.false_or]
  | cons c rest ih =>
    rw [Spot.walk?_cons] at h
    obtain ⟨spot', hspot, h⟩ := Option.bind_eq_some_iff.1 h
    rw [List.cons_append, showsFrom, showsFrom, hspot, Option.any_some, Option.any_some, ih h,
      Bool.or_assoc]

/-- Nothing shows inside a bracket. -/
theorem showsFrom_under {closer : Char} (closers : List Char) (h : spot.walk? cs = some next) :
    showsFrom p (spot.under (closer :: closers)) cs = false := by
  induction cs generalizing spot with
  | nil => rw [showsFrom]
  | cons c rest ih =>
    rw [Spot.walk?_cons] at h
    obtain ⟨spot', hspot, h⟩ := Option.bind_eq_some_iff.1 h
    -- with the bracket open, a reader is never outside of all brackets
    have hne : spot.under (closer :: closers) ≠ .outside [] := by
      cases spot <;> simp [Spot.under]
    rw [showsFrom, Spot.after?_under _ hspot, Option.any_some, ih h]
    simp [hne]

theorem mem_of_showsFrom (h : showsFrom p spot cs = true) : p ∈ cs := by
  induction cs generalizing spot with
  | nil => rw [showsFrom] at h; cases h
  | cons c rest ih =>
    rw [showsFrom, Bool.or_eq_true] at h
    rcases h with h | h
    · rw [Bool.and_eq_true, beq_iff_eq] at h
      rw [h.2]
      exact List.mem_cons_self
    · obtain ⟨next, -, h⟩ := (Option.any_eq_true _ _).1 h
      exact List.mem_cons_of_mem _ (ih h)

theorem shows_append (h : Closed cs) : shows p (cs ++ others) = (shows p cs || shows p others) :=
  showsFrom_append h

theorem shows_bracket {opener closer : Char} (hopener : closerOf? opener = some closer)
    (hp : p ≠ opener) (h : Closed cs) : shows p (opener :: (cs ++ [closer])) = false := by
  have hinner : showsFrom p (.outside [closer]) cs = false := showsFrom_under [] h
  have hopen : (opener == p) = false := beq_eq_false_iff_ne.2 hp.symm
  obtain ⟨hopened, hclosed⟩ := after?_bracket hopener
  rw [shows, showsFrom, hopen, Bool.and_false, Bool.false_or, hopened, Option.any_some,
    showsFrom_append (h.walk? _), hinner, Bool.false_or, showsFrom, hclosed, Option.any_some,
    showsFrom]
  simp

theorem partsFrom_ne_nil (p : Char) (spot : Spot) (cs : List Char) : partsFrom p spot cs ≠ [] := by
  induction cs generalizing spot with
  | nil => simp [partsFrom]
  | cons c rest ih =>
    rw [partsFrom]
    split
    · exact List.cons_ne_nil _ _
    · split
      · next next _ =>
        obtain ⟨first, others, hparts⟩ := List.exists_cons_of_ne_nil (ih next)
        rw [hparts]
        exact List.cons_ne_nil _ _
      · exact List.cons_ne_nil _ _

/-- A text without the character is all one part. -/
theorem partsFrom_of_not_shows (h : showsFrom p spot cs = false) : partsFrom p spot cs = [cs] := by
  induction cs generalizing spot with
  | nil => rw [partsFrom]
  | cons c rest ih =>
    rw [showsFrom, Bool.or_eq_false_iff] at h
    have hne : ¬(spot = .outside [] ∧ c = p) := by simpa using h.1
    rw [partsFrom, if_neg hne]
    cases hnext : spot.after? c with
    | none => rfl
    | some next =>
      rw [hnext, Option.any_some] at h
      simp only [ih h.2, List.modifyHead_cons]

/-- Outside of all brackets and literals the character ends a part, and what is behind it is read
    by itself. -/
theorem partsFrom_append (hp : Spot.after? (.outside []) p = some (.outside []))
    (h : spot.walk? cs = some (.outside [])) :
    partsFrom p spot (cs ++ p :: others) = partsFrom p spot cs ++ parts p others := by
  induction cs generalizing spot with
  | nil =>
    cases h
    have hends : partsFrom p (.outside []) (p :: others) = [] :: parts p others := by
      rw [partsFrom, if_pos ⟨rfl, rfl⟩, parts]
    exact hends
  | cons c rest ih =>
    rw [Spot.walk?_cons] at h
    obtain ⟨next, hnext, h⟩ := Option.bind_eq_some_iff.1 h
    rw [List.cons_append, partsFrom, partsFrom]
    split
    · next hhere =>
      rw [hhere.1, hhere.2, hp, Option.some.injEq] at hnext
      subst hnext
      rw [ih h, List.cons_append]
    · obtain ⟨first, more, hparts⟩ := List.exists_cons_of_ne_nil (partsFrom_ne_nil p next rest)
      rw [hnext]
      simp only [ih h, hparts, List.cons_append, List.modifyHead_cons]

/-- A part that comes first. -/
theorem partsFrom_append_cons (hp : Spot.after? (.outside []) p = some (.outside []))
    (h : spot.walk? cs = some (.outside [])) (hcs : showsFrom p spot cs = false) :
    partsFrom p spot (cs ++ p :: others) = cs :: parts p others := by
  rw [partsFrom_append hp h, partsFrom_of_not_shows hcs, List.singleton_append]

/-- No part is longer than the text, and where the character shows all are shorter. -/
theorem length_of_mem_partsFrom (h : part ∈ partsFrom p spot cs) :
    part.length ≤ cs.length ∧ (showsFrom p spot cs = true → part.length < cs.length) := by
  induction cs generalizing spot part with
  | nil =>
    rw [partsFrom, List.mem_singleton] at h
    rw [h, showsFrom]
    exact ⟨Nat.le_refl _, nofun⟩
  | cons c rest ih =>
    rw [partsFrom] at h
    rw [List.length_cons]
    split at h
    · -- the part before the character is empty
      rcases List.mem_cons.1 h with rfl | h
      · exact ⟨Nat.zero_le _, fun _ => Nat.succ_pos _⟩
      · have hlength := (ih h).1
        exact ⟨by omega, fun _ => by omega⟩
    · next hne =>
      have hhere : (spot = .outside [] && c == p) = false := by simpa using hne
      rw [showsFrom, hhere, Bool.false_or]
      cases hnext : spot.after? c with
      | none =>
        rw [hnext, List.mem_singleton] at h
        rw [h, Option.any_none]
        exact ⟨Nat.le_refl _, nofun⟩
      | some next =>
        rw [hnext] at h
        obtain ⟨first, others, hparts⟩ := List.exists_cons_of_ne_nil (partsFrom_ne_nil p next rest)
        simp only [hparts, List.modifyHead_cons] at h
        rw [Option.any_some]
        rcases List.mem_cons.1 h with rfl | h
        · obtain ⟨hle, hlt⟩ := ih (hparts ▸ List.mem_cons_self)
          exact ⟨Nat.succ_le_succ hle, fun hp => Nat.succ_lt_succ (hlt hp)⟩
        · obtain ⟨hle, hlt⟩ := ih (hparts ▸ List.mem_cons_of_mem _ h)
          exact ⟨by omega, fun _ => by omega⟩

end Shows

/-! ## Reading -/

/-- A type as it is meant, apart from how it is written. -/
inductive TypeTerm where
  /-- A name, a literal, an object or a name with arguments. -/
  | operand (text : List Char)
  | array (element : TypeTerm)
  | intersection (members : List TypeTerm)
  | union (members : List TypeTerm)

/-- The text in front of the brackets of an array. -/
def arrayElement? (cs : List Char) : Option (List Char) :=
  let front := cs.dropLast.dropLast
  if cs = front ++ ['[', ']'] then some front else none

/-- The text between parentheses around the whole. -/
def grouped? (cs : List Char) : Option (List Char) :=
  let inner := cs.tail.dropLast
  if cs = '(' :: (inner ++ [')']) ∧ Closed inner then some inner else none

/-- A text without blank ends. -/
def stripped (cs : List Char) : List Char := Text.trimEnd (Text.trimStart cs)

theorem length_stripped_le (cs : List Char) : (stripped cs).length ≤ cs.length := by
  have hstart := (List.dropWhile_suffix (l := cs) Text.isBlank).length_le
  have hend := (List.dropWhile_suffix (l := (Text.trimStart cs).reverse) Text.isBlank).length_le
  rw [List.length_reverse] at hend
  rw [stripped, Text.trimEnd, List.length_reverse]
  exact Nat.le_trans hend hstart

@[simp] theorem stripped_cons_space (cs : List Char) : stripped (' ' :: cs) = stripped cs := rfl

@[simp] theorem stripped_append_space (cs : List Char) : stripped (cs ++ [' ']) = stripped cs := by
  have hend (cs : List Char) : Text.trimEnd (cs ++ [' ']) = Text.trimEnd cs := by
    rw [Text.trimEnd, List.reverse_append]
    rfl
  unfold stripped Text.trimStart
  rw [List.dropWhile_append]
  split
  · next hblank => rw [List.isEmpty_iff.1 hblank]; rfl
  · exact hend _

theorem length_of_arrayElement? {cs front : List Char} (h : arrayElement? cs = some front) :
    front.length < cs.length := by
  unfold arrayElement? at h
  dsimp only at h
  split at h
  · next hcs =>
    cases h
    have hlength := congrArg List.length hcs
    simp at hlength ⊢
    omega
  · cases h

theorem length_of_grouped? {cs inner : List Char} (h : grouped? cs = some inner) :
    inner.length < cs.length := by
  unfold grouped? at h
  dsimp only at h
  split at h
  · next hcs =>
    cases h
    have hlength := congrArg List.length hcs.1
    simp at hlength ⊢
    omega
  · cases h

/-- What a text means as a type. -/
def read (cs : List Char) : TypeTerm :=
  if _hbar : shows '|' cs = true then
    .union ((parts '|' cs).attach.map fun part => read part.1)
  else if _hamp : shows '&' cs = true then
    .intersection ((parts '&' cs).attach.map fun part => read part.1)
  else match _harray : arrayElement? (stripped cs) with
    | some element => .array (read element)
    | none => match _hgroup : grouped? (stripped cs) with
      | some inner => read inner
      | none => .operand (stripped cs)
termination_by cs.length
decreasing_by
  · exact (length_of_mem_partsFrom part.2).2 _hbar
  · exact (length_of_mem_partsFrom part.2).2 _hamp
  · exact Nat.lt_of_lt_of_le (length_of_arrayElement? _harray) (length_stripped_le cs)
  · exact Nat.lt_of_lt_of_le (length_of_grouped? _hgroup) (length_stripped_le cs)

section Read

variable {cs inner : List Char}

theorem read_of_union (h : shows '|' cs = true) : read cs = .union ((parts '|' cs).map read) := by
  rw [read, dif_pos h, List.attach_map_val]

theorem read_of_intersection (hbar : shows '|' cs = false) (hamp : shows '&' cs = true) :
    read cs = .intersection ((parts '&' cs).map read) := by
  rw [read, dif_neg (Bool.eq_false_iff.1 hbar), dif_pos hamp, List.attach_map_val]

theorem read_of_operand (hbar : shows '|' cs = false) (hamp : shows '&' cs = false) :
    read cs = match arrayElement? (stripped cs), grouped? (stripped cs) with
      | some element, _ => .array (read element)
      | none, some inner => read inner
      | none, none => .operand (stripped cs) := by
  rw [read, dif_neg (Bool.eq_false_iff.1 hbar), dif_neg (Bool.eq_false_iff.1 hamp)]
  split
  · next h => rw [h]
  · next h =>
    rw [h]
    split
    · next h' => rw [h']
    · next h' => rw [h']

/-! ### Blanks -/

theorem shows_cons_space {p : Char} (hp : p ≠ ' ') : shows p (' ' :: cs) = shows p cs := by
  have hspace : (' ' == p) = false := beq_eq_false_iff_ne.2 hp.symm
  have hafter : Spot.after? (.outside []) ' ' = some (.outside []) := by decide
  rw [shows, showsFrom, hspace, Bool.and_false, Bool.false_or, hafter, Option.any_some, shows]

theorem parts_cons_space {p : Char} (hp : p ≠ ' ') :
    parts p (' ' :: cs) = (parts p cs).modifyHead (' ' :: ·) := by
  have hafter : Spot.after? (.outside []) ' ' = some (.outside []) := by decide
  have hne : ¬(Spot.outside [] = .outside [] ∧ ' ' = p) := fun h => hp h.2.symm
  rw [parts, partsFrom, if_neg hne, hafter]
  rfl

theorem showsFrom_append_space {p : Char} (hp : p ≠ ' ') (spot : Spot) :
    showsFrom p spot (cs ++ [' ']) = showsFrom p spot cs := by
  induction cs generalizing spot with
  | nil => simp [showsFrom, hp.symm]
  | cons c rest ih => simp only [List.cons_append, showsFrom, ih]

/-- A blank at the end of a text is one at the end of the last part. -/
theorem partsFrom_append_space (cs : List Char) {p : Char} (hp : p ≠ ' ') (spot : Spot) :
    ∃ front last, partsFrom p spot cs = front ++ [last] ∧
      partsFrom p spot (cs ++ [' ']) = front ++ [last ++ [' ']] := by
  induction cs generalizing spot with
  | nil =>
    refine ⟨[], [], rfl, ?_⟩
    -- the blank is no separator itself
    have hne : ¬(spot = .outside [] ∧ ' ' = p) := fun h => hp h.2.symm
    rw [List.nil_append, partsFrom, if_neg hne]
    split <;> rfl
  | cons c rest ih =>
    rw [List.cons_append, partsFrom, partsFrom]
    split
    · obtain ⟨front, last, hparts, hspace⟩ := ih (.outside [])
      rw [hparts, hspace]
      exact ⟨[] :: front, last, rfl, rfl⟩
    · split
      · next next _ =>
        obtain ⟨front, last, hparts, hspace⟩ := ih next
        rw [hparts, hspace]
        cases front with
        | nil => exact ⟨[], c :: last, rfl, rfl⟩
        | cons first others => exact ⟨(c :: first) :: others, last, rfl, rfl⟩
      · exact ⟨[], c :: rest, rfl, rfl⟩

/-- Texts that show the same, and differ in blank ends only, mean the same when their parts do. -/
theorem read_congr {other : List Char} (hshows : ∀ p, p ≠ ' ' → shows p other = shows p cs)
    (hstripped : stripped other = stripped cs)
    (hparts : ∀ p, p ≠ ' ' → shows p cs = true →
      (parts p other).map read = (parts p cs).map read) :
    read other = read cs := by
  have hbar := hshows '|' (by decide)
  have hamp := hshows '&' (by decide)
  cases hbar' : shows '|' cs with
  | true =>
    rw [read_of_union (hbar.trans hbar'), read_of_union hbar', hparts '|' (by decide) hbar']
  | false =>
    cases hamp' : shows '&' cs with
    | true =>
      rw [read_of_intersection (hbar.trans hbar') (hamp.trans hamp'),
        read_of_intersection hbar' hamp', hparts '&' (by decide) hamp']
    | false =>
      rw [read_of_operand (hbar.trans hbar') (hamp.trans hamp'), read_of_operand hbar' hamp',
        hstripped]

/-- A blank in front of a type does not matter: it stands in front of its first part. -/
theorem read_cons_space (cs : List Char) : read (' ' :: cs) = read cs := by
  induction hlength : cs.length using Nat.strongRecOn generalizing cs with
  | ind length ih =>
    subst hlength
    refine read_congr (fun p hp => shows_cons_space hp) (stripped_cons_space cs) ?_
    intro p hp hshows
    obtain ⟨first, others, hparts⟩ :=
      List.exists_cons_of_ne_nil (partsFrom_ne_nil p (.outside []) cs)
    have hfirst := (length_of_mem_partsFrom (hparts ▸ List.mem_cons_self)).2 hshows
    rw [parts_cons_space hp, parts, hparts, List.modifyHead_cons, List.map_cons, List.map_cons,
      ih first.length hfirst first rfl]

/-- A blank behind a type does not matter. -/
theorem read_append_space (cs : List Char) : read (cs ++ [' ']) = read cs := by
  induction hlength : cs.length using Nat.strongRecOn generalizing cs with
  | ind length ih =>
    subst hlength
    refine read_congr (fun p hp => showsFrom_append_space hp _) (stripped_append_space cs) ?_
    intro p hp hshows
    obtain ⟨front, last, hparts, hspace⟩ := partsFrom_append_space cs hp (.outside [])
    have hlast := (length_of_mem_partsFrom (hparts ▸ List.mem_append_right front
      (List.mem_singleton_self last))).2 hshows
    rw [parts, parts, hparts, hspace, List.map_append, List.map_append, List.map_singleton,
      List.map_singleton, ih last.length hlast last rfl]

/-! ### Groups and members -/

/-- Parentheses only group. -/
theorem read_group {inner : List Char} (h : Closed inner) :
    read ('(' :: (inner ++ [')'])) = read inner := by
  have hstripped : stripped ('(' :: (inner ++ [')'])) = '(' :: (inner ++ [')']) := by
    have hstart : Text.trimStart ('(' :: (inner ++ [')'])) = '(' :: (inner ++ [')']) := rfl
    have hreverse : ('(' :: (inner ++ [')'])).reverse = ')' :: ('(' :: inner).reverse := by simp
    rw [stripped, hstart, Text.trimEnd, hreverse, List.dropWhile_cons_of_neg (by decide),
      ← hreverse, List.reverse_reverse]
  -- what ends with a parenthesis is no array
  have harray : arrayElement? ('(' :: (inner ++ [')'])) = none := by
    unfold arrayElement?
    dsimp only
    rw [if_neg]
    intro h
    have hlast := congrArg List.getLast? h
    rw [← List.cons_append, List.getLast?_append, List.getLast?_append] at hlast
    have hcloser : some ')' = some ']' := hlast
    exact absurd hcloser (by decide)
  have hgroup : grouped? ('(' :: (inner ++ [')'])) = some inner := by
    simp [grouped?, h]
  rw [read_of_operand (shows_bracket rfl (by decide) h) (shows_bracket rfl (by decide) h),
    hstripped, harray, hgroup]

end Read

/-! ## Members that are joined -/

/-- The intersection of types, which is the only one itself if there is no other. -/
def TypeTerm.intersectionOf : List TypeTerm → TypeTerm
  | [member] => member
  | members => .intersection members

/-- Whether a type is written as a union without parentheses. -/
def IsBareUnion (type : String) : Prop := shows '|' type.toList = true

instance (type : String) : Decidable (IsBareUnion type) := inferInstanceAs (Decidable (_ = true))

/-- A text that can stand between operators: it is closed, and shows no `&`. -/
structure Whole (cs : List Char) : Prop where
  closed : Closed cs
  joined : shows '&' cs = false

section Join

variable {p : Char} {separator : String} {types : List String}

/-- What holds of texts, and of what is put together of such, holds of texts that are joined. -/
theorem intercalate_induction {P : List Char → Prop} (hnil : P [])
    (happend : ∀ cs others, P cs → P others → P (cs ++ others)) (hseparator : P separator.toList)
    (h : ∀ type ∈ types, P type.toList) : P (separator.intercalate types).toList := by
  induction types with
  | nil => exact hnil
  | cons type rest ih =>
    obtain ⟨htype, hrest⟩ := List.forall_mem_cons.1 h
    cases rest with
    | nil =>
      rw [String.intercalate_singleton]
      exact htype
    | cons second others =>
      rw [String.intercalate_cons_cons, String.toList_append, String.toList_append]
      exact happend _ _ (happend _ _ htype hseparator) (ih hrest)

theorem Closed.intercalate (hseparator : Closed separator.toList)
    (h : ∀ type ∈ types, Closed type.toList) : Closed (separator.intercalate types).toList :=
  intercalate_induction rfl (fun _ _ => Closed.append) hseparator h

/-- What shows in members that are joined shows in one of them, or joins them. -/
theorem shows_intercalate (hseparator : Closed separator.toList)
    (h : ∀ type ∈ types, Closed type.toList) :
    shows p (separator.intercalate types).toList
      = (types.any (shows p ·.toList) || (1 < types.length && shows p separator.toList)) := by
  induction types with
  | nil => rfl
  | cons type rest ih =>
    obtain ⟨htype, hrest⟩ := List.forall_mem_cons.1 h
    cases rest with
    | nil =>
      rw [String.intercalate_singleton]
      simp
    | cons second others =>
      rw [String.intercalate_cons_cons, String.toList_append, String.toList_append,
        shows_append (htype.append hseparator), shows_append htype, ih hrest]
      simp only [List.any_cons, List.length_cons]
      cases shows p separator.toList <;> cases shows p type.toList <;> simp

/-- Members that show neither operator are the parts of what they are joined to. -/
theorem map_read_parts_join {type : String} (h : ∀ t ∈ type :: types, Whole t.toList) :
    (parts '&' (" & ".intercalate (type :: types)).toList).map read
      = (type :: types).map (read ·.toList) := by
  induction types generalizing type with
  | nil =>
    have htype := (h type List.mem_cons_self).joined
    rw [String.intercalate_singleton, parts, partsFrom_of_not_shows htype]
    rfl
  | cons second others ih =>
    obtain ⟨htype, hrest⟩ := List.forall_mem_cons.1 h
    have htext : (" & ".intercalate (type :: second :: others)).toList
        = (type.toList ++ [' ']) ++ '&' :: ' ' :: (" & ".intercalate (second :: others)).toList := by
      rw [String.intercalate_cons_cons]
      simp
    -- of the blanks around the operator, one ends the first part and one begins the next
    have hfirst : Closed (type.toList ++ [' ']) := htype.closed.append (by decide)
    have hshows : shows '&' (type.toList ++ [' ']) = false := by
      rw [shows_append htype.closed, htype.joined]
      decide
    obtain ⟨part, more, hparts⟩ := List.exists_cons_of_ne_nil
      (partsFrom_ne_nil '&' (.outside []) (" & ".intercalate (second :: others)).toList)
    have hmore := ih hrest
    rw [parts, hparts] at hmore
    rw [htext, parts, partsFrom_append_cons rfl hfirst hshows, List.map_cons, read_append_space,
      parts_cons_space (by decide), parts, hparts, List.modifyHead_cons, List.map_cons,
      read_cons_space, ← List.map_cons, hmore]
    rfl

theorem toList_joinTypes (separator type : String) (types : List String) :
    (joinTypes separator (type :: types)).toList
      = '(' :: ((separator.intercalate (type :: types)).toList ++ [')']) := by
  rw [joinTypes, List.isEmpty_cons, if_neg Bool.false_ne_true]
  simp

/-- Types that are joined by `&` mean the intersection of what they mean, just when there is only
    one or none of them is a bare union. -/
theorem read_joinTypes {type : String} (h : ∀ t ∈ type :: types, Whole t.toList) :
    read (joinTypes " & " (type :: types)).toList
        = .intersectionOf ((type :: types).map (read ·.toList)) ↔
      types = [] ∨ ∀ t ∈ type :: types, ¬IsBareUnion t := by
  have hclosed : ∀ t ∈ type :: types, Closed t.toList := fun t ht => (h t ht).closed
  rw [toList_joinTypes, read_group (.intercalate (by decide) hclosed)]
  cases types with
  | nil =>
    rw [String.intercalate_singleton]
    exact iff_of_true rfl (.inl rfl)
  | cons second others =>
    have hand : Closed " & ".toList := by decide
    have hshows {p : Char} := shows_intercalate (p := p) hand hclosed
    have hamp : shows '&' (" & ".intercalate (type :: second :: others)).toList = true := by
      have hseparator : shows '&' " & ".toList = true := by decide
      rw [hshows, hseparator, Bool.and_true, Bool.or_eq_true]
      exact .inr (decide_eq_true (by simp))
    have hbar : shows '|' (" & ".intercalate (type :: second :: others)).toList
        = (type :: second :: others).any (shows '|' ·.toList) := by
      have hseparator : shows '|' " & ".toList = false := by decide
      rw [hshows, hseparator, Bool.and_false, Bool.or_false]
    cases hany : (type :: second :: others).any (shows '|' ·.toList) with
    | true =>
      -- the operator that binds less tightly is read first
      rw [read_of_union (hbar.trans hany)]
      obtain ⟨bare, hbare, hshown⟩ := List.any_eq_true.1 hany
      constructor
      · intro hread
        cases hread
      · rintro (hnil | hnone)
        · cases hnil
        · exact absurd hshown (hnone bare hbare)
    | false =>
      rw [read_of_intersection (hbar.trans hany) hamp, map_read_parts_join h]
      exact iff_of_true rfl (.inr (List.any_eq_false.1 hany))

/-- With null at its end a type means a union, the last member of which is null. -/
theorem read_bar_null {cs : List Char} (h : Closed cs) :
    read (cs ++ "| null".toList)
      = .union ((parts '|' cs).map read ++ [.operand nullType.toList]) := by
  have htext : cs ++ "| null".toList = cs ++ '|' :: ' ' :: nullType.toList := rfl
  have hunion : shows '|' (cs ++ '|' :: ' ' :: nullType.toList) = true := by
    rw [shows_append h, Bool.or_eq_true]
    exact .inr (by decide)
  have hlast : parts '|' (' ' :: nullType.toList) = [' ' :: nullType.toList] := by decide
  have hnull : read nullType.toList = .operand nullType.toList :=
    read_of_operand (by decide) (by decide)
  rw [htext, read_of_union hunion, parts, partsFrom_append rfl h, hlast, List.map_append,
    List.map_singleton, read_cons_space, hnull, parts]

/-- A type that is widened by null means the union of both, unless it is a bare union. -/
theorem read_append_null {cs : List Char} (h : Closed cs) (hbar : shows '|' cs = false) :
    read (cs ++ " | null".toList) = .union [read cs, .operand nullType.toList] := by
  have htext : cs ++ " | null".toList = (cs ++ [' ']) ++ "| null".toList := by
    rw [List.append_assoc]
    rfl
  have hparts : parts '|' (cs ++ [' ']) = [cs ++ [' ']] := by
    apply partsFrom_of_not_shows
    rw [showsFrom_append_space (by decide)]
    exact hbar
  rw [htext, read_bar_null (h.append (by decide)), hparts, List.map_singleton, read_append_space]
  rfl

end Join

end ClientGen.TypeScript
