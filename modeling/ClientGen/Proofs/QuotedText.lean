/-
  ClientGen.Proofs.QuotedText

  Quoted literals inside a text that goes on.  A literal is read character by
  character, up to the quote that ends it.  What is read is just what is written
  (`readLiteral?_eq_some_iff`): the reader stops at the right quote whatever
  follows, and accepts no other spelling.
-/
import ClientGen.TypeScript.Literal
import Mathlib.Logic.Function.Basic

namespace ClientGen

/-- A text in which every `c` is replaced. -/
def Text.replaceEach (c : Char) (replacement : List Char) (cs : List Char) : List Char :=
  cs.flatMap fun other => if other = c then replacement else [other]

namespace TypeScript

/-! ## One pass of escaping -/

/-- Quotes and line breaks are escaped after backslashes, so no replacement meets what an earlier
    one has written, and four passes come to the same as one. -/
theorem quotedChars_eq_replaceEach (cs : List Char) :
    quotedChars cs = '\x27' ::
      (Text.replaceEach '\r' ['\\', 'r'] (Text.replaceEach '\n' ['\\', 'n']
        (Text.replaceEach '\x27' ['\\', '\x27'] (Text.replaceEach '\\' ['\\', '\\'] cs)))
        ++ ['\x27']) := by
  have hchar (c : Char) : quotedChar c =
      Text.replaceEach '\r' ['\\', 'r'] (Text.replaceEach '\n' ['\\', 'n']
        (Text.replaceEach '\x27' ['\\', '\x27'] (if c = '\\' then ['\\', '\\'] else [c]))) := by
    unfold quotedChar Text.replaceEach
    by_cases hslash : c = '\\'
    · subst hslash
      decide
    · by_cases hquote : c = '\x27'
      · subst hquote
        decide
      · by_cases hfeed : c = '\n'
        · subst hfeed
          decide
        · simp [hslash, hquote, hfeed]
  rw [quotedChars, funext hchar]
  simp only [Text.replaceEach, List.flatMap_assoc]

/-! ## Reading -/

/-- The character for which a backslash and a letter stand. -/
def escaped? (letter : Char) : Option Char :=
  if letter = '\\' ∨ letter = '\x27' then some letter
  else if letter = 'n' then some '\n'
  else if letter = 'r' then some '\r'
  else none

/-- What stands behind an opening quote: the text up to the quote that ends it, and what
    follows.  Lines do not break inside a literal. -/
def readQuoted : List Char → Option (List Char × List Char)
  | '\\' :: letter :: rest =>
    (escaped? letter).bind fun meant => (readQuoted rest).map fun r => (meant :: r.1, r.2)
  | c :: rest =>
    if c = '\x27' then some ([], rest)
    else if c = '\\' ∨ c = '\n' ∨ c = '\r' then none
    else (readQuoted rest).map fun r => (c :: r.1, r.2)
  | [] => none

/-- The single-quoted literal at the beginning of a text: what it means, and what follows it. -/
def readLiteral? (text : String) : Option (String × String) :=
  match text.toList with
  | '\x27' :: rest => (readQuoted rest).map fun r => (String.ofList r.1, String.ofList r.2)
  | _ => none

/-- A character that is written is read, whatever follows it. -/
theorem readQuoted_quotedChar_append (c : Char) (rest : List Char) :
    readQuoted (quotedChar c ++ rest) = (readQuoted rest).map fun r => (c :: r.1, r.2) := by
  unfold quotedChar
  split
  · next hslash =>
    subst hslash
    rfl
  · next hslash =>
    split
    · next hquote =>
      subst hquote
      rfl
    · next hquote =>
      split
      · next hfeed =>
        subst hfeed
        rfl
      · next hfeed =>
        split
        · next hreturn =>
          subst hreturn
          rfl
        · next hreturn =>
          -- any other character stands for itself
          have hplain : ¬(c = '\\' ∨ c = '\n' ∨ c = '\r') := by
            simp [hslash, hfeed, hreturn]
          rw [List.singleton_append, readQuoted, if_neg hquote, if_neg hplain]
          exact fun _ _ hc _ => hslash hc

theorem readQuoted_flatMap_quotedChar (cs rest : List Char) :
    readQuoted (cs.flatMap quotedChar ++ '\x27' :: rest) = some (cs, rest) := by
  induction cs with
  | nil => rfl
  | cons c cs ih => rw [List.flatMap_cons, List.append_assoc, readQuoted_quotedChar_append, ih]; rfl

theorem quotedChar_of_escaped? {letter meant : Char} (h : escaped? letter = some meant) :
    quotedChar meant = ['\\', letter] := by
  unfold escaped? at h
  split at h
  · next hself =>
    cases h
    rcases hself with rfl | rfl <;> rfl
  · split at h
    · next hfeed =>
      cases h
      rw [hfeed]
      rfl
    · split at h
      · next hreturn =>
        cases h
        rw [hreturn]
        rfl
      · cases h

/-- Nothing is read but what is written so.  By induction along the reader. -/
theorem eq_of_readQuoted {text cs rest : List Char} (h : readQuoted text = some (cs, rest)) :
    text = cs.flatMap quotedChar ++ '\x27' :: rest := by
  fun_induction readQuoted text generalizing cs with
  | case1 letter rest' ih =>
    obtain ⟨meant, hmeant, h⟩ := Option.bind_eq_some_iff.1 h
    obtain ⟨⟨cs', rest''⟩, hread, heq⟩ := Option.map_eq_some_iff.1 h
    cases heq
    rw [List.flatMap_cons, quotedChar_of_escaped? hmeant, ih hread]
    rfl
  | case2 rest' _ =>
    cases h
    rfl
  | case3 => cases h
  | case4 c rest' _ hquote hplain ih =>
    obtain ⟨⟨cs', rest''⟩, hread, heq⟩ := Option.map_eq_some_iff.1 h
    cases heq
    have hself : quotedChar c = [c] := by
      simp only [not_or] at hplain
      rw [quotedChar, if_neg hplain.1, if_neg hquote, if_neg hplain.2.1, if_neg hplain.2.2]
    rw [List.flatMap_cons, hself, ih hread]
    rfl
  | case5 => cases h

theorem readQuoted_eq_some_iff {text cs rest : List Char} :
    readQuoted text = some (cs, rest) ↔ text = cs.flatMap quotedChar ++ '\x27' :: rest :=
  ⟨eq_of_readQuoted, fun h => h ▸ readQuoted_flatMap_quotedChar cs rest⟩

theorem toList_stringLiteral_append (s rest : String) :
    (stringLiteral s ++ rest).toList
      = '\x27' :: (s.toList.flatMap quotedChar ++ '\x27' :: rest.toList) := by
  rw [String.toList_append, stringLiteral, String.toList_ofList, quotedChars, List.cons_append,
    List.append_assoc]
  rfl

/-- The texts that begin with a literal for `s` are those in which it is written. -/
theorem readLiteral?_eq_some_iff {text s rest : String} :
    readLiteral? text = some (s, rest) ↔ text = stringLiteral s ++ rest := by
  rw [← String.toList_inj, toList_stringLiteral_append]
  unfold readLiteral?
  split
  · next body htext =>
    rw [htext, List.cons.injEq, eq_self, true_and, ← readQuoted_eq_some_iff,
      Option.map_eq_some_iff]
    constructor
    · rintro ⟨⟨cs, rest'⟩, hread, heq⟩
      cases heq
      rw [String.toList_ofList, String.toList_ofList]
      exact hread
    · intro hread
      exact ⟨_, hread, by rw [String.ofList_toList, String.ofList_toList]⟩
  · next hquote => simpa using fun h => (hquote _ h).elim

theorem stringLiteral_inj {s t : String} (h : stringLiteral s = stringLiteral t) : s = t := by
  have hread (s : String) : readLiteral? (stringLiteral s ++ "") = some (s, "") :=
    readLiteral?_eq_some_iff.2 rfl
  have hsame := hread s
  rw [h, hread t, Option.some.injEq, Prod.mk.injEq] at hsame
  exact hsame.1.symm

/-! ## Property keys -/

/-- A literal is no identifier. -/
theorem isIdentifier_stringLiteral (s : String) : isIdentifier (stringLiteral s) = false := by
  rw [isIdentifier, stringLiteral, String.toList_ofList, quotedChars, isIdentifierChars]
  rfl

theorem propertyKey_injective : Function.Injective propertyKey := by
  intro s t h
  unfold propertyKey at h
  split at h
  · next hs =>
    split at h
    · exact h
    · rw [h, isIdentifier_stringLiteral] at hs
      cases hs
  · split at h
    · next ht =>
      rw [← h, isIdentifier_stringLiteral] at ht
      cases ht
    · exact stringLiteral_inj h

/-- A literal is written by four replacements in turn.  Read in front of any text, it is used up
    just so and gives what was written, and no other spelling gives the same; so texts have
    different literals, and properties different keys. -/
theorem stringLiteral_round_trip :
    (∀ s, (stringLiteral s).toList = '\x27' ::
      (Text.replaceEach '\r' ['\\', 'r'] (Text.replaceEach '\n' ['\\', 'n']
        (Text.replaceEach '\x27' ['\\', '\x27'] (Text.replaceEach '\\' ['\\', '\\'] s.toList)))
        ++ ['\x27'])) ∧
      (∀ s rest, readLiteral? (stringLiteral s ++ rest) = some (s, rest)) ∧
      (∀ text s rest, readLiteral? text = some (s, rest) → text = stringLiteral s ++ rest) ∧
      Function.Injective stringLiteral ∧ Function.Injective propertyKey := by
  refine ⟨fun s => ?_, fun s rest => readLiteral?_eq_some_iff.2 rfl,
    fun text s rest => readLiteral?_eq_some_iff.1, fun s t => stringLiteral_inj,
    propertyKey_injective⟩
  rw [stringLiteral, String.toList_ofList, quotedChars_eq_replaceEach]

example : readLiteral? "'it\\'s \\\\'' + \\'" = some ("it's \\", "' + \\'") := by decide

end TypeScript

end ClientGen
