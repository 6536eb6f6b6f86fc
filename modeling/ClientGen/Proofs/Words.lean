/-
  ClientGen.Proofs.Words

  Characters of names.  What letter case does with a text keeps its letters and
  digits only, so all names are made of these; and the first of them stays the first,
  in upper case, which decides whether a name can open as identifiers do.
-/
import ClientGen.Model.Name
import ClientGen.TypeScript.Identifier
import Mathlib

namespace ClientGen

/-! ## Letters and digits -/

namespace Text

theorem isAlpha_of_isUpper {c : Char} (h : c.isUpper = true) : c.isAlpha = true := by
  rw [Char.isAlpha, h, Bool.true_or]

theorem isAlphanum_of_isAlpha {c : Char} (h : c.isAlpha = true) : c.isAlphanum = true := by
  rw [Char.isAlphanum, h, Bool.true_or]

/-- What becomes upper case is a letter. -/
theorem isAlphanum_toUpper {c : Char} (h : c.isAlphanum = true) : c.toUpper.isAlphanum = true := by
  by_cases hlower : c.isLower = true
  · have halpha : c.isAlpha = true := by rw [Char.isAlpha, hlower, Bool.or_true]
    rw [isAlphanum_of_isAlpha ((Char.isAlpha_toUpper_eq_isAlpha c).trans halpha)]
  · rw [Char.toUpper_eq_of_not_isLower hlower, h]

theorem isAlphanum_toLower {c : Char} (h : c.isAlphanum = true) : c.toLower.isAlphanum = true := by
  by_cases hupper : c.isUpper = true
  · have halpha : c.isAlpha = true := isAlpha_of_isUpper hupper
    rw [isAlphanum_of_isAlpha ((Char.isAlpha_toLower_eq_isAlpha c).trans halpha)]
  · rw [Char.toLower_eq_of_not_isUpper hupper, h]

/-- The first letter or digit of a text. -/
def lead? (s : String) : Option Char := s.toList.find? Char.isAlphanum

theorem isAlphanum_of_lead? {s : String} {c : Char} (h : lead? s = some c) :
    c.isAlphanum = true :=
  List.find?_some h

/-! ## Pieces -/

/-- The pieces of a text are what it has besides separators. -/
theorem flatten_pieces (p : Char → Bool) (cs : List Char) :
    (pieces p cs).flatten = cs.filter (!p ·) := by
  induction cs with
  | nil => rfl
  | cons c rest ih =>
    unfold pieces
    split
    · next hc => simpa [hc] using ih
    · next hc =>
      split
      · next hpieces => exact absurd hpieces (pieces_ne_nil p rest)
      · next piece others hpieces =>
        rw [hpieces] at ih
        simpa [hc] using ih

/-- A separator that is no letter or digit does not matter for the first of these. -/
theorem findSome?_lead?_splitOn {p : Char → Bool} (hp : ∀ c, p c = true → c.isAlphanum = false)
    (s : String) : (splitOn p s).findSome? lead? = lead? s := by
  have hpieces : ((splitOn p s).flatMap String.toList) = s.toList.filter (!p ·) := by
    simp [splitOn, ← flatten_pieces, List.flatMap_def]
  -- separators that are dropped would not have been found either
  have hfind := congrArg (List.find? Char.isAlphanum) hpieces
  rw [List.find?_flatMap, List.find?_filter] at hfind
  refine hfind.trans (congrArg (List.find? · s.toList) (funext fun c => ?_))
  cases hc : p c with
  | false => simp
  | true => simp [hp c hc]

/-! ## Pascal and camel case -/

/-- Names in Pascal case are made of letters and digits. -/
theorem isAlphanum_of_mem_pascalChars {cs : List Char} :
    ∀ c ∈ pascalChars cs, c.isAlphanum = true := by
  intro c hc
  rw [pascalChars] at hc
  obtain ⟨piece, hpiece, hc⟩ := List.mem_flatMap.1 hc
  have hword : ∀ c ∈ piece, c.isAlphanum = true := by
    intro c hc
    have hnot := pieces_all_not _ cs piece hpiece c hc
    simpa using hnot
  cases piece with
  | nil => exact absurd hc List.not_mem_nil
  | cons first rest =>
    rcases List.mem_cons.1 hc with rfl | hc
    · exact isAlphanum_toUpper (hword first List.mem_cons_self)
    · exact hword c (List.mem_cons_of_mem _ hc)

theorem isAlphanum_of_mem_pascalCase {s : String} :
    ∀ c ∈ (pascalCase s).toList, c.isAlphanum = true := by
  rw [pascalCase, String.toList_ofList]
  exact isAlphanum_of_mem_pascalChars

/-- In camel case only the first of these is written differently. -/
theorem isAlphanum_of_mem_camelCase {s : String} :
    ∀ c ∈ (camelCase s).toList, c.isAlphanum = true := by
  have hpascal := @isAlphanum_of_mem_pascalChars s.toList
  rw [camelCase, String.toList_ofList]
  intro c hc
  cases hchars : pascalChars s.toList with
  | nil =>
    rw [hchars] at hc
    exact absurd hc List.not_mem_nil
  | cons first rest =>
    rw [hchars] at hc hpascal
    rcases List.mem_cons.1 hc with rfl | hc
    · exact isAlphanum_toLower (hpascal first List.mem_cons_self)
    · exact hpascal c (List.mem_cons_of_mem _ hc)

theorem head?_pascalChars (cs : List Char) :
    (pascalChars cs).head? = (cs.find? Char.isAlphanum).map Char.toUpper := by
  unfold pascalChars
  induction cs with
  | nil => rfl
  | cons c rest ih =>
    unfold pieces
    split
    · next hc =>
      rw [List.find?_cons_of_neg (by simpa using hc), ← ih]
      rfl
    · next hc =>
      rw [List.find?_cons_of_pos (by simpa using hc)]
      split <;> rfl

/-- A name in Pascal case opens with the first letter or digit of the text. -/
theorem head?_pascalCase (s : String) :
    (pascalCase s).toList.head? = (lead? s).map Char.toUpper := by
  rw [pascalCase, String.toList_ofList, head?_pascalChars, lead?]

/-! ## Upper snake case -/

/-- The words of a text are its letters and digits. -/
theorem flatten_wordsFrom (word cs : List Char) :
    (wordsFrom word cs).flatten = word.reverse ++ cs.filter Char.isAlphanum := by
  -- the word that is being read is held backwards
  induction cs generalizing word with
  | nil =>
    unfold wordsFrom
    split
    · next h => simp [List.isEmpty_iff.1 h]
    · simp
  | cons c rest ih =>
    unfold wordsFrom
    split
    · next hc =>
      rw [List.filter_cons_of_neg (by simpa using hc)]
      split
      · next h => rw [ih, List.isEmpty_iff.1 h]
      · rw [List.flatten_cons, ih, List.reverse_nil, List.nil_append]
    · next hc =>
      rw [List.filter_cons_of_pos (by simpa using hc)]
      split
      · rw [List.flatten_cons, ih]
        rfl
      · rw [ih, List.reverse_cons, List.append_assoc]
        rfl

theorem ne_nil_of_mem_wordsFrom {word cs w : List Char} (h : w ∈ wordsFrom word cs) : w ≠ [] := by
  have hreverse {word : List Char} (hword : ¬word.isEmpty = true) : word.reverse ≠ [] := by
    simpa using hword
  induction cs generalizing word with
  | nil =>
    unfold wordsFrom at h
    split at h
    · exact absurd h List.not_mem_nil
    · next hword =>
      rw [List.mem_singleton.1 h]
      exact hreverse hword
  | cons c rest ih =>
    unfold wordsFrom at h
    split at h
    · split at h
      · exact ih h
      · next hword =>
        rcases List.mem_cons.1 h with rfl | h
        · exact hreverse hword
        · exact ih h
    · split at h
      · next hopens =>
        rcases List.mem_cons.1 h with rfl | h
        · -- no word ends before it has begun
          apply hreverse
          rintro hword
          simp [List.isEmpty_iff.1 hword] at hopens
        · exact ih h
      · exact ih h

/-- Whatever is in texts that are joined is in one of them or joins them. -/
theorem mem_intercalate {separator : String} {parts : List String} {c : Char}
    (h : c ∈ (separator.intercalate parts).toList) :
    c ∈ separator.toList ∨ ∃ part ∈ parts, c ∈ part.toList := by
  induction parts with
  | nil => exact absurd h List.not_mem_nil
  | cons part rest ih =>
    cases rest with
    | nil =>
      rw [String.intercalate_singleton] at h
      exact .inr ⟨part, List.mem_cons_self, h⟩
    | cons second others =>
      rw [String.intercalate_cons_cons, String.toList_append, String.toList_append,
        List.append_assoc, List.mem_append, List.mem_append] at h
      rcases h with h | h | h
      · exact .inr ⟨part, List.mem_cons_self, h⟩
      · exact .inl h
      · rcases ih h with h | ⟨other, hother, h⟩
        · exact .inl h
        · exact .inr ⟨other, List.mem_cons_of_mem _ hother, h⟩

theorem flatten_words (s : String) : (words s).flatten = s.toList.filter Char.isAlphanum := by
  rw [words, flatten_wordsFrom]
  rfl

/-- A name in upper snake case is made of letters, digits and underscores. -/
theorem isAlphanum_of_mem_upperSnakeCase {s : String} :
    ∀ c ∈ (upperSnakeCase s).toList, c.isAlphanum = true ∨ c = '_' := by
  have hword : ∀ w ∈ words s, ∀ c ∈ w, c.isAlphanum = true := by
    intro w hw c hc
    have hflat : c ∈ (words s).flatten := List.mem_flatten_of_mem hw hc
    rw [flatten_words] at hflat
    exact (List.mem_filter.1 hflat).2
  intro c hc
  rcases mem_intercalate hc with hc | ⟨part, hpart, hc⟩
  · exact .inr (List.mem_singleton.1 hc)
  · obtain ⟨w, hw, rfl⟩ := List.mem_map.1 hpart
    rw [String.toList_ofList] at hc
    obtain ⟨small, hsmall, rfl⟩ := List.mem_map.1 hc
    exact .inl (isAlphanum_toUpper (hword w hw small hsmall))

/-- A name in upper snake case opens with the first letter or digit of the text. -/
theorem head?_upperSnakeCase (s : String) :
    (upperSnakeCase s).toList.head? = (lead? s).map Char.toUpper := by
  have hflat := congrArg List.head? (flatten_words s)
  rw [List.head?_filter] at hflat
  rw [lead?, ← hflat, upperSnakeCase]
  cases hwords : words s with
  | nil => rfl
  | cons w rest =>
    -- the first word is not empty
    have hne : w ≠ [] := ne_nil_of_mem_wordsFrom (hwords ▸ List.mem_cons_self)
    obtain ⟨c, others, rfl⟩ := List.exists_cons_of_ne_nil hne
    cases rest with
    | nil => simp
    | cons second more => simp [String.intercalate_cons_cons]

end Text

/-! ## Identifiers -/

namespace TypeScript

variable {s ending : String}

theorem continuesIdentifier_of_isAlphanum {c : Char} (h : c.isAlphanum = true) :
    continuesIdentifier c = true := by
  rw [continuesIdentifier, h, Bool.true_or, Bool.true_or]

theorem continuesIdentifier_of_opens {c : Char} (h : opensIdentifier c = true) :
    continuesIdentifier c = true := by
  unfold opensIdentifier at h
  unfold continuesIdentifier
  rw [Bool.or_eq_true, Bool.or_eq_true] at h ⊢
  exact h.imp_left (Or.imp_left Text.isAlphanum_of_isAlpha)

/-- Letters are the only letters and digits that may open an identifier. -/
theorem opensIdentifier_of_isAlphanum {c : Char} (h : c.isAlphanum = true) :
    opensIdentifier c = c.isAlpha := by
  have hmarks : (c == '_') = false ∧ (c == '$') = false := by
    constructor <;> rw [beq_eq_false_iff_ne] <;> rintro rfl <;> exact absurd h (by decide)
  rw [opensIdentifier, hmarks.1, hmarks.2, Bool.or_false, Bool.or_false]

theorem isIdentifier_iff :
    isIdentifier s = true ↔
      s.toList.head?.any opensIdentifier = true ∧ ∀ c ∈ s.toList, continuesIdentifier c = true := by
  unfold isIdentifier
  cases s.toList with
  | nil => simp [isIdentifierChars]
  | cons c rest =>
    simp only [isIdentifierChars, Bool.and_eq_true, List.all_eq_true, List.head?_cons,
      Option.any_some, List.forall_mem_cons]
    constructor
    · rintro ⟨hc, hrest⟩
      exact ⟨hc, continuesIdentifier_of_opens hc, hrest⟩
    · rintro ⟨hc, -, hrest⟩
      exact ⟨hc, hrest⟩

/-- An identifier may go on with whatever may continue one. -/
theorem isIdentifier_append (h : isIdentifier s = true)
    (hending : ∀ c ∈ ending.toList, continuesIdentifier c = true) :
    isIdentifier (s ++ ending) = true := by
  obtain ⟨hopens, hcontinues⟩ := isIdentifier_iff.1 h
  rw [isIdentifier_iff, String.toList_append]
  refine ⟨?_, fun c hc => (List.mem_append.1 hc).elim (hcontinues c) (hending c)⟩
  obtain ⟨c, hc, hopens⟩ := (Option.any_eq_true _ _).1 hopens
  rw [List.head?_append, hc, Option.some_or, Option.any_some]
  exact hopens

/-- In front of an identifier may stand whatever opens as identifiers do, or nothing. -/
theorem isIdentifier_append_iff (hs : ∀ c ∈ s.toList, continuesIdentifier c = true)
    (hending : isIdentifier ending = true) :
    isIdentifier (s ++ ending) = true ↔ s.toList.head?.all opensIdentifier = true := by
  obtain ⟨hopens, hcontinues⟩ := isIdentifier_iff.1 hending
  rw [isIdentifier_iff, String.toList_append, List.head?_append]
  rw [and_iff_left fun c hc => (List.mem_append.1 hc).elim (hs c) (hcontinues c)]
  cases s.toList.head? with
  | none => simpa using hopens
  | some c => rw [Option.some_or, Option.any_some, Option.all_some]

end TypeScript

/-! ## Names of models -/

namespace ModelName

theorem isAlphanum_of_mem_ofSegments {segments : List String} :
    ∀ c ∈ (ofSegments segments).toList, c.isAlphanum = true := by
  intro c hc
  rw [ofSegments, String.toList_join] at hc
  obtain ⟨word, hword, hc⟩ := List.mem_flatMap.1 hc
  obtain ⟨segment, -, rfl⟩ := List.mem_map.1 hword
  exact Text.isAlphanum_of_mem_pascalCase c hc

/-- The name of a model is made of letters and digits. -/
theorem isAlphanum_of_mem_name_ofKey {key : String} :
    ∀ c ∈ (ofKey key).name.toList, c.isAlphanum = true := by
  have hpinned : pinnedNames.all (·.2.toList.all Char.isAlphanum) = true := by decide +kernel
  unfold ofKey
  split
  · exact fun _ h => absurd h List.not_mem_nil
  · split
    · next model hmodel =>
      unfold pinned? at hmodel
      obtain ⟨name, hname, rfl⟩ := Option.map_eq_some_iff.1 hmodel
      obtain ⟨before, after, heq, -⟩ := List.lookup_eq_some_iff.1 hname
      exact List.all_eq_true.1 (List.all_eq_true.1 hpinned (key, name) (by simp [heq]))
    · dsimp only
      split <;> exact isAlphanum_of_mem_ofSegments

theorem name_ofReference (key : String) : (ofReference key).name = (ofKey key).name := by
  unfold ofReference
  dsimp only
  split <;> rfl

/-- A key that is not reserved is referred to as its own model. -/
theorem ofReference_eq_ofKey {key : String} (h : isReserved key = false) :
    ofReference key = ofKey key := by
  simp [ofReference, h]

/-- A name opens with the first letter or digit of its segments. -/
theorem head?_ofSegments (segments : List String) :
    (ofSegments segments).toList.head? = (segments.findSome? Text.lead?).map Char.toUpper := by
  rw [ofSegments, String.toList_join, List.head?_flatMap, List.findSome?_map,
    List.map_findSome?]
  simp only [Function.comp_def, Text.head?_pascalCase]

/-- Whether a name made of segments opens with a letter. -/
theorem any_isAlpha_head?_ofSegments (segments : List String) :
    (ofSegments segments).toList.head?.any Char.isAlpha
      = (segments.findSome? Text.lead?).any Char.isAlpha := by
  rw [head?_ofSegments, Option.any_map]
  simp only [Char.isAlpha_toUpper_eq_isAlpha]

/-- No name opens with a lower-case letter. -/
theorem any_isLower_head?_name_ofKey (key : String) :
    (ofKey key).name.toList.head?.any Char.isLower = false := by
  have hpinned : pinnedNames.all (!·.2.toList.head?.any Char.isLower) = true := by decide +kernel
  have hsegments (segments : List String) :
      (ofSegments segments).toList.head?.any Char.isLower = false := by
    rw [head?_ofSegments, Option.any_map]
    cases segments.findSome? Text.lead? with
    | none => rfl
    | some c => exact Char.isLower_toUpper_eq_false c
  unfold ofKey
  split
  · rfl
  · split
    · next model hmodel =>
      unfold pinned? at hmodel
      obtain ⟨name, hname, rfl⟩ := Option.map_eq_some_iff.1 hmodel
      obtain ⟨before, after, heq, -⟩ := List.lookup_eq_some_iff.1 hname
      have hlower := List.all_eq_true.1 hpinned (key, name) (by simp [heq])
      simpa using hlower
    · dsimp only
      split <;> exact hsegments _

/-- Only keys of the framework are pinned. -/
theorem pinned?_of_not_isReserved {key : String} (h : isReserved key = false) :
    pinned? key = none := by
  have hreserved : ∀ pinned ∈ pinnedNames, isReserved pinned.1 = true := by decide +kernel
  rw [pinned?, Option.map_eq_none_iff]
  cases hlookup : pinnedNames.lookup key with
  | none => rfl
  | some name =>
    obtain ⟨before, after, heq, -⟩ := List.lookup_eq_some_iff.1 hlookup
    have hkey := hreserved (key, name) (by simp [heq])
    rw [h] at hkey
    cases hkey

/-- A segment that begins a name begins with a letter. -/
theorem lead?_of_opensName {segment : String} (h : opensName segment = true) :
    ∃ c, Text.lead? segment = some c ∧ c.isAlpha = true := by
  obtain ⟨c, hc, hupper⟩ := (Option.any_eq_true _ _).1 h
  obtain ⟨rest, hrest⟩ := List.head?_eq_some_iff.1 hc
  have halpha := Text.isAlpha_of_isUpper hupper
  refine ⟨c, ?_, halpha⟩
  rw [Text.lead?, hrest, List.find?_cons_of_pos (Text.isAlphanum_of_isAlpha halpha)]

/-- The name of a model opens with a letter if a segment of the key begins a name, and else just
    when the first letter or digit of the key is a letter. -/
theorem any_isAlpha_head?_ofKey {key : String} (h : isReserved key = false) :
    (ofKey key).name.toList.head?.any Char.isAlpha
      = ((Text.splitOn (· == '.') key).any opensName || (Text.lead? key).any Char.isAlpha) := by
  unfold ofKey
  split
  · next hempty =>
    rw [String.isEmpty_iff.1 hempty]
    decide
  · rw [pinned?_of_not_isReserved h]
    dsimp only
    split
    · next hname =>
      -- no segment begins a name, so all of them are the name
      have hnone := List.dropWhile_eq_nil_iff.1 (List.isEmpty_iff.1 hname)
      have hany : (Text.splitOn (· == '.') key).any opensName = false := by
        simpa using hnone
      have hdot (c : Char) (hc : (c == '.') = true) : c.isAlphanum = false := by
        rw [eq_of_beq hc]
        decide
      rw [any_isAlpha_head?_ofSegments, Text.findSome?_lead?_splitOn hdot, hany, Bool.false_or]
    · next hname =>
      -- the name begins with the first such segment, and so with a letter
      obtain ⟨first, rest, hsegments⟩ := List.exists_cons_of_ne_nil (mt List.isEmpty_iff.2 hname)
      have hfirst : opensName first = true := by
        have hhead := List.head?_dropWhile_not (!opensName ·) (Text.splitOn (· == '.') key)
        rw [hsegments] at hhead
        simpa using hhead
      have hany : (Text.splitOn (· == '.') key).any opensName = true := by
        have hmem : first ∈ (Text.splitOn (· == '.') key).dropWhile (!opensName ·) :=
          hsegments ▸ List.mem_cons_self
        exact List.any_eq_true.2 ⟨first, (List.dropWhile_suffix _).subset hmem, hfirst⟩
      obtain ⟨c, hlead, halpha⟩ := lead?_of_opensName hfirst
      rw [any_isAlpha_head?_ofSegments, hsegments, List.findSome?_cons, hlead, hany,
        Option.any_some, halpha, Bool.true_or]

end ModelName

end ClientGen
