/-
  ClientGen.Proofs.ParameterWord

  Which words come out as names of parameters.  Camel case gives a word in lower case
  just for the texts that spell it: one run of letters and digits, which is the word,
  capitalized or not.  The body of a class is strict code, so a parameter of a method may
  have none of the words of the language for its name, and none of those that are
  reserved, or restricted, in strict code.  Of the names that are made for parameters none
  is a word of the first kind, but a word of the second kind is the name of every text
  that spells it.
-/
import ClientGen.Proofs.Assembly
import ClientGen.Proofs.FilePath
import ClientGen.Proofs.FreeName

namespace ClientGen

open TypeScript

/-! ## The first run of letters and digits -/

namespace Text

variable {before run after rest cs : List Char} {c letter : Char}

theorem isAlphanum_of_isLower (h : c.isLower = true) : c.isAlphanum = true := by
  rw [Char.isAlphanum, Char.isAlpha, h, Bool.or_true, Bool.true_or]

/-- What separates words makes no difference in front of them. -/
theorem pascalChars_append_of_separators (h : ∀ c ∈ before, c.isAlphanum = false) :
    pascalChars (before ++ cs) = pascalChars cs := by
  induction before with
  | nil => rfl
  | cons c rest ih =>
    have hc : (!c.isAlphanum) = true := by rw [h c List.mem_cons_self, Bool.not_false]
    rw [← ih fun d hd => h d (List.mem_cons_of_mem _ hd)]
    unfold pascalChars
    rw [List.cons_append, pieces, if_pos hc]
    rfl

theorem pascalChars_of_separators (h : ∀ c ∈ cs, c.isAlphanum = false) : pascalChars cs = [] := by
  rw [← List.append_nil cs, pascalChars_append_of_separators h]
  rfl

/-- Every word opens in upper case, so no word is left in lower case. -/
theorem separators_of_isLower_pascalChars (h : ∀ c ∈ pascalChars cs, c.isLower = true) :
    ∀ c ∈ cs, c.isAlphanum = false := by
  cases hfind : cs.find? Char.isAlphanum with
  | none => simpa using hfind
  | some c =>
    have hhead : (pascalChars cs).head? = some c.toUpper := by
      rw [head?_pascalChars, hfind, Option.map_some]
    have hlower := h _ (List.mem_of_mem_head? hhead)
    rw [Char.isLower_toUpper_eq_false] at hlower
    cases hlower

/-- A run of letters and digits is capitalized, apart from what follows it. -/
theorem pascalChars_run_append (hrun : ∀ c ∈ run, c.isAlphanum = true)
    (hafter : after.head?.all (!·.isAlphanum) = true) :
    pascalChars (run ++ after) = capitalize run ++ pascalChars after := by
  have hword : ∀ c ∈ run, (!c.isAlphanum) = false := fun c hc => by rw [hrun c hc, Bool.not_true]
  cases after with
  | nil =>
    rw [List.append_nil, pascalChars, pieces_of_all_not hword, List.flatMap_singleton]
    exact (List.append_nil _).symm
  | cons c rest =>
    have hc : (!c.isAlphanum) = true := hafter
    have hrest : pascalChars ([c] ++ rest) = pascalChars rest :=
      pascalChars_append_of_separators fun d hd => by simpa [List.mem_singleton.1 hd] using hc
    rw [List.singleton_append] at hrest
    rw [hrest, pascalChars, pieces_append_cons hc, pieces_of_all_not hword, List.flatMap_append,
      List.flatMap_singleton]
    rfl

/-- In camel case the first run opens in lower case. -/
theorem camelChars_run (hbefore : ∀ c ∈ before, c.isAlphanum = false)
    (hrun : ∀ d ∈ c :: rest, d.isAlphanum = true)
    (hafter : after.head?.all (!·.isAlphanum) = true) :
    uncapitalize (pascalChars (before ++ c :: rest ++ after))
      = c.toUpper.toLower :: (rest ++ pascalChars after) := by
  rw [List.append_assoc, pascalChars_append_of_separators hbefore,
    pascalChars_run_append hrun hafter]
  rfl

/-- A text has no letter or digit, or there is a first run of them. -/
theorem separators_or_run (cs : List Char) :
    (∀ c ∈ cs, c.isAlphanum = false) ∨
      ∃ before c rest after, cs = before ++ c :: rest ++ after ∧
        (∀ c ∈ before, c.isAlphanum = false) ∧ (∀ d ∈ c :: rest, d.isAlphanum = true) ∧
        after.head?.all (!·.isAlphanum) = true := by
  cases hfind : cs.find? Char.isAlphanum with
  | none => exact .inl (by simpa using hfind)
  | some c =>
    obtain ⟨hc, before, following, hcs, hbefore⟩ := List.find?_eq_some_iff_append.1 hfind
    refine .inr ⟨before, c, following.takeWhile Char.isAlphanum,
      following.dropWhile Char.isAlphanum, ?_, fun d hd => by simpa using hbefore d hd, ?_, ?_⟩
    · rw [hcs, List.append_assoc, List.cons_append, List.takeWhile_append_dropWhile]
    · exact List.forall_mem_cons.2 ⟨hc, fun d hd => List.mem_takeWhile_imp hd⟩
    · have hhead := List.head?_dropWhile_not Char.isAlphanum following
      cases hafter : (following.dropWhile Char.isAlphanum).head? with
      | none => rfl
      | some d => simpa [hafter] using hhead

/-! ## Texts that spell a word -/

/-- A text spells a word if the word, which may be capitalized, is all that it has besides
    characters that separate words. -/
def Spells (s word : String) : Prop :=
  ∃ before written after, s.toList = before ++ written ++ after ∧
    (∀ c ∈ before ++ after, c.isAlphanum = false) ∧
    (written = word.toList ∨ written = capitalize word.toList)

/-- A letter that is put in lower case was there in either case. -/
theorem toLower_toUpper_eq_iff (h : letter.isLower = true) :
    c.toUpper.toLower = letter ↔ c = letter ∨ c = letter.toUpper := by
  have hletter : letter.toLower = letter :=
    Char.toLower_eq_of_not_isUpper (Char.not_isUpper_of_isLower h)
  rw [Char.toLower_toUpper_eq_toLower]
  constructor
  · rintro rfl
    by_cases hupper : c.isUpper = true
    · right
      rw [Char.toUpper_toLower_eq_toUpper,
        Char.toUpper_eq_of_not_isLower (Char.not_isLower_of_isUpper hupper)]
    · exact .inl (Char.toLower_eq_of_not_isUpper hupper).symm
  · rintro (rfl | rfl)
    · exact hletter
    · rw [Char.toLower_toUpper_eq_toLower, hletter]

section LowerCase

variable {s word : String} {others : List Char} (hword : word.toList = letter :: others)
  (hletter : letter.isLower = true) (hothers : ∀ c ∈ others, c.isLower = true)
include hword hletter hothers

theorem spells_of_camelCase (h : camelCase s = word) : Spells s word := by
  rw [← String.toList_inj, camelCase, String.toList_ofList, hword] at h
  unfold Spells
  rw [hword]
  rcases separators_or_run s.toList with hs | ⟨before, c, rest, after, hs, hbefore, hrun, hafter⟩
  · rw [pascalChars_of_separators hs] at h
    cases h
  · rw [hs, camelChars_run hbefore hrun hafter] at h
    obtain ⟨hc, hrest⟩ := List.cons.inj h
    -- a second run would open in upper case
    have hseparators : ∀ d ∈ after, d.isAlphanum = false :=
      separators_of_isLower_pascalChars fun d hd =>
        hothers d (hrest ▸ List.mem_append_right _ hd)
    rw [pascalChars_of_separators hseparators, List.append_nil] at hrest
    refine ⟨before, c :: rest, after, hs, List.forall_mem_append.2 ⟨hbefore, hseparators⟩, ?_⟩
    rw [hrest]
    exact ((toLower_toUpper_eq_iff hletter).1 hc).imp
      (congrArg (· :: others)) (congrArg (· :: others))

theorem camelCase_of_spells (h : Spells s word) : camelCase s = word := by
  obtain ⟨before, written, after, hs, hseparators, hwritten⟩ := h
  rw [hword] at hwritten
  obtain ⟨hbefore, hafter⟩ := List.forall_mem_append.1 hseparators
  have halphanum : letter.isAlphanum = true := isAlphanum_of_isLower hletter
  -- capitalized or not, the word is a run that opens with its first letter
  obtain ⟨c, hc, hfirst, rfl⟩ : ∃ c, c.isAlphanum = true ∧ c.toUpper.toLower = letter ∧
      written = c :: others := by
    rcases hwritten with rfl | rfl
    · exact ⟨letter, halphanum, (toLower_toUpper_eq_iff hletter).2 (.inl rfl), rfl⟩
    · exact ⟨letter.toUpper, isAlphanum_toUpper halphanum,
        (toLower_toUpper_eq_iff hletter).2 (.inr rfl), rfl⟩
  have hrun : ∀ d ∈ c :: others, d.isAlphanum = true :=
    List.forall_mem_cons.2 ⟨hc, fun d hd => isAlphanum_of_isLower (hothers d hd)⟩
  have hhead : after.head?.all (!·.isAlphanum) = true := by
    cases after with
    | nil => rfl
    | cons d more => simp [hafter d List.mem_cons_self]
  rw [← String.toList_inj, camelCase, String.toList_ofList, hword, hs,
    camelChars_run hbefore hrun hhead, pascalChars_of_separators hafter, List.append_nil, hfirst]

end LowerCase

/-- Camel case gives a word in lower case just for the texts that spell it. -/
theorem camelCase_eq_iff {s word : String} (hne : word.toList ≠ [])
    (hword : ∀ c ∈ word.toList, c.isLower = true) : camelCase s = word ↔ Spells s word := by
  obtain ⟨letter, others, hletters⟩ := List.exists_cons_of_ne_nil hne
  rw [hletters] at hword
  obtain ⟨hletter, hothers⟩ := List.forall_mem_cons.1 hword
  exact ⟨spells_of_camelCase hletters hletter hothers,
    camelCase_of_spells hletters hletter hothers⟩

end Text

/-! ## Names that parameters may have -/

namespace TypeScript

variable {s word : String}

/-- The words of the language that are reserved in all code. -/
def languageWords : List String :=
  ["break", "case", "catch", "class", "const", "continue", "debugger", "default", "delete", "do",
   "else", "enum", "export", "extends", "false", "finally", "for", "function", "if", "import",
   "in", "instanceof", "new", "null", "return", "super", "switch", "this", "throw", "true", "try",
   "typeof", "var", "void", "while", "with"]

/-- The words that no parameter may have for its name in strict code, or in a module. -/
def strictWords : List String :=
  ["implements", "interface", "let", "package", "private", "protected", "public", "static",
   "yield", "await", "eval", "arguments"]

/-- A name that a parameter of a method may have. -/
structure NamesParameter (s : String) : Prop where
  identifier : isIdentifier s = true
  unreserved : s ∉ languageWords
  unrestricted : s ∉ strictWords

/-- No word of the language ends in a number. -/
theorem namesParameter_numbered (h : isIdentifier s = true) (n : Nat) :
    NamesParameter (s ++ toString n) where
  identifier := isIdentifier_numbered h n
  unreserved := not_mem_numbered (by decide +kernel) s n
  unrestricted := not_mem_numbered (by decide +kernel) s n

theorem underscore_not_mem (hword : ∀ c ∈ word.toList, c.isLower = true) : '_' ∉ word.toList :=
  fun hmem => absurd (hword _ hmem) (by decide)

/-- A name with an underscore in front is no word in lower case. -/
theorem withOpening_eq_iff (hne : word.toList ≠ [])
    (hword : ∀ c ∈ word.toList, c.isLower = true) : withOpening s = word ↔ s = word := by
  unfold withOpening
  split
  · next hs =>
    refine iff_of_false ?_ (by rintro rfl; exact hne hs)
    rintro rfl
    exact underscore_not_mem hword List.mem_cons_self
  · next c rest hs =>
    split
    · next hdigit =>
      refine iff_of_false ?_ ?_
      · rintro rfl
        apply underscore_not_mem hword
        rw [String.toList_append]
        exact List.mem_append_left _ List.mem_cons_self
      · rintro rfl
        have hlower : c.isLower = true := hword c (hs ▸ List.mem_cons_self)
        rw [isLower_of_isDigit hdigit] at hlower
        cases hlower
    · rfl

/-- No word of strict code is set apart, so it is the name of whatever spells it. -/
theorem safeIdentifier_eq_iff (hmem : word ∈ strictWords) :
    safeIdentifier s = word ↔ Text.Spells s word := by
  have hfree : ∀ word ∈ strictWords, word ∉ reservedWords := by decide +kernel
  have hplain : ∀ word ∈ strictWords, word.toList ≠ [] ∧ word.toList.all Char.isLower = true := by
    decide +kernel
  obtain ⟨hne, hword⟩ := hplain word hmem
  rw [List.all_eq_true] at hword
  have hname : withOpening (Text.camelCase s) = word ↔ Text.Spells s word :=
    (withOpening_eq_iff hne hword).trans (Text.camelCase_eq_iff hne hword)
  rw [← hname]
  unfold safeIdentifier
  dsimp only
  split
  · next hreserved =>
    refine iff_of_false ?_ ?_
    · rintro rfl
      apply underscore_not_mem hword
      rw [String.toList_append]
      exact List.mem_append_right _ List.mem_cons_self
    · rintro rfl
      exact hfree _ hmem (List.contains_iff_mem.1 hreserved)
  · rfl

/-- The words of the language are set apart. -/
theorem safeIdentifier_not_mem_languageWords (s : String) : safeIdentifier s ∉ languageWords := by
  have hwords : ∀ word ∈ languageWords, word ∈ reservedWords := by decide +kernel
  exact fun hmem => safeIdentifier_not_mem s (hwords _ hmem)

/-- The name that is made of a text may be a parameter's just if the text spells no word of strict
    code. -/
theorem namesParameter_safeIdentifier_iff :
    NamesParameter (safeIdentifier s) ↔ ∀ word ∈ strictWords, ¬Text.Spells s word := by
  constructor
  · intro h word hmem hspells
    rw [← safeIdentifier_eq_iff hmem] at hspells
    exact h.unrestricted (hspells ▸ hmem)
  · intro h
    exact ⟨isIdentifier_safeIdentifier s, safeIdentifier_not_mem_languageWords s,
      fun hmem => h _ hmem ((safeIdentifier_eq_iff hmem).1 rfl)⟩

end TypeScript

/-- For every text an identifier is made that is no word of the language.  It is a word of strict
    code just for the texts that spell this word, and may be the name of a parameter for all
    others.  With a number behind it, it always may. -/
theorem parameter_name_iff (s : String) :
    (isIdentifier (safeIdentifier s) = true ∧ safeIdentifier s ∉ languageWords) ∧
      (∀ word ∈ strictWords, safeIdentifier s = word ↔ Text.Spells s word) ∧
      (NamesParameter (safeIdentifier s) ↔ ∀ word ∈ strictWords, ¬Text.Spells s word) ∧
      ∀ n : Nat, NamesParameter (safeIdentifier s ++ toString n) := by
  have hnumbered (n : Nat) : NamesParameter (safeIdentifier s ++ toString n) :=
    namesParameter_numbered (isIdentifier_safeIdentifier s) n
  exact ⟨⟨isIdentifier_safeIdentifier s, safeIdentifier_not_mem_languageWords s⟩,
    fun word => safeIdentifier_eq_iff, namesParameter_safeIdentifier_iff, hnumbered⟩

/-- An operation whose path has a parameter that is called like a word of strict code. -/
def packageDocument : Document :=
  { paths := .ofList
      [("/parcel/\x7bpackage\x7d",
        { operation? := fun method =>
            if method = .get then some { tags := ["parcel"], responses := .ofList [] }
            else none })] }

/-- A method is generated with a parameter that is called by such a word. -/
theorem exists_restricted_parameter :
    ∃ g f cls m, generation packageDocument packageDocument.service {} = .ok g ∧
      g.project.get? "ParcelApiClient.ts" = some f ∧ .class cls ∈ f.declarations ∧
      m ∈ cls.methods ∧ m.parameters.map (·.name) = ["package", "attributes"] ∧
      safeIdentifier "package" = "package" ∧ ¬NamesParameter "package" := by
  have hrun : (generation packageDocument packageDocument.service {}).toOption.any (fun g =>
      (g.project.get? "ParcelApiClient.ts").any fun f => f.declarations.any fun
        | .class cls => cls.methods.any fun m =>
            m.parameters.map (·.name) = ["package", "attributes"]
        | _ => false) = true := by
    decide +kernel
  obtain ⟨g, f, hg, hf, hdecls⟩ := exists_file_of_any hrun
  obtain ⟨decl, hdecl, hmethods⟩ := List.any_eq_true.1 hdecls
  cases decl with
  | «class» cls =>
    obtain ⟨m, hm, hnames⟩ := List.any_eq_true.1 hmethods
    exact ⟨g, f, cls, m, hg, hf, hdecl, hm, of_decide_eq_true hnames, by decide +kernel,
      fun h => h.unrestricted (by decide +kernel)⟩
  | _ => cases hmethods

end ClientGen
