/-
  ClientGen.Proofs.MethodName

  How methods are named.  An identifier offers the names of the endings of its
  segments, and the rule takes the shortest ending whose name is free, or else the
  least number behind the name of all segments.  `methodName_chosen` says that the rule
  always has one outcome, which is the name that is computed.
-/
import ClientGen.Proofs.FreeName
import ClientGen.TypeScript.Declaration

namespace ClientGen

open TypeScript

/-! ## The rule -/

/-- Whether an ending of an identifier's segments offers a name: it is not empty, unless the
    identifier has no segments at all. -/
def Offers (segments ending : List String) : Prop :=
  ending <:+ segments ∧ (ending = [] → segments = [])

/-- The name that an identifier of these segments gets beside names that are taken. -/
inductive ChoosesName (taken segments : List String) : String → Prop where
  /-- The name of an ending, if it is free and the names of all shorter endings are taken. -/
  | ending {ending : List String} (hoffers : Offers segments ending)
      (hfree : methodNameOf ending ∉ taken)
      (hshorter : ∀ shorter, Offers segments shorter → shorter.length < ending.length →
        methodNameOf shorter ∈ taken) :
      ChoosesName taken segments (methodNameOf ending)
  /-- If all offers are taken, the name of the whole with the least number that makes it free. -/
  | numbered {n : Nat} (hoffers : ∀ ending, Offers segments ending → methodNameOf ending ∈ taken)
      (hn : 2 ≤ n) (hfree : methodNameOf segments ++ toString n ∉ taken)
      (hleast : ∀ k, 2 ≤ k → k < n → methodNameOf segments ++ toString k ∈ taken) :
      ChoosesName taken segments (methodNameOf segments ++ toString n)

variable {taken segments : List String} {name other : String}

theorem offers_self (segments : List String) : Offers segments segments :=
  ⟨List.suffix_refl segments, id⟩

/-- Endings of one length are the same. -/
theorem Offers.eq_of_length {ending ending' : List String} (h : Offers segments ending)
    (h' : Offers segments ending') (hlength : ending.length = ending'.length) : ending = ending' :=
  (List.suffix_of_suffix_length_le h.1 h'.1 hlength.le).eq_of_length hlength

namespace ChoosesName

theorem not_mem (h : ChoosesName taken segments name) : name ∉ taken := by
  cases h with
  | ending _ hfree _ => exact hfree
  | numbered _ _ hfree _ => exact hfree

/-- The rule has one outcome only. -/
theorem unique (h : ChoosesName taken segments name) (h' : ChoosesName taken segments other) :
    name = other := by
  cases h with
  | @ending ending hoffers hfree hshorter =>
    cases h' with
    | @ending ending' hoffers' hfree' hshorter' =>
      -- of two lengths, the shorter ending would be taken
      rcases Nat.lt_trichotomy ending.length ending'.length with hlt | heq | hlt
      · exact absurd (hshorter' _ hoffers hlt) hfree
      · rw [hoffers.eq_of_length hoffers' heq]
      · exact absurd (hshorter _ hoffers' hlt) hfree'
    | numbered htaken _ _ _ => exact absurd (htaken _ hoffers) hfree
  | @numbered n htaken hn hfree hleast =>
    cases h' with
    | ending hoffers' hfree' _ => exact absurd (htaken _ hoffers') hfree'
    | @numbered n' _ hn' hfree' hleast' =>
      rcases Nat.lt_trichotomy n n' with hlt | rfl | hlt
      · exact absurd (hleast' n hn hlt) hfree
      · rfl
      · exact absurd (hleast n' hn' hlt) hfree'

/-- More names that are taken do not matter as long as the name that is chosen is free. -/
theorem mono {taken' : List String} (h : ChoosesName taken segments name)
    (hsub : ∀ n ∈ taken, n ∈ taken') (hfree : name ∉ taken') : ChoosesName taken' segments name := by
  cases h with
  | ending hoffers _ hshorter =>
    exact .ending hoffers hfree fun shorter hoffers' hlt => hsub _ (hshorter shorter hoffers' hlt)
  | numbered htaken hn _ hleast =>
    exact .numbered (fun ending hoffers => hsub _ (htaken ending hoffers)) hn hfree
      fun k hk hlt => hsub _ (hleast k hk hlt)

end ChoosesName

/-! ## The computed name -/

theorem mem_endings {α : Type} {l ending : List α} :
    ending ∈ endings l ↔ ending ≠ [] ∧ ending <:+ l := by
  induction l with
  | nil =>
    rw [endings, List.suffix_nil]
    exact iff_of_false List.not_mem_nil fun h => h.1 h.2
  | cons a rest ih =>
    rw [endings, List.mem_cons, ih, List.suffix_cons_iff]
    constructor
    · rintro (rfl | ⟨hne, hrest⟩)
      · exact ⟨List.cons_ne_nil a rest, .inl rfl⟩
      · exact ⟨hne, .inr hrest⟩
    · rintro ⟨hne, rfl | hrest⟩
      · exact .inl rfl
      · exact .inr ⟨hne, hrest⟩

theorem pairwise_endings {α : Type} (l : List α) :
    (endings l).Pairwise fun longer shorter => shorter.length < longer.length := by
  induction l with
  | nil => exact .nil
  | cons a rest ih =>
    refine List.pairwise_cons.2 ⟨fun ending h => ?_, ih⟩
    have hle : ending.length ≤ rest.length := (mem_endings.1 h).2.length_le
    rw [List.length_cons]
    omega

/-- Whatever is offered, except by an identifier without segments, is among the candidates. -/
theorem mem_candidates {identifier : String} {ending : List String}
    (h : Offers (identifierSegments identifier) ending) (hne : ending ≠ []) :
    methodNameOf ending ∈ methodNameCandidates identifier :=
  List.mem_map_of_mem (List.mem_reverse.2 (mem_endings.2 ⟨hne, h.1⟩))

/-- The candidates are tried from the shortest ending on. -/
theorem choosesName_of_find? {identifier : String}
    (h : (methodNameCandidates identifier).find? (!taken.contains ·) = some name) :
    ChoosesName taken (identifierSegments identifier) name := by
  obtain ⟨hfree, before, after, hsplit, hbefore⟩ := List.find?_eq_some_iff_append.1 h
  obtain ⟨first, last, hreverse, rfl, hlast⟩ := List.map_eq_append_iff.1 hsplit
  obtain ⟨ending, longer, rfl, rfl, -⟩ := List.map_eq_cons_iff.1 hlast
  have hmem {other : List String} :
      other ∈ first ++ ending :: longer ↔ other ≠ [] ∧ other <:+ identifierSegments identifier := by
    rw [← hreverse, List.mem_reverse, mem_endings]
  have hordered : (first ++ ending :: longer).Pairwise fun shorter longer =>
      shorter.length < longer.length := by
    rw [← hreverse, List.pairwise_reverse]
    exact pairwise_endings _
  obtain ⟨hne, hsuffix⟩ := hmem.1 (List.mem_append_right first List.mem_cons_self)
  refine .ending ⟨hsuffix, fun hnil => absurd hnil hne⟩ (by simpa using hfree) ?_
  intro shorter hshorter hlt
  have hshorter_ne : shorter ≠ [] := by
    intro hnil
    rw [hshorter.2 hnil, List.suffix_nil] at hsuffix
    exact hne hsuffix
  rcases List.mem_append.1 (hmem.2 ⟨hshorter_ne, hshorter.1⟩) with hfirst | hrest
  · simpa using hbefore _ (List.mem_map_of_mem hfirst)
  · -- the endings behind are longer
    rcases List.mem_cons.1 hrest with rfl | hlonger
    · exact absurd hlt (Nat.lt_irrefl _)
    · have hgt := (List.pairwise_cons.1 (List.pairwise_append.1 hordered).2.1).1 shorter hlonger
      exact absurd hlt (Nat.lt_asymm hgt)

/-- The computed name is an outcome of the rule. -/
theorem choosesName_methodName (taken : List String) (identifier : String) :
    ChoosesName taken (identifierSegments identifier) (methodName taken identifier) := by
  unfold methodName preferredMethodName
  cases hfind : (methodNameCandidates identifier).find? (!taken.contains ·) with
  | some name =>
    have hchosen := choosesName_of_find? hfind
    rw [Option.getD_some, freeName_of_not_mem hchosen.not_mem]
    exact hchosen
  | none =>
    have htaken {ending : List String} (hoffers : Offers (identifierSegments identifier) ending)
        (hne : ending ≠ []) : methodNameOf ending ∈ taken := by
      simpa using List.find?_eq_none.1 hfind _ (mem_candidates hoffers hne)
    rw [Option.getD_none]
    by_cases hwhole : methodNameOf (identifierSegments identifier) ∈ taken
    · obtain ⟨n, heq, hn, -, hfree, hleast⟩ := freeName_of_mem hwhole
      rw [heq]
      refine .numbered (fun ending hoffers => ?_) hn hfree hleast
      by_cases hnil : ending = []
      · rw [hnil, ← hoffers.2 hnil]
        exact hwhole
      · exact htaken hoffers hnil
    · -- the whole would be a candidate if there were segments
      have hnil : identifierSegments identifier = [] := by
        by_contra hne
        exact hwhole (htaken (offers_self _) hne)
      rw [freeName_of_not_mem hwhole]
      refine .ending (offers_self _) hwhole fun shorter _ hlt => ?_
      rw [hnil] at hlt
      exact absurd hlt (Nat.not_lt_zero _)

theorem choosesName_iff {identifier : String} :
    ChoosesName taken (identifierSegments identifier) name ↔ methodName taken identifier = name :=
  ⟨(choosesName_methodName taken identifier).unique,
    fun h => h ▸ choosesName_methodName taken identifier⟩

/-! ## Names on a class -/

theorem isIdentifier_methodNameOf (segments : List String) :
    isIdentifier (methodNameOf segments) = true := by
  unfold methodNameOf
  dsimp only
  split
  · decide
  · exact isIdentifier_withOpening fun c hc =>
      continuesIdentifier_of_isAlphanum (Text.isAlphanum_of_mem_camelCase c hc)

theorem ChoosesName.isIdentifier (h : ChoosesName taken segments name) :
    TypeScript.isIdentifier name = true := by
  cases h with
  | ending _ _ _ => exact isIdentifier_methodNameOf _
  | @numbered n _ _ _ _ => exact isIdentifier_numbered (isIdentifier_methodNameOf segments) n

theorem TypeScript.ClassDecl.hasMethod_iff {c : ClassDecl} :
    c.hasMethod name = true ↔ name ∈ c.methods.map (·.name) := by
  simp [hasMethod]

/-- A class and an identifier have one name by the rule, which is the one that is computed: it is an
    identifier that no method of the class has as its name.  When all offers are taken, the search
    for a number ends with one more than there are methods at the latest.  An identifier without
    segments offers one name. -/
theorem methodName_chosen (c : ClassDecl) (identifier : String) :
    let taken := c.methods.map (·.name)
    let segments := identifierSegments identifier
    (∀ name, ChoosesName taken segments name ↔ methodName taken identifier = name) ∧
      c.hasMethod (methodName taken identifier) = false ∧
      isIdentifier (methodName taken identifier) = true ∧
      ((∀ ending, Offers segments ending → c.hasMethod (methodNameOf ending) = true) →
        ∃ n ≤ c.methods.length + 1,
          methodName taken identifier = methodNameOf segments ++ toString n) ∧
      (segments = [] → ∀ ending, Offers segments ending → methodNameOf ending = "invoke") := by
  intro taken segments
  have hchosen : ChoosesName taken segments (methodName taken identifier) :=
    choosesName_methodName taken identifier
  refine ⟨fun name => choosesName_iff, ?_, hchosen.isIdentifier, fun htaken => ?_, ?_⟩
  · rw [Bool.eq_false_iff, ne_eq, ClassDecl.hasMethod_iff]
    exact hchosen.not_mem
  · have hwhole : methodNameOf segments ∈ taken :=
      ClassDecl.hasMethod_iff.1 (htaken segments (offers_self segments))
    obtain ⟨n, heq, hn, hbound, hfree, hleast⟩ := freeName_of_mem hwhole
    have hnumbered : ChoosesName taken segments (methodNameOf segments ++ toString n) :=
      .numbered (fun ending hoffers => ClassDecl.hasMethod_iff.1 (htaken ending hoffers)) hn hfree
        hleast
    rw [List.length_map] at hbound
    exact ⟨n, hbound, hchosen.unique hnumbered⟩
  · intro hnil ending hoffers
    have hending : ending = [] := List.suffix_nil.1 (hnil ▸ hoffers.1)
    rw [hending]
    decide

example : methodName ["profile"] "user.get.profile" = "getProfile" := by decide +kernel

end ClientGen
