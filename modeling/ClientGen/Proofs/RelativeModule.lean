/-
  ClientGen.Proofs.RelativeModule

  Where relative modules lead.  A module is read as a path from the directory of the file
  that imports it.  That path always leads to the target without its ending; but the
  module names the target only where the directory is not itself below something called
  like the target without its ending, and where no segment that begins with two dots
  is taken for a step up.  `relativeModule_names_iff` says that nothing else matters.
-/
import ClientGen.Proofs.FilePath

namespace ClientGen

/-! ## Beginnings of joined texts -/

namespace Text

/-- Joined segments begin as the first of them does. -/
theorem startsWith_join {start : String} (h : '/' ∉ start.toList) (s : String)
    (rest : List String) :
    startsWith start ("/".intercalate (s :: rest)) = startsWith start s := by
  cases rest with
  | nil => rw [String.intercalate_singleton]
  | cons second others =>
    have htext : ("/".intercalate (s :: second :: others)).toList
        = s.toList ++ '/' :: ("/".intercalate (second :: others)).toList := by
      rw [String.intercalate_cons_cons, String.append_assoc, String.toList_append,
        String.toList_append]
      rfl
    rw [Bool.eq_iff_iff, startsWith, startsWith, List.isPrefixOf_iff_prefix,
      List.isPrefixOf_iff_prefix, htext]
    exact ⟨prefix_of_prefix_append h, fun hs => hs.trans (List.prefix_append _ _)⟩

end Text

namespace FilePath

/-! ## Naming a module -/

/-- The directory of a file: its path without the last segment. -/
def parent (path : String) : String := (directoryPart? path).getD ""

/-- Whether a specifier names, in the files of a directory, the module whose path without its
    ending is `stem`. -/
structure NamesModule (directory stem specifier : String) : Prop where
  /-- It is relative. -/
  relative : Text.startsWith "./" specifier = true ∨ Text.startsWith "../" specifier = true
  /-- It ends with the name of the file. -/
  last : (Text.splitOn (· == '/') specifier).getLast? = (Text.splitOn (· == '/') stem).getLast?
  /-- It leads to the file. -/
  leads : normalize (directory ++ ("/" ++ specifier)) = stem

/-! ## Steps up -/

variable {left rest segments base : List String} {stem : String}

/-- As many steps up as there are segments leave them. -/
theorem foldl_enter_ups (left entered : List String) :
    (List.replicate left.length "..").foldl enter (left ++ entered) = entered := by
  induction left with
  | nil => rfl
  | cons s left ih =>
    have hstep : enter (s :: left ++ entered) ".." = left ++ entered := by
      rw [enter, if_neg (by decide), if_pos rfl]
      rfl
    rw [List.length_cons, List.replicate_succ, List.foldl_cons, hstep, ih]

theorem specifiers_append (walk walk' : List Component) :
    specifiers (walk ++ walk') = specifiers walk ++ specifiers walk' :=
  List.filterMap_append

theorem specifiers_names (segments : List String) : specifiers (names segments) = segments := by
  induction segments with
  | nil => rfl
  | cons s rest ih =>
    show s :: specifiers (names rest) = s :: rest
    rw [ih]

theorem specifiers_ups (n : Nat) : specifiers (List.replicate n .up) = List.replicate n ".." := by
  induction n with
  | zero => rfl
  | succ n ih => rw [List.replicate_succ, List.replicate_succ, specifiers_up, ih]

/-! ## The specifier of a module -/

/-- The segments of a specifier in front of which no dot is put: steps up, and then segments that
    are entered. -/
def stepTexts (left rest : List String) : List String := List.replicate left.length ".." ++ rest

theorem parent_intercalate (h : AreSegments segments) :
    parent ("/".intercalate segments) = "/".intercalate segments.dropLast := by
  rw [parent, directoryPart?]
  cases segments with
  | nil =>
    rw [String.intercalate_nil]
    decide
  | cons s rest =>
    have hsplit : Text.splitOn (· == '/') ("/".intercalate (s :: rest)) = s :: rest :=
      Text.splitOn_intercalate (by decide) (List.cons_ne_nil _ _) fun s hs c hc =>
        not_slash_of_isSlash ((h s hs).2.2.2 c hc)
    rw [hsplit]
    cases rest with
    | nil =>
      rw [List.dropLast_singleton, String.intercalate_nil]
      rfl
    | cons second others => rfl

/-- Where the paths of a directory and of a module part, the specifier is read off. -/
theorem relativeModule_fork {source : List String} (hsource : AreSegments source)
    {common : List String} (hbase : source.dropLast = common ++ left)
    (htarget : AreSegments (common ++ rest)) (hapart : ∀ s ∈ left.head?, s ∉ rest.head?) :
    relativeModule ("/".intercalate source) ("/".intercalate (common ++ rest) ++ ".ts")
      = specifierOf ("/".intercalate (stepTexts left rest)) := by
  have hsteps : specifiers (relativeTo (directory ("/".intercalate source))
      (components ("/".intercalate (common ++ rest)))) = stepTexts left rest := by
    rw [directory_intercalate hsource, components_intercalate htarget, hbase,
      relativeTo_append common hapart, specifiers_append, specifiers_ups, specifiers_names, stepTexts]
  rw [relativeModule, Text.beforeEnd?_append, Option.getD_some]
  exact congrArg (fun texts => specifierOf ("/".intercalate texts)) hsteps

/-! ## Segments of specifiers -/

section Specifier

variable {texts common : List String} {p : Char → Bool}

/-- The segments of a specifier are those of the path, perhaps behind a dot. -/
theorem splitOn_specifierOf (hslash : p '/' = true) (hdot : p '.' = false)
    (h : ∀ s ∈ texts, ∀ c ∈ s.toList, p c = false) (hne : texts ≠ []) :
    Text.splitOn p (specifierOf ("/".intercalate texts)) = texts ∨
      Text.splitOn p (specifierOf ("/".intercalate texts)) = "." :: texts := by
  have hpath := Text.splitOn_intercalate hslash hne h
  unfold specifierOf
  split
  · exact .inl hpath
  · have hhere : Text.splitOn p "." = ["."] :=
      Text.splitOn_of_all_not fun c hc => List.mem_singleton.1 hc ▸ hdot
    have hdots : "./" ++ "/".intercalate texts = "." ++ ("/" ++ "/".intercalate texts) := by
      rw [← String.append_assoc]
      rfl
    rw [hdots, Text.splitOn_slash hslash, hhere, hpath]
    exact .inr rfl

/-- The specifier of no segments at all is that of the directory itself. -/
theorem specifierOf_nil : specifierOf ("/".intercalate []) = "./" := by
  rw [String.intercalate_nil]
  rfl

/-- A dot in front does not matter for a walk. -/
theorem foldl_enter_specifierOf (h : ∀ s ∈ texts, ∀ c ∈ s.toList, isSlash c = false)
    (entered : List String) :
    (Text.splitOn isSlash (specifierOf ("/".intercalate texts))).foldl enter entered
      = texts.foldl enter entered := by
  by_cases hne : texts = []
  · have hsplit : Text.splitOn isSlash "./" = [".", ""] := by decide
    rw [hne, specifierOf_nil, hsplit]
    rfl
  · rcases splitOn_specifierOf (by decide) (by decide) h hne with hsplit | hsplit
    · rw [hsplit]
    · rw [hsplit, List.foldl_cons]
      rfl

theorem getLast?_specifierOf (h : ∀ s ∈ texts, ∀ c ∈ s.toList, (c == '/') = false) :
    (Text.splitOn (· == '/') (specifierOf ("/".intercalate texts))).getLast?
      = some (texts.getLast?.getD "") := by
  by_cases hne : texts = []
  · rw [hne, specifierOf_nil]
    decide
  · obtain ⟨s, rest, rfl⟩ := List.exists_cons_of_ne_nil hne
    rcases splitOn_specifierOf (by decide) (by decide) h hne with hsplit | hsplit
    · rw [hsplit, List.getLast?_cons]
      rfl
    · rw [hsplit, List.getLast?_cons_cons, List.getLast?_cons]
      rfl

theorem getLast?_intercalate (h : ∀ s ∈ texts, ∀ c ∈ s.toList, (c == '/') = false) :
    (Text.splitOn (· == '/') ("/".intercalate texts)).getLast? = some (texts.getLast?.getD "") := by
  by_cases hne : texts = []
  · rw [hne, String.intercalate_nil]
    decide
  · obtain ⟨s, rest, rfl⟩ := List.exists_cons_of_ne_nil hne
    rw [Text.splitOn_intercalate (by decide) hne h, List.getLast?_cons]
    rfl

end Specifier

/-! ## Where a specifier leads -/

section Fork

variable {common : List String}

theorem not_slash_of_mem_stepTexts (hrest : AreSegments rest) :
    ∀ s ∈ stepTexts left rest, ∀ c ∈ s.toList, isSlash c = false := by
  intro s hs
  rcases List.mem_append.1 hs with hs | hs
  · rw [List.eq_of_mem_replicate hs]
    simp [isSlash]
  · exact (hrest s hs).2.2.2

/-- From its directory, a specifier leads to the path of the module. -/
theorem normalize_specifier (hbase : AreSegments (common ++ left))
    (htarget : AreSegments (common ++ rest)) :
    normalize ("/".intercalate (common ++ left)
        ++ ("/" ++ specifierOf ("/".intercalate (stepTexts left rest))))
      = "/".intercalate (common ++ rest) := by
  have hrest : AreSegments rest := fun s hs => htarget s (List.mem_append_right _ hs)
  have hups := foldl_enter_ups left.reverse common.reverse
  rw [List.length_reverse, ← List.reverse_append] at hups
  rw [normalize_eq, normalSegments_below, normalSegments_intercalate hbase,
    foldl_enter_specifierOf (not_slash_of_mem_stepTexts hrest), stepTexts, List.foldl_append, hups,
    foldl_enter hrest, List.reverse_append, List.reverse_reverse, List.reverse_reverse]

/-- A specifier ends with the name of the file if it enters anything, and otherwise just when
    both paths are empty. -/
theorem last_specifier_iff (htarget : AreSegments (common ++ rest)) :
    (Text.splitOn (· == '/') (specifierOf ("/".intercalate (stepTexts left rest)))).getLast?
        = (Text.splitOn (· == '/') ("/".intercalate (common ++ rest))).getLast? ↔
      (rest = [] → common = [] ∧ left = []) := by
  have hrest : AreSegments rest := fun s hs => htarget s (List.mem_append_right _ hs)
  rw [getLast?_specifierOf fun s hs c hc =>
      not_slash_of_isSlash (not_slash_of_mem_stepTexts hrest s hs c hc),
    getLast?_intercalate fun s hs c hc => not_slash_of_isSlash ((htarget s hs).2.2.2 c hc),
    Option.some.injEq]
  cases rest with
  | cons s others =>
    -- both end with what is entered
    rw [stepTexts, List.getLast?_append_of_ne_nil _ (List.cons_ne_nil s others),
      List.getLast?_append_of_ne_nil _ (List.cons_ne_nil s others)]
    exact iff_of_true rfl nofun
  | nil =>
    rw [stepTexts, List.append_nil, List.append_nil] at *
    have hlast : ∀ s ∈ common.getLast?, IsSegment s :=
      fun s hs => htarget s (List.mem_of_getLast? hs)
    cases left with
    | nil =>
      cases hcommon : common.getLast? with
      | none =>
        rw [List.getLast?_eq_none_iff.1 hcommon]
        exact iff_of_true rfl fun _ => ⟨rfl, rfl⟩
      | some s =>
        have hne : common ≠ [] := by
          rintro rfl
          cases hcommon
        exact iff_of_false (hlast s hcommon).1.symm fun h => hne (h rfl).1
    | cons b others =>
      -- steps up end with one, and no file is called like that
      have hups : (List.replicate (b :: others).length "..").getLast? = some ".." := by
        rw [List.getLast?_replicate]
        rfl
      rw [hups, Option.getD_some]
      refine iff_of_false ?_ fun h => List.cons_ne_nil _ _ (h rfl).2
      cases hcommon : common.getLast? with
      | none => decide
      | some s => exact (hlast s hcommon).2.2.1.symm

/-- Behind two dots a segment goes on, but not with a slash. -/
theorem not_relative_of_dots {s : String} (hs : IsSegment s)
    (hdots : Text.startsWith ".." s = true) (others : List String) :
    Text.startsWith "./" ("/".intercalate (s :: others)) = false ∧
      Text.startsWith "../" ("/".intercalate (s :: others)) = false := by
  rw [Text.startsWith, List.isPrefixOf_iff_prefix] at hdots
  obtain ⟨more, hmore⟩ := hdots
  have hchars : s.toList = '.' :: '.' :: more := hmore.symm
  cases more with
  | nil => exact absurd (String.toList_inj.1 hchars) hs.2.2.1
  | cons c more =>
    have hslash : (c == '/') = false :=
      not_slash_of_isSlash (hs.2.2.2 c (by rw [hchars]; simp))
    have htext : ∃ rest, ("/".intercalate (s :: others)).toList = '.' :: '.' :: c :: rest := by
      cases others with
      | nil =>
        rw [String.intercalate_singleton]
        exact ⟨more, hchars⟩
      | cons second others =>
        rw [String.intercalate_cons_cons, String.toList_append, String.toList_append, hchars]
        exact ⟨_, rfl⟩
    obtain ⟨rest, hrest⟩ := htext
    have hne : ('/' == c) = false := by
      rw [Bool.beq_comm]
      exact hslash
    rw [Text.startsWith, Text.startsWith, hrest]
    constructor
    · rfl
    · show ('/' == c && true) = false
      rw [hne, Bool.false_and]

/-- A specifier that enters something begins as relative ones do, unless it enters a segment that
    begins with two dots first of all. -/
theorem relative_specifier_iff (hrest : AreSegments rest) (hne : rest = [] → left = []) :
    (Text.startsWith "./" (specifierOf ("/".intercalate (stepTexts left rest))) = true ∨
        Text.startsWith "../" (specifierOf ("/".intercalate (stepTexts left rest))) = true) ↔
      (left = [] → ∀ s ∈ rest.head?, Text.startsWith ".." s = false) := by
  cases left with
  | cons b others =>
    -- it begins with a step up, and goes on
    obtain ⟨s, more, rfl⟩ : ∃ s more, rest = s :: more := by
      refine List.exists_cons_of_ne_nil fun hnil => ?_
      cases hne hnil
    refine iff_of_true (.inr ?_) fun h => absurd h (List.cons_ne_nil b others)
    have htexts : ∃ second more', stepTexts (b :: others) (s :: more) = ".." :: second :: more' := by
      rw [stepTexts, List.length_cons, List.replicate_succ, List.cons_append]
      cases others with
      | nil => exact ⟨s, more, rfl⟩
      | cons c others => exact ⟨_, _, rfl⟩
    obtain ⟨second, more', htexts⟩ := htexts
    have hup : Text.startsWith ".." ("/".intercalate (".." :: second :: more')) = true := by
      rw [Text.startsWith_join (by decide)]
      decide
    rw [htexts, specifierOf, if_pos hup, String.intercalate_cons_cons, Text.startsWith,
      String.toList_append, String.toList_append]
    rfl
  | nil =>
    have htexts : stepTexts [] rest = rest := rfl
    rw [htexts]
    cases rest with
    | nil =>
      rw [specifierOf_nil]
      exact iff_of_true (.inl (by decide)) fun _ s hs => absurd hs (Option.not_mem_none s)
    | cons s others =>
      have hs := hrest s List.mem_cons_self
      have hstart : Text.startsWith ".." ("/".intercalate (s :: others)) = Text.startsWith ".." s :=
        Text.startsWith_join (by decide) s others
      cases hdots : Text.startsWith ".." s with
      | true =>
        -- it is taken for a step up, and no dot is put in front
        obtain ⟨hhere, hup⟩ := not_relative_of_dots hs hdots others
        rw [specifierOf, if_pos (hstart.trans hdots), hhere, hup]
        refine iff_of_false (by decide) fun h => ?_
        have hfalse := h rfl s rfl
        rw [hdots] at hfalse
        cases hfalse
      | false =>
        rw [specifierOf, hstart, hdots, if_neg Bool.false_ne_true, Text.startsWith,
          String.toList_append]
        refine iff_of_true (.inl rfl) fun _ s' hs' => ?_
        rw [List.head?_cons, Option.mem_some_iff] at hs'
        exact hs' ▸ hdots

/-- When a specifier names the module at which the paths of a directory and of a module lead to
    each their own way. -/
theorem namesModule_fork_iff (hbase : AreSegments (common ++ left))
    (htarget : AreSegments (common ++ rest)) :
    NamesModule ("/".intercalate (common ++ left)) ("/".intercalate (common ++ rest))
        (specifierOf ("/".intercalate (stepTexts left rest))) ↔
      (rest = [] → common = [] ∧ left = []) ∧
        (left = [] → ∀ s ∈ rest.head?, Text.startsWith ".." s = false) := by
  have hrest : AreSegments rest := fun s hs => htarget s (List.mem_append_right _ hs)
  constructor
  · intro h
    have hlast := (last_specifier_iff htarget).1 h.last
    exact ⟨hlast, (relative_specifier_iff hrest fun hnil => (hlast hnil).2).1 h.relative⟩
  · rintro ⟨hlast, hdots⟩
    exact ⟨(relative_specifier_iff hrest fun hnil => (hlast hnil).2).2 hdots,
      (last_specifier_iff htarget).2 hlast, normalize_specifier hbase htarget⟩

/-- What one path has for itself is not where the other goes on. -/
theorem prefix_iff_of_apart (h : ∀ s ∈ left.head?, s ∉ rest.head?) : rest <+: left ↔ rest = [] := by
  constructor
  · intro hprefix
    cases rest with
    | nil => rfl
    | cons s others =>
      obtain ⟨more, rfl⟩ := hprefix
      exact absurd rfl (h s rfl)
  · rintro rfl
    exact List.nil_prefix

theorem eq_append_cons_iff_of_apart (h : ∀ s ∈ left.head?, s ∉ rest.head?) {s : String}
    {others : List String} : rest = left ++ s :: others ↔ left = [] ∧ rest = s :: others := by
  constructor
  · rintro rfl
    cases left with
    | nil => exact ⟨rfl, rfl⟩
    | cons b more => exact absurd rfl (h b rfl)
  · rintro ⟨rfl, rfl⟩
    rfl

/-- The same in terms of the whole paths. -/
theorem namesModule_iff (hapart : ∀ s ∈ left.head?, s ∉ rest.head?)
    (hbase : AreSegments (common ++ left)) (htarget : AreSegments (common ++ rest)) :
    NamesModule ("/".intercalate (common ++ left)) ("/".intercalate (common ++ rest))
        (specifierOf ("/".intercalate (stepTexts left rest))) ↔
      (common ++ rest <+: common ++ left → common ++ rest = [] ∧ common ++ left = []) ∧
        ∀ s others, common ++ rest = common ++ left ++ s :: others →
          Text.startsWith ".." s = false := by
  have hdown (s : String) (others : List String) :
      common ++ rest = common ++ left ++ s :: others ↔ left = [] ∧ rest = s :: others := by
    rw [List.append_assoc, List.append_right_inj, eq_append_cons_iff_of_apart hapart]
  rw [namesModule_fork_iff hbase htarget, List.prefix_append_right_inj, prefix_iff_of_apart hapart,
    List.append_eq_nil_iff, List.append_eq_nil_iff]
  simp only [hdown]
  constructor
  · rintro ⟨hup, hdots⟩
    refine ⟨fun hnil => ?_, fun s others h => ?_⟩
    · obtain ⟨hcommon, hleft⟩ := hup hnil
      exact ⟨⟨hcommon, hnil⟩, hcommon, hleft⟩
    · exact hdots h.1 s (by rw [h.2]; rfl)
  · rintro ⟨hup, hdots⟩
    refine ⟨fun hnil => (hup hnil).2, fun hleft s hs => ?_⟩
    obtain ⟨others, hrest⟩ := List.head?_eq_some_iff.1 hs
    exact hdots s others ⟨hleft, hrest⟩

theorem intercalate_eq_empty_iff (h : AreSegments segments) :
    "/".intercalate segments = "" ↔ segments = [] := by
  constructor
  · exact fun heq => intercalate_inj h (fun _ hs => absurd hs List.not_mem_nil) heq
  · rintro rfl
    exact String.intercalate_nil

end Fork

/-- When the module by which a normal file imports another one names it.  The path of the module
    must be normal without its ending; the directory that imports must not be at or below that
    path, unless both are empty; and the first segment that is entered, if no step up comes before
    it, must not begin with two dots.  The module leads to that path in any case. -/
theorem relativeModule_names_iff {source stem : String} (hsource : IsNormal source) :
    (IsNormal stem →
        normalize (parent source ++ ("/" ++ relativeModule source (stem ++ ".ts"))) = stem) ∧
      (NamesModule (parent source) stem (relativeModule source (stem ++ ".ts")) ↔
        IsNormal stem ∧
          (normalSegments stem <+: normalSegments (parent source) →
            stem = "" ∧ parent source = "") ∧
          ∀ s rest, normalSegments stem = normalSegments (parent source) ++ s :: rest →
            Text.startsWith ".." s = false) := by
  obtain ⟨segments, hsegments, rfl⟩ := hsource
  have hbase : AreSegments segments.dropLast :=
    fun s hs => hsegments s (List.dropLast_subset _ hs)
  by_cases hstem : IsNormal stem
  · obtain ⟨target, htarget, rfl⟩ := hstem
    have hnormal : IsNormal ("/".intercalate target) := ⟨target, htarget, rfl⟩
    rw [parent_intercalate hsegments, normalSegments_intercalate hbase,
      normalSegments_intercalate htarget]
    obtain ⟨common, left, rest, hleft, rfl, hapart⟩ := exists_common segments.dropLast target
    rw [relativeModule_fork hsegments hleft htarget hapart]
    rw [hleft] at hbase ⊢
    rw [intercalate_eq_empty_iff htarget, intercalate_eq_empty_iff hbase]
    refine ⟨fun _ => normalize_specifier hbase htarget, ?_⟩
    rw [namesModule_iff hapart hbase htarget]
    exact (and_iff_right hnormal).symm
  · -- what is led to is normal
    have hleads : ¬NamesModule (parent ("/".intercalate segments)) stem
        (relativeModule ("/".intercalate segments) (stem ++ ".ts")) :=
      fun h => hstem (h.leads ▸ isNormal_normalize)
    exact ⟨fun h => absurd h hstem, iff_of_false hleads fun h => hstem h.1⟩

/-- A file of one aggregate imports the models of another one. -/
theorem relativeModule_names_iff_sibling :
    IsNormal "example/cart/queryClient.ts" ∧
      relativeModule "example/cart/queryClient.ts" "example/order/types.ts" = "../order/types" ∧
      NamesModule "example/cart" "example/order/types" "../order/types" := by
  have hsource : IsNormal "example/cart/queryClient.ts" := by
    have hnormal : normalize "example/cart/queryClient.ts" = "example/cart/queryClient.ts" := by
      decide
    exact hnormal ▸ isNormal_normalize
  have hstem : IsNormal "example/order/types" := by
    have hnormal : normalize "example/order/types" = "example/order/types" := by decide
    exact hnormal ▸ isNormal_normalize
  have hparent : parent "example/cart/queryClient.ts" = "example/cart" := by decide
  have hbase : normalSegments "example/cart" = ["example", "cart"] := by decide
  have htarget : normalSegments "example/order/types" = ["example", "order", "types"] := by decide
  have hmodule :
      relativeModule "example/cart/queryClient.ts" "example/order/types.ts" = "../order/types" := by
    decide
  have hnames := (@relativeModule_names_iff _ "example/order/types" hsource).2
  rw [hparent, hbase, htarget] at hnames
  refine ⟨hsource, hmodule, hmodule ▸ hnames.2 ⟨hstem, ?_, ?_⟩⟩
  · intro hprefix
    exact absurd hprefix (by decide)
  · intro s rest h
    -- the second segments differ
    simp at h

/-- The models of a directory called like the module of the models above it import that module
    from their own directory, which is no file. -/
theorem exists_unnamed_module :
    IsNormal "a/types/types.ts" ∧ IsNormal "a/types.ts" ∧
      relativeModule "a/types/types.ts" "a/types.ts" = "./" ∧
      ¬NamesModule (parent "a/types/types.ts") "a/types"
        (relativeModule "a/types/types.ts" "a/types.ts") := by
  have hmodel (directory : String) {path : String} (h : modelFile directory = path) :
      IsNormal path := h ▸ isNormal_modelFile directory
  refine ⟨hmodel "/a/types" (by decide), hmodel "/a" (by decide), by decide, fun h => ?_⟩
  exact absurd h.last (by decide)

end FilePath

end ClientGen
