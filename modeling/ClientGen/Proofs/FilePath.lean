/-
  ClientGen.Proofs.FilePath

  Normal paths and the modules by which files import each other.  A normal path
  is its segments joined by slashes; normalization gives normal paths and leaves
  them as they are.  `relativeModule_inj` shows that the module by which a file
  imports a model file tells which file that is.
-/
import ClientGen.Text.FilePath
import Mathlib.Data.List.Basic

namespace ClientGen

/-! ## Cutting and joining texts -/

namespace Text

variable {p : Char → Bool}

/-- A separator parts the pieces before it from those after it. -/
theorem pieces_append_cons {sep : Char} (hsep : p sep = true) (before after : List Char) :
    pieces p (before ++ sep :: after) = pieces p before ++ pieces p after := by
  induction before with
  | nil =>
    show pieces p (sep :: after) = [] :: pieces p after
    rw [pieces, if_pos hsep]
  | cons c rest ih =>
    rw [List.cons_append, pieces, pieces]
    split
    · rw [ih, List.cons_append]
    · rw [ih]
      cases hrest : pieces p rest with
      | nil => exact absurd hrest (pieces_ne_nil p rest)
      | cons piece others => rfl

theorem pieces_of_all_not {cs : List Char} (h : ∀ c ∈ cs, p c = false) : pieces p cs = [cs] := by
  induction cs with
  | nil => rfl
  | cons c rest ih =>
    have hc : p c = false := h c List.mem_cons_self
    rw [pieces, ih fun c' hc' => h c' (List.mem_cons_of_mem _ hc'), hc]
    rfl

/-- Joining undoes cutting. -/
theorem intercalate_pieces (sep : Char) (cs : List Char) :
    [sep].intercalate (pieces (· == sep) cs) = cs := by
  induction cs with
  | nil => rfl
  | cons c rest ih =>
    have hne := pieces_ne_nil (· == sep) rest
    unfold pieces
    split
    · next hc =>
      rw [List.intercalate_cons_of_ne_nil hne, ih, eq_of_beq hc]
      rfl
    · obtain ⟨piece, others, hpieces⟩ := List.exists_cons_of_ne_nil hne
      rw [hpieces] at ih ⊢
      cases others with
      | nil => simpa using ih
      | cons second more => simpa using ih

theorem takeWhile_append_of_not_mem {stop : Char} {front : List Char} (h : stop ∉ front)
    (cs : List Char) :
    (front ++ cs).takeWhile (· != stop) = front ++ cs.takeWhile (· != stop) := by
  apply List.takeWhile_append_of_pos
  intro c hc
  rw [bne_iff_ne]
  exact ne_of_mem_of_not_mem hc h

theorem splitOn_slash (hslash : p '/' = true) (before after : String) :
    splitOn p (before ++ ("/" ++ after)) = splitOn p before ++ splitOn p after := by
  have htext : (before ++ ("/" ++ after)).toList = before.toList ++ '/' :: after.toList := by
    rw [String.toList_append, String.toList_append]
    rfl
  rw [splitOn, htext, pieces_append_cons hslash, List.map_append]
  rfl

theorem splitOn_of_all_not {s : String} (h : ∀ c ∈ s.toList, p c = false) : splitOn p s = [s] := by
  rw [splitOn, pieces_of_all_not h, List.map_singleton, String.ofList_toList]

/-- Cutting undoes joining. -/
theorem splitOn_intercalate (hslash : p '/' = true) {segments : List String} (hne : segments ≠ [])
    (h : ∀ s ∈ segments, ∀ c ∈ s.toList, p c = false) :
    splitOn p ("/".intercalate segments) = segments := by
  induction segments with
  | nil => exact absurd rfl hne
  | cons first rest ih =>
    have hfirst := splitOn_of_all_not (h first List.mem_cons_self)
    cases rest with
    | nil => rw [String.intercalate_singleton, hfirst]
    | cons second others =>
      have ih := ih (List.cons_ne_nil _ _) fun s hs => h s (List.mem_cons_of_mem _ hs)
      rw [String.intercalate_cons_cons, String.append_assoc, splitOn_slash hslash, hfirst, ih]
      rfl

theorem splitOn_all_not {s : String} :
    ∀ segment ∈ splitOn p s, ∀ c ∈ segment.toList, p c = false := by
  intro segment hsegment c hc
  obtain ⟨piece, hpiece, rfl⟩ := List.mem_map.1 hsegment
  rw [String.toList_ofList] at hc
  exact pieces_all_not p s.toList piece hpiece c hc

/-- The characters of pieces are those of the text. -/
theorem mem_of_mem_pieces {cs piece : List Char} (hpiece : piece ∈ pieces p cs) :
    ∀ c ∈ piece, c ∈ cs := by
  induction cs generalizing piece with
  | nil =>
    rw [pieces, List.mem_singleton] at hpiece
    rw [hpiece]
    exact fun c hc => hc
  | cons first rest ih =>
    unfold pieces at hpiece
    intro c hc
    split at hpiece
    · rcases List.mem_cons.1 hpiece with rfl | hpiece
      · exact absurd hc List.not_mem_nil
      · exact List.mem_cons_of_mem _ (ih hpiece c hc)
    · split at hpiece
      · next heq => exact absurd heq (pieces_ne_nil p rest)
      · next front others heq =>
        rw [heq] at ih
        rcases List.mem_cons.1 hpiece with rfl | hpiece
        · rcases List.mem_cons.1 hc with rfl | hc
          · exact List.mem_cons_self
          · exact List.mem_cons_of_mem _ (ih List.mem_cons_self c hc)
        · exact List.mem_cons_of_mem _ (ih (List.mem_cons_of_mem _ hpiece) c hc)

theorem mem_of_mem_splitOn {s piece : String} (h : piece ∈ splitOn p s) :
    ∀ c ∈ piece.toList, c ∈ s.toList := by
  obtain ⟨cs, hcs, rfl⟩ := List.mem_map.1 h
  rw [String.toList_ofList]
  exact mem_of_mem_pieces hcs

/-- A beginning without a certain character ends before that character comes. -/
theorem prefix_of_prefix_append {start front rest : List Char} {c : Char} (hc : c ∉ start)
    (h : start <+: front ++ c :: rest) : start <+: front := by
  rcases List.prefix_or_prefix_of_prefix h (List.prefix_append front (c :: rest)) with hfront | hstart
  · exact hfront
  · -- what follows the front would have to go on with the character
    obtain ⟨more, rfl⟩ := hstart
    rw [List.prefix_append_right_inj] at h
    cases more with
    | nil => simp
    | cons first others =>
      obtain ⟨rfl, -⟩ := List.cons_prefix_cons.1 h
      exact absurd (List.mem_append_right _ List.mem_cons_self) hc

theorem beforeEnd?_append (s ending : String) : beforeEnd? ending (s ++ ending) = some s := by
  have hsuffix : ending.toList.isSuffixOf (s ++ ending).toList = true := by
    rw [List.isSuffixOf_iff_suffix, String.toList_append]
    exact List.suffix_append _ _
  rw [beforeEnd?, if_pos hsuffix, String.toList_append, List.length_append, Nat.add_sub_cancel,
    List.take_left, String.ofList_toList]

theorem beforeEnd?_eq_some_iff {ending s rest : String} :
    beforeEnd? ending s = some rest ↔ s = rest ++ ending := by
  constructor
  · intro h
    unfold beforeEnd? at h
    split at h
    · next hending =>
      obtain ⟨before, hbefore⟩ := List.isSuffixOf_iff_suffix.1 hending
      rw [← hbefore, List.length_append, Nat.add_sub_cancel, List.take_left] at h
      rw [← Option.some.inj h, ← String.toList_inj, String.toList_append, String.toList_ofList,
        hbefore]
    · cases h
  · rintro rfl
    exact beforeEnd?_append rest ending

end Text

namespace FilePath

/-! ## Normal paths -/

/-- A segment that a walk enters. -/
def IsSegment (s : String) : Prop :=
  s ≠ "" ∧ s ≠ "." ∧ s ≠ ".." ∧ ∀ c ∈ s.toList, isSlash c = false

/-- Segments that a walk enters one by one. -/
def AreSegments (segments : List String) : Prop := ∀ s ∈ segments, IsSegment s

/-- A path that is made of segments that a walk enters. -/
def IsNormal (path : String) : Prop :=
  ∃ segments, AreSegments segments ∧ path = "/".intercalate segments

variable {segments others : List String} {path s : String}

theorem AreSegments.append (h : AreSegments segments) (h' : AreSegments others) :
    AreSegments (segments ++ others) := by
  intro s hs
  rcases List.mem_append.1 hs with hs | hs
  · exact h s hs
  · exact h' s hs

theorem AreSegments.singleton (h : IsSegment s) : AreSegments [s] := by
  intro s' hs'
  rw [List.mem_singleton.1 hs']
  exact h

/-- A directory of segments with one more segment. -/
theorem AreSegments.concat (h : AreSegments segments) (hs : IsSegment s) :
    AreSegments (segments ++ [s]) :=
  h.append (.singleton hs)

theorem isSegment_types : IsSegment "types.ts" := by
  simp [IsSegment, isSlash]

theorem isSegment_stem : IsSegment "types" := by
  simp [IsSegment, isSlash]

/-- A walk enters segments one by one. -/
theorem foldl_enter (h : AreSegments segments) (entered : List String) :
    segments.foldl enter entered = segments.reverse ++ entered := by
  induction segments generalizing entered with
  | nil => rfl
  | cons first rest ih =>
    obtain ⟨hempty, hdot, hdots, -⟩ := h first List.mem_cons_self
    have hstep : enter entered first = first :: entered := by
      rw [enter, if_neg (by simp [hempty, hdot]), if_neg hdots]
    rw [List.foldl_cons, hstep, ih fun s hs => h s (List.mem_cons_of_mem _ hs),
      List.reverse_cons, List.append_assoc]
    rfl

theorem walk_of_areSegments (h : AreSegments segments) : walk segments = segments := by
  rw [walk, foldl_enter h, List.append_nil, List.reverse_reverse]

/-- What a walk has entered are segments. -/
theorem areSegments_foldl_enter (h : ∀ s ∈ segments, ∀ c ∈ s.toList, isSlash c = false)
    {entered : List String} (hentered : AreSegments entered) :
    AreSegments (segments.foldl enter entered) := by
  induction segments generalizing entered with
  | nil => exact hentered
  | cons first rest ih =>
    apply ih fun s hs => h s (List.mem_cons_of_mem _ hs)
    unfold enter
    split
    · exact hentered
    · next hstay =>
      obtain ⟨hempty, hdot⟩ := not_or.1 hstay
      split
      · exact fun s hs => hentered s (List.mem_of_mem_tail hs)
      · next hdots =>
        intro s hs
        rcases List.mem_cons.1 hs with rfl | hs
        · exact ⟨hempty, hdot, hdots, h s List.mem_cons_self⟩
        · exact hentered s hs

theorem areSegments_walk (h : ∀ s ∈ segments, ∀ c ∈ s.toList, isSlash c = false) :
    AreSegments (walk segments) := by
  intro s hs
  exact areSegments_foldl_enter h (fun _ hs => absurd hs List.not_mem_nil) s (List.mem_reverse.1 hs)

/-- The segments of the normal form of a path. -/
def normalSegments (path : String) : List String := walk (Text.splitOn isSlash path)

theorem areSegments_normalSegments : AreSegments (normalSegments path) :=
  areSegments_walk Text.splitOn_all_not

theorem normalize_eq : normalize path = "/".intercalate (normalSegments path) := rfl

theorem isNormal_normalize : IsNormal (normalize path) :=
  ⟨normalSegments path, areSegments_normalSegments, rfl⟩

theorem isNormal_modelFile (directory : String) : IsNormal (modelFile directory) :=
  isNormal_normalize

theorem normalSegments_intercalate (h : AreSegments segments) :
    normalSegments ("/".intercalate segments) = segments := by
  rw [normalSegments]
  by_cases hne : segments = []
  · subst hne
    rw [String.intercalate_nil]
    decide
  · rw [Text.splitOn_intercalate (by decide) hne fun s hs => (h s hs).2.2.2, walk_of_areSegments h]

theorem normalSegments_normalize (path : String) :
    normalSegments (normalize path) = normalSegments path :=
  normalSegments_intercalate areSegments_normalSegments

/-- A slash in front of a path stays where it is. -/
theorem normalSegments_slash (path : String) :
    normalSegments ("/" ++ path) = normalSegments path := by
  have hsplit := Text.splitOn_slash (p := isSlash) (by decide) "" path
  rw [String.empty_append] at hsplit
  rw [normalSegments, hsplit]
  rfl

/-- Normal paths are their own normal forms. -/
theorem normalize_of_isNormal (h : IsNormal path) : normalize path = path := by
  obtain ⟨segments, hsegments, rfl⟩ := h
  rw [normalize_eq, normalSegments_intercalate hsegments]

@[simp] theorem normalize_normalize : normalize (normalize path) = normalize path :=
  normalize_of_isNormal isNormal_normalize

/-- The segments of a normal path are determined by it. -/
theorem intercalate_inj (h : AreSegments segments) (h' : AreSegments others)
    (heq : "/".intercalate segments = "/".intercalate others) : segments = others := by
  rw [← normalSegments_intercalate h, heq, normalSegments_intercalate h']

/-! ## Model files -/

/-- The normal form of a path below a directory: the path is walked from there. -/
theorem normalSegments_below (directory path : String) :
    normalSegments (directory ++ ("/" ++ path))
      = ((Text.splitOn isSlash path).foldl enter (normalSegments directory).reverse).reverse := by
  rw [normalSegments, Text.splitOn_slash (by decide), walk, List.foldl_append, normalSegments, walk,
    List.reverse_reverse]

/-- The normal form of a file in a directory. -/
theorem normalSegments_append (directory : String) (h : IsSegment s) :
    normalSegments (directory ++ ("/" ++ s)) = normalSegments directory ++ [s] := by
  rw [normalSegments_below, Text.splitOn_of_all_not h.2.2.2, foldl_enter (.singleton h),
    List.reverse_append, List.reverse_reverse]
  rfl

/-- A model file is `types.ts` in the normal form of its directory. -/
theorem modelFile_eq (directory : String) :
    modelFile directory = "/".intercalate (normalSegments directory ++ ["types.ts"]) := by
  have htext : directory ++ "/types.ts" = directory ++ ("/" ++ "types.ts") := rfl
  rw [modelFile, normalize_eq, htext, normalSegments_append directory isSegment_types]

@[simp] theorem normalize_modelFile (directory : String) :
    normalize (modelFile directory) = modelFile directory :=
  normalize_normalize

/-! ## Components -/

/-- The components of segments. -/
def names (segments : List String) : List Component := segments.map .name

@[simp] theorem names_append : names (segments ++ others) = names segments ++ names others :=
  List.map_append

@[simp] theorem length_names : (names segments).length = segments.length := List.length_map _

theorem IsSegment.ofSegment? (h : IsSegment s) : Component.ofSegment? s = some (.name s) := by
  obtain ⟨hempty, hdot, hdots, -⟩ := h
  rw [Component.ofSegment?, if_neg (by simp [hempty, hdot]), if_neg hdots]

theorem filterMap_ofSegment? (h : AreSegments segments) :
    segments.filterMap Component.ofSegment? = names segments := by
  induction segments with
  | nil => rfl
  | cons first rest ih =>
    have hrest := ih fun s hs => h s (List.mem_cons_of_mem _ hs)
    rw [List.filterMap_cons_some (h first List.mem_cons_self).ofSegment?, hrest]
    rfl

theorem not_slash_of_isSlash {c : Char} (h : isSlash c = false) : (c == '/') = false := by
  rw [isSlash, Bool.or_eq_false_iff] at h
  exact h.1

/-- The components of a normal path are the names of its segments. -/
theorem components_intercalate (h : AreSegments segments) :
    components ("/".intercalate segments) = names segments := by
  cases segments with
  | nil =>
    rw [String.intercalate_nil]
    decide
  | cons first rest =>
    have hsplit : Text.splitOn (· == '/') ("/".intercalate (first :: rest)) = first :: rest :=
      Text.splitOn_intercalate (by decide) (List.cons_ne_nil _ _) fun s hs c hc =>
        not_slash_of_isSlash ((h s hs).2.2.2 c hc)
    have hfirst := h first List.mem_cons_self
    rw [components, hsplit]
    simp only [if_neg hfirst.1, if_neg hfirst.2.1, hfirst.ofSegment?, Option.toList_some]
    rw [filterMap_ofSegment? fun s hs => h s (List.mem_cons_of_mem _ hs)]
    rfl

theorem directory_intercalate (h : AreSegments segments) :
    directory ("/".intercalate segments) = names segments.dropLast := by
  have hroot : names segments ≠ [.root] := by
    cases segments with
    | nil => simp [names]
    | cons first rest => simp [names]
  rw [directory, components_intercalate h]
  simp only [if_neg hroot]
  rw [names, names, List.map_dropLast]

/-! ## Walks between directories -/

/-- Where a walk leads that starts in a directory. -/
def follow (base : List Component) : List Component → List Component
  | [] => base
  | .up :: rest => follow base.dropLast rest
  | c :: rest => follow (base ++ [c]) rest

theorem follow_names (base : List Component) (segments : List String) :
    follow base (names segments) = base ++ names segments := by
  induction segments generalizing base with
  | nil => exact (List.append_nil base).symm
  | cons s rest ih =>
    show follow (base ++ [.name s]) (names rest) = base ++ names (s :: rest)
    rw [ih, List.append_assoc]
    rfl

/-- As many steps up as there are components leave them. -/
theorem follow_ups (base left rest : List Component) :
    follow (base ++ left) (List.replicate left.length .up ++ rest) = follow base rest := by
  induction hn : left.length generalizing left with
  | zero =>
    rw [List.length_eq_zero_iff.1 hn, List.append_nil]
    rfl
  | succ n ih =>
    have hne : left ≠ [] := by
      rintro rfl
      cases hn
    show follow (base ++ left).dropLast (List.replicate n .up ++ rest) = follow base rest
    rw [List.dropLast_append_of_ne_nil hne]
    apply ih
    rw [List.length_dropLast, hn, Nat.add_sub_cancel]

/-- The walk to a directory that has been passed already goes up only. -/
theorem walkBetween_nil (moved : Bool) (base : List Component) :
    walkBetween moved [] base = some (List.replicate base.length .up) := by
  induction base generalizing moved with
  | nil => rfl
  | cons b rest ih =>
    rw [walkBetween, ih]
    rfl

/-- Two paths go together for a while, and then each goes on by itself, if it goes on. -/
theorem exists_common (base target : List String) :
    ∃ common left rest, base = common ++ left ∧ target = common ++ rest ∧
      ∀ s ∈ left.head?, s ∉ rest.head? := by
  induction base generalizing target with
  | nil => exact ⟨[], [], target, rfl, rfl, fun _ hs => nomatch hs⟩
  | cons b base ih =>
    cases target with
    | nil => exact ⟨[], b :: base, [], rfl, rfl, fun _ _ hs => nomatch hs⟩
    | cons a target =>
      by_cases hab : a = b
      · subst hab
        obtain ⟨common, left, rest, hbase, htarget, hapart⟩ := ih target
        exact ⟨a :: common, left, rest, by rw [hbase, List.cons_append],
          by rw [htarget, List.cons_append], hapart⟩
      · refine ⟨[], b :: base, a :: target, rfl, rfl, ?_⟩
        intro s hb ha
        rw [List.head?_cons, Option.mem_some_iff] at ha hb
        exact hab (ha.trans hb.symm)

/-- A walk between directories leaves what the base has for itself, and enters what the target
    has for itself. -/
theorem walkBetween_append (common : List String) {left rest : List String}
    (h : ∀ s ∈ left.head?, s ∉ rest.head?) :
    walkBetween false (names (common ++ rest)) (names (common ++ left))
      = some (List.replicate left.length .up ++ names rest) := by
  induction common with
  | nil =>
    rw [List.nil_append, List.nil_append]
    cases left with
    | nil =>
      -- the walk has arrived above the target and only enters
      cases rest <;> rfl
    | cons b left =>
      cases rest with
      | nil =>
        have hups := walkBetween_nil false (names (b :: left))
        rw [length_names] at hups
        exact hups.trans (congrArg some (List.append_nil _).symm)
      | cons a rest =>
        have hab : a ≠ b := by
          rintro rfl
          exact h a rfl rfl
        have hups : (names left).map (fun _ => Component.up)
            = List.replicate left.length .up := by
          rw [List.map_const', length_names]
        simp [names, walkBetween, hab] at hups ⊢
        rw [hups, List.replicate_succ, List.cons_append]
  | cons a common ih =>
    -- what both have in common is not walked
    rw [List.cons_append, List.cons_append, ← ih]
    simp [names, walkBetween]

theorem head?_names_ne_root (segments : List String) :
    ((names segments).head? == some .root) = false := by
  cases segments <;> simp [names]

theorem relativeTo_append (common : List String) {left rest : List String}
    (h : ∀ s ∈ left.head?, s ∉ rest.head?) :
    relativeTo (names (common ++ left)) (names (common ++ rest))
      = List.replicate left.length .up ++ names rest := by
  rw [relativeTo, head?_names_ne_root, head?_names_ne_root, walkBetween_append common h]
  rfl

/-- The relative path between named components takes steps up, and then enters segments of its
    target, to which it leads. -/
theorem relativeTo_names (base target : List String) :
    (∀ c ∈ relativeTo (names base) (names target), c = .up ∨ ∃ s ∈ target, c = .name s) ∧
      follow (names base) (relativeTo (names base) (names target)) = names target := by
  obtain ⟨common, left, rest, rfl, rfl, hapart⟩ := exists_common base target
  rw [relativeTo_append common hapart]
  constructor
  · intro c hc
    rcases List.mem_append.1 hc with hc | hc
    · exact .inl (List.eq_of_mem_replicate hc)
    · obtain ⟨s, hs, rfl⟩ := List.mem_map.1 hc
      exact .inr ⟨s, List.mem_append_right common hs, rfl⟩
  · have hups := follow_ups (names common) (names left) (names rest)
    rw [length_names] at hups
    rw [names_append, names_append, hups, follow_names]

/-! ## Module specifiers -/

/-- A component that a module specifier writes out. -/
def IsStep (c : Component) : Prop := c = .up ∨ ∃ s, IsSegment s ∧ c = .name s

/-- The texts of the steps of a walk. -/
def specifiers (walk : List Component) : List String := walk.filterMap Component.specifier?

variable {walk walk' : List Component}

@[simp] theorem specifiers_up : specifiers (.up :: walk) = ".." :: specifiers walk := rfl

@[simp] theorem specifiers_name (s : String) :
    specifiers (.name s :: walk) = s :: specifiers walk := rfl

/-- The text of a step is not empty and holds no slash. -/
theorem of_mem_specifiers (h : ∀ c ∈ walk, IsStep c) {s : String} (hs : s ∈ specifiers walk) :
    s ≠ "" ∧ ∀ ch ∈ s.toList, (ch == '/') = false := by
  obtain ⟨c, hc, hspec⟩ := List.mem_filterMap.1 hs
  rcases h c hc with rfl | ⟨s', hs', rfl⟩
  · cases hspec
    exact ⟨by decide, by simp⟩
  · cases hspec
    exact ⟨hs'.1, fun ch hch => not_slash_of_isSlash (hs'.2.2.2 ch hch)⟩

/-- The texts of the steps tell the steps: no segment is written as a step up. -/
theorem specifiers_inj (h : ∀ c ∈ walk, IsStep c) (h' : ∀ c ∈ walk', IsStep c)
    (heq : specifiers walk = specifiers walk') : walk = walk' := by
  -- step by step: each text tells whether its step goes up or enters a segment
  induction walk generalizing walk' with
  | nil =>
    cases walk' with
    | nil => rfl
    | cons c rest =>
      rcases h' c List.mem_cons_self with rfl | ⟨s, -, rfl⟩ <;> cases heq
  | cons c rest ih =>
    cases walk' with
    | nil =>
      rcases h c List.mem_cons_self with rfl | ⟨s, -, rfl⟩ <;> cases heq
    | cons c' rest' =>
      have ih : specifiers rest = specifiers rest' → rest = rest' :=
        ih (fun c hc => h c (List.mem_cons_of_mem _ hc))
          (fun c hc => h' c (List.mem_cons_of_mem _ hc))
      rcases h c List.mem_cons_self with rfl | ⟨s, hs, rfl⟩
      · rcases h' c' List.mem_cons_self with rfl | ⟨s', hs', rfl⟩
        · rw [specifiers_up, specifiers_up, List.cons.injEq] at heq
          rw [ih heq.2]
        · rw [specifiers_up, specifiers_name, List.cons.injEq] at heq
          exact absurd heq.1.symm hs'.2.2.1
      · rcases h' c' List.mem_cons_self with rfl | ⟨s', hs', rfl⟩
        · rw [specifiers_up, specifiers_name, List.cons.injEq] at heq
          exact absurd heq.1 hs.2.2.1
        · rw [specifiers_name, specifiers_name, List.cons.injEq] at heq
          rw [heq.1, ih heq.2]

/-- Joined texts that are not empty and hold no slash tell these texts. -/
theorem join_inj (h : ∀ s ∈ segments, s ≠ "" ∧ ∀ c ∈ s.toList, (c == '/') = false)
    (h' : ∀ s ∈ others, s ≠ "" ∧ ∀ c ∈ s.toList, (c == '/') = false)
    (heq : "/".intercalate segments = "/".intercalate others) : segments = others := by
  have hsplit {l : List String} (hne : l ≠ [])
      (hl : ∀ s ∈ l, s ≠ "" ∧ ∀ c ∈ s.toList, (c == '/') = false) :
      Text.splitOn (· == '/') ("/".intercalate l) = l :=
    Text.splitOn_intercalate (by decide) hne fun s hs => (hl s hs).2
  have hempty : Text.splitOn (· == '/') ("/".intercalate []) = [""] := by
    rw [String.intercalate_nil]
    decide
  -- no text joins to nothing but no texts at all: an empty text is not among them
  have hnil {l : List String} (hl : ∀ s ∈ l, s ≠ "" ∧ ∀ c ∈ s.toList, (c == '/') = false)
      (hjoin : "/".intercalate l = "/".intercalate []) : l = [] := by
    by_contra hne
    have hparts := hsplit hne hl
    rw [hjoin, hempty] at hparts
    have hmem : "" ∈ l := hparts ▸ List.mem_singleton_self _
    exact (hl _ hmem).1 rfl
  by_cases hs : segments = []
  · subst hs
    exact (hnil h' heq.symm).symm
  · by_cases ho : others = []
    · subst ho
      exact hnil h heq
    · rw [← hsplit hs h, heq, hsplit ho h']

/-- A path as a module specifier, which begins with a dot. -/
def specifierOf (path : String) : String :=
  if Text.startsWith ".." path then path else "./" ++ path

theorem startsWith_specifierOf (path : String) : Text.startsWith "." (specifierOf path) = true := by
  unfold specifierOf
  split
  · next h =>
    rw [Text.startsWith, List.isPrefixOf_iff_prefix] at h ⊢
    exact List.IsPrefix.trans (by decide) h
  · rw [Text.startsWith, String.toList_append]
    rfl

theorem specifierOf_inj {p q : String} (h : specifierOf p = specifierOf q) : p = q := by
  have hhere (s : String) : Text.startsWith ".." ("./" ++ s) = false := by
    rw [Text.startsWith, String.toList_append]
    rfl
  unfold specifierOf at h
  split at h
  · next hp =>
    split at h
    · exact h
    · rw [h, hhere] at hp
      cases hp
  · split at h
    · next hq =>
      rw [← h, hhere] at hq
      cases hq
    · exact (String.append_right_inj _).1 h

/-! ## Relative modules -/

/-- The components of a model file without its ending. -/
def moduleSegments (directory : String) : List String := normalSegments directory ++ ["types"]

theorem areSegments_moduleSegments (directory : String) :
    AreSegments (moduleSegments directory) :=
  areSegments_normalSegments.concat isSegment_stem

theorem stem_modelFile (directory : String) :
    Text.beforeEnd? ".ts" (modelFile directory)
      = some ("/".intercalate (moduleSegments directory)) := by
  have htext : modelFile directory = "/".intercalate (moduleSegments directory) ++ ".ts" := by
    rw [modelFile_eq, moduleSegments]
    have hlast : "types.ts" = "types" ++ ".ts" := by decide
    by_cases h : normalSegments directory = []
    · rw [h, List.nil_append, List.nil_append, String.intercalate_singleton,
        String.intercalate_singleton, hlast]
    · rw [String.intercalate_append_of_ne_nil h (List.cons_ne_nil _ _),
        String.intercalate_append_of_ne_nil h (List.cons_ne_nil _ _),
        String.intercalate_singleton, String.intercalate_singleton, hlast, ← String.append_assoc]
  rw [htext, Text.beforeEnd?_append]

theorem relativeModule_modelFile (source directory : String) :
    relativeModule source (modelFile directory)
      = specifierOf ("/".intercalate (specifiers
          (relativeTo (FilePath.directory source) (names (moduleSegments directory))))) := by
  rw [relativeModule, stem_modelFile, Option.getD_some,
    components_intercalate (areSegments_moduleSegments directory)]
  rfl

/-- A relative module begins with a dot, as no package does. -/
theorem startsWith_relativeModule (source target : String) :
    Text.startsWith "." (relativeModule source target) = true :=
  startsWith_specifierOf _

/-- The module by which a normal file imports a model file tells that file. -/
theorem relativeModule_inj {source first second : String} (hsource : IsNormal source)
    (h : relativeModule source (modelFile first) = relativeModule source (modelFile second)) :
    modelFile first = modelFile second := by
  obtain ⟨base, hbase, rfl⟩ := hsource
  rw [relativeModule_modelFile, relativeModule_modelFile, directory_intercalate hbase] at h
  obtain ⟨hfirst, hfollow⟩ := relativeTo_names base.dropLast (moduleSegments first)
  obtain ⟨hsecond, hfollow'⟩ := relativeTo_names base.dropLast (moduleSegments second)
  have hsteps (directory : String) {c : Component}
      (hc : c = .up ∨ ∃ s ∈ moduleSegments directory, c = .name s) : IsStep c := by
    rcases hc with hup | ⟨s, hs, hname⟩
    · exact .inl hup
    · exact .inr ⟨s, areSegments_moduleSegments directory s hs, hname⟩
  have hfirst := fun c hc => hsteps first (hfirst c hc)
  have hsecond := fun c hc => hsteps second (hsecond c hc)
  -- the module tells the texts of the steps, these tell the steps, and these lead to the file
  have hspecifiers := join_inj (fun s hs => of_mem_specifiers hfirst hs)
    (fun s hs => of_mem_specifiers hsecond hs) (specifierOf_inj h)
  rw [specifiers_inj hfirst hsecond hspecifiers, hfollow'] at hfollow
  have hsegments : moduleSegments second = moduleSegments first :=
    List.map_injective_iff.2 (fun _ _ => Component.name.inj) hfollow
  have hdirectories := List.append_cancel_right hsegments
  rw [modelFile_eq, modelFile_eq, hdirectories]

/-- A slash in front of a file at the top makes no difference to its imports. -/
theorem relativeModule_slash {file : String} (hfile : IsSegment file) (directory : String) :
    relativeModule ("/" ++ file) (modelFile directory)
      = relativeModule file (modelFile directory) := by
  have hsplit : Text.splitOn (· == '/') ("/" ++ file) = ["", file] := by
    have hslash := Text.splitOn_slash (p := (· == '/')) (by decide) "" file
    rw [String.empty_append, Text.splitOn_of_all_not fun c hc =>
      not_slash_of_isSlash (hfile.2.2.2 c hc)] at hslash
    exact hslash
  have hroot : FilePath.directory ("/" ++ file) = [.root] := by
    rw [FilePath.directory, components, hsplit]
    simp [hfile.ofSegment?]
  have htop : FilePath.directory file = [] := by
    have hdirectory := directory_intercalate (.singleton hfile)
    rw [String.intercalate_singleton] at hdirectory
    exact hdirectory
  rw [relativeModule_modelFile, relativeModule_modelFile, hroot, htop]
  -- a walk from the root to names, and one from no directory, are the names themselves
  have hwalk : walkBetween false (names (moduleSegments directory)) []
      = some (names (moduleSegments directory)) := by
    cases names (moduleSegments directory) <;> rfl
  have hnames := head?_names_ne_root (moduleSegments directory)
  rw [relativeTo, relativeTo, hnames, hwalk]
  rfl

/-! ## Paths as they are written -/

/-- A path that is normal, or that of a file at the top with a slash in front. -/
def IsSettled (path : String) : Prop :=
  IsNormal path ∨ ∃ file, IsSegment file ∧ file ≠ "types.ts" ∧ path = "/" ++ file

theorem normalize_slash {file : String} (h : IsSegment file) : normalize ("/" ++ file) = file := by
  have hsegments := normalSegments_append "" h
  have hempty : normalSegments "" = [] := by decide
  rw [String.empty_append, hempty, List.nil_append] at hsegments
  rw [normalize_eq, hsegments, String.intercalate_singleton]

/-- A settled path names a model file just when its normal form does. -/
theorem modelFile_eq_iff (h : IsSettled path) (directory : String) :
    modelFile directory = path ↔ modelFile directory = normalize path := by
  rcases h with h | ⟨file, hfile, htypes, rfl⟩
  · rw [normalize_of_isNormal h]
  · rw [normalize_slash hfile]
    constructor
    · intro heq
      rw [← normalize_modelFile, heq, normalize_slash hfile]
    · intro heq
      have hmodel : AreSegments (normalSegments directory ++ ["types.ts"]) :=
        areSegments_normalSegments.concat isSegment_types
      rw [modelFile_eq, ← String.intercalate_singleton (s := "/") (t := file)] at heq
      -- both are segments joined by slashes, and their last segments differ
      have hlast := congrArg List.getLast? (intercalate_inj hmodel (.singleton hfile) heq)
      rw [List.getLast?_append, List.getLast?_singleton, List.getLast?_singleton] at hlast
      exact absurd (Option.some.inj hlast).symm htypes

/-- A settled path and its normal form import model files alike. -/
theorem relativeModule_normalize (h : IsSettled path) (directory : String) :
    relativeModule path (modelFile directory)
      = relativeModule (normalize path) (modelFile directory) := by
  rcases h with h | ⟨file, hfile, -, rfl⟩
  · rw [normalize_of_isNormal h]
  · rw [normalize_slash hfile, relativeModule_slash hfile]

/-- A file in a normal directory is settled. -/
theorem isSettled_append (directory : String) {file : String} (hfile : IsSegment file)
    (htypes : file ≠ "types.ts") : IsSettled (normalize directory ++ ("/" ++ file)) := by
  by_cases hempty : normalSegments directory = []
  · rw [normalize_eq, hempty, String.intercalate_nil, String.empty_append]
    exact .inr ⟨file, hfile, htypes, rfl⟩
  · refine .inl ⟨normalSegments directory ++ [file], ?_, ?_⟩
    · exact areSegments_normalSegments.concat hfile
    · rw [String.intercalate_append_of_ne_nil hempty (List.cons_ne_nil _ _),
        String.intercalate_singleton, normalize_eq, String.append_assoc]

end FilePath

end ClientGen
