/-
  ClientGen.Proofs.KeyCut

  What a schema key says of its model.  A key is cut in front of the first segment that
  begins with an upper-case letter: what is before the cut is the directory, and what is
  behind it the name, whose own segments play no part (`ofKey_of_cut`).
  `reference_agrees` says that a reference means the model that is declared for its key,
  unless this is the framework's.
-/
import ClientGen.Proofs.FilePath
import ClientGen.Proofs.Words

namespace ClientGen

/-! ## Cutting at dots -/

namespace Text

theorem intercalate_splitOn_dot (s : String) : ".".intercalate (splitOn (· == '.') s) = s := by
  have hchars := intercalate_pieces '.' s.toList
  rw [← String.toList_inj, String.toList_intercalate, splitOn, List.map_map]
  simpa [Function.comp_def] using hchars

/-- Segments in front of others are those that a dot follows. -/
theorem intercalate_dot_append (front : List String) {rest : List String} (hrest : rest ≠ []) :
    ".".intercalate (front ++ rest)
      = String.join (front.map (· ++ ".")) ++ ".".intercalate rest := by
  induction front with
  | nil => simp
  | cons first others ih =>
    have hne : others ++ rest ≠ [] := List.append_ne_nil_of_right_ne_nil _ hrest
    rw [List.cons_append, String.intercalate_cons_of_ne_nil hne, ih, List.map_cons,
      String.join_cons, String.append_assoc, String.append_assoc, String.append_assoc]

theorem toList_append_dot (before after : String) :
    (before ++ "." ++ after).toList = before.toList ++ '.' :: after.toList := by
  simp

theorem splitOn_append_dot (before after : String) :
    splitOn (· == '.') (before ++ "." ++ after)
      = splitOn (· == '.') before ++ splitOn (· == '.') after := by
  rw [splitOn, toList_append_dot, pieces_append_cons (by decide), List.map_append]
  rfl

/-- A dot ends a word, and what follows it begins one. -/
theorem pascalCase_append_dot (before after : String) :
    pascalCase (before ++ "." ++ after) = pascalCase before ++ pascalCase after := by
  rw [pascalCase, toList_append_dot, pascalChars, pieces_append_cons (by decide),
    List.flatMap_append, String.ofList_append]
  rfl

end Text

namespace ModelName

variable {key part : String} {directory segments : List String}

/-- Words are run together in any case, so it does not matter where a name is cut. -/
theorem ofSegments_eq_pascalCase (segments : List String) :
    ofSegments segments = Text.pascalCase (".".intercalate segments) := by
  unfold ofSegments
  induction segments with
  | nil => rfl
  | cons first rest ih =>
    rw [List.map_cons, String.join_cons, ih]
    cases rest with
    | nil => simp [Text.pascalCase, Text.pascalChars, Text.pieces, Text.capitalize]
    | cons second others =>
      rw [String.intercalate_cons_cons, Text.pascalCase_append_dot]

/-! ## The cut of a key -/

/-- A cut of a key into the segments of the directory and the part that is the name. -/
inductive Cut (key : String) : List String → String → Prop
  /-- The name begins with the first segment that begins one. -/
  | name {directory : List String} {part : String}
      (hkey : key = String.join (directory.map (· ++ ".")) ++ part)
      (hdirectory : ∀ s ∈ directory, '.' ∉ s.toList ∧ opensName s = false)
      (hpart : opensName part = true) : Cut key directory part
  /-- A key without such a segment is all name. -/
  | whole (h : ∀ s ∈ Text.splitOn (· == '.') key, opensName s = false) : Cut key [] key

/-- The segments in front of a part are segments of the whole. -/
theorem splitOn_join_append (h : ∀ s ∈ directory, '.' ∉ s.toList) (part : String) :
    Text.splitOn (· == '.') (String.join (directory.map (· ++ ".")) ++ part)
      = directory ++ Text.splitOn (· == '.') part := by
  induction directory with
  | nil => simp
  | cons first rest ih =>
    obtain ⟨hfirst, hrest⟩ := List.forall_mem_cons.1 h
    have hsegment : Text.splitOn (· == '.') first = [first] :=
      Text.splitOn_of_all_not fun c hc => beq_eq_false_iff_ne.2 fun heq => hfirst (heq ▸ hc)
    rw [List.map_cons, String.join_cons, String.append_assoc, Text.splitOn_append_dot, hsegment,
      ih hrest]
    rfl

/-- A part that begins a name begins it with its first segment. -/
theorem exists_first_segment (h : opensName part = true) :
    ∃ first rest, Text.splitOn (· == '.') part = first :: rest ∧ opensName first = true := by
  obtain ⟨c, hc, hupper⟩ := (Option.any_eq_true _ _).1 h
  obtain ⟨others, hpart⟩ := List.head?_eq_some_iff.1 hc
  have hdot : (c == '.') = false := by
    rw [beq_eq_false_iff_ne]
    rintro rfl
    exact absurd hupper (by decide)
  obtain ⟨piece, rest, hpieces⟩ := List.exists_cons_of_ne_nil (Text.pieces_ne_nil (· == '.') others)
  refine ⟨String.ofList (c :: piece), rest.map String.ofList, ?_, ?_⟩
  · rw [Text.splitOn, hpart, Text.pieces, hdot, hpieces]
    rfl
  · rw [opensName, String.toList_ofList, List.head?_cons, Option.any_some, hupper]

theorem opensName_intercalate {first : String} (h : opensName first = true) (rest : List String) :
    opensName (".".intercalate (first :: rest)) = true := by
  obtain ⟨c, hc, hupper⟩ := (Option.any_eq_true _ _).1 h
  rw [opensName]
  cases rest with
  | nil => rw [String.intercalate_singleton, hc, Option.any_some, hupper]
  | cons second others =>
    rw [String.intercalate_cons_cons, Text.toList_append_dot, List.head?_append, hc,
      Option.some_or, Option.any_some, hupper]

/-- Every key is cut. -/
theorem exists_cut (key : String) : ∃ directory part, Cut key directory part := by
  let segments := Text.splitOn (· == '.') key
  have hkey : ".".intercalate segments = key := Text.intercalate_splitOn_dot key
  have hparts : segments.takeWhile (!opensName ·) ++ segments.dropWhile (!opensName ·) = segments :=
    List.takeWhile_append_dropWhile
  cases hname : segments.dropWhile (!opensName ·) with
  | nil =>
    have hnone := List.dropWhile_eq_nil_iff.1 hname
    exact ⟨[], key, .whole fun s hs => by simpa using hnone s hs⟩
  | cons first rest =>
    have hfirst : opensName first = true := by
      have hhead := List.head?_dropWhile_not (!opensName ·) segments
      rw [hname] at hhead
      simpa using hhead
    refine ⟨segments.takeWhile (!opensName ·), ".".intercalate (first :: rest),
      .name ?_ ?_ (opensName_intercalate hfirst rest)⟩
    · rw [← Text.intercalate_dot_append _ (List.cons_ne_nil first rest), ← hname, hparts, hkey]
    · intro s hs
      have hsegment : s ∈ segments := (List.takeWhile_prefix _).subset hs
      refine ⟨fun hdot => ?_, by simpa using List.mem_takeWhile_imp hs⟩
      exact absurd (Text.splitOn_all_not s hsegment '.' hdot) (by decide)

/-- The directory of a key is a part of it. -/
theorem Cut.mem_of_mem_directory {segment : String} {c : Char} (h : Cut key directory part)
    (hsegment : segment ∈ directory) (hc : c ∈ segment.toList) : c ∈ key.toList := by
  cases h with
  | name hkey _ _ =>
    rw [hkey, String.toList_append, String.toList_join]
    apply List.mem_append_left
    refine List.mem_flatMap.2 ⟨segment ++ ".", List.mem_map_of_mem hsegment, ?_⟩
    rw [String.toList_append]
    exact List.mem_append_left _ hc
  | whole _ => cases hsegment

/-- The model of a key that is cut.  The name is made of what is behind the cut, as a whole. -/
theorem ofKey_of_cut (hpinned : pinned? key = none) (h : Cut key directory part) :
    ofKey key = ⟨Text.pascalCase part, "/" ++ "/".intercalate directory⟩ := by
  by_cases hempty : key = ""
  · subst hempty
    cases h with
    | name hkey _ hpart =>
      -- nothing begins a name in an empty key
      obtain ⟨-, rfl⟩ := String.append_eq_empty_iff.1 hkey.symm
      cases hpart
    | whole => decide
  · rw [ofKey, if_neg (mt String.isEmpty_iff.1 hempty), hpinned]
    dsimp only
    cases h with
    | name hkey hdirectory hpart =>
      obtain ⟨first, rest, hsegments, hfirst⟩ := exists_first_segment hpart
      have hfront : ∀ s ∈ directory, (!opensName s) = true := fun s hs => by
        rw [(hdirectory s hs).2, Bool.not_false]
      have hwhole : Text.splitOn (· == '.') key = directory ++ first :: rest := by
        rw [hkey, splitOn_join_append fun s hs => (hdirectory s hs).1, hsegments]
      have hbefore : (directory ++ first :: rest).takeWhile (!opensName ·) = directory := by
        simp [List.takeWhile_append_of_pos hfront, hfirst]
      have hbehind : (directory ++ first :: rest).dropWhile (!opensName ·) = first :: rest := by
        simp [List.dropWhile_append_of_pos hfront, hfirst]
      rw [hwhole, hbefore, hbehind, List.isEmpty_cons, if_neg Bool.false_ne_true,
        ofSegments_eq_pascalCase, ← hsegments, Text.intercalate_splitOn_dot]
    | whole hnone =>
      have hname : (Text.splitOn (· == '.') key).dropWhile (!opensName ·) = [] :=
        List.dropWhile_eq_nil_iff.2 fun s hs => by rw [hnone s hs, Bool.not_false]
      rw [hname, List.isEmpty_nil, if_pos rfl, ofSegments_eq_pascalCase,
        Text.intercalate_splitOn_dot]
      rfl

/-! ## References -/

theorem startsWith_slash (rest : String) : Text.startsWith "/" ("/" ++ rest) = true := by
  rw [Text.startsWith, String.toList_append]
  rfl

/-- Unless the name is pinned, the model is in the output tree. -/
theorem startsWith_path_ofKey (h : pinned? key = none) :
    Text.startsWith "/" (ofKey key).path = true := by
  obtain ⟨directory, part, hcut⟩ := exists_cut key
  rw [ofKey_of_cut h hcut]
  exact startsWith_slash _

theorem ofKey_of_pinned? {model : ModelName} (h : pinned? key = some model) :
    ofKey key = model := by
  have hne : ¬key.isEmpty = true := by
    intro hempty
    have hnone : pinned? "" = none := by decide +kernel
    rw [String.isEmpty_iff.1 hempty, hnone] at h
    cases h
  rw [ofKey, if_neg hne, h]

/-- Only what is pinned is not in the output tree, and it is pinned to the framework's package. -/
theorem path_ofKey_of_isExternal (h : (ofKey key).isExternal = true) :
    (ofKey key).path = frameworkModule := by
  cases hpinned : pinned? key with
  | none =>
    rw [isExternal, startsWith_path_ofKey hpinned] at h
    cases h
  | some model =>
    rw [ofKey_of_pinned? hpinned]
    obtain ⟨name, -, rfl⟩ := Option.map_eq_some_iff.1 hpinned
    rfl

/-- A reference to a key of the framework means a type of the framework's package. -/
theorem path_of_isReserved (h : isReserved key = true) : (ofReference key).path = frameworkModule := by
  rw [ofReference, h]
  cases hlocal : (ofKey key).isExternal with
  | true => exact path_ofKey_of_isExternal hlocal
  | false => rfl

/-- Just these references leave the output tree. -/
theorem isExternal_ofReference_iff : (ofReference key).isExternal = true ↔ isReserved key = true := by
  constructor
  · intro h
    by_contra hreserved
    have hown : isReserved key = false := Bool.eq_false_iff.2 hreserved
    rw [ofReference_eq_ofKey hown, isExternal,
      startsWith_path_ofKey (pinned?_of_not_isReserved hown)] at h
    cases h
  · intro h
    rw [isExternal, path_of_isReserved h]
    decide

/-- A model that comes from a package comes from the framework. -/
theorem path_of_isExternal (h : (ofReference key).isExternal = true) :
    (ofReference key).path = frameworkModule :=
  path_of_isReserved (isExternal_ofReference_iff.1 h)

/-- A reference means the model that is declared for its key, in a directory of the output tree,
    unless the key is the framework's, in which case it means a type of the framework's package.
    Apart from pinned names, a key is cut, and its model has the name that is behind the cut, however
    this is cut in turn, in the directory that is before it. -/
theorem reference_agrees (key : String) :
    ((ofReference key).isExternal = true ↔ isReserved key = true) ∧
    (isReserved key = true → (ofReference key).path = frameworkModule) ∧
    (isReserved key = false →
      ofReference key = ofKey key ∧ Text.startsWith "/" (ofKey key).path = true) ∧
    (pinned? key = none →
      (∃ directory part, Cut key directory part) ∧
      ∀ directory part, Cut key directory part →
        ofKey key = ⟨Text.pascalCase part, "/" ++ "/".intercalate directory⟩ ∧
        ∀ segments, ".".intercalate segments = part → (ofKey key).name = ofSegments segments) := by
  refine ⟨isExternal_ofReference_iff, path_of_isReserved, fun h => ?_, fun h => ?_⟩
  · exact ⟨ofReference_eq_ofKey h, startsWith_path_ofKey (pinned?_of_not_isReserved h)⟩
  · refine ⟨exists_cut key, fun directory part hcut => ?_⟩
    have hkey := ofKey_of_cut h hcut
    refine ⟨hkey, fun segments hsegments => ?_⟩
    rw [hkey, ofSegments_eq_pascalCase, hsegments]

/-- A snapshot of the framework, and an item whose name goes on behind the cut. -/
theorem reference_agrees_snapshot :
    let snapshot := "wow.api.query.MaterializedSnapshot"
    let item := "shop.cart.OrderItem.line-total"
    isReserved snapshot = true ∧ (ofReference snapshot).path = frameworkModule ∧
      isReserved item = false ∧ ofReference item = ofKey item ∧ pinned? item = none ∧
      Cut item ["shop", "cart"] "OrderItem.line-total" ∧
      ofKey item = ⟨Text.pascalCase "OrderItem.line-total", "/" ++ "/".intercalate ["shop", "cart"]⟩ ∧
      Text.pascalCase "OrderItem.line-total" = "OrderItemLineTotal" := by
  intro snapshot item
  have hsnapshot : isReserved snapshot = true := by decide +kernel
  have hitem : isReserved item = false := by decide +kernel
  have hpinned : pinned? item = none := by decide +kernel
  have hcut : Cut item ["shop", "cart"] "OrderItem.line-total" :=
    .name (by decide +kernel) (by decide +kernel) (by decide +kernel)
  obtain ⟨-, hframework, -, -⟩ := reference_agrees snapshot
  obtain ⟨-, -, hown, hname⟩ := reference_agrees item
  exact ⟨hsnapshot, hframework hsnapshot, hitem, (hown hitem).1, hpinned, hcut,
    ((hname hpinned).2 _ _ hcut).1, by decide +kernel⟩

end ModelName

end ClientGen
