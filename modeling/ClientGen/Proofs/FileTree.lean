/-
  ClientGen.Proofs.FileTree

  Where the writer of generated files writes.  The path of a file is put behind
  the output directory as a text, and the file system walks along the whole; a
  path of segments leads from any directory to a place strictly below it.
  `staysBelow_writeFiles` follows a whole run of the writer, in which directories
  are created on the way and any step may fail.
-/
import ClientGen.Files.Tree
import ClientGen.Program.Job
import ClientGen.Proofs.FilePath
import ClientGen.Proofs.Map

namespace ClientGen

/-! ## Inner paths -/

namespace FilePath

/-- A path of one or more segments, which leads strictly below any directory. -/
structure IsInner (path : String) : Prop where
  ne_empty : path ≠ ""
  normal : normalize path = path
  relative : Text.startsWith "/" path = false
  segments : AreSegments (Text.splitOn (· == '/') path)

variable {segments : List String} {path : String}

theorem splitOn_slash_intercalate (h : AreSegments segments) (hne : segments ≠ []) :
    Text.splitOn (· == '/') ("/".intercalate segments) = segments :=
  Text.splitOn_intercalate (by decide) hne fun s hs c hc => not_slash_of_isSlash ((h s hs).2.2.2 c hc)

/-- A path with a slash in front has an empty segment there. -/
theorem empty_mem_splitOn_of_startsWith (h : Text.startsWith "/" path = true) :
    "" ∈ Text.splitOn (· == '/') path := by
  rw [Text.startsWith, List.isPrefixOf_iff_prefix] at h
  obtain ⟨rest, hrest⟩ := h
  have htext : path.toList = [] ++ '/' :: rest := hrest.symm
  rw [Text.splitOn, htext, Text.pieces_append_cons (by decide)]
  exact List.mem_cons_self

theorem isInner_intercalate (h : AreSegments segments) (hne : segments ≠ []) :
    IsInner ("/".intercalate segments) := by
  have hsplit := splitOn_slash_intercalate h hne
  -- no segment is empty, so there is none in front of a first slash, nor is the path empty
  have hfull : "" ∉ Text.splitOn (· == '/') ("/".intercalate segments) := by
    rw [hsplit]
    intro hmem
    exact (h "" hmem).1 rfl
  constructor
  · intro hempty
    rw [hempty] at hfull
    exact hfull (by decide)
  · exact normalize_of_isNormal ⟨segments, h, rfl⟩
  · rw [Bool.eq_false_iff]
    intro hslash
    exact hfull (empty_mem_splitOn_of_startsWith hslash)
  · rw [hsplit]
    exact h

theorem isInner_normalize (h : normalSegments path ≠ []) : IsInner (normalize path) :=
  isInner_intercalate areSegments_normalSegments h

end FilePath

namespace FileTree

variable {t t' : FileTree} {base place next : List String} {output path segment text : String}

/-! ## Walks -/

/-- The place of an output directory; the empty path is the working directory. -/
def directory? (t : FileTree) (output : String) : Option (List String) :=
  if output.isEmpty then some t.here else t.place? output

theorem isDirectory_of_step (h : t.step place segment = some next) : t.isDirectory place = true := by
  unfold step at h
  split at h
  · cases h
  · next hdirectory => simpa using hdirectory

theorem step_of_isSegment (h : FilePath.IsSegment segment) (hstep : t.step place segment = some next) :
    next = place ++ [segment] := by
  obtain ⟨hempty, hdot, hdots, -⟩ := h
  rw [step, isDirectory_of_step hstep, if_neg (by decide), if_neg (by simp [hempty, hdot]),
    if_neg hdots] at hstep
  exact (Option.some.inj hstep).symm

/-- A walk along segments goes down one step for each of them. -/
theorem foldlM_step_of_areSegments {segments : List String} (h : FilePath.AreSegments segments)
    (hwalk : segments.foldlM t.step base = some place) : place = base ++ segments := by
  induction segments generalizing base with
  | nil =>
    rw [List.foldlM_nil] at hwalk
    rw [← Option.some.inj hwalk, List.append_nil]
  | cons first rest ih =>
    rw [List.foldlM_cons] at hwalk
    obtain ⟨next, hnext, hrest⟩ := Option.bind_eq_some_iff.1 hwalk
    have hdown := step_of_isSegment (h first List.mem_cons_self) hnext
    have hplace := ih (fun s hs => h s (List.mem_cons_of_mem _ hs)) hrest
    rw [hplace, hdown, List.append_assoc]
    rfl

theorem place?_eq_some_iff :
    t.place? path = some place ↔
      (path ≠ "" ∧ isPath path = true) ∧ (segments path).foldlM t.step (t.start path) = some place := by
  unfold place?
  by_cases hempty : path = ""
  · subst hempty
    simp
  · by_cases hpath : isPath path = true <;> simp [hempty, hpath]

/-! ## Paths behind a directory -/

/-- A path that is not empty decides by itself where a walk begins. -/
theorem start_append (h : path ≠ "") (rest : String) : t.start (path ++ rest) = t.start path := by
  have hfirst : Text.startsWith "/" (path ++ rest) = Text.startsWith "/" path := by
    unfold Text.startsWith
    rw [String.toList_append]
    cases htext : path.toList with
    | nil => exact absurd (String.toList_eq_nil_iff.1 htext) h
    | cons c cs => rfl
  rw [start, start, hfirst]

theorem isPath_of_append {rest : String} (h : isPath (path ++ rest) = true) : isPath path = true := by
  simp only [isPath, Bool.and_eq_true, decide_eq_true_eq, Bool.not_eq_true', String.utf8ByteSize_append,
    String.toList_append, List.contains_append, Bool.or_eq_false_iff] at h ⊢
  obtain ⟨hsize, hnul, -⟩ := h
  exact ⟨by omega, hnul⟩

/-- A slash between two paths parts their segments. -/
theorem segments_append_slash (front rest : String) :
    segments (front ++ "/" ++ rest) = segments front ++ segments rest := by
  have htext : (front ++ "/" ++ rest).toList = front.toList ++ '/' :: rest.toList := by
    rw [String.toList_append, String.toList_append, List.append_assoc]
    rfl
  rw [segments, Text.splitOn, htext, Text.pieces_append_cons (by decide), List.map_append]
  rfl

theorem segments_ne_nil (path : String) : segments path ≠ [] := by
  simp [segments, Text.splitOn, Text.pieces_ne_nil]

/-- The path of a file begins with its directory, of whose segments none but an empty one at
    the end is left out. -/
theorem segments_pathIn (h : output ≠ "") (path : String) :
    (∃ rest, pathIn output path = output ++ rest) ∧
      ∃ front, segments (pathIn output path) = front ++ segments path ∧
        (segments output = front ∨ segments output = front ++ [""]) := by
  unfold pathIn
  rw [if_neg (by simpa using h)]
  split
  · next hslash =>
    rw [Text.endsWith, List.isSuffixOf_iff_suffix] at hslash
    obtain ⟨front, hfront⟩ := hslash
    have houtput : output = String.ofList front ++ "/" := by
      rw [← String.toList_inj, String.toList_append, String.toList_ofList, hfront]
    refine ⟨⟨path, rfl⟩, segments (String.ofList front), ?_, .inr ?_⟩
    · rw [houtput, segments_append_slash]
    · have hend := segments_append_slash (String.ofList front) ""
      rw [String.append_empty, ← houtput] at hend
      exact hend
  · refine ⟨⟨"/" ++ path, String.append_assoc⟩, segments output, ?_, .inl rfl⟩
    exact segments_append_slash output path

/-- An inner path leads down from a directory, along its segments. -/
theorem exists_below_of_isInner (hpath : FilePath.IsInner path)
    (hplace : t.place? (pathIn output path) = some place) :
    ∃ base, t.directory? output = some base ∧ place = base ++ segments path := by
  obtain ⟨⟨-, hisPath⟩, hwalk⟩ := place?_eq_some_iff.1 hplace
  by_cases houtput : output = ""
  · subst houtput
    have hsame : pathIn "" path = path := rfl
    have hstart : t.start path = t.here := by
      rw [start, hpath.relative]
      rfl
    rw [hsame, hstart] at hwalk
    exact ⟨t.here, rfl, foldlM_step_of_areSegments hpath.segments hwalk⟩
  · obtain ⟨⟨rest, hjoined⟩, front, hsegments, hfront⟩ := segments_pathIn houtput path
    rw [hjoined] at hisPath
    rw [hsegments, hjoined, start_append houtput, List.foldlM_append] at hwalk
    obtain ⟨mid, hmid, hrest⟩ := Option.bind_eq_some_iff.1 hwalk
    refine ⟨mid, ?_, foldlM_step_of_areSegments hpath.segments hrest⟩
    rw [directory?, if_neg (by simpa using houtput)]
    refine place?_eq_some_iff.2 ⟨⟨houtput, isPath_of_append hisPath⟩, ?_⟩
    rcases hfront with hfront | hfront
    · rw [hfront]
      exact hmid
    · -- the walk went on from `mid`, which is a directory then, and an empty segment stays there
      obtain ⟨first, others, hfirst⟩ := List.exists_cons_of_ne_nil (segments_ne_nil path)
      rw [hfirst, List.foldlM_cons] at hrest
      obtain ⟨next, hnext, -⟩ := Option.bind_eq_some_iff.1 hrest
      have hstay : t.step mid "" = some mid := by
        rw [step, isDirectory_of_step hnext]
        rfl
      rw [hfront, List.foldlM_append, hmid]
      simp [hstay]

/-! ## Writes -/

/-- A later state of a file system, in which all directories are still there. -/
structure Keeps (t t' : FileTree) : Prop where
  here : t'.here = t.here
  directories : ∀ place, t.isDirectory place = true → t'.isDirectory place = true

namespace Keeps

theorem step (h : Keeps t t') (hstep : t.step place segment = some next) :
    t'.step place segment = some next := by
  have hbefore := isDirectory_of_step hstep
  rw [FileTree.step, hbefore] at hstep
  rw [FileTree.step, h.directories place hbefore]
  exact hstep

theorem foldlM_step (h : Keeps t t') {segments : List String}
    (hwalk : segments.foldlM t.step base = some place) :
    segments.foldlM t'.step base = some place := by
  induction segments generalizing base with
  | nil => exact hwalk
  | cons first rest ih =>
    rw [List.foldlM_cons] at hwalk ⊢
    obtain ⟨next, hnext, hrest⟩ := Option.bind_eq_some_iff.1 hwalk
    exact Option.bind_eq_some_iff.2 ⟨next, h.step hnext, ih hrest⟩

/-- A path leads where it led before. -/
theorem place? (h : Keeps t t') (hplace : t.place? path = some place) :
    t'.place? path = some place := by
  obtain ⟨hpath, hwalk⟩ := place?_eq_some_iff.1 hplace
  have hstart : t'.start path = t.start path := by
    rw [start, start, h.here]
  rw [place?_eq_some_iff, hstart]
  exact ⟨hpath, h.foldlM_step hwalk⟩

theorem directory? (h : Keeps t t') (hbase : t.directory? path = some base) :
    t'.directory? path = some base := by
  unfold FileTree.directory? at hbase ⊢
  by_cases hempty : path.isEmpty = true
  · rw [if_pos hempty] at hbase ⊢
    rw [h.here]
    exact hbase
  · rw [if_neg hempty] at hbase ⊢
    exact h.place? hbase

end Keeps

/-- What a part of a run has done that writes below a directory: every text that was not
    there before is at a place strictly below. -/
structure WritesBelow (output : String) (t t' : FileTree) : Prop extends Keeps t t' where
  files : ∀ k text, t'.entries.get? k = some (.file text) →
    t.entries.get? k = some (.file text) ∨
      ∃ base names, t'.directory? output = some base ∧ names ≠ [] ∧ k = key (base ++ names)

namespace WritesBelow

theorem refl : WritesBelow output t t where
  here := rfl
  directories _ h := h
  files _ _ h := .inl h

theorem trans {t'' : FileTree} (h : WritesBelow output t t') (h' : WritesBelow output t' t'') :
    WritesBelow output t t'' where
  here := h'.here.trans h.here
  directories place hplace := h'.directories place (h.directories place hplace)
  files k text hk := by
    rcases h'.files k text hk with hk | hbelow
    · rcases h.files k text hk with hk | ⟨base, names, hbase, hnames, hkey⟩
      · exact .inl hk
      · exact .inr ⟨base, names, h'.toKeeps.directory? hbase, hnames, hkey⟩
    · exact .inr hbelow

end WritesBelow

theorem get?_put {k : String} {entry : FileEntry} :
    (t.put place entry).entries.get? k
      = if k = key place then some entry else t.entries.get? k := by
  rw [put, SortedMap.insert, SortedMap.get?_alter]

/-- An entry that replaces no directory leaves directories as they are. -/
theorem keeps_put {entry : FileEntry} (hentry : entry = .directory ∨ t.isDirectory place = false) :
    Keeps t (t.put place entry) where
  here := rfl
  directories other h := by
    simp only [isDirectory, entry?, beq_iff_eq, beq_eq_false_iff_ne] at h hentry ⊢
    by_cases hother : other.isEmpty = true
    · rw [if_pos hother]
    · rw [if_neg hother] at h ⊢
      rw [get?_put]
      by_cases hkey : key other = key place
      · rw [if_pos hkey]
        rcases hentry with rfl | hno
        · rfl
        · -- then the other place is this one, which is no directory
          by_cases hplace : place.isEmpty = true
          · rw [if_pos hplace] at hno
            exact absurd rfl hno
          · rw [if_neg hplace, ← hkey] at hno
            exact absurd h hno
      · rw [if_neg hkey]
        exact h

theorem writesBelow_put_directory : WritesBelow output t (t.put place .directory) where
  toKeeps := keeps_put (.inl rfl)
  files k text h := by
    rw [get?_put] at h
    split at h
    · cases h
    · exact .inl h

/-- What holds of creating one directory where nothing is holds of creating several. -/
theorem createAlong_induction {holds : FileTree → FileTree → Prop} (hrefl : ∀ t, holds t t)
    (htrans : ∀ t t' t'', holds t t' → holds t' t'' → holds t t'')
    (hput : ∀ t place, t.entry? place = none → holds t (t.put place .directory))
    (segments : List String) : holds t (t.createAlong place segments).1 := by
  induction segments generalizing t place with
  | nil => exact hrefl t
  | cons segment rest ih =>
    unfold createAlong stepCreating
    split
    · next heq =>
      -- the walk ends here, and nothing was created
      repeat' split at heq
      all_goals cases heq
      all_goals exact hrefl t
    · next heq =>
      repeat' split at heq
      all_goals cases heq
      · exact ih
      · next hnone => exact htrans _ _ _ (hput _ _ hnone) ih

theorem createDirectories_induction {holds : FileTree → FileTree → Prop} (hrefl : ∀ t, holds t t)
    (htrans : ∀ t t' t'', holds t t' → holds t' t'' → holds t t'')
    (hput : ∀ t place, t.entry? place = none → holds t (t.put place .directory))
    (path : String) : holds t (t.createDirectories path).1 := by
  unfold createDirectories
  split
  · exact hrefl t
  · split
    · exact hrefl t
    · exact createAlong_induction hrefl htrans hput _

theorem writesBelow_createDirectories (path : String) :
    WritesBelow output t (t.createDirectories path).1 :=
  createDirectories_induction (fun _ => .refl) (fun _ _ _ => .trans)
    (fun _ _ _ => writesBelow_put_directory) path

/-- A text at an inner path, where there is no directory. -/
theorem writesBelow_put_file (hpath : FilePath.IsInner path)
    (hplace : t.place? (pathIn output path) = some place) (hno : t.isDirectory place = false)
    (text : String) : WritesBelow output t (t.put place (.file text)) where
  toKeeps := keeps_put (.inr hno)
  files k other h := by
    rw [get?_put] at h
    split at h
    · next hkey =>
      obtain ⟨base, hbase, hbelow⟩ := exists_below_of_isInner hpath hplace
      rw [hbelow] at hkey
      exact .inr ⟨base, segments path, (keeps_put (.inr hno)).directory? hbase,
        segments_ne_nil path, hkey⟩
    · exact .inl h

/-- Writing a file puts its text where its path leads, unless there is a directory; or else it
    fails and changes nothing. -/
theorem write_cases (t : FileTree) (path text : String) :
    t.write path text = (t, false) ∨
      ∃ place, t.place? path = some place ∧ t.isDirectory place = false ∧
        t.write path text = (t.put place (.file text), true) := by
  unfold write
  split
  · exact .inl rfl
  · next place hplace =>
    have hput (hno : t.entry? place ≠ some .directory) : ∃ place', t.place? path = some place' ∧
        t.isDirectory place' = false ∧
        (t.put place (.file text), true) = (t.put place' (.file text), true) :=
      ⟨place, hplace, by simpa [isDirectory] using hno, rfl⟩
    split
    · exact .inl rfl
    · next heq => exact .inr (hput (by simp [heq]))
    · next heq =>
      split
      · exact .inr (hput (by simp [heq]))
      · exact .inl rfl

theorem writesBelow_write (hpath : FilePath.IsInner path) (text : String) :
    WritesBelow output t (t.write (pathIn output path) text).1 := by
  rcases write_cases t (pathIn output path) text with hwrite | ⟨place, hplace, hno, hwrite⟩
  · rw [hwrite]
    exact .refl
  · rw [hwrite]
    exact writesBelow_put_file hpath hplace hno text

/-! ## Runs -/

section Runs

variable {α β : Type} {step : Run (StateM FileTree) α} {others : α → Run (StateM FileTree) β}

theorem run_bind_of_ok {a : α} (h : step.run.run t = (.ok a, t')) :
    (step >>= others).run.run t = (others a).run.run t' := by
  rw [ExceptT.run_bind, StateT.run_bind, h]
  rfl

/-- What comes after a step that has failed is left out. -/
theorem run_bind_of_error {e : GenerationError} (h : step.run.run t = (.error e, t')) :
    (step >>= others).run.run t = (.error e, t') := by
  rw [ExceptT.run_bind, StateT.run_bind, h]
  rfl

end Runs

/-- A step of a run that writes below a directory, in whatever state it is taken. -/
def StaysBelow {α : Type} (output : String) (step : Run (StateM FileTree) α) : Prop :=
  ∀ t, WritesBelow output t (step.run.run t).2

theorem staysBelow_pure {α : Type} (a : α) : StaysBelow output (pure a) := fun _ => .refl

theorem StaysBelow.bind {α β : Type} {step : Run (StateM FileTree) α}
    {others : α → Run (StateM FileTree) β} (h : StaysBelow output step)
    (hothers : ∀ a, StaysBelow output (others a)) : StaysBelow output (step >>= others) := by
  intro t
  have hstep := h t
  cases hrun : step.run.run t with
  | mk result t' =>
    rw [hrun] at hstep
    cases result with
    | ok a =>
      rw [run_bind_of_ok hrun]
      exact hstep.trans (hothers a t')
    | error e =>
      rw [run_bind_of_error hrun]
      exact hstep

/-- A step that fails just when an operation on files does. -/
theorem staysBelow_orInaccessible {action : StateM FileTree Bool}
    (h : ∀ t, WritesBelow output t (action.run t).2) : StaysBelow output (orInaccessible path action) := by
  unfold orInaccessible
  have hlift : StaysBelow output (liftM action : Run (StateM FileTree) Bool) := fun t => h t
  refine hlift.bind fun done => ?_
  cases done
  · intro t
    exact .refl
  · exact staysBelow_pure ()

theorem staysBelow_writeFile {file : String × String} (h : FilePath.IsInner file.1) :
    StaysBelow output (writeFile access output file) := by
  have hcreate (parent : String) :
      StaysBelow output (orInaccessible parent (access.createDirectories parent)) :=
    staysBelow_orInaccessible fun t => writesBelow_createDirectories parent
  have hwrite : StaysBelow output (orInaccessible (pathIn output file.1)
      (access.write (pathIn output file.1) file.2)) :=
    staysBelow_orInaccessible fun t => writesBelow_write h file.2
  unfold writeFile
  split
  · exact (hcreate _).bind fun _ => hwrite
  · exact hwrite

/-- A run of the writer puts no text anywhere but strictly below the output directory. -/
theorem staysBelow_writeFiles {files : List (String × String)}
    (h : ∀ file ∈ files, FilePath.IsInner file.1) :
    StaysBelow output (writeFiles access output files) := by
  have hfiles : StaysBelow output (files.forM (writeFile access output)) := by
    induction files with
    | nil => exact staysBelow_pure ()
    | cons first rest ih =>
      exact (staysBelow_writeFile (h first List.mem_cons_self)).bind fun _ =>
        ih fun file hfile => h file (List.mem_cons_of_mem _ hfile)
  have hcreate : StaysBelow output (orInaccessible output (access.createDirectories output)) :=
    staysBelow_orInaccessible fun t => writesBelow_createDirectories output
  exact hcreate.bind fun _ => hfiles

end FileTree

end ClientGen
