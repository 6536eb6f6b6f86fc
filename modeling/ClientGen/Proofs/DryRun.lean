/-
  ClientGen.Proofs.DryRun

  The run that only tries and the run that writes.  A dry run touches nothing and
  tells beforehand what the other run gives, unless a file or directory turns out
  to be inaccessible on the way.  `Wrote` is the frame of a part of the writer:
  its files hold their texts, and all others hold what they held.
-/
import ClientGen.Proofs.Confinement

namespace ClientGen

/-! ## Places of generated files -/

namespace FilePath

variable {path : String}

/-- An inner path is listed as it is written. -/
theorem IsInner.key_segments (h : IsInner path) : FileTree.key (FileTree.segments path) = path := by
  have hpath : "/".intercalate (normalSegments path) = path := h.normal
  have hne : normalSegments path ≠ [] := by
    intro hnil
    rw [hnil] at hpath
    exact h.ne_empty hpath.symm
  have hsegments : Text.splitOn (· == '/') path = normalSegments path := by
    rw [← hpath, splitOn_slash_intercalate areSegments_normalSegments hne, hpath]
  rw [FileTree.key, FileTree.segments, hsegments, hpath]

end FilePath

namespace FileTree

variable {t t' t'' : FileTree} {base place other : List String} {output path text k : String}
  {file : String × String} {files others : List (String × String)}

/-- The key under which the file at a path is listed. -/
def key? (t : FileTree) (path : String) : Option String := (t.place? path).map key

theorem key?_eq_some_iff :
    t.key? path = some k ↔ ∃ place, t.place? path = some place ∧ key place = k :=
  Option.map_eq_some_iff

theorem Keeps.key? (h : Keeps t t') (hk : t.key? path = some k) : t'.key? path = some k := by
  obtain ⟨place, hplace, hkey⟩ := key?_eq_some_iff.1 hk
  exact key?_eq_some_iff.2 ⟨place, h.place? hplace, hkey⟩

theorem key_append (hplace : place ≠ []) (hother : other ≠ []) :
    key (place ++ other) = key place ++ "/" ++ key other :=
  String.intercalate_append_of_ne_nil hplace hother

theorem key_append_inj (hplace : place ≠ []) (hother : other ≠ [])
    (h : key (base ++ place) = key (base ++ other)) : key place = key other := by
  by_cases hbase : base = []
  · subst hbase
    exact h
  · rw [key_append hbase hplace, key_append hbase hother, String.append_right_inj] at h
    exact h

/-- Inner paths in one directory that lead to the same file are equal. -/
theorem key?_inj {first second : String} (hfirst : FilePath.IsInner first)
    (hsecond : FilePath.IsInner second) (hk : t.key? (pathIn output first) = some k)
    (hk' : t.key? (pathIn output second) = some k) : first = second := by
  obtain ⟨place, hplace, hkey⟩ := key?_eq_some_iff.1 hk
  obtain ⟨place', hplace', hkey'⟩ := key?_eq_some_iff.1 hk'
  obtain ⟨base, hbase, rfl⟩ := exists_below_of_isInner hfirst hplace
  obtain ⟨base', hbase', rfl⟩ := exists_below_of_isInner hsecond hplace'
  -- both walks begin at the place of the one directory
  have hsame : base = base' := by
    rw [hbase] at hbase'
    exact Option.some.inj hbase'
  subst hsame
  have hkeys := key_append_inj (segments_ne_nil first) (segments_ne_nil second)
    (hkey.trans hkey'.symm)
  rw [hfirst.key_segments, hsecond.key_segments] at hkeys
  exact hkeys

theorem entry?_of_ne_nil (h : place ≠ []) : t.entry? place = t.entries.get? (key place) := by
  unfold entry?
  rw [if_neg (by simpa using h)]

theorem read?_eq_some_iff :
    t.read? path = some text
      ↔ ∃ place, t.place? path = some place ∧ t.entry? place = some (.file text) := by
  unfold read? lookup?
  cases t.place? path with
  | none => simp
  | some place =>
    rw [Option.bind_some]
    cases hentry : t.entry? place with
    | none => simp [hentry]
    | some entry => cases entry <;> simp [hentry]

/-! ## What has been written -/

/-- What a part of a run has done that writes files into a directory: each of them is there
    and holds its text, and any other file holds its text just as it did before. -/
structure Wrote (output : String) (files : List (String × String)) (t t' : FileTree) : Prop
    extends Keeps t t' where
  held : ∀ file ∈ files, t'.read? (pathIn output file.1) = some file.2
  others : ∀ k text, some k ∉ files.map (fun file => t'.key? (pathIn output file.1)) →
    (t'.entries.get? k = some (.file text) ↔ t.entries.get? k = some (.file text))

namespace Wrote

theorem refl : Wrote output [] t t where
  here := rfl
  directories _ h := h
  held := by simp
  others _ _ _ := Iff.rfl

theorem exists_key? (h : Wrote output files t t') (hfile : file ∈ files) :
    ∃ k, t'.key? (pathIn output file.1) = some k := by
  obtain ⟨place, hplace, -⟩ := read?_eq_some_iff.1 (h.held file hfile)
  exact ⟨key place, key?_eq_some_iff.2 ⟨place, hplace, rfl⟩⟩

/-- Files that are written later leave those at other paths as they are. -/
theorem append (h : Wrote output files t t') (h' : Wrote output others t' t'')
    (hinner : ∀ file ∈ files ++ others, FilePath.IsInner file.1)
    (hapart : ∀ file ∈ files, ∀ later ∈ others, file.1 ≠ later.1) :
    Wrote output (files ++ others) t t'' where
  here := h'.here.trans h.here
  directories place hplace := h'.directories place (h.directories place hplace)
  held := by
    intro file hfile
    rcases List.mem_append.1 hfile with hearly | hlate
    · obtain ⟨place, hplace, hentry⟩ := read?_eq_some_iff.1 (h.held file hearly)
      have hplace' := h'.toKeeps.place? hplace
      have hkey : t''.key? (pathIn output file.1) = some (key place) :=
        key?_eq_some_iff.2 ⟨place, hplace', rfl⟩
      have hfree : some (key place) ∉ others.map fun later => t''.key? (pathIn output later.1) := by
        intro hmem
        obtain ⟨later, hlater, hsame⟩ := List.mem_map.1 hmem
        have hpath := key?_inj (hinner file hfile)
          (hinner later (List.mem_append_right _ hlater)) hkey hsame
        exact hapart file hearly later hlater hpath
      -- the root is a directory, so a text is at a place that is listed
      have hne : place ≠ [] := by
        rintro rfl
        cases hentry
      rw [entry?_of_ne_nil hne] at hentry
      refine read?_eq_some_iff.2 ⟨place, hplace', ?_⟩
      rw [entry?_of_ne_nil hne]
      exact (h'.others _ _ hfree).2 hentry
    · exact h'.held file hlate
  others := by
    intro k text hk
    rw [List.map_append, List.mem_append, not_or] at hk
    obtain ⟨hearly, hlate⟩ := hk
    refine (h'.others k text hlate).trans (h.others k text ?_)
    intro hmem
    obtain ⟨file, hfile, hkey⟩ := List.mem_map.1 hmem
    exact hearly (List.mem_map.2 ⟨file, hfile, h'.toKeeps.key? hkey⟩)

/-- Files at distinct inner paths are at distinct places. -/
theorem nodup (h : Wrote output files t t') (hinner : ∀ file ∈ files, FilePath.IsInner file.1)
    (hdistinct : (files.map Prod.fst).Nodup) :
    (files.map fun file => t'.key? (pathIn output file.1)).Nodup := by
  apply List.Nodup.map_on _ (List.Nodup.of_map _ hdistinct)
  intro file hfile other hother hsame
  obtain ⟨k, hk⟩ := h.exists_key? hfile
  have hpath := key?_inj (hinner file hfile) (hinner other hother) hk (hsame.symm.trans hk)
  exact List.inj_on_of_nodup_map hdistinct hfile hother hpath

end Wrote

theorem wrote_put_directory (hnone : t.entry? place = none) :
    Wrote output [] t (t.put place .directory) where
  toKeeps := keeps_put (.inl rfl)
  held := by simp
  others k text _ := by
    have hne : place ≠ [] := by
      rintro rfl
      cases hnone
    rw [entry?_of_ne_nil hne] at hnone
    rw [get?_put]
    -- there was no file where the directory is now
    split
    · next hkey => simp [hkey, hnone]
    · rfl

theorem wrote_createDirectories (path : String) :
    Wrote output [] t (t.createDirectories path).1 :=
  createDirectories_induction (fun _ => .refl)
    (fun _ _ _ h h' => h.append h' (by simp) (by simp)) (fun _ _ => wrote_put_directory) path

theorem wrote_put_file (hplace : t.place? (pathIn output file.1) = some place)
    (hno : t.isDirectory place = false) :
    Wrote output [file] t (t.put place (.file file.2)) := by
  have hkeeps : Keeps t (t.put place (.file file.2)) := keeps_put (.inr hno)
  have hplace' := hkeeps.place? hplace
  have hne : place ≠ [] := by
    rintro rfl
    cases hno
  refine { hkeeps with held := ?_, others := ?_ }
  · intro other hother
    rw [List.mem_singleton.1 hother]
    refine read?_eq_some_iff.2 ⟨place, hplace', ?_⟩
    rw [entry?_of_ne_nil hne, get?_put, if_pos rfl]
  · intro k text hk
    have hother : k ≠ key place := by
      rintro rfl
      exact hk (List.mem_map.2 ⟨file, List.mem_singleton_self file,
        key?_eq_some_iff.2 ⟨place, hplace', rfl⟩⟩)
    rw [get?_put, if_neg hother]

/-! ## Runs of the writer -/

/-- A step that either finds something inaccessible or gets done what it is for. -/
def Attempts {α : Type} (step : Run (StateM FileTree) α)
    (done : FileTree → FileTree → Prop) : Prop :=
  ∀ t, (∃ path t', step.run.run t = (.error (.inaccessible path), t')) ∨
    ∃ a t', step.run.run t = (.ok a, t') ∧ done t t'

theorem Attempts.bind {α β : Type} {step : Run (StateM FileTree) α}
    {others : α → Run (StateM FileTree) β} {done done' both : FileTree → FileTree → Prop}
    (h : Attempts step done) (hothers : ∀ a, Attempts (others a) done')
    (hboth : ∀ t t' t'', done t t' → done' t' t'' → both t t'') :
    Attempts (step >>= others) both := by
  intro t
  rcases h t with ⟨path, t', hrun⟩ | ⟨a, t', hrun, hdone⟩
  · exact .inl ⟨path, t', run_bind_of_error hrun⟩
  · rw [run_bind_of_ok hrun]
    rcases hothers a t' with ⟨path, t'', hrest⟩ | ⟨b, t'', hrest, hdone'⟩
    · exact .inl ⟨path, t'', hrest⟩
    · exact .inr ⟨b, t'', hrest, hboth t t' t'' hdone hdone'⟩

theorem attempts_orInaccessible {action : StateM FileTree Bool} {done : FileTree → FileTree → Prop}
    (h : ∀ t, (action.run t).1 = true → done t (action.run t).2) :
    Attempts (orInaccessible path action) done := by
  intro t
  have hlift : (liftM action : Run (StateM FileTree) Bool).run.run t
      = (.ok (action.run t).1, (action.run t).2) := rfl
  rw [orInaccessible, run_bind_of_ok hlift]
  cases hdone : (action.run t).1 with
  | false => exact .inl ⟨path, _, rfl⟩
  | true => exact .inr ⟨(), _, rfl, h t hdone⟩

theorem attempts_createDirectories (path : String) :
    Attempts (orInaccessible path (access.createDirectories path)) (Wrote output []) :=
  attempts_orInaccessible fun _ _ => wrote_createDirectories path

theorem attempts_write (file : String × String) :
    Attempts (orInaccessible (pathIn output file.1) (access.write (pathIn output file.1) file.2))
      (Wrote output [file]) := by
  apply attempts_orInaccessible
  intro t hdone
  have hwrite : ((access.write (pathIn output file.1) file.2).run t)
      = ((t.write (pathIn output file.1) file.2).2, (t.write (pathIn output file.1) file.2).1) := rfl
  rw [hwrite] at hdone ⊢
  rcases write_cases t (pathIn output file.1) file.2 with hfail | ⟨place, hplace, hno, hput⟩
  · rw [hfail] at hdone
    cases hdone
  · rw [hput]
    exact wrote_put_file hplace hno

theorem attempts_writeFile (h : FilePath.IsInner file.1) :
    Attempts (writeFile access output file) (Wrote output [file]) := by
  unfold writeFile
  split
  · exact (attempts_createDirectories _).bind (fun _ => attempts_write file)
      fun _ _ _ hcreated hwritten => hcreated.append hwritten (by simpa using h) (by simp)
  · exact attempts_write file

theorem attempts_forM (hinner : ∀ file ∈ files, FilePath.IsInner file.1)
    (hdistinct : (files.map Prod.fst).Nodup) :
    Attempts (files.forM (writeFile access output)) (Wrote output files) := by
  induction files with
  | nil => exact fun t => .inr ⟨(), t, rfl, .refl⟩
  | cons first rest ih =>
    rw [List.map_cons, List.nodup_cons] at hdistinct
    obtain ⟨hnew, hdistinct⟩ := hdistinct
    have hrest := ih (fun file hfile => hinner file (List.mem_cons_of_mem _ hfile)) hdistinct
    refine (attempts_writeFile (hinner first List.mem_cons_self)).bind (fun _ => hrest) ?_
    intro t t' t'' hfirst hothers
    refine hfirst.append hothers hinner ?_
    intro file hfile later hlater hsame
    rw [List.mem_singleton.1 hfile] at hsame
    exact hnew (List.mem_map.2 ⟨later, hlater, hsame.symm⟩)

/-- A run of the writer that is not stopped has written each of its files. -/
theorem attempts_writeFiles (hinner : ∀ file ∈ files, FilePath.IsInner file.1)
    (hdistinct : (files.map Prod.fst).Nodup) :
    Attempts (writeFiles access output files) (Wrote output files) :=
  (attempts_createDirectories output).bind (fun _ => attempts_forM hinner hdistinct)
    fun _ _ _ hcreated hwritten => hcreated.append hwritten hinner (by simp)

/-! ## Both runs -/

/-- Reading the configuration changes nothing. -/
theorem loadConfiguration_state (path : String) (t : FileTree) :
    ∃ result, (loadConfiguration access path).run.run t = (result, t) := by
  have hpresent : (liftM (access.isPresent path) : Run (StateM FileTree) Bool).run.run t
      = (.ok (t.lookup? path).isSome, t) := rfl
  have hread : (liftM (access.read? path) : Run (StateM FileTree) (Option String)).run.run t
      = (.ok (t.read? path), t) := rfl
  rw [loadConfiguration, run_bind_of_ok hpresent]
  split
  · rw [run_bind_of_ok hread]
    split <;> exact ⟨_, rfl⟩
  · split <;> exact ⟨_, rfl⟩

end FileTree

/-- The files of a document are at distinct inner paths. -/
theorem inner_of_generate {d : Document} {config : Configuration} {code : GeneratedCode}
    (h : generate d d.service config = .ok code) :
    (∀ file ∈ code.files, FilePath.IsInner file.1) ∧ (code.files.map Prod.fst).Nodup := by
  obtain ⟨g, hg, hfiles, -⟩ := exists_generation_of_generate h
  have hproject : g.project = .ofContributions (contributionsOf (pieces d d.service config)) := by
    rw [generation_eq_ok hg, Generation.project_ofPieces]
  have hpaths := renderedFiles_paths_sublist g.project
  rw [← hfiles] at hpaths
  refine ⟨?_, hpaths.nodup g.project.sorted.nodup⟩
  intro file hfile
  have hkey := hpaths.subset (List.mem_map_of_mem hfile)
  rw [hproject] at hkey
  exact isInner_of_mem_keys hkey

namespace Job

variable {d : Document} {config : Configuration} {t : FileTree}

/-- A run on a file system. -/
def runIn (t : FileTree) (job : Job) (d : Document) : Except GenerationError Summary × FileTree :=
  (job.runDocument FileTree.access d).run.run t

variable {job : Job}

theorem runIn_of_load_error {e : GenerationError} (dryRun : Bool)
    (h : (loadConfiguration FileTree.access job.configFile).run.run t = (.error e, t)) :
    { job with dryRun }.runIn t d = (.error e, t) :=
  FileTree.run_bind_of_error h

section Loaded

variable (h : (loadConfiguration FileTree.access job.configFile).run.run t = (.ok config, t))
include h

theorem runIn_of_compile_error {e : GenerationError} (dryRun : Bool)
    (hcompile : compile d config = .error e) : { job with dryRun }.runIn t d = (.error e, t) := by
  rw [runIn, runDocument, FileTree.run_bind_of_ok h, hcompile]
  rfl

variable {compiled : Compiled} (hcompile : compile d config = .ok compiled)
include hcompile

theorem runIn_dry : { job with dryRun := true }.runIn t d = (.ok compiled.summary, t) := by
  rw [runIn, runDocument, FileTree.run_bind_of_ok h, hcompile]
  rfl

theorem runIn_real :
    { job with dryRun := false }.runIn t d
      = (writeFiles FileTree.access job.output compiled.code.files
          >>= fun _ => pure compiled.summary).run.run t := by
  rw [runIn, runDocument, FileTree.run_bind_of_ok h, hcompile]
  rfl

end Loaded

/-- A dry run changes nothing and gives what the run that writes gives, which stops only at a
    file or directory that is inaccessible.  Where it does not stop, it has written the
    generated files, each to a place of its own that holds its text, and all other files hold what
    they held. -/
theorem dryRun_predicts (job : Job) (d : Document) (t : FileTree) :
    ∃ outcome, { job with dryRun := true }.runIn t d = (outcome, t) ∧
      (∀ e, outcome = .error e → { job with dryRun := false }.runIn t d = (.error e, t)) ∧
      ∀ summary, outcome = .ok summary →
        (∃ path t', { job with dryRun := false }.runIn t d = (.error (.inaccessible path), t')) ∨
        ∃ config code t',
          (loadConfiguration FileTree.access job.configFile).run.run t = (.ok config, t) ∧
          generate d d.service config = .ok code ∧
          { job with dryRun := false }.runIn t d = (.ok summary, t') ∧
          summary.files = code.files.map Prod.fst ∧
          FileTree.Wrote job.output code.files t t' ∧
          (code.files.map fun file => t'.key? (pathIn job.output file.1)).Nodup := by
  -- both runs read the same configuration
  obtain ⟨result, hload⟩ := FileTree.loadConfiguration_state job.configFile t
  cases result with
  | error e =>
    refine ⟨.error e, runIn_of_load_error true hload, ?_, by simp⟩
    rintro e' ⟨⟩
    exact runIn_of_load_error false hload
  | ok config =>
    cases hcompile : compile d config with
    | error e =>
      refine ⟨.error e, runIn_of_compile_error hload true hcompile, ?_, by simp⟩
      rintro e' ⟨⟩
      exact runIn_of_compile_error hload false hcompile
    | ok compiled =>
      refine ⟨.ok compiled.summary, runIn_dry hload hcompile, by simp, ?_⟩
      rintro summary ⟨⟩
      rw [runIn_real hload hcompile]
      obtain ⟨hcode, hpaths, -⟩ := compile_eq_ok hcompile
      obtain ⟨hinner, hdistinct⟩ := inner_of_generate hcode
      have hwriter : FileTree.Attempts (writeFiles FileTree.access job.output compiled.code.files)
          (FileTree.Wrote job.output compiled.code.files) :=
        FileTree.attempts_writeFiles hinner hdistinct
      rcases hwriter t with ⟨path, t', hrun⟩ | ⟨_, t', hrun, hwrote⟩
      · exact .inl ⟨path, t', FileTree.run_bind_of_error hrun⟩
      · refine .inr ⟨config, compiled.code, t', hload, hcode, ?_, hpaths, hwrote, ?_⟩
        · exact FileTree.run_bind_of_ok hrun
        · exact hwrote.nodup hinner hdistinct

/-- A document with one model. -/
def noteDocument : Document :=
  { components.schemas := .ofList [("a.Note", { type := some (.single "string") })] }

/-- A file system with one file. -/
def readmeTree : FileTree := ({} : FileTree).put ["readme"] (.file "kept")

/-- The run that writes adds the file that the dry run tells of, and the other file stays. -/
theorem dryRun_predicts_note :
    ∃ summary t',
      ({ output := "out", dryRun := true } : Job).runIn readmeTree noteDocument
        = (.ok summary, readmeTree) ∧
      ({ output := "out" } : Job).runIn readmeTree noteDocument = (.ok summary, t') ∧
      summary.files = ["a/types.ts"] ∧
      (∃ text, t'.read? "out/a/types.ts" = some text) ∧
      t'.entries.get? "readme" = some (.file "kept") := by
  have hdone : (({ output := "out" } : Job).runIn readmeTree noteDocument).1.toOption.any
      (fun summary => summary.files = ["a/types.ts"]) = true := by
    decide +kernel
  obtain ⟨done, hreal, hdone⟩ := exists_ok_of_any hdone
  obtain ⟨outcome, hdry, herror, hok⟩ :=
    dryRun_predicts { output := "out" } noteDocument readmeTree
  cases outcome with
  | error e =>
    rw [herror e rfl] at hreal
    cases hreal
  | ok summary =>
    rcases hok summary rfl with
      ⟨path, t', hstopped⟩ | ⟨config, code, t', -, -, hrun, hpaths, hwrote, -⟩
    · rw [hstopped] at hreal
      cases hreal
    · have hsummary : done = summary := by
        rw [hrun] at hreal
        exact (Except.ok.inj hreal).symm
      have hfiles : summary.files = ["a/types.ts"] := hsummary ▸ of_decide_eq_true hdone
      have hpath : pathIn "out" "a/types.ts" = "out/a/types.ts" := by decide +kernel
      rw [hpaths] at hfiles
      refine ⟨summary, t', hdry, hrun, hpaths.trans hfiles, ?_, ?_⟩
      · obtain ⟨file, hfile, hname⟩ :=
          List.mem_map.1 (hfiles ▸ List.mem_singleton_self "a/types.ts")
        have hheld := hwrote.held file hfile
        rw [hname, hpath] at hheld
        exact ⟨file.2, hheld⟩
      · apply (hwrote.others "readme" "kept" _).2 (by decide +kernel)
        have hkeys : code.files.map (fun file => t'.key? (pathIn "out" file.1))
            = [t'.key? "out/a/types.ts"] := by
          have hmap := congrArg (List.map fun path => t'.key? (pathIn "out" path)) hfiles
          rw [List.map_map, List.map_singleton, hpath] at hmap
          exact hmap
        have ht' : t' = (({ output := "out" } : Job).runIn readmeTree noteDocument).2 := by
          rw [hrun]
        rw [hkeys, ht']
        decide +kernel

end Job

end ClientGen
