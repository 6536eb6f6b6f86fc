/-
  ClientGen.Proofs.Confinement

  Generated files stay in the output directory.  Contexts, aggregates, tags and
  keys of schemas may hold slashes, `..` and empty parts; whatever they hold, the
  paths that are made of them are distinct, normal and lead down, and a run that
  writes the files leaves no text anywhere else.
-/
import ClientGen.Proofs.FileTree
import ClientGen.Proofs.ModelReference
import ClientGen.Proofs.NameCapture

namespace ClientGen

open TypeScript

variable {d : Document} {config : Configuration}

/-! ## Paths of contributions -/

/-- A file in a directory has its own name as its last segment. -/
theorem normalSegments_file_ne_nil (directory : String) {name : String}
    (h : FilePath.IsSegment name) : FilePath.normalSegments (directory ++ ("/" ++ name)) ≠ [] := by
  rw [FilePath.normalSegments_append directory h]
  exact List.append_ne_nil_of_right_ne_nil _ (List.cons_ne_nil _ _)

/-- A contribution goes to a file, and not to the output directory itself. -/
theorem normalSegments_ne_nil_of_mem_contributions {s : Service} {c : Contribution}
    (h : c ∈ contributionsOf (pieces d s config)) : FilePath.normalSegments c.path ≠ [] := by
  rcases contribution_cases h with
    ⟨entry, -, decls, -, rfl⟩ | ⟨a, -, types, -, rfl⟩ | ⟨a, -, rfl⟩ | ⟨t, -, rfl⟩
  · have hfile : "/types.ts" = "/" ++ "types.ts" := rfl
    rw [modelContribution_path, ModelName.file, FilePath.modelFile,
      FilePath.normalSegments_normalize, hfile]
    exact normalSegments_file_ne_nil _ FilePath.isSegment_types
  · show FilePath.normalSegments
      (FilePath.normalize (a.context ++ "/" ++ a.name) ++ "/queryClient.ts") ≠ []
    have hfile : "/queryClient.ts" = "/" ++ "queryClient.ts" := rfl
    rw [hfile]
    exact normalSegments_file_ne_nil _ isSegment_queryClient
  · show FilePath.normalSegments
      (FilePath.normalize (a.context ++ "/" ++ a.name) ++ "/commandClient.ts") ≠ []
    have hfile : "/commandClient.ts" = "/" ++ "commandClient.ts" := rfl
    rw [hfile]
    exact normalSegments_file_ne_nil _ isSegment_commandClient
  · have hsegment := isSegment_apiClient t.tag.name
    show FilePath.normalSegments (apiClientFile d.alias? t.classStart) ≠ []
    unfold apiClientFile
    cases d.alias? with
    | some directory =>
      show FilePath.normalSegments
        (FilePath.normalize (directory ++ "/" ++ (t.classStart ++ "ApiClient.ts"))) ≠ []
      rw [FilePath.normalSegments_normalize, String.append_assoc]
      exact normalSegments_file_ne_nil directory hsegment
    | none =>
      -- there is no directory, and the file is the only segment
      have hsingle := FilePath.normalSegments_intercalate (.singleton hsegment)
      rw [String.intercalate_singleton] at hsingle
      show FilePath.normalSegments (Text.pascalCase t.tag.name ++ "ApiClient.ts") ≠ []
      rw [hsingle]
      exact List.cons_ne_nil _ _

/-! ## Generated files -/

/-- Rendered files are files of the project, in the same order. -/
theorem renderedFiles_paths_sublist (p : Project) :
    ((renderedFiles p).map Prod.fst).Sublist p.keys := by
  have hpaths : (renderedFiles p).map Prod.fst
      = (p.entries.filter (!·.2.declarations.isEmpty)).map Prod.fst := by
    rw [renderedFiles, List.map_map]
    rfl
  rw [hpaths]
  exact List.filter_sublist.map _

theorem isInner_of_mem_keys {s : Service} {path : String}
    (h : path ∈ (Project.ofContributions (contributionsOf (pieces d s config))).keys) :
    FilePath.IsInner path := by
  obtain ⟨⟨_, f⟩, hentry, rfl⟩ := List.mem_map.1 h
  have hfile := SortedMap.get?_eq_some_iff.2 hentry
  -- the file is there because something was contributed to it
  obtain ⟨hne, -⟩ := Project.get?_ofContributions.1 hfile
  obtain ⟨c, hc⟩ := List.exists_mem_of_ne_nil _ hne
  obtain ⟨hc, hpath⟩ := mem_contributionsTo.1 hc
  rw [← hpath, Contribution.file]
  exact FilePath.isInner_normalize (normalSegments_ne_nil_of_mem_contributions hc)

/-- The generated files are listed in the order of their paths, which are distinct and lead
    strictly below any directory.  Writing them leaves no new text anywhere but strictly below
    the output directory, whatever there was before and wherever a run may stop. -/
theorem generate_confined {code : GeneratedCode} (h : generate d d.service config = .ok code) :
    (code.files.map Prod.fst).Pairwise (· < ·) ∧
      (∀ file ∈ code.files, FilePath.IsInner file.1) ∧
      ∀ output, FileTree.StaysBelow output (writeFiles FileTree.access output code.files) := by
  obtain ⟨g, hg, hfiles, -⟩ := exists_generation_of_generate h
  have hproject : g.project = .ofContributions (contributionsOf (pieces d d.service config)) := by
    rw [generation_eq_ok hg, Generation.project_ofPieces]
  have hpaths := renderedFiles_paths_sublist g.project
  rw [← hfiles] at hpaths
  have hinner : ∀ file ∈ code.files, FilePath.IsInner file.1 := by
    intro file hfile
    have hkey := hpaths.subset (List.mem_map_of_mem hfile)
    rw [hproject] at hkey
    exact isInner_of_mem_keys hkey
  exact ⟨g.project.sorted.sublist hpaths, hinner, fun _ => FileTree.staysBelow_writeFiles hinner⟩

/-- Keys and tags that try to lead out of the output directory. -/
def climbingDocument : Document :=
  let tagged (tag : String) : PathItem :=
    { operation? := fun method =>
        if method = .get then some { tags := [tag], responses := .ofList [] } else none }
  { components.schemas := .ofList
      [("../..a.B", { type := some (.single "string") }),
       ("..\\/./c//D", { type := some (.single "string") })]
    paths := .ofList [("/up", tagged "../up"), ("/root", tagged "//.\\\\")] }

theorem generate_confined_climbing :
    ∃ code, generate climbingDocument climbingDocument.service {} = .ok code ∧
      code.files.map Prod.fst
        = ["UpApiClient.ts", "a/types.ts", "commandClient.ts", "queryClient.ts", "types.ts"] ∧
      ∀ file ∈ code.files, FilePath.IsInner file.1 := by
  have hrun : (generate climbingDocument climbingDocument.service {}).toOption.any
      (fun code => code.files.map Prod.fst
        = ["UpApiClient.ts", "a/types.ts", "commandClient.ts", "queryClient.ts", "types.ts"])
          = true := by
    decide +kernel
  obtain ⟨code, hcode, hpaths⟩ := exists_ok_of_any hrun
  exact ⟨code, hcode, of_decide_eq_true hpaths, (generate_confined hcode).2.1⟩

end ClientGen
