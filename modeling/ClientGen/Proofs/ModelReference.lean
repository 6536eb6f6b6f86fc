/-
  ClientGen.Proofs.ModelReference

  Where references to models lead.  A type name that a declaration takes from a
  reference is the model of a component, and that model is declared in its file,
  unless it is one that could not be built; then the report says so, and the
  name is left without a declaration.
-/
import ClientGen.Proofs.Assembly
import ClientGen.Proofs.Lifting
import ClientGen.Proofs.Words

namespace ClientGen

open TypeScript

/-! ## Declared models -/

/-- Whether the file of a model is there, is rendered, and declares the model's name. -/
def TypeScript.Project.DeclaresModel (p : Project) (m : ModelName) : Prop :=
  ∃ f, p.file? m.file = some f ∧ (m.file, f.render) ∈ renderedFiles p ∧
    ∃ decl ∈ f.declarations, decl.name = m.name

variable {d : Document} {config : Configuration} {key : String} {s : Schema}

theorem mem_modelSchemas (hs : d.schema? key = some s) (hkey : ModelName.isReserved key = false) :
    (key, s) ∈ d.modelSchemas := by
  apply List.mem_filter.2
  exact ⟨Document.mem_schemas_iff.2 hs, by simp [hkey]⟩

/-- A schema that can be declared has its model in its file. -/
theorem declaresModel_of_ok (hs : d.schema? key = some s) (hkey : ModelName.isReserved key = false)
    {decls : List Declaration} (h : (modelDecls d key s).result = .ok decls) {service : Service} :
    Project.DeclaresModel (.ofContributions (contributionsOf (pieces d service config)))
      (.ofKey key) := by
  obtain ⟨decl, hdecl, hname⟩ := exists_model_of_modelDecls h
  have hmem : modelContribution d (key, s) decls ∈ contributionsOf (pieces d service config) :=
    modelContribution_mem (mem_modelSchemas hs hkey) h
  obtain ⟨f, hf, hdecls⟩ := Project.exists_file_of_mem hmem
  rw [modelContribution_file] at hf
  refine ⟨f, ?_, mem_renderedFiles hf (hdecls decl hdecl), decl, hdecls decl hdecl, hname⟩
  rw [Project.file?, ModelName.normalize_file]
  exact hf

/-- A schema that cannot be declared is recorded. -/
theorem skipped_of_error (hs : d.schema? key = some s) (hkey : ModelName.isReserved key = false)
    {e : GenerationError} (h : (modelDecls d key s).result = .error e) {service : Service} :
    Skipped.because key e ∈ (pieces d service config).flatMap (·.report.skipped) := by
  apply List.mem_flatMap.2
  refine ⟨modelPiece d (key, s), ?_, ?_⟩
  · exact List.mem_append_left _ (List.mem_map_of_mem (mem_modelSchemas hs hkey))
  · rw [@modelPiece_of_error d (key, s) e h]
    exact List.mem_singleton_self _

/-! ## References -/

/-- The code that is generated is rendered from a generation. -/
theorem exists_generation_of_generate {service : Service} {code : GeneratedCode}
    (h : generate d service config = .ok code) :
    ∃ g, generation d service config = .ok g ∧ code.files = renderedFiles g.project ∧
      code.report = g.report := by
  unfold generate at h
  cases hg : generation d service config with
  | error e =>
    rw [hg] at h
    cases h
  | ok g =>
    rw [hg] at h
    cases h
    exact ⟨g, rfl, rfl, rfl⟩

/-- Every model that an emitted declaration refers to is that of a component of the
    document.  When the component's key is not reserved, the model is declared in its file;
    or else it could not be built, and the report records that. -/
theorem reference_declared_or_skipped {code : GeneratedCode}
    (h : generate d d.service config = .ok code) {c : Contribution}
    (hc : c ∈ contributionsOf (pieces d d.service config)) {m : ModelName}
    (hm : Import.model m ∈ c.needs) :
    ∃ g, generation d d.service config = .ok g ∧ code.files = renderedFiles g.project ∧
      g.project = .ofContributions (contributionsOf (pieces d d.service config)) ∧
      (∃ key s, d.schema? key = some s ∧ m = .ofReference key) ∧
      ∀ key s, d.schema? key = some s → ModelName.isReserved key = false → m = .ofReference key →
        g.project.DeclaresModel m ∨
          ∃ e, e.IsSchemaFault ∧ (modelDecls d key s).result = .error e ∧
            .because key e ∈ code.report.skipped := by
  obtain ⟨g, hgeneration, hfiles, hreport⟩ := exists_generation_of_generate h
  have hg := generation_eq_ok hgeneration
  have hproject : g.project = .ofContributions (contributionsOf (pieces d d.service config)) := by
    rw [hg, Generation.project_ofPieces]
  refine ⟨g, hgeneration, hfiles, hproject, grounded_of_mem_contributions hc _ hm, ?_⟩
  rintro key s hs hkey rfl
  -- whether the schema can be built decides whether its model is declared or recorded
  cases hresult : (modelDecls d key s).result with
  | ok decls =>
    left
    rw [ModelName.ofReference_eq_ofKey hkey, hproject]
    exact declaresModel_of_ok hs hkey hresult
  | error e =>
    right
    refine ⟨e, (modelDecls_sound d key s).faults e hresult, rfl, ?_⟩
    rw [hreport, hg, Generation.skipped_ofPieces]
    exact skipped_of_error hs hkey hresult

/-! ## A name without a declaration -/

/-- Two schemas, of which the first refers to the second and the second to nothing. -/
def danglingDocument : Document :=
  { components.schemas := .ofList
      [("a.A", .referenceTo "b.B"), ("b.B", .referenceTo "b.Missing")] }

theorem exists_contribution_danglingDocument :
    ∃ c ∈ contributionsOf (pieces danglingDocument danglingDocument.service {}),
      Import.model (.ofReference "b.B") ∈ c.needs := by
  have hneed : (contributionsOf (pieces danglingDocument danglingDocument.service {})).any
      (·.needs.contains (.model (.ofReference "b.B"))) = true := by
    decide +kernel
  obtain ⟨c, hc, hm⟩ := List.any_eq_true.1 hneed
  exact ⟨c, hc, List.contains_iff_mem.1 hm⟩

theorem exists_generation_danglingDocument :
    ∃ g, generation danglingDocument danglingDocument.service {} = .ok g ∧
      g.project.file? (ModelName.ofReference "b.B").file = none := by
  have hrun : (generation danglingDocument danglingDocument.service {}).toOption.any
      (fun g => (g.project.file? (ModelName.ofReference "b.B").file).isNone) = true := by
    decide +kernel
  obtain ⟨g, hg, hnone⟩ := exists_ok_of_any hrun
  exact ⟨g, hg, Option.isNone_iff_eq_none.1 hnone⟩

theorem reference_declared_or_skipped_dangling :
    ∃ code c, generate danglingDocument danglingDocument.service {} = .ok code ∧
      c ∈ contributionsOf (pieces danglingDocument danglingDocument.service {}) ∧
      Import.model (.ofReference "b.B") ∈ c.needs ∧
      ∃ g, generation danglingDocument danglingDocument.service {} = .ok g ∧
        (g.project.DeclaresModel (.ofReference "b.B") ∨
          ∃ e, e.IsSchemaFault ∧ .because "b.B" e ∈ code.report.skipped) := by
  obtain ⟨c, hc, hm⟩ := exists_contribution_danglingDocument
  obtain ⟨g, hg, -⟩ := exists_generation_danglingDocument
  have hcode : generate danglingDocument danglingDocument.service {}
      = .ok { files := renderedFiles g.project, report := g.report } := by
    rw [generate, hg]
    rfl
  obtain ⟨g', hg', -, -, -, houtcome⟩ := reference_declared_or_skipped hcode hc hm
  have hs : danglingDocument.schema? "b.B" = some (.referenceTo "b.Missing") := rfl
  refine ⟨_, c, hcode, hc, hm, g', hg', ?_⟩
  rcases houtcome "b.B" _ hs (by decide) rfl with hdeclared | ⟨e, he, -, hskipped⟩
  · exact .inl hdeclared
  · exact .inr ⟨e, he, hskipped⟩

/-- The model of a schema that could not be built is imported where it is referred to,
    although its file is not there. -/
theorem dangling_model_reference :
    danglingDocument.service.check danglingDocument = .ok () ∧
      ∃ g, generation danglingDocument danglingDocument.service {} = .ok g ∧
        (danglingDocument.schema? "b.B").isSome ∧ ModelName.isReserved "b.B" = false ∧
        (∃ c ∈ contributionsOf (pieces danglingDocument danglingDocument.service {}),
          Import.model (.ofReference "b.B") ∈ c.needs) ∧
        ¬g.project.DeclaresModel (.ofReference "b.B") := by
  obtain ⟨g, hg, hnone⟩ := exists_generation_danglingDocument
  refine ⟨by decide +kernel, g, hg, by decide +kernel, by decide +kernel,
    exists_contribution_danglingDocument, ?_⟩
  rintro ⟨f, hf, -⟩
  rw [hnone] at hf
  cases hf

end ClientGen
