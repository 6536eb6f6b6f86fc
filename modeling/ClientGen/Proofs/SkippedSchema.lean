/-
  ClientGen.Proofs.SkippedSchema

  What a schema leaves behind that cannot be declared.  Its declarations and its
  imports are dropped; the names that it claimed before it failed are not given
  back.  `skipped_traceless_iff` says when this shows: a run is what it would be
  without the schema, but for the record of it, unless one of those names belongs
  to another.
-/
import ClientGen.Proofs.Claims

namespace ClientGen

variable {d : Document} {entry : String × Schema} {e : GenerationError}

/-! ## Runs without a schema -/

/-- The models of a document, with the schema of one key passed over in the run.  The document
    still has the schema, and its name is still taken. -/
def generateModelsWithout (d : Document) (key : String) : Except GenerationError Generation :=
  (·.generation) <$>
    (d.modelSchemas.filter (·.1 ≠ key)).foldlM (Modelling.add d) { owners := d.owners }

/-- The claims of all schemas but that of one key. -/
def Document.claimsWithout (d : Document) (key : String) : List Claim :=
  (d.modelSchemas.filter (·.1 ≠ key)).flatMap (schemaClaims d)

theorem generateModelsWithout_eq (key : String) :
    generateModelsWithout d key
      = (fun _ => Generation.ofPieces ((d.modelSchemas.filter (·.1 ≠ key)).map (modelPiece d))) <$>
        (d.claimsWithout key).foldlM Owners.give d.owners := by
  rw [generateModelsWithout, foldlM_modelling_add, ← comp_map]
  rfl

theorem generateModelsWithout_cases (d : Document) (key : String) :
    generateModelsWithout d key
        = .ok (.ofPieces ((d.modelSchemas.filter (·.1 ≠ key)).map (modelPiece d))) ∨
      ∃ name path first second,
        generateModelsWithout d key = .error (.namingCollision name path first second) := by
  rw [generateModelsWithout_eq]
  exact Owners.map_foldlM_give_cases _ _ _

theorem exists_generateModelsWithout_iff {key : String} :
    (∃ g, generateModelsWithout d key = .ok g) ↔ d.owners.Admits (d.claimsWithout key) := by
  rw [← Owners.exists_foldlM_give_iff, generateModelsWithout_eq, exists_map_eq_ok_iff]

/-- A schema among those before it and those after it, which have other keys. -/
theorem exists_modelSchemas_split (h : entry ∈ d.modelSchemas) :
    ∃ before after, d.modelSchemas = before ++ entry :: after ∧
      d.modelSchemas.filter (·.1 ≠ entry.1) = before ++ after := by
  obtain ⟨before, after, hsplit⟩ := List.append_of_mem h
  have hnodup := nodup_keys_modelSchemas d
  rw [hsplit, Entries.keys, List.map_append, List.map_cons, List.nodup_middle, List.nodup_cons,
    ← List.map_append] at hnodup
  have hothers : (before ++ after).filter (·.1 ≠ entry.1) = before ++ after := by
    rw [List.filter_eq_self]
    intro other hother
    rw [decide_eq_true_eq]
    intro heq
    exact hnodup.1 (List.mem_map.2 ⟨other, hother, heq⟩)
  refine ⟨before, after, hsplit, ?_⟩
  rw [hsplit, List.filter_append, List.filter_cons_of_neg (by simp), ← List.filter_append, hothers]

theorem mem_claims_iff_without (h : entry ∈ d.modelSchemas) (c : Claim) :
    c ∈ d.claims ↔ c ∈ d.claimsWithout entry.1 ∨ c ∈ schemaClaims d entry := by
  obtain ⟨before, after, hsplit, hwithout⟩ := exists_modelSchemas_split h
  rw [Document.claims, Document.claimsWithout, hwithout, hsplit]
  show c ∈ (before ++ entry :: after).flatMap (schemaClaims d) ↔ _
  simp only [List.flatMap_append, List.flatMap_cons, List.mem_append]
  tauto

/-! ## Records -/

namespace Generation

/-- The same generation with other records. -/
def withSkipped (g : Generation) (items : List Skipped) : Generation :=
  { g with report := { g.report with skipped := items } }

/-- The records made before do not matter for what pieces add. -/
theorem foldl_addPiece_withSkipped (ps : List Piece) (g : Generation) (items : List Skipped) :
    ps.foldl addPiece (g.withSkipped items)
      = (ps.foldl addPiece g).withSkipped (items ++ ps.flatMap (·.report.skipped)) := by
  induction ps generalizing g items with
  | nil => rw [List.flatMap_nil, List.append_nil]; rfl
  | cons p rest ih =>
    have hstep : (g.withSkipped items).addPiece p
        = (g.addPiece p).withSkipped (items ++ p.report.skipped) := rfl
    rw [List.foldl_cons, hstep, ih, List.flatMap_cons, List.append_assoc, List.foldl_cons]

end Generation

/-- The outcomes of two runs that are alike, but for one record that the second does not have. -/
inductive AlikeButFor (record : Skipped) :
    Except GenerationError Generation → Except GenerationError Generation → Prop
  | success {g g' : Generation} {before after : List Skipped} :
      g'.report.skipped = before ++ after → g = g'.withSkipped (before ++ record :: after) →
      AlikeButFor record (.ok g) (.ok g')
  | collision {name path first second name' path' first' second' : String} :
      AlikeButFor record (.error (.namingCollision name path first second))
        (.error (.namingCollision name' path' first' second'))

/-- A schema that cannot be declared adds its record to the pieces of the others, and nothing
    besides. -/
theorem ofPieces_modelPieces_of_error (hentry : entry ∈ d.modelSchemas)
    (hfault : (modelDecls d entry.1 entry.2).result = .error e) :
    AlikeButFor (.because entry.1 e) (.ok (.ofPieces d.modelPieces))
      (.ok (.ofPieces ((d.modelSchemas.filter (·.1 ≠ entry.1)).map (modelPiece d)))) := by
  obtain ⟨before, after, hsplit, hwithout⟩ := exists_modelSchemas_split hentry
  -- what there is when the schema's turn comes
  let start := (before.map (modelPiece d)).foldl Generation.addPiece {}
  have hrecord : start.addPiece (modelPiece d entry)
      = start.withSkipped (start.report.skipped ++ [.because entry.1 e]) := by
    rw [modelPiece_of_error hfault]
    rfl
  rw [hwithout, Document.modelPieces, hsplit, List.map_append, List.map_append, List.map_cons,
    Generation.ofPieces, Generation.ofPieces, List.foldl_append, List.foldl_append, List.foldl_cons]
  apply AlikeButFor.success Generation.skipped_foldl_addPiece
  rw [hrecord, Generation.foldl_addPiece_withSkipped, List.append_assoc]
  rfl

/-! ## The names that are kept -/

/-- Whether no name that a schema claims belongs to another: it is not the name of a schema's own
    model, and nobody else claims it. -/
structure Document.ClaimsFree (d : Document) (entry : String × Schema) : Prop where
  models : ∀ c ∈ schemaClaims d entry, ∀ key ∈ d.modelKeys, ModelName.ofKey key = c.model →
    key = c.owner
  claims : ∀ c ∈ schemaClaims d entry, ∀ c' ∈ d.claims, c'.model = c.model → c'.owner = c.owner

theorem claimsFree_iff (hcheck : d.checkModelNames = .ok ()) :
    d.ClaimsFree entry ↔ ∀ c ∈ schemaClaims d entry,
      (∀ owner, d.owners.owner? c.model = some owner → owner = c.owner) ∧
        ∀ c' ∈ d.claims, c'.model = c.model → c'.owner = c.owner := by
  simp only [Document.owner?_owners_iff hcheck, and_imp]
  exact ⟨fun h c hc => ⟨h.models c hc, h.claims c hc⟩,
    fun h => ⟨fun c hc => (h c hc).1, fun c hc => (h c hc).2⟩⟩

/-- A run succeeds just when it does without a schema, and the claims of that schema are free. -/
theorem exists_generateModels_iff_without (hcheck : d.checkModelNames = .ok ())
    (hentry : entry ∈ d.modelSchemas) :
    (∃ g, generateModels d = .ok g) ↔
      (∃ g, generateModelsWithout d entry.1 = .ok g) ∧ d.ClaimsFree entry := by
  rw [exists_generateModels_iff, exists_generateModelsWithout_iff, claimsFree_iff hcheck]
  exact Owners.admits_append_iff (mem_claims_iff_without hentry)

/-- A schema that cannot be declared leaves no trace but its record just when, provided that the
    run succeeds without it, no name that it claimed before it failed belongs to another. -/
theorem skipped_traceless_iff (hcheck : d.checkModelNames = .ok ()) (hentry : entry ∈ d.modelSchemas)
    (hfault : (modelDecls d entry.1 entry.2).result = .error e) :
    AlikeButFor (.because entry.1 e) (generateModels d) (generateModelsWithout d entry.1) ↔
      ((∃ g, generateModelsWithout d entry.1 = .ok g) → d.ClaimsFree entry) := by
  have hboth := exists_generateModels_iff_without hcheck hentry
  have hpieces := ofPieces_modelPieces_of_error hentry hfault
  rcases generateModels_cases d with hg | ⟨_, _, _, _, hg⟩ <;>
    rcases generateModelsWithout_cases d entry.1 with hg' | ⟨_, _, _, _, hg'⟩ <;>
    rw [hg, hg'] at hboth ⊢
  · simp only [Except.ok.injEq, exists_eq', true_and, true_iff] at hboth
    exact iff_of_true hpieces fun _ => hboth
  · simp at hboth
  · -- only the run without the schema succeeds, so its claims are not free
    simp only [reduceCtorEq, exists_false, Except.ok.injEq, exists_eq', true_and, false_iff] at hboth
    exact iff_of_false (fun halike => by cases halike) fun hfree => hboth (hfree ⟨_, rfl⟩)
  · exact iff_of_true .collision fun hwithout => by simp at hwithout

/-- Two schemas in one directory.  The first one claims the name `ABC` before it fails, and the
    second one claims a name that ends as its property does. -/
def keptNameDocument (property : String) : Document :=
  let inner : Schema := { propertyEntries := some [("x", { type := some (.single "string") })] }
  { components.schemas := .ofList
      [("a.A", { propertyEntries := some [("bC", inner), ("z", .referenceTo "a.Missing")] }),
       ("a.AB", { propertyEntries := some [(property, inner)] })] }

/-- A run without the schema, when its name is not claimed again. -/
theorem skipped_traceless_iff_apart :
    ∃ entry ∈ (keptNameDocument "d").modelSchemas, schemaClaims (keptNameDocument "d") entry ≠ [] ∧
      ∃ e, (modelDecls (keptNameDocument "d") entry.1 entry.2).result = .error e ∧
        AlikeButFor (.because entry.1 e) (generateModels (keptNameDocument "d"))
          (generateModelsWithout (keptNameDocument "d") entry.1) := by
  have hcheck : (keptNameDocument "d").checkModelNames = .ok () := by decide +kernel
  have hrun : (generateModels (keptNameDocument "d")).toOption.any (fun _ => true) = true := by
    decide +kernel
  have hschemas : (keptNameDocument "d").modelSchemas.any (fun entry =>
      schemaClaims (keptNameDocument "d") entry ≠ [] ∧
        (modelDecls (keptNameDocument "d") entry.1 entry.2).fault?.isSome) = true := by
    decide +kernel
  obtain ⟨g, hg, -⟩ := exists_ok_of_any hrun
  obtain ⟨entry, hentry, hboth⟩ := List.any_eq_true.1 hschemas
  obtain ⟨hclaims, hfault⟩ := of_decide_eq_true hboth
  obtain ⟨e, he⟩ := Option.isSome_iff_exists.1 hfault
  have hfault := Traced.fault?_eq_some_iff.1 he
  -- the run succeeds with the schema, so its claims are free
  have hfree := ((exists_generateModels_iff_without hcheck hentry).1 ⟨g, hg⟩).2
  exact ⟨entry, hentry, hclaims, e, hfault,
    (skipped_traceless_iff hcheck hentry hfault).2 fun _ => hfree⟩

/-- A schema that is left out because of a reference can end a run that would succeed without it,
    by a name that it has claimed for nothing. -/
theorem exists_kept_name :
    (keptNameDocument "c").checkModelNames = .ok () ∧
      ∃ entry rest m, (keptNameDocument "c").modelSchemas = entry :: rest ∧
        Modelling.add (keptNameDocument "c") { owners := (keptNameDocument "c").owners } entry
          = .ok m ∧
        m.generation.report.skipped
          = [.because "a.A" (.unresolvedReference "#/components/schemas/a.Missing" "a.A")] ∧
        generateModels (keptNameDocument "c")
          = .error (.namingCollision "ABC" "/a" "a.A#bC" "a.AB#c") ∧
        (∃ g, generateModelsWithout (keptNameDocument "c") "a.A" = .ok g) ∧
        ∀ record, ¬AlikeButFor record (generateModels (keptNameDocument "c"))
          (generateModelsWithout (keptNameDocument "c") "a.A") := by
  have hcheck : (keptNameDocument "c").checkModelNames = .ok () := by decide +kernel
  have hwithout : (generateModelsWithout (keptNameDocument "c") "a.A").toOption.any (fun _ => true)
      = true := by
    decide +kernel
  have hrun : (match generateModels (keptNameDocument "c") with
      | .ok _ => false
      | .error e => e = .namingCollision "ABC" "/a" "a.A#bC" "a.AB#c") = true := by
    decide +kernel
  obtain ⟨entry, rest, hschemas⟩ :
      ∃ entry rest, (keptNameDocument "c").modelSchemas = entry :: rest := ⟨_, _, rfl⟩
  have hfirst : (keptNameDocument "c").modelSchemas.head?.any (fun entry =>
      (Modelling.add (keptNameDocument "c") { owners := (keptNameDocument "c").owners }
        entry).toOption.any fun m => m.generation.report.skipped
          = [.because "a.A" (.unresolvedReference "#/components/schemas/a.Missing" "a.A")])
      = true := by
    decide +kernel
  obtain ⟨g, hg, -⟩ := exists_ok_of_any hwithout
  rw [hschemas, List.head?_cons, Option.any_some] at hfirst
  obtain ⟨m, hm, hskipped⟩ := exists_ok_of_any hfirst
  have herror : generateModels (keptNameDocument "c")
      = .error (.namingCollision "ABC" "/a" "a.A#bC" "a.AB#c") := by
    cases h : generateModels (keptNameDocument "c") with
    | ok g =>
      rw [h] at hrun
      cases hrun
    | error e =>
      rw [h] at hrun
      rw [of_decide_eq_true hrun]
  refine ⟨hcheck, entry, rest, m, hschemas, hm, of_decide_eq_true hskipped, herror, ⟨g, hg⟩, ?_⟩
  intro record halike
  rw [herror, hg] at halike
  cases halike

end ClientGen
