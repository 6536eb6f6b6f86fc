/-
  ClientGen.Proofs.SchemaOrder

  The models of a document do not depend on the order of its schemas.  What a
  schema is declared as depends on the other schemas by lookup only; a file
  collects the same imports whichever declarations come first; and whether names
  collide depends on who claims what, not on who is first (`generateModels_perm`).
-/
import ClientGen.Proofs.Claims
import Mathlib.Algebra.BigOperators.Group.List.Basic

namespace ClientGen

open TypeScript

variable {d d' : Document}

/-! ## Lookups

Declarations are built by looking up single keys, so documents in which the same is found
build the same declarations. -/

section Lookup

variable (h : d'.schema? = d.schema?)
include h

theorem resolveSchema_congr : d'.resolveSchema = d.resolveSchema := by
  funext pointer referrer
  unfold Document.resolveSchema
  rw [h]

theorem referenceType_congr : referenceType d' = referenceType d := by
  funext referrer pointer
  rw [referenceType, referenceType, resolveSchema_congr h]

theorem typeByKind_congr : typeByKind d' = typeByKind d := by
  funext referrer inner s
  unfold typeByKind
  rw [referenceType_congr h]

theorem typeWithin_congr (referrer : String) (levels : Nat) :
    typeWithin d' referrer levels = typeWithin d referrer levels := by
  induction levels with
  | zero => rfl
  | succ levels ih =>
    funext s
    rw [typeWithin, typeWithin, typeByKind_congr h, ih]

theorem typeOf_congr (referrer : String) : typeOf d' referrer = typeOf d referrer :=
  typeWithin_congr h referrer _

theorem declaredType_congr (key : String) : declaredType d' key = declaredType d key := by
  funext s
  rw [declaredType, declaredType, typeOf_congr h]

theorem isExtensibleWithin_congr (levels : Nat) :
    Schema.isExtensibleWithin d' levels = Schema.isExtensibleWithin d levels := by
  induction levels with
  | zero => rfl
  | succ levels ih =>
    funext s
    rw [Schema.isExtensibleWithin, Schema.isExtensibleWithin, ih, h]

theorem propertyType_congr (key : String) : propertyType d' key = propertyType d key := by
  funext model lift property
  rw [propertyType, propertyType, declaredType_congr h]

theorem interfacesWithin_congr (key : String) (levels : Nat) :
    interfacesWithin d' key levels = interfacesWithin d key levels := by
  induction levels with
  | zero => rfl
  | succ levels ih =>
    funext docs parents model s
    rw [interfacesWithin, interfacesWithin, ih, propertyType_congr h, typeOf_congr h]

theorem interfaces_congr (key : String) : interfaces d' key = interfaces d key := by
  funext docs parents model s
  rw [interfaces, interfaces, interfacesWithin_congr h]

theorem aliasOf_congr (key : String) : aliasOf d' key = aliasOf d key := by
  funext model s
  rw [aliasOf, aliasOf, declaredType_congr h]

theorem extendingInterface_congr (key : String) :
    extendingInterface d' key = extendingInterface d key := by
  funext model s pointer own
  have hextensible (parent : Schema) : parent.isExtensible d' = parent.isExtensible d :=
    congrFun (isExtensibleWithin_congr h _) parent
  simp only [extendingInterface, resolveSchema_congr h, hextensible, referenceType_congr h,
    interfaces_congr h, aliasOf_congr h]

theorem modelDecls_congr : modelDecls d' = modelDecls d := by
  funext key s
  rw [modelDecls, modelDecls, interfaces_congr h, extendingInterface_congr h, aliasOf_congr h]

theorem modelPiece_congr : modelPiece d' = modelPiece d := by
  funext entry
  simp only [modelPiece, modelContribution, modelDecls_congr h]

theorem schemaClaims_congr : schemaClaims d' = schemaClaims d := by
  funext entry
  rw [schemaClaims, schemaClaims, modelDecls_congr h]

end Lookup

/-! ## Files -/

/-- Two files with the same import block and the same declarations, in any order. -/
structure AlikeFile (f f' : SourceFile) : Prop where
  imports : f.imports = f'.imports
  block : f.imports.render = f'.imports.render
  declarations : f.declarations.Perm f'.declarations

theorem isSome_get?_ofContributions_iff {cs : List Contribution} {path : String} :
    ((Project.ofContributions cs).get? path).isSome ↔ contributionsTo path cs ≠ [] := by
  rw [Option.isSome_iff_exists]
  simp only [Project.get?_ofContributions, exists_and_left, exists_eq', and_true]

/-- Contributions make the same files in any order. -/
theorem rel_get?_ofContributions {cs cs' : List Contribution} (h : cs.Perm cs') (path : String) :
    Option.Rel AlikeFile ((Project.ofContributions cs).get? path)
      ((Project.ofContributions cs').get? path) := by
  have hto : (contributionsTo path cs).Perm (contributionsTo path cs') := h.filter _
  apply rel_of_isSome_iff
  · rw [isSome_get?_ofContributions_iff, isSome_get?_ofContributions_iff, ← List.length_pos_iff,
      ← List.length_pos_iff, hto.length_eq]
  · intro f f' hf hf'
    -- imports are kept in order, whichever came first; declarations are kept as they come
    have himports : f.imports = f'.imports := by
      apply (Project.full_of_get? hf).ext (Project.full_of_get? hf')
      intro m n
      rw [Project.has_of_get? hf, Project.has_of_get? hf']
      simp only [hto.mem_iff]
    refine ⟨himports, congrArg Imports.render himports, ?_⟩
    rw [Project.declarations_of_get? hf, Project.declarations_of_get? hf']
    exact hto.flatMap_right _

/-! ## Documents -/

section Documents

variable (h : d'.components.schemas.entries.Perm d.components.schemas.entries)
include h

theorem schema?_of_perm : d'.schema? = d.schema? := by
  funext key
  exact OrderedMap.get?_of_perm h

theorem modelSchemas_perm : d'.modelSchemas.Perm d.modelSchemas := h.filter _

theorem modelKeys_perm : d'.modelKeys.Perm d.modelKeys := (h.map _).filter _

theorem modelPieces_perm : d'.modelPieces.Perm d.modelPieces := by
  rw [Document.modelPieces, Document.modelPieces, modelPiece_congr (schema?_of_perm h)]
  exact (modelSchemas_perm h).map _

theorem mem_claims_of_perm (c : Claim) : c ∈ d'.claims ↔ c ∈ d.claims := by
  simp only [Document.mem_claims_iff, schemaClaims_congr (schema?_of_perm h),
    (modelSchemas_perm h).mem_iff]

/-- Names are owned by the same schemas from the start. -/
theorem owner?_owners_of_perm (hcheck : d.checkModelNames = .ok ())
    (hcheck' : d'.checkModelNames = .ok ()) (m : ModelName) :
    d'.owners.owner? m = d.owners.owner? m := by
  apply Option.ext
  intro owner
  rw [Document.owner?_owners_iff hcheck, Document.owner?_owners_iff hcheck',
    (modelKeys_perm h).mem_iff]

theorem exists_generateModels_iff_of_perm (hcheck : d.checkModelNames = .ok ())
    (hcheck' : d'.checkModelNames = .ok ()) :
    (∃ g, generateModels d' = .ok g) ↔ ∃ g, generateModels d = .ok g := by
  rw [exists_generateModels_iff, exists_generateModels_iff]
  exact Owners.admits_congr (owner?_owners_of_perm h hcheck hcheck') (mem_claims_of_perm h)

end Documents

/-- The outcomes of two runs that are alike but for the order of what they list. -/
inductive AlikeModels :
    Except GenerationError Generation → Except GenerationError Generation → Prop
  | success {g g' : Generation} :
      (∀ path, Option.Rel AlikeFile (g.project.get? path) (g'.project.get? path)) →
      g.report.skipped.Perm g'.report.skipped → g.report.models = g'.report.models →
      AlikeModels (.ok g) (.ok g')
  | collision {name path first second name' path' first' second' : String} :
      AlikeModels (.error (.namingCollision name path first second))
        (.error (.namingCollision name' path' first' second'))

theorem alikeModels_ofPieces {ps ps' : List Piece} (h : ps.Perm ps') :
    AlikeModels (.ok (.ofPieces ps)) (.ok (.ofPieces ps')) := by
  apply AlikeModels.success
  · rw [Generation.project_ofPieces, Generation.project_ofPieces]
    exact rel_get?_ofContributions (h.filterMap _)
  · rw [Generation.skipped_ofPieces, Generation.skipped_ofPieces]
    exact h.flatMap_right _
  · rw [Generation.models_ofPieces, Generation.models_ofPieces]
    exact (h.map _).sum_eq

/-- The order of the schemas does not matter: either names collide in both documents, or both have
    the same files with the same imports and declarations, the same records and as many models. -/
theorem generateModels_perm (h : d'.components.schemas.entries.Perm d.components.schemas.entries)
    (hcheck : d.checkModelNames = .ok ()) (hcheck' : d'.checkModelNames = .ok ()) :
    AlikeModels (generateModels d) (generateModels d') := by
  have hboth := exists_generateModels_iff_of_perm h hcheck hcheck'
  -- either run gives its pieces or a collision, and one gives pieces just when the other does
  rcases generateModels_cases d with hg | ⟨_, _, _, _, hg⟩ <;>
    rcases generateModels_cases d' with hg' | ⟨_, _, _, _, hg'⟩ <;>
    rw [hg, hg'] at hboth ⊢
  · exact alikeModels_ofPieces (modelPieces_perm h).symm
  · simp at hboth
  · simp at hboth
  · exact .collision

/-- Schemas of two directories: one with a lifted name, one that is left out, and one that another
    refers to. -/
def crossedSchemas : List (String × Schema) :=
  let text : Schema := { type := some (.single "string") }
  let line : Schema := { propertyEntries := some [("sku", text)] }
  [("shop.Order", { propertyEntries := some [("buyer", .referenceTo "crm.Customer"), ("line", line)] }),
   ("shop.Lost", .referenceTo "shop.Missing"),
   ("crm.Customer", { propertyEntries := some [("name", text)] })]

/-- The models of these schemas, from the first and from the last. -/
theorem generateModels_perm_reverse :
    let d : Document := { components.schemas := .ofList crossedSchemas }
    let d' : Document := { components.schemas := .ofList crossedSchemas.reverse }
    (∃ g, generateModels d = .ok g ∧ g.report.models = 2 ∧ g.report.skipped.length = 1) ∧
      AlikeModels (generateModels d) (generateModels d') := by
  intro d d'
  have hrun : (generateModels d).toOption.any (fun g => g.report.models = 2 ∧
      g.report.skipped.length = 1) = true := by
    decide +kernel
  have hperm : d'.components.schemas.entries.Perm d.components.schemas.entries :=
    crossedSchemas.reverse_perm
  obtain ⟨g, hg, hreport⟩ := exists_ok_of_any hrun
  exact ⟨⟨g, hg, of_decide_eq_true hreport⟩,
    generateModels_perm hperm (by decide +kernel) (by decide +kernel)⟩

end ClientGen
