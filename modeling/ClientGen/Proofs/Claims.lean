/-
  ClientGen.Proofs.Claims

  When claims to names are accepted.  Names are given out one claim at a time,
  but which of several claims comes first does not matter: all are accepted just
  when each name is claimed for one owner only, who has it already or finds it
  free (`exists_foldlM_give_iff`).
-/
import ClientGen.Proofs.Collision

namespace ClientGen

namespace Owners

variable {owners owners' : Owners} {claims claims' own : List Claim} {m : ModelName} {owner : String}

theorem owner?_cons (m m' : ModelName) (owner : String) (owners : Owners) :
    owner? ((m, owner) :: owners) m' = if m = m' then some owner else owners.owner? m' := by
  unfold owner?
  by_cases h : m = m'
  · rw [List.find?_cons_of_pos (by simpa using h), if_pos h, Option.map_some]
  · rw [List.find?_cons_of_neg (by simpa using h), if_neg h]

theorem mem_of_owner? (h : owners.owner? m = some owner) : (m, owner) ∈ owners := by
  obtain ⟨⟨m', owner'⟩, hfind, rfl⟩ := Option.map_eq_some_iff.1 h
  have hm : m' = m := by simpa using List.find?_some hfind
  subst hm
  exact List.mem_of_find?_eq_some hfind

/-- Claims that are not to the name of another: neither of one who has it already, nor of one
    who claims it as well. -/
structure Admits (owners : Owners) (claims : List Claim) : Prop where
  free : ∀ c ∈ claims, ∀ owner, owners.owner? c.model = some owner → owner = c.owner
  agree : ∀ c ∈ claims, ∀ c' ∈ claims, c.model = c'.model → c.owner = c'.owner

/-- What remains to be claimed is admitted after a claim is granted. -/
theorem Admits.of_give {c : Claim} (h : owners.Admits (c :: claims)) :
    ∃ owners', owners.give c = .ok owners' ∧ owners'.Admits claims := by
  have hagree : ∀ a ∈ claims, ∀ b ∈ claims, a.model = b.model → a.owner = b.owner :=
    fun a ha b hb => h.agree a (List.mem_cons_of_mem _ ha) b (List.mem_cons_of_mem _ hb)
  unfold give
  cases howner : owners.owner? c.model with
  | some owner =>
    have heq := h.free c List.mem_cons_self owner howner
    refine ⟨owners, if_pos heq, fun a ha => h.free a (List.mem_cons_of_mem _ ha), hagree⟩
  | none =>
    refine ⟨_, rfl, fun a ha owner howner => ?_, hagree⟩
    rw [owner?_cons] at howner
    split at howner
    · next hmodel =>
      -- the name was given a moment ago, and it is claimed again for the same owner
      rw [← Option.some.inj howner]
      exact h.agree c List.mem_cons_self a (List.mem_cons_of_mem _ ha) hmodel
    · exact h.free a (List.mem_cons_of_mem _ ha) owner howner

/-- What is made of accepted claims, or else a collision. -/
theorem map_foldlM_give_cases {α : Type} (a : α) (owners : Owners) (claims : List Claim) :
    (fun _ => a) <$> claims.foldlM give owners = .ok a ∨
      ∃ name path first second, (fun _ => a) <$> claims.foldlM give owners
        = .error (.namingCollision name path first second) := by
  cases h : claims.foldlM give owners with
  | ok final => exact .inl rfl
  | error e =>
    obtain ⟨name, path, first, second, rfl⟩ := foldlM_give_error h
    exact .inr ⟨name, path, first, second, rfl⟩

/-- Whether claims are accepted does not depend on their order. -/
theorem exists_foldlM_give_iff :
    (∃ owners', claims.foldlM give owners = .ok owners') ↔ owners.Admits claims := by
  constructor
  · rintro ⟨final, hfinal⟩
    -- in the end every name has one owner, who claimed it
    have hgiven := owner?_foldlM_give hfinal
    constructor
    · intro c hc owner howner
      have hkept := owner?_of_foldlM_give hfinal howner
      rw [hgiven c hc] at hkept
      exact (Option.some.inj hkept).symm
    · intro c hc c' hc' hmodel
      have hsame := hgiven c hc
      rw [hmodel, hgiven c' hc'] at hsame
      exact (Option.some.inj hsame).symm
  · intro h
    induction claims generalizing owners with
    | nil => exact ⟨owners, rfl⟩
    | cons c rest ih =>
      obtain ⟨next, hgive, hrest⟩ := h.of_give
      rw [List.foldlM_cons, hgive]
      exact ih hrest

/-- Only which claims there are matters, and who has which name before. -/
theorem admits_congr (howners : ∀ m, owners.owner? m = owners'.owner? m)
    (hclaims : ∀ c, c ∈ claims ↔ c ∈ claims') : owners.Admits claims ↔ owners'.Admits claims' := by
  have hall (p : Claim → Prop) : (∀ c ∈ claims, p c) ↔ ∀ c ∈ claims', p c :=
    forall_congr' fun c => imp_congr_left (hclaims c)
  constructor
  · rintro ⟨hfree, hagree⟩
    constructor
    · simp only [← howners]
      exact (hall _).1 hfree
    · exact (hall _).1 fun c hc => (hall _).1 (hagree c hc)
  · rintro ⟨hfree, hagree⟩
    constructor
    · simp only [howners]
      exact (hall _).2 hfree
    · exact (hall _).2 fun c hc => (hall _).2 (hagree c hc)

/-- Further claims are admitted just when none of them is to the name of another. -/
theorem admits_append_iff (hclaims : ∀ c, c ∈ claims' ↔ c ∈ claims ∨ c ∈ own) :
    owners.Admits claims' ↔ owners.Admits claims ∧
      ∀ c ∈ own, (∀ owner, owners.owner? c.model = some owner → owner = c.owner) ∧
        ∀ c' ∈ claims', c'.model = c.model → c'.owner = c.owner := by
  constructor
  · rintro ⟨hfree, hagree⟩
    have hold {c : Claim} (hc : c ∈ claims) : c ∈ claims' := (hclaims c).2 (.inl hc)
    have hnew {c : Claim} (hc : c ∈ own) : c ∈ claims' := (hclaims c).2 (.inr hc)
    refine ⟨⟨fun c hc => hfree c (hold hc), fun c hc c' hc' => hagree c (hold hc) c' (hold hc')⟩, ?_⟩
    exact fun c hc => ⟨hfree c (hnew hc), fun c' hc' => hagree c' hc' c (hnew hc)⟩
  · rintro ⟨⟨hfree, hagree⟩, hown⟩
    constructor
    · intro c hc
      rcases (hclaims c).1 hc with hc | hc
      · exact hfree c hc
      · exact (hown c hc).1
    · intro c hc c' hc' hmodel
      rcases (hclaims c).1 hc with hold | hnew
      · rcases (hclaims c').1 hc' with hold' | hnew'
        · exact hagree c hold c' hold' hmodel
        · exact (hown c' hnew').2 c hc hmodel
      · exact ((hown c hnew).2 c' hc' hmodel.symm).symm

end Owners

/-! ## The claims of a document -/

variable {d : Document}

/-- The claims of a schema, up to its failure if it fails. -/
def schemaClaims (d : Document) (entry : String × Schema) : List Claim :=
  claimsOf (modelDecls d entry.1 entry.2).notes

theorem Document.mem_claims_iff {c : Claim} :
    c ∈ d.claims ↔ ∃ entry ∈ d.modelSchemas, c ∈ schemaClaims d entry :=
  List.mem_flatMap

/-- Before anything is claimed, a name belongs to the schema that it is the model of. -/
theorem Document.owner?_owners_iff (hcheck : d.checkModelNames = .ok ()) {m : ModelName}
    {owner : String} :
    d.owners.owner? m = some owner ↔ owner ∈ d.modelKeys ∧ ModelName.ofKey owner = m := by
  have hmem : (m, owner) ∈ d.owners ↔ owner ∈ d.modelKeys ∧ ModelName.ofKey owner = m := by
    rw [Document.owners, List.mem_map]
    constructor
    · rintro ⟨key, hkey, heq⟩
      obtain ⟨rfl, rfl⟩ := Prod.mk.inj heq
      exact ⟨List.mem_reverse.1 hkey, rfl⟩
    · rintro ⟨hkey, rfl⟩
      exact ⟨owner, List.mem_reverse.2 hkey, rfl⟩
  rw [← hmem]
  exact ⟨Owners.mem_of_owner?, Owners.owner?_of_mem (Document.nodup_owners hcheck)⟩

/-- The models of a document are those of its schemas, one by one, unless names collide. -/
theorem generateModels_cases (d : Document) :
    generateModels d = .ok (.ofPieces d.modelPieces) ∨
      ∃ name path first second,
        generateModels d = .error (.namingCollision name path first second) := by
  rw [generateModels_eq]
  exact Owners.map_foldlM_give_cases _ _ _

/-- The models of a document are generated just when its claims are admitted. -/
theorem exists_generateModels_iff :
    (∃ g, generateModels d = .ok g) ↔ d.owners.Admits d.claims := by
  rw [← Owners.exists_foldlM_give_iff, generateModels_eq, exists_map_eq_ok_iff]

end ClientGen
