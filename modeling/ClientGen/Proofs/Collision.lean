/-
  ClientGen.Proofs.Collision

  When the names in a file of models are distinct.  Names are checked in two
  ways, once for the keys of schemas and once for the claims of lifted
  interfaces, and both tell names apart by directory and owner as they are
  written.  `models_distinct_iff` says exactly what is left to chance: that a
  directory is written in one way only, and that no owner is written like
  another.
-/
import ClientGen.Proofs.Assembly
import ClientGen.Proofs.Lifting
import ClientGen.Proofs.NameCheck
import Mathlib.Data.List.Induction

namespace ClientGen

open TypeScript

/-! ## Names of keys -/

/-- The check of names tells keys apart by their models. -/
theorem Document.nodup_of_checkModelNames {d : Document} (h : d.checkModelNames = .ok ()) :
    (d.modelKeys.map ModelName.ofKey).Nodup :=
  d.checkModelNames_reports.ok.1 h

/-! ## Owners -/

namespace Owners

variable {owners owners' : Owners} {m : ModelName} {owner : String}

theorem owner?_of_mem (h : (owners.map Prod.fst).Nodup) (hm : (m, owner) ∈ owners) :
    owners.owner? m = some owner := by
  induction owners with
  | nil => exact absurd hm List.not_mem_nil
  | cons first rest ih =>
    rw [List.map_cons, List.nodup_cons] at h
    unfold owner?
    rcases List.mem_cons.1 hm with rfl | hm
    · rw [List.find?_cons_of_pos (by simp)]
      rfl
    · have hne : first.1 ≠ m := by
        rintro rfl
        exact h.1 (List.mem_map.2 ⟨_, hm, rfl⟩)
      rw [List.find?_cons_of_neg (by simpa using hne)]
      exact ih h.2 hm

/-- Once a name has an owner, it keeps it. -/
theorem owner?_of_give {c : Claim} (h : owners.give c = .ok owners')
    (hm : owners.owner? m = some owner) : owners'.owner? m = some owner := by
  unfold give at h
  split at h
  · split at h
    · cases h
      exact hm
    · cases h
  · next hnone =>
    cases h
    have hne : c.model ≠ m := by
      rintro rfl
      rw [hnone] at hm
      cases hm
    rw [owner?, List.find?_cons_of_neg (by simpa using hne)]
    exact hm

/-- A claim that is not refused gives the name to its owner. -/
theorem owner?_give {c : Claim} (h : owners.give c = .ok owners') :
    owners'.owner? c.model = some c.owner := by
  unfold give at h
  split at h
  · next owner howner =>
    split at h
    · next heq =>
      -- whoever has the name already is the one that claims it
      cases h
      rw [howner, heq]
    · cases h
  · cases h
    rw [owner?, List.find?_cons_of_pos (by simp)]
    rfl

theorem owner?_of_foldlM_give {claims : List Claim} (h : claims.foldlM give owners = .ok owners')
    (hm : owners.owner? m = some owner) : owners'.owner? m = some owner := by
  induction claims generalizing owners with
  | nil =>
    cases h
    exact hm
  | cons c rest ih =>
    rw [List.foldlM_cons] at h
    cases hgive : owners.give c with
    | ok next =>
      rw [hgive] at h
      exact ih h (owner?_of_give hgive hm)
    | error e =>
      rw [hgive] at h
      cases h

/-- When no claim is refused, every name belongs to whoever claimed it. -/
theorem owner?_foldlM_give {claims : List Claim} (h : claims.foldlM give owners = .ok owners') :
    ∀ c ∈ claims, owners'.owner? c.model = some c.owner := by
  induction claims generalizing owners with
  | nil => exact fun c hc => absurd hc List.not_mem_nil
  | cons c rest ih =>
    rw [List.foldlM_cons] at h
    cases hgive : owners.give c with
    | ok next =>
      rw [hgive] at h
      intro c' hc'
      rcases List.mem_cons.1 hc' with rfl | hc'
      · exact owner?_of_foldlM_give h (owner?_give hgive)
      · exact ih h c' hc'
    | error e =>
      rw [hgive] at h
      cases h

end Owners

/-- Owners by which every schema owns its model, and every claim its name. -/
structure Document.Owned (d : Document) (owners : Owners) : Prop where
  models : ∀ key ∈ d.modelKeys, owners.owner? (.ofKey key) = some key
  claims : ∀ c ∈ d.claims, owners.owner? c.model = some c.owner

/-- Before anything is claimed, every name that is owned is owned once. -/
theorem Document.nodup_owners {d : Document} (hcheck : d.checkModelNames = .ok ()) :
    (d.owners.map Prod.fst).Nodup := by
  rw [Document.owners, List.map_map, List.map_reverse, List.nodup_reverse]
  exact d.nodup_of_checkModelNames hcheck

/-- The owners at the end of a run that passed both checks. -/
theorem exists_owned {d : Document} {g : Generation} (hcheck : d.checkModelNames = .ok ())
    (h : generateModels d = .ok g) :
    (∃ owners, d.Owned owners) ∧ g = .ofPieces d.modelPieces := by
  rw [generateModels_eq] at h
  obtain ⟨owners, hclaims, rfl⟩ := map_eq_ok_iff.1 h
  refine ⟨⟨owners, fun key hkey => ?_, Owners.owner?_foldlM_give hclaims⟩, rfl⟩
  -- a schema has its name from the start, and claims take no name away
  apply Owners.owner?_of_foldlM_give hclaims
  apply Owners.owner?_of_mem (Document.nodup_owners hcheck)
  exact List.mem_map.2 ⟨key, List.mem_reverse.2 hkey, rfl⟩

/-! ## Names within one schema -/

@[simp] theorem ModelName.path_liftedAt (m : ModelName) (path : List String) :
    (m.liftedAt path).path = m.path := by
  induction path generalizing m with
  | nil => rfl
  | cons name rest ih =>
    show ((m.lifted name).liftedAt rest).path = m.path
    rw [ih]
    rfl

theorem ModelName.liftedAt_append (m : ModelName) (path : List String) (name : String) :
    m.liftedAt (path ++ [name]) = (m.liftedAt path).lifted name := by
  rw [liftedAt, List.foldl_append]
  rfl

/-- Models that are lifted out of the same property under one name are lifted out of the same
    model. -/
theorem ModelName.eq_of_lifted_eq {m m' : ModelName} {name : String} (hpath : m.path = m'.path)
    (h : m.lifted name = m'.lifted name) : m = m' := by
  have hname : m.name ++ Text.pascalCase name = m'.name ++ Text.pascalCase name :=
    congrArg ModelName.name h
  have hname : m.name = m'.name := (String.append_left_inj _).1 hname
  cases m
  cases m'
  cases hname
  cases hpath
  rfl

/-- A key is not the owner that a property of it has. -/
theorem ne_append_hash (key name : String) : key ≠ key ++ "#" ++ name := by
  intro h
  have hlength := congrArg (fun s : String => s.toList.length) h
  simp only [String.toList_append, List.length_append] at hlength
  have hhash : "#".toList.length = 1 := rfl
  omega

section Schema

variable {key : String} {paths : List (List String)} {owners : Owners}

/-- Paths tell lifted interfaces apart.  The owner of a name tells its last property, and what
    is left then belongs to the interface around it; so the induction goes up the path, to
    the model itself, which no property owns. -/
theorem liftedAt_inj (htree : PathTree paths)
    (hmodel : owners.owner? (.ofKey key) = some key)
    (hclaims : ∀ p ∈ paths, owners.owner? ((ModelName.ofKey key).liftedAt p)
      = some (key ++ "#" ++ p.getLastD "")) {p q : List String}
    (hp : p = [] ∨ p ∈ paths) (hq : q = [] ∨ q ∈ paths)
    (h : (ModelName.ofKey key).liftedAt p = (ModelName.ofKey key).liftedAt q) : p = q := by
  have howner {path : List String} {name : String} (hmem : path ++ [name] = [] ∨
      path ++ [name] ∈ paths) : owners.owner? ((ModelName.ofKey key).liftedAt (path ++ [name]))
        = some (key ++ "#" ++ name) := by
    rcases hmem with hnil | hmem
    · simp at hnil
    · have := hclaims _ hmem
      rw [List.getLastD_concat] at this
      exact this
  have hfront {path : List String} {name : String} (hmem : path ++ [name] = [] ∨
      path ++ [name] ∈ paths) : path = [] ∨ path ∈ paths := by
    rcases hmem with hnil | hmem
    · simp at hnil
    · by_cases hpath : path = []
      · exact .inl hpath
      · exact .inr (htree.closed path name hmem hpath)
  induction p using List.reverseRec generalizing q with
  | nil =>
    rcases List.eq_nil_or_concat' q with rfl | ⟨q, b, rfl⟩
    · rfl
    · -- the model belongs to the key, and no lifted interface does
      have hb := howner hq
      rw [← h] at hb
      exact absurd (Option.some.inj (hmodel.symm.trans hb)) (ne_append_hash key b)
  | append_singleton p a ih =>
    have ha := howner hp
    rcases List.eq_nil_or_concat' q with rfl | ⟨q, b, rfl⟩
    · rw [h] at ha
      exact absurd (Option.some.inj (hmodel.symm.trans ha)) (ne_append_hash key a)
    · -- one owner means one last property; without it the names are still the same
      have hb := howner hq
      rw [← h, ha, Option.some.injEq] at hb
      have hab : a = b := (String.append_right_inj _).1 hb
      subst hab
      rw [ModelName.liftedAt_append, ModelName.liftedAt_append] at h
      have hfronts := ModelName.eq_of_lifted_eq (by simp) h
      rw [ih (hfront hp) (hfront hq) hfronts]

end Schema

/-! ## The models that are declared -/

/-- The models that the declarations of a schema are called after: none when it cannot be
    built, or else those of its claims and its own. -/
def declaredModels (d : Document) (entry : String × Schema) : List ModelName :=
  match (modelDecls d entry.1 entry.2).result with
  | .ok _ => (claimsOf (modelDecls d entry.1 entry.2).notes).map (·.model) ++ [.ofKey entry.1]
  | .error _ => []

/-- All models that are declared, schema by schema. -/
def Document.declaredModels (d : Document) : List ModelName :=
  d.modelSchemas.flatMap (ClientGen.declaredModels d)

variable {d : Document} {entry : String × Schema} {m : ModelName}

theorem declaredModels_of_ok {decls : List Declaration} {paths : List (List String)}
    {names : List String} (h : (modelDecls d entry.1 entry.2).result = .ok decls)
    (hlifts : Lifts entry.1 (.ofKey entry.1) paths
      (claimsOf (modelDecls d entry.1 entry.2).notes) names) :
    declaredModels d entry
      = paths.map (ModelName.ofKey entry.1).liftedAt ++ [.ofKey entry.1] := by
  simp only [declaredModels, h, hlifts.claims_eq, List.map_map]
  rfl

/-- The models of a schema share its directory. -/
theorem path_of_mem_declaredModels (hm : m ∈ declaredModels d entry) :
    m.path = (ModelName.ofKey entry.1).path := by
  cases h : (modelDecls d entry.1 entry.2).result with
  | error e =>
    simp only [declaredModels, h] at hm
    exact absurd hm List.not_mem_nil
  | ok decls =>
    obtain ⟨paths, hlifts⟩ := modelDecls_lifts decls h
    rw [declaredModels_of_ok h hlifts] at hm
    rcases List.mem_append.1 hm with hm | hm
    · obtain ⟨path, -, rfl⟩ := List.mem_map.1 hm
      exact ModelName.path_liftedAt _ path
    · rw [List.mem_singleton.1 hm]

theorem mem_modelKeys (h : entry ∈ d.modelSchemas) : entry.1 ∈ d.modelKeys := by
  obtain ⟨hmem, hkey⟩ := List.mem_filter.1 h
  exact List.mem_filter.2 ⟨List.mem_map_of_mem hmem, hkey⟩

theorem claims_of_mem (h : entry ∈ d.modelSchemas) :
    ∀ c ∈ claimsOf (modelDecls d entry.1 entry.2).notes, c ∈ d.claims :=
  fun _ hc => List.mem_flatMap.2 ⟨entry, h, hc⟩

/-- The models of one schema are different. -/
theorem nodup_declaredModels {owners : Owners} (howned : d.Owned owners)
    (hentry : entry ∈ d.modelSchemas) : (declaredModels d entry).Nodup := by
  cases h : (modelDecls d entry.1 entry.2).result with
  | error e =>
    simp only [declaredModels, h]
    exact List.nodup_nil
  | ok decls =>
    obtain ⟨paths, hlifts⟩ := modelDecls_lifts decls h
    have hmodel := howned.models entry.1 (mem_modelKeys hentry)
    have hclaims : ∀ p ∈ paths, owners.owner? ((ModelName.ofKey entry.1).liftedAt p)
        = some (entry.1 ++ "#" ++ p.getLastD "") := by
      intro p hp
      have hc : liftedClaim entry.1 (.ofKey entry.1) p
          ∈ claimsOf (modelDecls d entry.1 entry.2).notes := by
        rw [hlifts.claims_eq]
        exact List.mem_map_of_mem hp
      exact howned.claims _ (claims_of_mem hentry _ hc)
    have hinj {p q : List String} (hp : p = [] ∨ p ∈ paths) (hq : q = [] ∨ q ∈ paths)
        (hpq : (ModelName.ofKey entry.1).liftedAt p = (ModelName.ofKey entry.1).liftedAt q) :
        p = q := liftedAt_inj hlifts.tree hmodel hclaims hp hq hpq
    rw [declaredModels_of_ok h hlifts, List.nodup_append]
    refine ⟨hlifts.tree.nodup.map_on fun p hp q hq => hinj (.inr hp) (.inr hq),
      List.nodup_singleton _, ?_⟩
    intro m hm m' hm' heq
    obtain ⟨p, hp, rfl⟩ := List.mem_map.1 hm
    rw [List.mem_singleton.1 hm'] at heq
    exact hlifts.tree.ne_nil p hp (hinj (.inr hp) (.inl rfl) heq)

/-! ## The declarations of a file -/

theorem contributionsTo_cons (c : Contribution) (cs : List Contribution) (file : String) :
    contributionsTo file (c :: cs)
      = if c.file = file then c :: contributionsTo file cs else contributionsTo file cs := by
  by_cases h : c.file = file <;> simp [contributionsTo, h]

/-- The names in a file are those of the models that are declared there. -/
theorem names_perm_declaredModels (file : String) (entries : List (String × Schema)) :
    ((contributionsTo file (contributionsOf (entries.map (modelPiece d)))).flatMap
        (·.decls)).map (·.name)
      |>.Perm (((entries.flatMap (declaredModels d)).filter (·.file = file)).map (·.name)) := by
  induction entries with
  | nil => exact .refl _
  | cons entry rest ih =>
    rw [List.map_cons, List.flatMap_cons, List.filter_append, List.map_append]
    cases h : (modelDecls d entry.1 entry.2).result with
    | error e =>
      have hnone : declaredModels d entry = [] := by simp only [declaredModels, h]
      have hcons : contributionsOf (modelPiece d entry :: rest.map (modelPiece d))
          = contributionsOf (rest.map (modelPiece d)) :=
        List.filterMap_cons_none (by rw [modelPiece_of_error h])
      rw [hnone, hcons]
      exact ih
    | ok decls =>
      obtain ⟨paths, hlifts⟩ := modelDecls_lifts decls h
      have hcons : contributionsOf (modelPiece d entry :: rest.map (modelPiece d))
          = modelContribution d entry decls :: contributionsOf (rest.map (modelPiece d)) :=
        List.filterMap_cons_some (by rw [modelPiece_of_ok h])
      -- all models of a schema go to the file of its contribution
      have hfile : ∀ m ∈ declaredModels d entry,
          m.file = (modelContribution d entry decls).file := by
        intro m hm
        rw [modelContribution_file, ModelName.file, path_of_mem_declaredModels hm, ModelName.file]
      rw [hcons, contributionsTo_cons]
      by_cases hthere : (modelContribution d entry decls).file = file
      · have hall : (declaredModels d entry).filter (·.file = file) = declaredModels d entry :=
          List.filter_eq_self.2 fun m hm => by simp [hfile m hm, hthere]
        rw [if_pos hthere, List.flatMap_cons, List.map_append, hall]
        refine List.Perm.append ?_ ih
        rw [declaredModels_of_ok h hlifts, List.map_append, List.map_map]
        exact hlifts.names_perm
      · have hno : (declaredModels d entry).filter (·.file = file) = [] :=
          List.filter_eq_nil_iff.2 fun m hm => by simp [hfile m hm, hthere]
        rw [if_neg hthere, hno]
        exact ih

/-- Names are distinct in every file just when no two models that are declared share both
    file and name. -/
theorem nodup_names_iff :
    (∀ entry ∈ (Generation.ofPieces d.modelPieces).project.entries,
        (entry.2.declarations.map (·.name)).Nodup) ↔
      d.declaredModels.Pairwise fun m m' => m.file = m'.file → m.name ≠ m'.name := by
  have hfiles (file : String) : (((d.declaredModels).filter (·.file = file)).map (·.name)).Nodup ↔
      d.declaredModels.Pairwise fun m m' => m.file = file → m'.file = file → m.name ≠ m'.name := by
    rw [List.Nodup, List.pairwise_map, List.pairwise_filter]
    simp
  have hperm (file : String) := @names_perm_declaredModels d file d.modelSchemas
  rw [Generation.project_ofPieces]
  constructor
  · intro h
    -- two models that share a file are looked up in that file
    rw [List.pairwise_iff_forall_sublist]
    intro m m' hsub hfile
    have hnodup : (((d.declaredModels).filter (·.file = m.file)).map (·.name)).Nodup := by
      rw [Document.declaredModels, ← (hperm m.file).nodup_iff]
      cases hget : (Project.ofContributions (contributionsOf d.modelPieces)).get? m.file with
      | some f =>
        have := h (m.file, f) (SortedMap.get?_eq_some_iff.1 hget)
        rw [Project.declarations_of_get? hget] at this
        exact this
      | none =>
        rw [← Document.modelPieces, Project.contributionsTo_of_get?_eq_none hget]
        exact List.nodup_nil
    exact List.pairwise_iff_forall_sublist.1 ((hfiles m.file).1 hnodup) hsub rfl hfile.symm
  · rintro h ⟨file, f⟩ hf
    have hget := SortedMap.get?_eq_some_iff.2 hf
    rw [Project.declarations_of_get? hget]
    refine (hperm file).nodup_iff.2 ((hfiles file).2 (h.imp ?_))
    intro m m' hne hm hm'
    exact hne (hm.trans hm'.symm)

/-! ## The exact condition -/

/-- What the checks leave to chance. -/
structure Document.NamesApart (d : Document) : Prop where
  /-- Where a file holds the same name twice, the directory of both is written alike. -/
  paths : ∀ m ∈ d.declaredModels, ∀ m' ∈ d.declaredModels,
    m.file = m'.file → m.name = m'.name → m.path = m'.path
  /-- No two schemas have a model in common, which they could only by owners that are written
      alike. -/
  schemas : d.modelSchemas.Pairwise fun entry entry' =>
    (ClientGen.declaredModels d entry).Disjoint (ClientGen.declaredModels d entry')

theorem namesApart_iff {owners : Owners} (howned : d.Owned owners) :
    d.NamesApart ↔
      d.declaredModels.Pairwise fun m m' => m.file = m'.file → m.name ≠ m'.name := by
  constructor
  · intro h
    -- no model is declared twice, and file and name tell a model apart
    have hnodup : d.declaredModels.Nodup :=
      List.nodup_flatMap.2 ⟨fun entry hentry => nodup_declaredModels howned hentry, h.schemas⟩
    apply List.Pairwise.imp_of_mem _ hnodup
    intro m m' hm hm' hne hfile hname
    have hpath := h.paths m hm m' hm' hfile hname
    cases m
    cases m'
    cases hname
    cases hpath
    exact hne rfl
  · intro h
    have hpairs : (d.declaredModels.map fun m => (m.file, m.name)).Nodup := by
      apply List.pairwise_map.2
      apply h.imp
      intro m m' hne heq
      obtain ⟨hfile, hname⟩ := Prod.mk.inj heq
      exact hne hfile hname
    constructor
    · intro m hm m' hm' hfile hname
      rw [List.inj_on_of_nodup_map hpairs hm hm' (by rw [hfile, hname])]
    · exact (List.nodup_flatMap.1 hpairs.of_map).2

/-- A run after a check that found no names alike leaves names apart in exactly this case. -/
theorem distinct_iff_namesApart {g : Generation} (hcheck : d.checkModelNames = .ok ())
    (h : generateModels d = .ok g) :
    (∀ entry ∈ g.project.entries, (entry.2.declarations.map (·.name)).Nodup) ↔ d.NamesApart := by
  obtain ⟨⟨owners, howned⟩, rfl⟩ := exists_owned hcheck h
  rw [nodup_names_iff, namesApart_iff howned]

theorem checkModelNames_of_check {s : Service} (h : s.check d = .ok ()) :
    d.checkModelNames = .ok () := by
  unfold Service.check at h
  cases hmodels : d.checkModelNames with
  | ok u => rfl
  | error e =>
    rw [hmodels] at h
    cases h

/-! ## Plain keys -/

/-- A key whose directory is written in normal form, and that holds no mark of a property. -/
structure PlainKey (key : String) : Prop where
  directory : ∃ segments, FilePath.AreSegments segments ∧
    (ModelName.ofKey key).path = "/" ++ "/".intercalate segments
  hash : '#' ∉ key.toList

/-- The part of an owner that is a plain key. -/
def ownerKey (owner : String) : List Char := owner.toList.takeWhile (· != '#')

theorem ownerKey_key {key : String} (h : '#' ∉ key.toList) : ownerKey key = key.toList := by
  have hkey := Text.takeWhile_append_of_not_mem h []
  rw [List.append_nil, List.takeWhile_nil, List.append_nil] at hkey
  exact hkey

theorem ownerKey_property {key : String} (h : '#' ∉ key.toList) (name : String) :
    ownerKey (key ++ "#" ++ name) = key.toList := by
  have htext : (key ++ "#" ++ name).toList = key.toList ++ '#' :: name.toList := by
    rw [String.toList_append, String.toList_append, List.append_assoc]
    rfl
  rw [ownerKey, htext, Text.takeWhile_append_of_not_mem h, List.takeWhile_cons_of_neg (by decide),
    List.append_nil]

/-- A model that is declared is owned by its schema, or by a property of it. -/
theorem owner?_of_mem_declaredModels {owners : Owners} (howned : d.Owned owners)
    (hentry : entry ∈ d.modelSchemas) (hm : m ∈ declaredModels d entry) :
    owners.owner? m = some entry.1 ∨ ∃ name, owners.owner? m = some (entry.1 ++ "#" ++ name) := by
  cases h : (modelDecls d entry.1 entry.2).result with
  | error e =>
    simp only [declaredModels, h] at hm
    exact absurd hm List.not_mem_nil
  | ok decls =>
    obtain ⟨paths, hlifts⟩ := modelDecls_lifts decls h
    rw [declaredModels_of_ok h hlifts] at hm
    rcases List.mem_append.1 hm with hm | hm
    · obtain ⟨path, hpath, rfl⟩ := List.mem_map.1 hm
      have hc : liftedClaim entry.1 (.ofKey entry.1) path
          ∈ claimsOf (modelDecls d entry.1 entry.2).notes := by
        rw [hlifts.claims_eq]
        exact List.mem_map_of_mem hpath
      exact .inr ⟨_, howned.claims _ (claims_of_mem hentry _ hc)⟩
    · rw [List.mem_singleton.1 hm]
      exact .inl (howned.models _ (mem_modelKeys hentry))

theorem nodup_keys_modelSchemas (d : Document) : (Entries.keys d.modelSchemas).Nodup :=
  (List.filter_sublist.map Prod.fst).nodup d.components.schemas.nodup

/-- The names of plain keys are apart. -/
theorem namesApart_of_plain {owners : Owners} (howned : d.Owned owners)
    (hplain : ∀ key ∈ d.modelKeys, PlainKey key) : d.NamesApart := by
  constructor
  · intro m hm m' hm' hfile _
    have hdirectory {m : ModelName} (hm : m ∈ d.declaredModels) :
        ∃ segments, FilePath.AreSegments segments ∧ m.path = "/" ++ "/".intercalate segments := by
      obtain ⟨entry, hentry, hm⟩ := List.mem_flatMap.1 hm
      rw [path_of_mem_declaredModels hm]
      exact (hplain entry.1 (mem_modelKeys hentry)).directory
    obtain ⟨segments, hsegments, hpath⟩ := hdirectory hm
    obtain ⟨segments', hsegments', hpath'⟩ := hdirectory hm'
    rw [ModelName.file, ModelName.file, hpath, hpath', FilePath.modelFile_eq, FilePath.modelFile_eq,
      FilePath.normalSegments_slash, FilePath.normalSegments_slash,
      FilePath.normalSegments_intercalate hsegments,
      FilePath.normalSegments_intercalate hsegments'] at hfile
    have heq := FilePath.intercalate_inj (hsegments.concat FilePath.isSegment_types)
      (hsegments'.concat FilePath.isSegment_types) hfile
    rw [hpath, hpath', List.append_cancel_right heq]
  · have hkeys := List.pairwise_map.1 (nodup_keys_modelSchemas d)
    apply List.Pairwise.imp_of_mem _ hkeys
    intro entry entry' hentry hentry' hne m hm hm'
    have howner {entry : String × Schema} (hentry : entry ∈ d.modelSchemas)
        (hm : m ∈ declaredModels d entry) :
        (owners.owner? m).map ownerKey = some entry.1.toList := by
      have hhash := (hplain entry.1 (mem_modelKeys hentry)).hash
      rcases owner?_of_mem_declaredModels howned hentry hm with h | ⟨name, h⟩
      · rw [h, Option.map_some, ownerKey_key hhash]
      · rw [h, Option.map_some, ownerKey_property hhash]
    -- the owner of a model tells the key of its schema
    have hsame := (howner hentry hm).symm.trans (howner hentry' hm')
    exact hne (String.toList_inj.1 (Option.some.inj hsame))

/-! ## The checks -/

/-- When a document passes its checks and its models are generated, the names in each file
    are distinct just when the names that are declared are apart. -/
theorem models_distinct_iff {g : Generation} (hcheck : d.service.check d = .ok ())
    (h : generateModels d = .ok g) :
    (∀ entry ∈ g.project.entries, (entry.2.declarations.map (·.name)).Nodup) ↔ d.NamesApart :=
  distinct_iff_namesApart (checkModelNames_of_check hcheck) h

/-- A schema with an object inside it. -/
def nestedDocument : Document :=
  let inner : Schema := { propertyEntries := some [("c", { type := some (.single "string") })] }
  { components.schemas := .ofList [("a.A", { propertyEntries := some [("b", inner)] })] }

/-- Its one key is plain, so that the names of the model and of the interface that is lifted out of
    it are distinct. -/
theorem models_distinct_iff_nested :
    ∃ g, generateModels nestedDocument = .ok g ∧ nestedDocument.NamesApart ∧
      ∀ entry ∈ g.project.entries, (entry.2.declarations.map (·.name)).Nodup := by
  have hcheck : nestedDocument.service.check nestedDocument = .ok () := by decide +kernel
  have hrun : (generateModels nestedDocument).toOption.any (fun _ => true) = true := by
    decide +kernel
  have hkeys : nestedDocument.modelKeys = ["a.A"] := by decide +kernel
  have hpath : (ModelName.ofKey "a.A").path = "/" ++ "/".intercalate ["a"] := by decide +kernel
  have hplain : ∀ key ∈ nestedDocument.modelKeys, PlainKey key := by
    intro key hkey
    rw [hkeys, List.mem_singleton] at hkey
    subst hkey
    have ha : FilePath.IsSegment "a" := by simp [FilePath.IsSegment, FilePath.isSlash]
    exact ⟨⟨["a"], .singleton ha, hpath⟩, by decide⟩
  obtain ⟨g, hg, -⟩ := exists_ok_of_any hrun
  obtain ⟨⟨owners, howned⟩, -⟩ := exists_owned (checkModelNames_of_check hcheck) hg
  have hapart := namesApart_of_plain howned hplain
  exact ⟨g, hg, hapart, (models_distinct_iff hcheck hg).2 hapart⟩

/-- Two schemas whose directories are written in different ways and are the same. -/
def collidingDocument : Document :=
  { components.schemas := .ofList
      [("a.b.C", { type := some (.single "string") }),
       ("a..b.C", { type := some (.single "string") })] }

/-- The checks let two schemas pass that are declared by one name in one file. -/
theorem exists_colliding_models :
    collidingDocument.service.check collidingDocument = .ok () ∧
      ∃ g, generateModels collidingDocument = .ok g ∧
        ∃ f, g.project.get? "a/b/types.ts" = some f ∧ ¬(f.declarations.map (·.name)).Nodup := by
  have hrun : (generateModels collidingDocument).toOption.any (fun g =>
      (g.project.get? "a/b/types.ts").any fun f => ¬(f.declarations.map (·.name)).Nodup) = true := by
    decide +kernel
  obtain ⟨g, hg, hfile⟩ := exists_ok_of_any hrun
  obtain ⟨f, hf, hnames⟩ := (Option.any_eq_true _ _).1 hfile
  exact ⟨by decide +kernel, g, hg, f, hf, of_decide_eq_true hnames⟩

end ClientGen
