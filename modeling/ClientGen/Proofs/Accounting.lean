/-
  ClientGen.Proofs.Accounting

  An account of the models of a document.  Every schema for which a model is
  generated has either a group of declarations or a record; `accounts` says what
  is in the groups, in which files they are and in which order, and that nothing
  else is declared or imported.
-/
import ClientGen.Proofs.Collision
import ClientGen.Proofs.PartialFailure

namespace ClientGen

open TypeScript

/-! ## Lifted interfaces -/

/-- An object schema and the interface that was made of it. -/
abbrev Part := Schema × InterfaceDecl

/-- Whether an interface was lifted out of a property of another, which has the interface as
    its type. -/
def LiftedOutOf (child parent : Part) : Prop :=
  ∃ name, (name, child.1) ∈ parent.1.properties?.getD [] ∧ child.1.isLiftable = true ∧
    child.2.name = parent.2.name ++ Text.pascalCase name ∧
    ∃ p ∈ parent.2.properties, p.name = name ∧ p.typeExpr = admitNull child.1 child.2.name

/-- Interfaces that stand before the one at the root, each lifted out of one that comes later. -/
inductive LiftedFor (root : Part) : List Part → Prop
  | nil : LiftedFor root []
  | cons {child parent : Part} {rest : List Part} : parent ∈ rest ++ [root] →
      LiftedOutOf child parent → LiftedFor root rest → LiftedFor root (child :: rest)

namespace LiftedFor

variable {root child : Part} {parts others : List Part}

theorem append (h : LiftedFor root parts) (h' : LiftedFor root others) :
    LiftedFor root (parts ++ others) := by
  induction h with
  | nil => exact h'
  | @cons child parent rest hparent hlifted _ ih =>
    have hlater : parent ∈ rest ++ others ++ [root] := by
      rw [List.append_assoc]
      rcases List.mem_append.1 hparent with hparent | hroot
      · exact List.mem_append_left _ hparent
      · exact List.mem_append_right _ (List.mem_append_right _ hroot)
    exact .cons hlater hlifted ih

/-- What was lifted for an interface that was itself lifted comes before it. -/
theorem concat (h : LiftedFor child parts) (hchild : LiftedOutOf child root) :
    LiftedFor root (parts ++ [child]) := by
  induction h with
  | nil => exact .cons (List.mem_singleton_self _) hchild .nil
  | cons hparent hlifted _ ih => exact .cons (List.mem_append_left _ hparent) hlifted ih

theorem flatMap {α : Type} {f : α → List InterfaceDecl} {as : List α}
    (h : ∀ a ∈ as, ∃ parts, LiftedFor root parts ∧ f a = parts.map (·.2)) :
    ∃ parts, LiftedFor root parts ∧ as.flatMap f = parts.map (·.2) := by
  induction as with
  | nil => exact ⟨[], .nil, rfl⟩
  | cons a rest ih =>
    obtain ⟨first, hfirst, heq⟩ := h a List.mem_cons_self
    obtain ⟨others, hothers, heqs⟩ := ih fun a' ha' => h a' (List.mem_cons_of_mem _ ha')
    refine ⟨first ++ others, hfirst.append hothers, ?_⟩
    rw [List.flatMap_cons, heq, heqs, List.map_append]

end LiftedFor

section Interfaces

variable {d : Document} {key : String}

/-- What a property of an interface leads to. -/
theorem exists_parts_of_propertyType {model : ModelName}
    {lift : ModelName → Schema → Declaring (List InterfaceDecl)} {property : String × Schema}
    {result : List InterfaceDecl × String} {root : Part}
    (hlift : ∀ m s decls, (lift m s).result = .ok decls →
      ∃ parts child, LiftedFor (s, child) parts ∧ child.name = m.name ∧
        decls = parts.map (·.2) ++ [child])
    (hname : root.2.name = model.name) (hmem : property ∈ root.1.properties?.getD [])
    (hdecl : ∃ p ∈ root.2.properties, p.name = property.1 ∧ p.typeExpr = result.2)
    (h : (propertyType d key model lift property).result = .ok result) :
    ∃ parts, LiftedFor root parts ∧ result.1 = parts.map (·.2) := by
  obtain ⟨name, s⟩ := property
  obtain ⟨decls, type⟩ := result
  rcases propertyType_cases h with ⟨hs, hdecls, rfl⟩ | ⟨-, rfl, -⟩
  · obtain ⟨parts, child, hparts, hchild, rfl⟩ := hlift _ _ _ hdecls
    have hchildName : child.name = root.2.name ++ Text.pascalCase name := by
      rw [hchild, hname, ModelName.lifted]
    obtain ⟨p, hp, hpname, hptype⟩ := hdecl
    have hlifted : LiftedOutOf (s, child) root := by
      refine ⟨name, hmem, hs, hchildName, p, hp, hpname, ?_⟩
      rw [hptype, hchild]
    refine ⟨parts ++ [(s, child)], hparts.concat hlifted, ?_⟩
    rw [List.map_append]
    rfl
  · -- nothing is lifted out of any other property
    exact ⟨[], .nil, rfl⟩

/-- By induction on the levels of lifting that are left. -/
theorem exists_parts_of_interfacesWithin {levels : Nat} {docs parents : List String}
    {model : ModelName} {s : Schema} {decls : List InterfaceDecl}
    (h : (interfacesWithin d key levels docs parents model s).result = .ok decls) :
    ∃ parts root, LiftedFor (s, root) parts ∧ root.name = model.name ∧
      decls = parts.map (·.2) ++ [root] := by
  induction levels generalizing docs parents model s decls with
  | zero => cases h
  | succ levels ih =>
    unfold interfacesWithin at h
    obtain ⟨types, htypes, h⟩ := Traced.result_bind_eq_ok_iff.1 h
    obtain ⟨index, -, h⟩ := Traced.result_bind_eq_ok_iff.1 h
    cases h
    obtain ⟨hall, -⟩ := Traced.mapM_of_ok htypes
    have hlength := hall.length_eq
    let declared := s.properties?.getD []
    let root : InterfaceDecl :=
      { name := model.name, docs, parents
        properties := declared.zipWith (propertyDecl s.required) (types.map (·.2))
        indexType := index }
    -- the type of each property was made together with what was lifted for it
    have heach : ∀ pair ∈ declared.zip types,
        ∃ parts, LiftedFor (s, root) parts ∧ pair.2.1 = parts.map (·.2) := by
      rintro ⟨property, result⟩ hpair
      have hproperty : propertyDecl s.required property result.2 ∈ root.properties := by
        show _ ∈ declared.zipWith (propertyDecl s.required) (types.map (·.2))
        rw [List.zipWith_map_right, ← List.map_uncurry_zip_eq_zipWith]
        exact List.mem_map_of_mem hpair
      exact exists_parts_of_propertyType (fun _ _ _ hdecls => ih hdecls) rfl
        (List.of_mem_zip hpair).1 ⟨_, hproperty, rfl, rfl⟩ (List.forall₂_zip hall hpair)
    obtain ⟨parts, hparts, heq⟩ := LiftedFor.flatMap heach
    have hzip : (declared.zip types).map Prod.snd = types :=
      List.map_snd_zip (Nat.le_of_eq hlength.symm)
    have hflat : types.flatMap (·.1) = (declared.zip types).flatMap (·.2.1) := by
      conv_lhs => rw [← hzip]
      rw [List.flatMap_map]
    refine ⟨parts, root, hparts, rfl, ?_⟩
    rw [← heq, ← hflat]

end Interfaces

/-! ## Groups of declarations -/

/-- The declarations of one schema: interfaces that were lifted, and the model. -/
structure ModelGroup where
  key : String
  schema : Schema
  lifted : List Declaration
  model : Declaration

namespace ModelGroup

def decls (group : ModelGroup) : List Declaration := group.lifted ++ [group.model]

def file (group : ModelGroup) : String := (ModelName.ofKey group.key).file

/-- What the declarations of a group need where they stand. -/
def needs (d : Document) (group : ModelGroup) : List Import :=
  importsOf (modelDecls d group.key group.schema).notes

/-- A model alone, or an interface with those that were lifted for it.  The interface is that
    of the schema itself or of the object by which the schema extends a reference. -/
def IsLifted (s : Schema) (lifted : List Declaration) (model : Declaration) : Prop :=
  lifted = [] ∨ ∃ own root parts, (own = s ∨ ∃ pointer, s.extension? = some (pointer, own)) ∧
    LiftedFor (own, root) parts ∧ model = .interface root ∧ lifted = parts.map (.interface ·.2)

/-- A group that is all that the schema of its key is declared as. -/
structure Sound (d : Document) (group : ModelGroup) : Prop where
  schema : d.schema? group.key = some group.schema
  built : (modelDecls d group.key group.schema).result = .ok group.decls
  name : group.model.name = (ModelName.ofKey group.key).name
  lifted : IsLifted group.schema group.lifted group.model

def contribution (d : Document) (group : ModelGroup) : Contribution :=
  modelContribution d (group.key, group.schema) group.decls

end ModelGroup

/-- The group of a schema that can be declared. -/
def modelGroup? (d : Document) (entry : String × Schema) : Option ModelGroup :=
  match (modelDecls d entry.1 entry.2).result with
  | .ok decls => decls.getLast?.map fun model =>
      { key := entry.1, schema := entry.2, lifted := decls.dropLast, model }
  | .error _ => none

/-- The groups of all schemas that can be declared, in document order. -/
def Document.modelGroups (d : Document) : List ModelGroup := d.modelSchemas.filterMap (modelGroup? d)

section Groups

variable {d : Document} {key : String} {s : Schema} {decls : List Declaration}

/-- What a builder for a model of this name declares, when it succeeds. -/
def BuildsGroup (name : String) (s : Schema) (t : Declaring (List Declaration)) : Prop :=
  ∀ decls, t.result = .ok decls →
    ∃ lifted model, decls = lifted ++ [model] ∧ model.name = name ∧ ModelGroup.IsLifted s lifted model

theorem interfaces_buildsGroup {own : Schema} (docs parents : List String) (model : ModelName)
    (hown : own = s ∨ ∃ pointer, s.extension? = some (pointer, own)) :
    BuildsGroup model.name s (interfaces d key docs parents model own) := by
  intro decls h
  obtain ⟨decls', hdecls, rfl⟩ := Traced.result_map_eq_ok_iff.1 h
  obtain ⟨parts, root, hparts, hname, rfl⟩ := exists_parts_of_interfacesWithin hdecls
  refine ⟨parts.map (.interface ·.2), .interface root, ?_, hname,
    .inr ⟨own, root, parts, hown, hparts, rfl, rfl⟩⟩
  rw [List.map_append, List.map_map]
  rfl

theorem aliasOf_buildsGroup (model : ModelName) :
    BuildsGroup model.name s (aliasOf d key model s) := by
  intro decls h
  obtain ⟨type, -, h⟩ := Traced.result_bind_eq_ok_iff.1 h
  cases h
  exact ⟨[], _, rfl, rfl, .inl rfl⟩

theorem extendingInterface_buildsGroup {pointer : String} {own : Schema} (model : ModelName)
    (hown : s.extension? = some (pointer, own)) :
    BuildsGroup model.name s (extendingInterface d key model s pointer own) := by
  intro decls h
  obtain ⟨target, -, h⟩ := Traced.result_bind_eq_ok_iff.1 h
  dsimp only at h
  -- only an object can be the parent of an interface
  split at h
  · obtain ⟨name, -, h⟩ := Traced.result_bind_eq_ok_iff.1 h
    exact interfaces_buildsGroup s.docs [name] model (.inr ⟨pointer, hown⟩) decls h
  · exact aliasOf_buildsGroup model decls h

theorem modelDecls_buildsGroup : BuildsGroup (ModelName.ofKey key).name s (modelDecls d key s) := by
  unfold modelDecls
  dsimp only
  split
  · -- an enum, out of which nothing is lifted
    intro decls h
    cases h
    exact ⟨[], _, rfl, rfl, .inl rfl⟩
  · split
    · exact interfaces_buildsGroup s.docs [] _ (.inl rfl)
    · split
      · next hown => exact extendingInterface_buildsGroup _ hown
      · exact aliasOf_buildsGroup _

/-- A schema has a group or a record, and its piece says which. -/
theorem modelGroup?_cases (entry : String × Schema) (hs : d.schema? entry.1 = some entry.2) :
    (∃ group, modelGroup? d entry = some group ∧ group.key = entry.1 ∧ group.Sound d ∧
        modelPiece d entry
          = { contribution? := some (group.contribution d), report := { models := 1 } }) ∨
      ∃ e, modelGroup? d entry = none ∧ (modelDecls d entry.1 entry.2).result = .error e ∧
        modelPiece d entry
          = { contribution? := none, report := { skipped := [.because entry.1 e] } } := by
  cases h : (modelDecls d entry.1 entry.2).result with
  | error e =>
    right
    have hnone : modelGroup? d entry = none := by
      rw [modelGroup?, h]
    exact ⟨e, hnone, rfl, modelPiece_of_error h⟩
  | ok decls =>
    left
    obtain ⟨lifted, model, rfl, hname, hlifted⟩ := modelDecls_buildsGroup decls h
    have hgroup : modelGroup? d entry = some ⟨entry.1, entry.2, lifted, model⟩ := by
      rw [modelGroup?, h]
      simp
    exact ⟨_, hgroup, rfl, ⟨hs, h, hname, hlifted⟩, modelPiece_of_ok h⟩

end Groups

/-! ## Accounts -/

section Accounts

variable {d : Document} {entries : List (String × Schema)}

theorem keys_modelSchemas (d : Document) : Entries.keys d.modelSchemas = d.modelKeys := by
  rw [Document.modelKeys, OrderedMap.keys, Entries.keys, Entries.keys, List.filter_map]
  rfl

theorem schema?_of_mem_modelSchemas {entry : String × Schema} (h : entry ∈ d.modelSchemas) :
    d.schema? entry.1 = some entry.2 :=
  Document.mem_schemas_iff.1 (List.mem_filter.1 h).1

theorem key_of_modelGroup? (entry : String × Schema) (group : ModelGroup)
    (h : modelGroup? d entry = some group) : group.key = entry.1 := by
  unfold modelGroup? at h
  split at h
  · obtain ⟨model, -, rfl⟩ := Option.map_eq_some_iff.1 h
    rfl
  · cases h

/-- Each key comes once, as that of a group or of a record. -/
theorem perm_keys (hs : ∀ entry ∈ entries, d.schema? entry.1 = some entry.2) :
    ((entries.filterMap (modelGroup? d)).map (·.key)
      ++ ((entries.map (modelPiece d)).flatMap (·.report.skipped)).map (·.item)).Perm
        (Entries.keys entries) := by
  induction entries with
  | nil => exact .nil
  | cons entry rest ih =>
    have ih := ih fun e he => hs e (List.mem_cons_of_mem _ he)
    have hkeys : Entries.keys (entry :: rest) = entry.1 :: Entries.keys rest := rfl
    rw [hkeys, List.map_cons, List.flatMap_cons]
    -- the key is that of the first group, or else of the first record behind all groups
    rcases modelGroup?_cases entry (hs entry List.mem_cons_self) with
      ⟨group, hgroup, hkey, -, hpiece⟩ | ⟨e, hnone, -, hpiece⟩
    · rw [List.filterMap_cons_some hgroup, hpiece, List.map_cons, hkey]
      exact ih.cons _
    · rw [List.filterMap_cons_none hnone, hpiece, List.map_append]
      exact List.perm_middle.trans (ih.cons _)

theorem skipped_modelPieces : d.modelPieces.flatMap (·.report.skipped) = d.modelFailures := by
  rw [Document.modelPieces, Document.modelFailures, failuresOf_eq_flatMap, List.flatMap_map]
  simp only [skipped_modelPiece]

/-- The contributions of models are those of the groups. -/
theorem contributionsOf_modelPieces :
    contributionsOf d.modelPieces = d.modelGroups.map (·.contribution d) := by
  rw [contributionsOf, Document.modelPieces, List.filterMap_map, Document.modelGroups,
    List.map_filterMap]
  apply List.filterMap_congr
  intro entry hentry
  show (modelPiece d entry).contribution? = (modelGroup? d entry).map (·.contribution d)
  rcases modelGroup?_cases entry (schema?_of_mem_modelSchemas hentry) with
    ⟨group, hgroup, -, -, hpiece⟩ | ⟨e, hnone, -, hpiece⟩
  · rw [hgroup, hpiece, Option.map_some]
  · rw [hnone, hpiece, Option.map_none]

/-- The groups that go to a file, in document order. -/
def Document.groupsIn (d : Document) (path : String) : List ModelGroup :=
  d.modelGroups.filter (·.file = path)

theorem mem_groupsIn {path : String} {group : ModelGroup} :
    group ∈ d.groupsIn path ↔ group ∈ d.modelGroups ∧ group.file = path := by
  simp [Document.groupsIn]

theorem file_contribution (group : ModelGroup) : (group.contribution d).file = group.file := by
  rw [ModelGroup.contribution, modelContribution_file, ModelGroup.file]

theorem path_contribution (group : ModelGroup) : (group.contribution d).path = group.file := by
  rw [ModelGroup.contribution, modelContribution_path, ModelGroup.file]

theorem contributionsTo_modelGroups (path : String) :
    contributionsTo path (d.modelGroups.map (·.contribution d))
      = (d.groupsIn path).map (·.contribution d) := by
  have hsame : d.modelGroups.filter
      ((fun c : Contribution => decide (c.file = path)) ∘ (·.contribution d)) = d.groupsIn path := by
    apply List.filter_congr
    intro group _
    simp only [Function.comp_apply, file_contribution]
  rw [contributionsTo, List.filter_map, hsame]

theorem sound_of_mem_modelGroups {group : ModelGroup} (h : group ∈ d.modelGroups) :
    group.Sound d := by
  obtain ⟨entry, hentry, hgroup⟩ := List.mem_filterMap.1 h
  rcases modelGroup?_cases entry (schema?_of_mem_modelSchemas hentry) with
    ⟨group', hgroup', -, hsound, -⟩ | ⟨e, hnone, -, -⟩
  · rw [hgroup'] at hgroup
    cases hgroup
    exact hsound
  · rw [hnone] at hgroup
    cases hgroup

/-- The files that the groups of a document make. -/
def Document.modelProject (d : Document) : Project :=
  .ofContributions (d.modelGroups.map (·.contribution d))

theorem exists_file_of_mem_modelGroups {group : ModelGroup} (h : group ∈ d.modelGroups) :
    ∃ f, d.modelProject.get? group.file = some f := by
  obtain ⟨f, hf, -⟩ := Project.exists_file_of_mem (List.mem_map_of_mem (f := (·.contribution d)) h)
  rw [file_contribution] at hf
  exact ⟨f, hf⟩

/-- A file is there for its groups, and declares what they do. -/
theorem declarations_of_modelProject {path : String} {f : SourceFile}
    (h : d.modelProject.get? path = some f) :
    d.groupsIn path ≠ [] ∧ f.declarations = (d.groupsIn path).flatMap (·.decls) := by
  have hdecls := Project.declarations_of_get? h
  have hsome := (Project.get?_ofContributions.1 h).1
  rw [contributionsTo_modelGroups] at hdecls hsome
  rw [List.flatMap_map] at hdecls
  refine ⟨fun hnil => hsome ?_, hdecls⟩
  rw [hnil, List.map_nil]

/-- A file imports what its groups need. -/
theorem has_of_modelProject {path module name : String} {f : SourceFile}
    (h : d.modelProject.get? path = some f) :
    f.imports.Has module name ↔
      ∃ group ∈ d.groupsIn path, ∃ i ∈ group.needs d, i.target? path = some (module, name) := by
  rw [Project.has_of_get? h, contributionsTo_modelGroups]
  constructor
  · rintro ⟨c, hc, i, hi, htarget⟩
    obtain ⟨group, hgroup, rfl⟩ := List.mem_map.1 hc
    have hfile := (mem_groupsIn.1 hgroup).2
    rw [path_contribution, hfile] at htarget
    exact ⟨group, hgroup, i, hi, htarget⟩
  · rintro ⟨group, hgroup, i, hi, htarget⟩
    have hfile := (mem_groupsIn.1 hgroup).2
    refine ⟨group.contribution d, List.mem_map_of_mem hgroup, i, hi, ?_⟩
    rw [path_contribution, hfile]
    exact htarget

/-- What the models of a document are, and what is said of those that are missing. -/
structure Accounts (d : Document) (g : Generation) : Prop where
  /-- A key for which a model is generated has one group or else one record. -/
  parted : ∀ key, (d.modelGroups.map (·.key)).count key
      + (g.report.skipped.map (·.item)).count key = if key ∈ d.modelKeys then 1 else 0
  total : g.report.models + g.report.skipped.length = d.modelKeys.length
  /-- Groups and records are in the order of the document. -/
  groups_order : (d.modelGroups.map (·.key)).Sublist d.modelKeys
  records_order : (g.report.skipped.map (·.item)).Sublist d.modelKeys
  groups : ∀ group ∈ d.modelGroups, group.Sound d
  records : ∀ record ∈ g.report.skipped, ∃ s e, d.schema? record.item = some s ∧
    (modelDecls d record.item s).result = .error e ∧ e.IsSchemaFault ∧
    record = .because record.item e
  /-- Every group is in its file. -/
  placed : ∀ group ∈ d.modelGroups, ∃ f, g.project.get? group.file = some f
  /-- A file has the groups that are its own, and nothing besides. -/
  files : ∀ path f, g.project.get? path = some f →
    d.groupsIn path ≠ [] ∧ f.declarations = (d.groupsIn path).flatMap (·.decls)
  imports : ∀ path f, g.project.get? path = some f → ∀ module name, f.imports.Has module name ↔
    ∃ group ∈ d.groupsIn path, ∃ i ∈ group.needs d, i.target? path = some (module, name)

theorem exists_error_of_mem_skipped {record : Skipped}
    (h : record ∈ d.modelPieces.flatMap (·.report.skipped)) :
    ∃ s e, d.schema? record.item = some s ∧ (modelDecls d record.item s).result = .error e ∧
      e.IsSchemaFault ∧ record = .because record.item e := by
  obtain ⟨piece, hpiece, hrecord⟩ := List.mem_flatMap.1 h
  obtain ⟨entry, hentry, rfl⟩ := List.mem_map.1 hpiece
  have hs := schema?_of_mem_modelSchemas hentry
  rcases modelGroup?_cases entry hs with ⟨group, -, -, -, heq⟩ | ⟨e, -, herror, heq⟩
  · rw [heq] at hrecord
    exact absurd hrecord List.not_mem_nil
  · rw [heq] at hrecord
    rw [List.mem_singleton.1 hrecord]
    exact ⟨entry.2, e, hs, herror, (modelDecls_sound d entry.1 entry.2).faults e herror, rfl⟩

/-- Whatever document models are generated for, the account of them is exact. -/
theorem generateModels_accounts {g : Generation} (h : generateModels d = .ok g) :
    Accounts d g := by
  have hg : g = .ofPieces d.modelPieces := by
    rw [generateModels_eq] at h
    obtain ⟨_, -, rfl⟩ := map_eq_ok_iff.1 h
    rfl
  have hschemas : ∀ entry ∈ d.modelSchemas, d.schema? entry.1 = some entry.2 :=
    fun entry hentry => schema?_of_mem_modelSchemas hentry
  have hskipped : g.report.skipped = d.modelPieces.flatMap (·.report.skipped) := by
    rw [hg, Generation.skipped_ofPieces]
  have hperm : (d.modelGroups.map (·.key) ++ g.report.skipped.map (·.item)).Perm d.modelKeys := by
    rw [hskipped, ← keys_modelSchemas]
    exact perm_keys hschemas
  have hnodup : d.modelKeys.Nodup := by
    rw [← keys_modelSchemas]
    exact nodup_keys_modelSchemas d
  have hproject : g.project = d.modelProject := by
    rw [hg, Generation.project_ofPieces, contributionsOf_modelPieces, Document.modelProject]
  constructor
  case parted =>
    intro key
    rw [← List.count_append, hperm.count_eq, hnodup.count]
  case total =>
    have hmodels := sum_models_modelPieces (d := d) d.modelSchemas
    rw [hg, Generation.models_ofPieces, ← hg, hskipped, skipped_modelPieces, ← keys_modelSchemas,
      Document.modelPieces, List.map_map, Entries.keys, List.length_map]
    exact hmodels
  case groups_order =>
    rw [← keys_modelSchemas]
    exact map_filterMap_sublist key_of_modelGroup? d.modelSchemas
  case records_order =>
    rw [hskipped, skipped_modelPieces, ← keys_modelSchemas]
    apply map_filterMap_sublist
    intro entry record hrecord
    obtain ⟨e, -, rfl⟩ := Option.map_eq_some_iff.1 hrecord
    rfl
  case groups => exact fun group hgroup => sound_of_mem_modelGroups hgroup
  case records =>
    intro record hrecord
    rw [hskipped] at hrecord
    exact exists_error_of_mem_skipped hrecord
  case placed =>
    intro group hgroup
    rw [hproject]
    exact exists_file_of_mem_modelGroups hgroup
  case files =>
    intro path f hf
    rw [hproject] at hf
    exact declarations_of_modelProject hf
  case imports =>
    intro path f hf module name
    rw [hproject] at hf
    exact has_of_modelProject hf

end Accounts

/-- A schema with an object in an object inside it, one that refers to nothing, one that the
    framework has, and an alias. -/
def mixedDocument : Document :=
  let text : Schema := { type := some (.single "string") }
  let innermost : Schema := { propertyEntries := some [("z", text)] }
  let inner : Schema := { propertyEntries := some [("y", innermost)] }
  { components.schemas := .ofList
      [("a.A", { propertyEntries := some [("x", inner), ("t", text)] }),
       ("a.B", .referenceTo "a.Missing"), ("wow.C", text), ("a.D", text)] }

theorem generateModels_accounts_mixed :
    ∃ g, generateModels mixedDocument = .ok g ∧ g.report.models = 2 ∧
      (g.project.get? "a/types.ts").map (·.declarations.map (·.name)) = some ["AXY", "AX", "A", "D"] ∧
      Accounts mixedDocument g := by
  have hrun : (generateModels mixedDocument).toOption.any (fun g => g.report.models = 2 ∧
      (g.project.get? "a/types.ts").map (·.declarations.map (·.name))
        = some ["AXY", "AX", "A", "D"]) = true := by
    decide +kernel
  obtain ⟨g, hg, hboth⟩ := exists_ok_of_any hrun
  obtain ⟨hmodels, hnames⟩ := of_decide_eq_true hboth
  exact ⟨g, hg, hmodels, hnames, generateModels_accounts hg⟩

end ClientGen
