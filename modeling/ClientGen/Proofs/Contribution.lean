/-
  ClientGen.Proofs.Contribution

  What is in a project to which contributions were made one after the other.  A
  file declares what was contributed to it, in order, and imports what these
  declarations need and the file does not declare by itself.
-/
import ClientGen.Proofs.FileCall

namespace ClientGen

open TypeScript

/-! ## Imports -/

namespace TypeScript

/-- Whether a name is imported from a module. -/
def Imports.Has (imports : Imports) (module name : String) : Prop :=
  ∃ names, imports.get? module = some names ∧ name ∈ names.keys

instance (imports : Imports) (module name : String) : Decidable (imports.Has module name) :=
  decidable_of_iff ((imports.get? module).any (·.keys.contains name) = true) <| by
    simp [Imports.Has, Option.any_eq_true]

namespace Imports

variable {imports others : Imports} {module name m n : String}

@[simp] theorem not_has_empty : ¬Has {} m n := by
  rintro ⟨names, h, -⟩
  cases h

/-- A change of one module's names, in terms of what is imported. -/
theorem has_alter {f : Option NameSet → NameSet} {added : String → Prop}
    (hf : ∀ names k, k ∈ (f names).keys ↔ added k ∨ k ∈ (names.getD {}).keys) :
    Has (imports.alter module f) m n ↔ (m = module ∧ added n) ∨ imports.Has m n := by
  unfold Has
  by_cases hm : m = module
  · subst hm
    cases himports : imports.get? m with
    | none =>
      -- a module that is not there yet counts as one without names
      have hnone : n ∉ (({} : NameSet)).keys := List.not_mem_nil
      simp [himports, hf, hnone]
    | some names => simp [himports, hf]
  · simp [hm]

@[simp] theorem has_add :
    (imports.add module name).Has m n ↔ (m = module ∧ n = name) ∨ imports.Has m n :=
  has_alter fun _ _ => NameSet.mem_keys_add

/-- The entries of imports say what is imported. -/
theorem has_iff_mem :
    imports.Has m n ↔ ∃ entry ∈ imports.entries, entry.1 = m ∧ n ∈ entry.2.keys := by
  constructor
  · rintro ⟨names, h, hn⟩
    exact ⟨(m, names), SortedMap.get?_eq_some_iff.1 h, rfl, hn⟩
  · rintro ⟨⟨_, names⟩, h, rfl, hn⟩
    exact ⟨names, SortedMap.get?_eq_some_iff.2 h, hn⟩

theorem has_foldl {entries : List (String × NameSet)} :
    Has (entries.foldl (fun acc entry => SortedMap.alter acc entry.1 fun names =>
      NameSet.addAll (names.getD {}) entry.2.keys) imports) m n ↔
        (∃ entry ∈ entries, entry.1 = m ∧ n ∈ entry.2.keys) ∨ imports.Has m n := by
  induction entries generalizing imports with
  | nil => simp
  | cons entry rest ih =>
    have hentry : Has (SortedMap.alter imports entry.1 fun names =>
        NameSet.addAll (names.getD {}) entry.2.keys) m n ↔
          (m = entry.1 ∧ n ∈ entry.2.keys) ∨ imports.Has m n :=
      has_alter fun _ _ => NameSet.mem_keys_addAll
    rw [List.foldl_cons, ih, hentry]
    simp only [List.mem_cons, exists_eq_or_imp, eq_comm (a := m), or_assoc]
    exact or_left_comm

@[simp] theorem has_union : (imports.union others).Has m n ↔ others.Has m n ∨ imports.Has m n := by
  unfold union
  rw [has_foldl, ← has_iff_mem]

/-- Whether something is imported from every module that is listed. -/
def Full (imports : Imports) : Prop := ∀ module ∈ imports.keys, ∃ name, imports.Has module name

theorem full_empty : Full {} := fun _ h => absurd h List.not_mem_nil

/-- Imports of the same names from the same modules are the same. -/
theorem Full.ext (h : imports.Full) (h' : others.Full)
    (hhas : ∀ m n, imports.Has m n ↔ others.Has m n) : imports = others := by
  have hkeys {i j : Imports} (hi : i.Full) (hsub : ∀ m n, i.Has m n → j.Has m n) {m : String}
      {names : NameSet} (hm : i.get? m = some names) : ∃ names', j.get? m = some names' := by
    obtain ⟨name, hname⟩ := hi m (SortedMap.mem_keys_iff.2 ⟨names, hm⟩)
    obtain ⟨names', hnames', -⟩ := hsub m name hname
    exact ⟨names', hnames'⟩
  apply SortedMap.ext_get?
  intro m
  cases hm : imports.get? m with
  | none =>
    cases hm' : others.get? m with
    | none => rfl
    | some names =>
      obtain ⟨names', hnames'⟩ := hkeys h' (fun m n => (hhas m n).2) hm'
      rw [hm] at hnames'
      cases hnames'
  | some names =>
    obtain ⟨names', hm'⟩ := hkeys h (fun m n => (hhas m n).1) hm
    have hsame : names = names' := by
      apply NameSet.ext_keys
      intro n
      have hn := hhas m n
      simpa only [Has, hm, hm', Option.some.injEq, exists_eq_left'] using hn
    rw [hm', hsame]

/-- Names that are added to a module are imported from it. -/
theorem Full.alter (h : imports.Full) {f : Option NameSet → NameSet} {added : String → Prop}
    (hf : ∀ names k, k ∈ (f names).keys ↔ added k ∨ k ∈ (names.getD {}).keys)
    (hadded : ∃ name, added name) : Full (imports.alter module f) := by
  intro m hm
  rcases SortedMap.mem_keys_alter.1 hm with rfl | hm
  · obtain ⟨name, hname⟩ := hadded
    exact ⟨name, (has_alter hf).2 (.inl ⟨rfl, hname⟩)⟩
  · obtain ⟨name, hname⟩ := h m hm
    exact ⟨name, (has_alter hf).2 (.inr hname)⟩

theorem Full.add (h : imports.Full) (module name : String) : (imports.add module name).Full :=
  h.alter (fun _ _ => NameSet.mem_keys_add) ⟨name, rfl⟩

theorem Full.union (h : imports.Full) (h' : others.Full) : (imports.union others).Full := by
  have hfold (entries : List (String × NameSet)) (hnames : ∀ entry ∈ entries, ∃ n, n ∈ entry.2.keys)
      (i : Imports) (hi : i.Full) : Full (entries.foldl (fun acc entry =>
        SortedMap.alter acc entry.1 fun names => NameSet.addAll (names.getD {}) entry.2.keys) i) := by
    induction entries generalizing i with
    | nil => exact hi
    | cons entry rest ih =>
      apply ih fun e he => hnames e (List.mem_cons_of_mem _ he)
      exact hi.alter (fun _ _ => NameSet.mem_keys_addAll) (hnames entry List.mem_cons_self)
  apply hfold others.entries _ imports h
  rintro ⟨m, names⟩ hentry
  have hm := SortedMap.get?_eq_some_iff.2 hentry
  obtain ⟨n, names', hnames', hn⟩ := h' m (SortedMap.mem_keys_iff.2 ⟨names, hm⟩)
  rw [hm] at hnames'
  cases hnames'
  exact ⟨n, hn⟩

end Imports

/-- The module and the name by which the file at `source` imports what it needs, unless
    the file declares it. -/
def Import.target? (source : String) : Import → Option (String × String)
  | .model m =>
    if m.isExternal then some (m.path, m.name)
    else if m.file = source then none
    else some (FilePath.relativeModule source m.file, m.name)
  | .name module exported => some (module, exported)

namespace ImportScope

variable {scope : ImportScope} {m n : String}

/-- A need adds its target, if there is one. -/
theorem need_eq (i : Import) :
    scope.need i = (i.target? scope.file).elim scope fun entry => scope.add entry.1 entry.2 := by
  cases i with
  | model model =>
    have hmodel : scope.need (.model model) =
        if model.isExternal then scope.add model.path model.name
        else if model.file = scope.file then scope
        else scope.add (FilePath.relativeModule scope.file model.file) model.name := rfl
    rw [hmodel, Import.target?]
    by_cases hexternal : model.isExternal = true
    · rw [if_pos hexternal, if_pos hexternal, Option.elim_some]
    · rw [if_neg hexternal, if_neg hexternal]
      by_cases hfile : model.file = scope.file
      · rw [if_pos hfile, if_pos hfile, Option.elim_none]
      · rw [if_neg hfile, if_neg hfile, Option.elim_some]
  | name module name => rfl

@[simp] theorem file_need (i : Import) : (scope.need i).file = scope.file := by
  rw [need_eq]
  cases i.target? scope.file <;> rfl

theorem has_need (i : Import) :
    (scope.need i).imports.Has m n ↔ i.target? scope.file = some (m, n) ∨ scope.imports.Has m n := by
  rw [need_eq]
  cases i.target? scope.file with
  | none => simp
  | some entry =>
    rw [Option.elim_some, add, Imports.has_add, Option.some.injEq, Prod.ext_iff, eq_comm (a := m),
      eq_comm (a := n)]

/-- A scope that starts empty imports the targets of its needs. -/
theorem has_needAll (needs : List Import) :
    (scope.needAll needs).imports.Has m n ↔
      (∃ i ∈ needs, i.target? scope.file = some (m, n)) ∨ scope.imports.Has m n := by
  induction needs generalizing scope with
  | nil => simp [needAll]
  | cons i rest ih =>
    have hstep : scope.needAll (i :: rest) = (scope.need i).needAll rest := rfl
    rw [hstep, ih, has_need, file_need]
    simp only [List.mem_cons, exists_eq_or_imp, or_assoc]
    exact or_left_comm

theorem full_need (h : scope.imports.Full) (i : Import) : (scope.need i).imports.Full := by
  rw [need_eq]
  cases i.target? scope.file with
  | none => exact h
  | some entry => exact h.add _ _

theorem full_needAll (h : scope.imports.Full) (needs : List Import) :
    (scope.needAll needs).imports.Full := by
  induction needs generalizing scope with
  | nil => exact h
  | cons i rest ih => exact ih (full_need h i)

end ImportScope

end TypeScript

/-! ## Contributions -/

/-- Declarations for one file, with the imports that they need there. -/
structure Contribution where
  path : String
  needs : List Import
  decls : List Declaration

/-- The file of a contribution. -/
def Contribution.file (c : Contribution) : String := FilePath.normalize c.path

/-- The contributions that go to a file. -/
def contributionsTo (file : String) (cs : List Contribution) : List Contribution :=
  cs.filter (·.file = file)

theorem mem_contributionsTo {file : String} {cs : List Contribution} {c : Contribution} :
    c ∈ contributionsTo file cs ↔ c ∈ cs ∧ c.file = file := by
  simp [contributionsTo]

/-- The file with the declarations and imports of a contribution. -/
def TypeScript.SourceFile.take (f : SourceFile) (c : Contribution) : SourceFile :=
  (f.mergeImports ((ImportScope.forFile c.path).needAll c.needs)).declareAll c.decls

/-- The call that makes a contribution. -/
def Contribution.call (c : Contribution) : FileCall := ⟨c.path, (·.take c)⟩

/-- The project with a contribution in its file. -/
def TypeScript.Project.contribute (p : Project) (c : Contribution) : Project :=
  p.update c.path (·.take c)

namespace TypeScript.SourceFile

variable {f : SourceFile} {cs : List Contribution} {m n : String}

theorem declarations_foldl_take :
    (cs.foldl take f).declarations = f.declarations ++ cs.flatMap (·.decls) := by
  induction cs generalizing f with
  | nil => simp
  | cons c rest ih =>
    rw [List.foldl_cons, ih, List.flatMap_cons, ← List.append_assoc]
    rfl

theorem has_take (c : Contribution) :
    (f.take c).imports.Has m n ↔
      (∃ i ∈ c.needs, i.target? c.path = some (m, n)) ∨ f.imports.Has m n := by
  have hscope := @ImportScope.has_needAll (.forFile c.path) m n c.needs
  simp only [ImportScope.forFile, Imports.not_has_empty, or_false] at hscope
  rw [← hscope]
  exact Imports.has_union

theorem has_foldl_take :
    (cs.foldl take f).imports.Has m n ↔
      (∃ c ∈ cs, ∃ i ∈ c.needs, i.target? c.path = some (m, n)) ∨ f.imports.Has m n := by
  induction cs generalizing f with
  | nil => simp
  | cons c rest ih =>
    rw [List.foldl_cons, ih, has_take]
    simp only [List.mem_cons, exists_eq_or_imp, or_assoc]
    exact or_left_comm

theorem full_foldl_take (h : f.imports.Full) (cs : List Contribution) :
    (cs.foldl take f).imports.Full := by
  induction cs generalizing f with
  | nil => exact h
  | cons c rest ih => exact ih (h.union (ImportScope.full_needAll Imports.full_empty c.needs))

end TypeScript.SourceFile

namespace TypeScript.Project

variable {cs : List Contribution} {file : String} {f : SourceFile}

theorem foldl_contribute (p : Project) (cs : List Contribution) :
    cs.foldl contribute p = p.afterCalls (cs.map Contribution.call) := by
  rw [afterCalls, List.foldl_map]
  rfl

theorem callsTo_contributions (file : String) (cs : List Contribution) :
    callsTo file (cs.map Contribution.call) = (contributionsTo file cs).map Contribution.call :=
  List.filter_map

theorem SourceFile.changedBy_contributions (f : SourceFile) (cs : List Contribution) :
    f.changedBy (cs.map Contribution.call) = cs.foldl SourceFile.take f := by
  rw [SourceFile.changedBy, List.foldl_map]
  rfl

/-- A project of contributions. -/
def ofContributions (cs : List Contribution) : Project := cs.foldl contribute {}

theorem get?_ofContributions :
    (ofContributions cs).get? file = some f ↔
      contributionsTo file cs ≠ [] ∧ (contributionsTo file cs).foldl SourceFile.take {} = f := by
  rw [ofContributions, foldl_contribute, get?_afterCalls_empty, callsTo_contributions,
    SourceFile.changedBy_contributions, Ne, List.map_eq_nil_iff]

/-- A file that is not there got no contribution. -/
theorem contributionsTo_of_get?_eq_none (h : (ofContributions cs).get? file = none) :
    contributionsTo file cs = [] := by
  by_cases hcs : contributionsTo file cs = []
  · exact hcs
  · rw [get?_ofContributions.2 ⟨hcs, rfl⟩] at h
    cases h

/-- The declarations of a file are those contributed to it. -/
theorem declarations_of_get? (h : (ofContributions cs).get? file = some f) :
    f.declarations = (contributionsTo file cs).flatMap (·.decls) := by
  obtain ⟨-, rfl⟩ := get?_ofContributions.1 h
  rw [SourceFile.declarations_foldl_take]
  rfl

/-- The imports of a file are those that the contributions to it need. -/
theorem has_of_get? {m n : String} (h : (ofContributions cs).get? file = some f) :
    f.imports.Has m n ↔
      ∃ c ∈ contributionsTo file cs, ∃ i ∈ c.needs, i.target? c.path = some (m, n) := by
  obtain ⟨-, rfl⟩ := get?_ofContributions.1 h
  rw [SourceFile.has_foldl_take]
  simp

theorem full_of_get? (h : (ofContributions cs).get? file = some f) : f.imports.Full := by
  obtain ⟨-, rfl⟩ := get?_ofContributions.1 h
  exact SourceFile.full_foldl_take Imports.full_empty _

/-- A contribution is in the file to which it goes. -/
theorem exists_file_of_mem {c : Contribution} (h : c ∈ cs) :
    ∃ f, (ofContributions cs).get? c.file = some f ∧ ∀ decl ∈ c.decls, decl ∈ f.declarations := by
  have hmem : c ∈ contributionsTo c.file cs := mem_contributionsTo.2 ⟨h, rfl⟩
  have hget := get?_ofContributions.2 ⟨List.ne_nil_of_mem hmem, rfl⟩
  refine ⟨_, hget, fun decl hdecl => ?_⟩
  rw [declarations_of_get? hget]
  exact List.mem_flatMap_of_mem hmem hdecl

end TypeScript.Project

end ClientGen
