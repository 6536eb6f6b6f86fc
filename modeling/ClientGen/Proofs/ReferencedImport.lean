/-
  ClientGen.Proofs.ReferencedImport

  What the type of a schema imports.  Every reference in the tree of the schema is noted
  once it is passed, and nothing else, so a scope gains what these references mean for
  its file (`needAll_typeOf`).
-/
import ClientGen.Proofs.Contribution
import ClientGen.Proofs.InlineTree

namespace ClientGen

open TypeScript

/-! ## Notes of a walk along the tree -/

/-- The import of the model that a reference to a component means. -/
def TypeScript.Import.ofKey (key : String) : Import := .model (.ofReference key)

/-- The component keys to which a schema refers within its tree. -/
def Schema.referencedKeys (s : Schema) : List String := s.nodes.filterMap Node.key?

section Walk

variable {d : Document} {referrer : String} {nodes before after : List Node} {n : Node}
  {e : GenerationError}

theorem visits_of_passable (h : ∀ n ∈ nodes, n.Passable d) :
    forM nodes (Node.visit d referrer (nestingLimit + 1))
      = ⟨(nodes.filterMap Node.key?).map .ofKey, .ok ()⟩ := by
  induction nodes with
  | nil => rfl
  | cons n rest ih =>
    obtain ⟨hn, hrest⟩ := List.forall_mem_cons.1 h
    rw [List.forM_cons, hn.visit_eq, ih hrest, Traced.bind_of_ok rfl]
    cases hkey : n.key? with
    | none => rw [List.filterMap_cons_none hkey]; rfl
    | some key => rw [List.filterMap_cons_some hkey]; rfl

/-- A walk that fails has noted what stands before the node at which it fails. -/
theorem visits_of_fails (hbefore : ∀ n ∈ before, n.Passable d) (hn : n.Fails d referrer e) :
    forM (before ++ n :: after) (Node.visit d referrer (nestingLimit + 1))
      = ⟨(before.filterMap Node.key?).map .ofKey, .error e⟩ := by
  -- what comes after the failing node is not visited
  have hrest : forM (n :: after) (Node.visit d referrer (nestingLimit + 1)) = ⟨[], .error e⟩ := by
    rw [List.forM_cons, hn.visit_eq]
    rfl
  rw [List.forM_append, visits_of_passable hbefore, hrest, Traced.bind_of_ok rfl, List.append_nil]

variable {s : Schema} {type : String}

theorem notes_typeOf_of_ok (h : (typeOf d referrer s).result = .ok type) :
    (typeOf d referrer s).notes = s.referencedKeys.map .ofKey := by
  have hnodes := exists_type_iff.1 ⟨type, h⟩
  rw [← Traced.notes_course, course_typeOf, visits_of_passable hnodes]
  rfl

theorem notes_typeOf_of_error (h : (typeOf d referrer s).result = .error e) :
    ∃ keys, keys <+: s.referencedKeys ∧ (typeOf d referrer s).notes = keys.map .ofKey := by
  obtain ⟨before, n, after, hnodes, hbefore, hn⟩ := typeOf_eq_error_iff.1 h
  refine ⟨before.filterMap Node.key?, ?_, ?_⟩
  · rw [Schema.referencedKeys, hnodes]
    exact (List.prefix_append _ _).filterMap _
  · rw [← Traced.notes_course, course_typeOf, hnodes, visits_of_fails hbefore hn]

end Walk

/-! ## Entries of a scope -/

namespace TypeScript.ImportScope

variable {scope : ImportScope} {module : String}

theorem mem_keys_need (i : Import) :
    module ∈ (scope.need i).imports.keys ↔
      (∃ name, i.target? scope.file = some (module, name)) ∨ module ∈ scope.imports.keys := by
  rw [need_eq]
  cases i.target? scope.file with
  | none => simp
  | some entry =>
    rw [Option.elim_some, add, Imports.add, SortedMap.mem_keys_alter]
    simp only [Option.some.injEq, Prod.ext_iff, exists_and_left, exists_eq', and_true,
      eq_comm (a := module)]

theorem mem_keys_needAll (needs : List Import) :
    module ∈ (scope.needAll needs).imports.keys ↔
      (∃ i ∈ needs, ∃ name, i.target? scope.file = some (module, name)) ∨
        module ∈ scope.imports.keys := by
  induction needs generalizing scope with
  | nil => simp [needAll]
  | cons i rest ih =>
    have hstep : scope.needAll (i :: rest) = (scope.need i).needAll rest := rfl
    rw [hstep, ih, mem_keys_need, file_need]
    simp only [List.mem_cons, exists_eq_or_imp, or_assoc]
    exact or_left_comm

theorem file_needAll (needs : List Import) : (scope.needAll needs).file = scope.file := by
  induction needs generalizing scope with
  | nil => rfl
  | cons i rest ih => exact ih.trans (file_need i)

/-- Whether a scope differs from what it was in what references to components mean for its
    file: in the names, and in the modules for which there is an entry. -/
structure Gains (scope after : ImportScope) (keys : List String) : Prop where
  file : after.file = scope.file
  has : ∀ module name, after.imports.Has module name ↔
    (∃ key ∈ keys, (Import.ofKey key).target? scope.file = some (module, name)) ∨
      scope.imports.Has module name
  modules : ∀ module, module ∈ after.imports.keys ↔
    (∃ key ∈ keys, ∃ name, (Import.ofKey key).target? scope.file = some (module, name)) ∨
      module ∈ scope.imports.keys

theorem gains_needAll (scope : ImportScope) (keys : List String) :
    scope.Gains (scope.needAll (keys.map .ofKey)) keys where
  file := file_needAll _
  has module name := by
    rw [has_needAll]
    simp only [List.mem_map, exists_exists_and_eq_and]
  modules module := by
    rw [mem_keys_needAll]
    simp only [List.mem_map, exists_exists_and_eq_and]

end TypeScript.ImportScope

/-- A scope that takes what is noted for the type of a schema gains the components to which the
    schema refers within its tree, and nothing else; where the type fails, the first of them. -/
theorem needAll_typeOf (d : Document) (referrer : String) (s : Schema) (scope : ImportScope) :
    match (typeOf d referrer s).result with
    | .ok _ => scope.Gains (scope.needAll (typeOf d referrer s).notes) s.referencedKeys
    | .error _ => ∃ keys, keys <+: s.referencedKeys ∧
        scope.Gains (scope.needAll (typeOf d referrer s).notes) keys := by
  cases h : (typeOf d referrer s).result with
  | ok type =>
    rw [notes_typeOf_of_ok h]
    exact scope.gains_needAll _
  | error e =>
    obtain ⟨keys, hkeys, hnotes⟩ := notes_typeOf_of_error h
    rw [hnotes]
    exact ⟨keys, hkeys, scope.gains_needAll keys⟩

end ClientGen
