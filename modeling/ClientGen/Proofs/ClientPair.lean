/-
  ClientGen.Proofs.ClientPair

  What becomes of the methods of a pair of clients.  Every item has either a
  method in the plain client or one record, whether it fails does not depend on
  the items before it, and every method was built for an item.
-/
import ClientGen.Proofs.Reference

namespace ClientGen

open TypeScript

/-! ## Records -/

/-- The records of the items that fail. -/
def failuresOf {α : Type} (label : α → String) (fault? : α → Option GenerationError)
    (items : List α) : List Skipped :=
  items.filterMap fun a => (fault? a).map (.because (label a))

theorem mem_failuresOf {α : Type} {label : α → String} {fault? : α → Option GenerationError}
    {items : List α} {record : Skipped} (h : record ∈ failuresOf label fault? items) :
    ∃ a ∈ items, ∃ e, fault? a = some e ∧ record = .because (label a) e := by
  obtain ⟨a, ha, heq⟩ := List.mem_filterMap.1 h
  obtain ⟨e, he, rfl⟩ := Option.map_eq_some_iff.1 heq
  exact ⟨a, ha, e, he, rfl⟩

theorem failuresOf_eq_flatMap {α : Type} (label : α → String)
    (fault? : α → Option GenerationError) (items : List α) :
    failuresOf label fault? items
      = items.flatMap fun a => ((fault? a).map (.because (label a))).toList :=
  List.filterMap_eq_flatMap_toList _ items

theorem failuresOf_cons {α : Type} (label : α → String) (fault? : α → Option GenerationError)
    (a : α) (rest : List α) :
    failuresOf label fault? (a :: rest)
      = ((fault? a).map (.because (label a))).toList ++ failuresOf label fault? rest := by
  rw [failuresOf_eq_flatMap, failuresOf_eq_flatMap, List.flatMap_cons]

/-! ## Clients under construction -/

namespace ClientPair

variable {c : ClientPair} {item : String} {built : Importing (MethodDecl × Option MethodDecl)}

/-- A method that fails is recorded once. -/
theorem skipped_addBuilt :
    (c.addBuilt item built).skipped = c.skipped ++ (built.fault?.map (.because item)).toList := by
  unfold addBuilt Traced.fault?
  cases built.result with
  | ok methods => simp [addMethods]
  | error e => rfl

/-- What is added is either a method or a record. -/
theorem length_addBuilt :
    (c.addBuilt item built).plain.methods.length + (c.addBuilt item built).skipped.length
      = c.plain.methods.length + c.skipped.length + 1 := by
  unfold addBuilt
  cases built.result with
  | ok methods =>
    simp only [addMethods, ClassDecl.addMethod, List.length_append, List.length_singleton]
    omega
  | error e =>
    simp only [List.length_append, List.length_singleton]
    omega

/-- A method that fails needs nothing. -/
theorem mem_needs_addBuilt {i : Import} (h : i ∈ (c.addBuilt item built).needs) :
    i ∈ c.needs ∨ i ∈ built.notes := by
  unfold addBuilt at h
  split at h
  · exact List.mem_append.1 h
  · exact .inl h

theorem mem_needs_addBuilt_of_mem {i : Import} (h : i ∈ c.needs) :
    i ∈ (c.addBuilt item built).needs := by
  unfold addBuilt
  split
  · exact List.mem_append_left _ h
  · exact h

theorem mem_plain_addBuilt_of_mem {m : MethodDecl} (h : m ∈ c.plain.methods) :
    m ∈ (c.addBuilt item built).plain.methods := by
  unfold addBuilt
  split
  · exact List.mem_append_left _ h
  · exact h

/-- Methods that are built need what was noted. -/
theorem needs_addBuilt {methods : MethodDecl × Option MethodDecl} (h : built.result = .ok methods) :
    (c.addBuilt item built).needs = c.needs ++ built.notes := by
  unfold addBuilt
  rw [h]

/-- The methods of both clients. -/
def methods (c : ClientPair) : List MethodDecl := c.plain.methods ++ c.stream.methods

theorem mem_methods_addBuilt {m : MethodDecl} (h : m ∈ (c.addBuilt item built).methods) :
    m ∈ c.methods ∨
      ∃ plain stream?, built.result = .ok (plain, stream?) ∧ (m = plain ∨ stream? = some m) := by
  unfold addBuilt at h
  cases hresult : built.result with
  | error e =>
    rw [hresult] at h
    exact .inl h
  | ok methods =>
    obtain ⟨plain, stream?⟩ := methods
    rw [hresult] at h
    rcases List.mem_append.1 h with h | h
    · rcases List.mem_append.1 h with h | h
      · exact .inl (List.mem_append_left _ h)
      · exact .inr ⟨plain, stream?, rfl, .inl (List.mem_singleton.1 h)⟩
    · cases stream? with
      | none => exact .inl (List.mem_append_right _ h)
      | some stream =>
        rcases List.mem_append.1 h with h | h
        · exact .inl (List.mem_append_right _ h)
        · rw [List.mem_singleton.1 h]
          exact .inr ⟨plain, some stream, rfl, .inr rfl⟩

/-- The clients with the methods of all items, each built after those before it. -/
def addAll {α : Type} (label : α → String)
    (build : ClientPair → α → Importing (MethodDecl × Option MethodDecl)) (items : List α)
    (c : ClientPair) : ClientPair :=
  items.foldl (fun c a => c.addBuilt (label a) (build c a)) c

section Run

variable {α : Type} {label : α → String}
  {build : ClientPair → α → Importing (MethodDecl × Option MethodDecl)}

theorem addAll_cons (a : α) (rest : List α) (c : ClientPair) :
    addAll label build (a :: rest) c
      = addAll label build rest (c.addBuilt (label a) (build c a)) := rfl

/-- The records are those of the methods that fail, provided that the methods before do not
    matter for that. -/
theorem skipped_addAll {fault? : α → Option GenerationError}
    (h : ∀ c a, (build c a).fault? = fault? a) (items : List α) (c : ClientPair) :
    (addAll label build items c).skipped = c.skipped ++ failuresOf label fault? items := by
  induction items generalizing c with
  | nil => exact (List.append_nil _).symm
  | cons a rest ih =>
    rw [addAll_cons, ih, skipped_addBuilt, h, failuresOf_cons, List.append_assoc]

/-- Every item has a method in the plain client or else a record. -/
theorem length_addAll (items : List α) (c : ClientPair) :
    (addAll label build items c).plain.methods.length + (addAll label build items c).skipped.length
      = c.plain.methods.length + c.skipped.length + items.length := by
  induction items generalizing c with
  | nil => rfl
  | cons a rest ih =>
    have hstep := @length_addBuilt c (label a) (build c a)
    have hrest := ih (c.addBuilt (label a) (build c a))
    rw [← addAll_cons] at hrest
    rw [List.length_cons]
    omega

/-- Sound methods need grounded imports only. -/
theorem grounded_addAll {d : Document} (h : ∀ c a, Importing.Sound d (build c a)) (items : List α)
    (c : ClientPair) (hc : ∀ i ∈ c.needs, i.Grounded d) :
    ∀ i ∈ (addAll label build items c).needs, i.Grounded d := by
  induction items generalizing c with
  | nil => exact hc
  | cons a rest ih =>
    rw [addAll_cons]
    apply ih
    intro i hi
    rcases mem_needs_addBuilt hi with hi | hi
    · exact hc i hi
    · exact (h c a).notes i hi

theorem mem_needs_addAll {i : Import} (items : List α) {c : ClientPair} (h : i ∈ c.needs) :
    i ∈ (addAll label build items c).needs := by
  induction items generalizing c with
  | nil => exact h
  | cons item rest ih => exact ih (mem_needs_addBuilt_of_mem h)

/-- Every method was built for one of the items, and what was noted for it is needed. -/
theorem mem_methods_addAll {m : MethodDecl} {items : List α} {c : ClientPair}
    (h : m ∈ (addAll label build items c).methods) :
    m ∈ c.methods ∨ ∃ item ∈ items, ∃ before plain stream?,
      (build before item).result = .ok (plain, stream?) ∧ (m = plain ∨ stream? = some m) ∧
        ∀ i ∈ (build before item).notes, i ∈ (addAll label build items c).needs := by
  induction items generalizing c with
  | nil => exact .inl h
  | cons item rest ih =>
    rw [addAll_cons] at h
    rcases ih h with h | ⟨other, hother, hbuilt⟩
    · rcases mem_methods_addBuilt h with h | ⟨plain, stream?, hbuilt, hm⟩
      · exact .inl h
      · refine .inr ⟨item, List.mem_cons_self, c, plain, stream?, hbuilt, hm, fun i hi => ?_⟩
        have hneeds : i ∈ (c.addBuilt (label item) (build c item)).needs := by
          rw [needs_addBuilt hbuilt]
          exact List.mem_append_right _ hi
        exact mem_needs_addAll rest hneeds
    · exact .inr ⟨other, List.mem_cons_of_mem _ hother, hbuilt⟩

/-- Clients that start empty have no other methods. -/
theorem exists_item_of_mem_methods {m : MethodDecl} {items : List α}
    {start plainEnding streamEnding : String} {docs : List String}
    (h : m ∈ (addAll label build items (.empty start plainEnding streamEnding docs)).methods) :
    ∃ item ∈ items, ∃ before plain stream?,
      (build before item).result = .ok (plain, stream?) ∧ (m = plain ∨ stream? = some m) ∧
        ∀ i ∈ (build before item).notes,
          i ∈ (addAll label build items (.empty start plainEnding streamEnding docs)).needs :=
  (mem_methods_addAll h).resolve_left List.not_mem_nil

theorem mem_plain_addAll {m : MethodDecl} (items : List α) {c : ClientPair}
    (h : m ∈ c.plain.methods) : m ∈ (addAll label build items c).plain.methods := by
  induction items generalizing c with
  | nil => exact h
  | cons item rest ih => exact ih (mem_plain_addBuilt_of_mem h)

theorem mem_skipped_addAll {record : Skipped} (items : List α) {c : ClientPair}
    (h : record ∈ c.skipped) : record ∈ (addAll label build items c).skipped := by
  induction items generalizing c with
  | nil => exact h
  | cons item rest ih =>
    apply ih
    rw [skipped_addBuilt]
    exact List.mem_append_left _ h

/-- Every item has a method that was built for it, or else a record under its label. -/
theorem exists_method_or_record (label : α → String)
    (build : ClientPair → α → Importing (MethodDecl × Option MethodDecl)) {item : α}
    {items : List α} (h : item ∈ items) (c : ClientPair) :
    (∃ before plain stream?, (build before item).result = .ok (plain, stream?) ∧
        plain ∈ (addAll label build items c).plain.methods) ∨
      ∃ e, .because (label item) e ∈ (addAll label build items c).skipped := by
  induction items generalizing c with
  | nil => exact absurd h List.not_mem_nil
  | cons first rest ih =>
    rw [addAll_cons]
    rcases List.mem_cons.1 h with rfl | h
    · cases hbuilt : (build c item).result with
      | ok methods =>
        have hadded : methods.1 ∈ (c.addBuilt (label item) (build c item)).plain.methods := by
          unfold addBuilt
          rw [hbuilt]
          exact List.mem_append_right _ List.mem_cons_self
        exact .inl ⟨c, methods.1, methods.2, hbuilt, mem_plain_addAll rest hadded⟩
      | error e =>
        have hrecorded :
            .because (label item) e ∈ (c.addBuilt (label item) (build c item)).skipped := by
          unfold addBuilt
          rw [hbuilt]
          exact List.mem_append_right _ List.mem_cons_self
        exact .inr ⟨e, mem_skipped_addAll rest hrecorded⟩
    · exact ih h _

/-- Only the methods of a class change. -/
theorem plain_addAll (items : List α) (c : ClientPair) :
    (addAll label build items c).plain
      = { c.plain with methods := (addAll label build items c).plain.methods } := by
  induction items generalizing c with
  | nil => rfl
  | cons item rest ih =>
    rw [addAll_cons, ih]
    unfold addBuilt
    split <;> rfl

theorem stream_addAll (items : List α) (c : ClientPair) :
    (addAll label build items c).stream
      = { c.stream with methods := (addAll label build items c).stream.methods } := by
  induction items generalizing c with
  | nil => rfl
  | cons item rest ih =>
    rw [addAll_cons, ih]
    unfold addBuilt
    split
    · next plain stream? _ => cases stream? <;> rfl
    · rfl

end Run

end ClientPair

/-! ## Faults of methods

Whether a method fails does not depend on the methods that its class has already: its name
and what it returns have no part in that. -/

section Faults

variable (d : Document) (ignored : List String)

theorem MethodPlan.fault?_build (p : MethodPlan) :
    (p.build d).fault? = (p.parameters d).fault? :=
  Traced.fault?_bind_of_none fun _ => rfl

/-- Plans that differ in their names and results only fail alike. -/
theorem MethodPlan.fault?_build_congr (p : MethodPlan) (name returnType : String) :
    ({ p with name, returnType }.build d).fault? = (p.build d).fault? := by
  rw [fault?_build, fault?_build]
  rfl

theorem fault?_buildIf_congr (streams : Bool) (p : MethodPlan) (name returnType : String) :
    (buildIf d streams { p with name, returnType }).fault? = (buildIf d streams p).fault? := by
  unfold buildIf
  cases streams with
  | false => rw [if_neg Bool.false_ne_true, if_neg Bool.false_ne_true]
  | true =>
    rw [if_pos rfl, if_pos rfl, Traced.fault?_map, Traced.fault?_map]
    exact MethodPlan.fault?_build_congr d p name returnType

theorem fault?_operationMethods (needs : ResponseTypes → List Import)
    (streams : ResponseTypes → Bool) (op : ResolvedOperation) (c c' : ClientPair) :
    (operationMethods d needs streams ignored c op).fault?
      = (operationMethods d needs streams ignored c' op).fault? := by
  unfold operationMethods
  -- up to here the two clients play no part
  apply Traced.fault?_bind_congr
  intro types
  apply Traced.fault?_bind_congr
  intro body
  apply Traced.fault?_bind_congr
  intro _
  -- the plans differ in their names only
  apply Traced.fault?_bind_congr_of_fault?
  · exact MethodPlan.fault?_build_congr d (plansOf op body ignored types c').1 _ _
  · intro _ _
    apply Traced.fault?_bind_congr_of_fault?
    · exact fault?_buildIf_congr d _ (plansOf op body ignored types c').2 _ _
    · exact fun _ _ => rfl

theorem fault?_queryMethods (op : ResolvedOperation) (c c' : ClientPair) :
    (queryMethods d ignored c op).fault? = (queryMethods d ignored c' op).fault? := by
  rw [queryMethods_eq, queryMethods_eq]
  exact fault?_operationMethods d ignored _ _ op c c'

theorem fault?_apiMethods (op : ResolvedOperation) (c c' : ClientPair) :
    (apiMethods d ignored c op).fault? = (apiMethods d ignored c' op).fault? := by
  rw [apiMethods_eq, apiMethods_eq]
  exact fault?_operationMethods d ignored _ _ op c c'

theorem fault?_commandMethods (attribution : Attribution) (command : Command)
    (c c' : ClientPair) :
    (commandMethods d attribution ignored c command).fault?
      = (commandMethods d attribution ignored c' command).fault? := by
  unfold commandMethods
  apply Traced.fault?_bind_congr
  intro body
  apply Traced.fault?_bind_congr_of_fault?
  · exact MethodPlan.fault?_build_congr d
      (command.plan attribution ignored body c'.plainNames (promiseOf commandResult)) _ _
  · intro _ _
    apply Traced.fault?_bind_congr_of_fault?
    · exact MethodPlan.fault?_build_congr d
        (command.plan attribution ignored body c'.streamNames (promiseOfStream commandResult)) _ _
    · exact fun _ _ => rfl

end Faults

end ClientGen
