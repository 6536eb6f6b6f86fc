/-
  ClientGen.Proofs.EnumMember

  What becomes of the values of an enumeration.  Member names are made of letters and
  digits of the values in upper case, so different values can have one name, and then
  the first of them has it and the others are left out.  `declared_enums_list` says
  this of all enums of the generated files, and when no value is left out.
-/
import ClientGen.Proofs.Assembly
import ClientGen.Proofs.FreeName
import ClientGen.Proofs.ModelShape
import ClientGen.Proofs.Partition
import ClientGen.Proofs.QuotedText

namespace ClientGen

open TypeScript

/-! ## Values that are kept -/

namespace TypeScript

/-- Member names are identifiers. -/
theorem isIdentifier_enumMemberName (value : String) :
    isIdentifier (enumMemberName value) = true := by
  apply isIdentifier_withOpening
  intro c hc
  rcases Text.isAlphanum_of_mem_upperSnakeCase c hc with hc | rfl
  · exact continuesIdentifier_of_isAlphanum hc
  · decide

/-- The member of a value. -/
def enumMember (value : String) : String × String := (enumMemberName value, stringLiteral value)

/-- Whether a value of a list has its member name before all others. -/
def NamedFirst (values : List String) (value : String) : Prop :=
  ∃ before after, values = before ++ value :: after ∧
    ∀ other ∈ before, enumMemberName other ≠ enumMemberName value

/-- The values of a list that have their member names first. -/
structure KeepsFirst (values kept : List String) : Prop where
  names : kept.map enumMemberName = (values.map enumMemberName).eraseDups
  first : ∀ value, value ∈ kept ↔ NamedFirst values value
  order : kept.Sublist values.eraseDups

section Values

variable {values kept : List String} {value : String}

/-- A further value comes after all others. -/
theorem namedFirst_concat_iff {last : String} :
    NamedFirst (values ++ [last]) value ↔
      NamedFirst values value ∨
        value = last ∧ enumMemberName last ∉ values.map enumMemberName := by
  constructor
  · rintro ⟨before, after, heq, hfirst⟩
    rcases List.eq_nil_or_concat after with rfl | ⟨after, final, rfl⟩
    · obtain ⟨rfl, hlast⟩ := List.append_inj' heq rfl
      cases hlast
      refine .inr ⟨rfl, fun hmem => ?_⟩
      obtain ⟨other, hother, hname⟩ := List.mem_map.1 hmem
      exact hfirst other hother hname
    · rw [List.concat_eq_append, ← List.cons_append, ← List.append_assoc] at heq
      obtain ⟨rfl, -⟩ := List.append_inj' heq rfl
      exact .inl ⟨before, after, rfl, hfirst⟩
  · rintro (⟨before, after, rfl, hfirst⟩ | ⟨rfl, hnew⟩)
    · exact ⟨before, after ++ [last], by simp, hfirst⟩
    · refine ⟨values, [], rfl, fun other hother hname => hnew ?_⟩
      rw [← hname]
      exact List.mem_map_of_mem hother

/-- A value is kept unless its name is taken. -/
theorem KeepsFirst.concat (h : KeepsFirst values kept) (last : String) :
    KeepsFirst (values ++ [last])
      (if enumMemberName last ∈ kept.map enumMemberName then kept else kept ++ [last]) := by
  have htaken : enumMemberName last ∈ kept.map enumMemberName ↔
      enumMemberName last ∈ values.map enumMemberName := by
    rw [h.names, List.mem_eraseDups]
  split
  · next hold =>
    constructor
    case names =>
      rw [List.map_append, List.map_singleton, eraseDups_concat, if_pos (htaken.1 hold), h.names]
    case first =>
      intro value
      rw [h.first, namedFirst_concat_iff]
      exact ⟨.inl, fun hvalue => hvalue.resolve_right fun hlast => hlast.2 (htaken.1 hold)⟩
    case order =>
      rw [eraseDups_concat]
      split
      · exact h.order
      · exact h.order.trans (List.sublist_append_left _ _)
  · next hnew =>
    have hfresh : enumMemberName last ∉ values.map enumMemberName := fun hold =>
      hnew (htaken.2 hold)
    constructor
    case names =>
      rw [List.map_append, List.map_append, List.map_singleton, eraseDups_concat, if_neg hfresh,
        h.names]
    case first =>
      intro value
      rw [List.mem_append, List.mem_singleton, h.first, namedFirst_concat_iff,
        and_iff_left hfresh]
    case order =>
      -- a value whose name is new is new itself
      rw [eraseDups_concat, if_neg fun hmem => hfresh (List.mem_map_of_mem hmem)]
      exact h.order.append (List.Sublist.refl _)

/-- The members of an enum are those of the values that are kept.  By induction on the values from
    the last one. -/
theorem exists_keepsFirst (values : List String) :
    ∃ kept, values.foldl addMember [] = kept.map enumMember ∧ KeepsFirst values kept := by
  induction values using List.reverseRecOn with
  | nil =>
    refine ⟨[], rfl, rfl, fun value => ?_, List.Sublist.refl _⟩
    simp [NamedFirst]
  | append_singleton values last ih =>
    obtain ⟨kept, hmembers, hkept⟩ := ih
    refine ⟨_, ?_, hkept.concat last⟩
    have htaken : (kept.map enumMember).any (·.1 == enumMemberName last) = true ↔
        enumMemberName last ∈ kept.map enumMemberName := by
      simp [enumMember]
    rw [List.foldl_concat, hmembers, addMember]
    simp only [htaken]
    split
    · rfl
    · rw [List.map_append, List.map_singleton, enumMember]

/-- All values are kept just when no two of them have one name. -/
theorem KeepsFirst.eq_eraseDups_iff (h : KeepsFirst values kept) :
    kept = values.eraseDups ↔ Set.InjOn enumMemberName {value | value ∈ values} := by
  constructor
  · rintro rfl
    have hnodup : (values.eraseDups.map enumMemberName).Nodup := by
      rw [h.names]
      exact nodup_eraseDups _
    intro value hvalue other hother
    exact List.inj_on_of_nodup_map hnodup (List.mem_eraseDups.2 hvalue)
      (List.mem_eraseDups.2 hother)
  · intro hinj
    have hall : values.eraseDups ⊆ kept := by
      intro value hvalue
      have hvalue := List.mem_eraseDups.1 hvalue
      -- the value that has the name first is the value itself
      have hname : enumMemberName value ∈ kept.map enumMemberName := by
        rw [h.names, List.mem_eraseDups]
        exact List.mem_map_of_mem hvalue
      obtain ⟨other, hother, hsame⟩ := List.mem_map.1 hname
      have hmem : other ∈ values := List.mem_eraseDups.1 (h.order.subset hother)
      rwa [← hinj hmem hvalue hsame]
    exact h.order.eq_of_length_le ((nodup_eraseDups values).subperm hall).length_le

end Values

/-! ## Enums of schemas -/

/-- Whether an enum lists texts, as far as its member names can tell them apart. -/
structure EnumDecl.Lists (decl : EnumDecl) (values : List String) : Prop where
  /-- The names of all values are there in order, each once. -/
  names : decl.members.map Prod.fst = (values.map enumMemberName).eraseDups
  /-- A name stands for the first value that has it. -/
  first : ∀ m, m ∈ decl.members ↔
    ∃ value, NamedFirst values value ∧ m = (enumMemberName value, stringLiteral value)
  distinct : (decl.members.map Prod.fst).Nodup
  identifiers : ∀ m ∈ decl.members, isIdentifier m.1 = true
  literals : (decl.members.map Prod.snd).Sublist (values.eraseDups.map stringLiteral)
  /-- No value is lost just when different values have different names. -/
  complete : decl.members.map Prod.snd = values.eraseDups.map stringLiteral ↔
    Set.InjOn enumMemberName {value | value ∈ values}

end TypeScript

theorem lists_enumDecl (name : String) (s : Schema) :
    (enumDecl name s).Lists s.enumMembers := by
  obtain ⟨kept, hmembers, hkept⟩ := exists_keepsFirst s.enumMembers
  have hmembers : (enumDecl name s).members = kept.map enumMember := hmembers
  have hnames : (enumDecl name s).members.map Prod.fst
      = (s.enumMembers.map enumMemberName).eraseDups := by
    rw [← hkept.names, hmembers, List.map_map]
    rfl
  have hliterals : (enumDecl name s).members.map Prod.snd = kept.map stringLiteral := by
    rw [hmembers, List.map_map]
    rfl
  constructor
  case names => exact hnames
  case first =>
    intro m
    rw [hmembers, List.mem_map]
    simp only [hkept.first, enumMember, eq_comm]
  case distinct =>
    rw [hnames]
    exact nodup_eraseDups _
  case identifiers =>
    intro m hm
    rw [hmembers] at hm
    obtain ⟨value, -, rfl⟩ := List.mem_map.1 hm
    exact isIdentifier_enumMemberName value
  case literals =>
    rw [hliterals]
    exact hkept.order.map _
  case complete =>
    have hinj : Function.Injective stringLiteral := fun _ _ => stringLiteral_inj
    rw [hliterals, (List.map_injective_iff.2 hinj).eq_iff]
    exact hkept.eq_eraseDups_iff

section Models

variable {d : Document} {key : String} {s : Schema}

theorem modelDecls_of_isEnum (h : s.isEnum = true) :
    (modelDecls d key s).result = .ok [.enum (enumDecl (ModelName.ofKey key).name s)] := by
  rw [modelDecls, if_pos h]
  rfl

/-- Enums are declared for schemas that enumerate texts. -/
theorem enum_of_modelDecls {decls : List Declaration} {decl : EnumDecl}
    (h : (modelDecls d key s).result = .ok decls) (hdecl : .enum decl ∈ decls) :
    s.isEnum = true ∧ decl = enumDecl (ModelName.ofKey key).name s := by
  have hinterfaces {docs parents : List String} {model : ModelName} {own : Schema}
      (h : (interfaces d key docs parents model own).result = .ok decls) : False := by
    obtain ⟨front, last, rfl, -⟩ := interfaces_cases h
    simp at hdecl
  cases declaredIn_of_modelDecls h with
  | enum hshape _ =>
    have henum := shape_eq_enum_iff.1 hshape
    rw [modelDecls_of_isEnum henum, Except.ok.injEq] at h
    rw [← h] at hdecl
    cases List.mem_singleton.1 hdecl
    exact ⟨henum, rfl⟩
  | object _ h => exact (hinterfaces h).elim
  | extension _ _ _ _ h => exact (hinterfaces h).elim
  | aliased _ h =>
    obtain ⟨other, rfl, -⟩ := aliasOf_cases h
    cases List.mem_singleton.1 hdecl

end Models

/-! ## Enums of generated files -/

/-- A schema that enumerates texts is declared by an enum of its model's name that lists them, and
    no other enums are declared. -/
theorem declared_enums_list {d : Document} {config : Configuration} {g : Generation}
    (h : generation d d.service config = .ok g) :
    (∀ entry ∈ d.modelSchemas, entry.2.isEnum = true →
      ∃ f decl, g.project.get? (ModelName.ofKey entry.1).file = some f ∧
        .enum decl ∈ f.declarations ∧ decl.name = (ModelName.ofKey entry.1).name ∧
        decl.Lists entry.2.enumMembers) ∧
    ∀ path f decl, g.project.get? path = some f → .enum decl ∈ f.declarations →
      ∃ entry ∈ d.modelSchemas, entry.2.isEnum = true ∧ (ModelName.ofKey entry.1).file = path ∧
        decl.name = (ModelName.ofKey entry.1).name ∧ decl.Lists entry.2.enumMembers := by
  rw [generation_eq_ok h, Generation.project_ofPieces]
  constructor
  · intro entry hentry henum
    obtain ⟨f, hf, hdecls⟩ := Project.exists_file_of_mem
      (modelContribution_mem hentry (modelDecls_of_isEnum henum))
    rw [modelContribution_file] at hf
    have hdecl := hdecls _ (List.mem_singleton_self _)
    exact ⟨f, enumDecl _ entry.2, hf, hdecl, rfl, lists_enumDecl _ _⟩
  · intro path f decl hf hdecl
    rw [Project.declarations_of_get? hf] at hdecl
    obtain ⟨c, hc, hdecl⟩ := List.mem_flatMap.1 hdecl
    obtain ⟨hmem, hpath⟩ := mem_contributionsTo.1 hc
    obtain ⟨entry, hentry, hdecls, hfile⟩ := exists_model_of_decl hmem hdecl (.inl ⟨decl, rfl⟩)
    obtain ⟨henum, rfl⟩ := enum_of_modelDecls hdecls hdecl
    exact ⟨entry, hentry, henum, hfile.symm.trans hpath, rfl, lists_enumDecl _ _⟩

/-- Sizes that are written in more than one way, among values that are no texts. -/
def sizes : Schema :=
  { enumValues := some [.text "s", .text "in-stock", .null, .text "", .text "1st", .text "S",
      .text "inStock", .text "s"] }

def sizeDocument : Document :=
  { components.schemas := .ofList [("shop.Size", sizes)] }

/-- Two of the sizes are left out, and a name does not begin with a digit. -/
theorem declared_enums_list_sizes :
    ∃ g f decl, generation sizeDocument sizeDocument.service {} = .ok g ∧
      g.project.get? "shop/types.ts" = some f ∧ .enum decl ∈ f.declarations ∧
      decl.members = [("S", "'s'"), ("IN_STOCK", "'in-stock'"), ("_1ST", "'1st'")] ∧
      decl.Lists ["s", "in-stock", "1st", "S", "inStock", "s"] := by
  have hrun : (generation sizeDocument sizeDocument.service {}).toOption.any (fun g =>
      (g.project.get? "shop/types.ts").any fun f => f.declarations = [.enum
        { name := "Size"
          members := [("S", "'s'"), ("IN_STOCK", "'in-stock'"), ("_1ST", "'1st'")] }]) = true := by
    decide +kernel
  obtain ⟨g, hg, hfile⟩ := exists_ok_of_any hrun
  obtain ⟨f, hf, hdecls⟩ := (Option.any_eq_true _ _).1 hfile
  have hdecl := (of_decide_eq_true hdecls).symm ▸ List.mem_singleton_self _
  obtain ⟨entry, hentry, -, -, -, hlists⟩ := (declared_enums_list hg).2 _ f _ hf hdecl
  cases List.mem_singleton.1 (List.mem_filter.1 hentry).1
  exact ⟨g, f, _, hg, hf, hdecl, rfl, hlists⟩

/-- A letter in either case. -/
def letters : Schema := { enumValues := some [.text "a", .text "A"] }

def letterDocument : Document :=
  { components.schemas := .ofList [("a.Letter", letters)] }

/-- The capital letter has the name of the other, and no member. -/
theorem exists_dropped_value :
    ∃ g f decl, generation letterDocument letterDocument.service {} = .ok g ∧
      g.project.get? "a/types.ts" = some f ∧ f.declarations = [.enum decl] ∧
      ("a.Letter", letters) ∈ letterDocument.modelSchemas ∧ letters.isEnum = true ∧
      letters.enumMembers = ["a", "A"] ∧ decl.members = [("A", "'a'")] ∧
      decl.members.map Prod.snd ≠ letters.enumMembers.eraseDups.map stringLiteral := by
  have hrun : (generation letterDocument letterDocument.service {}).toOption.any (fun g =>
      (g.project.get? "a/types.ts").any fun f => f.declarations = [.enum
        { name := "Letter", members := [("A", "'a'")] }]) = true := by
    decide +kernel
  obtain ⟨g, hg, hfile⟩ := exists_ok_of_any hrun
  obtain ⟨f, hf, hdecls⟩ := (Option.any_eq_true _ _).1 hfile
  have hmodel : ("a.Letter", letters) ∈ letterDocument.modelSchemas :=
    List.mem_filter.2 ⟨List.mem_singleton_self _, by decide +kernel⟩
  exact ⟨g, f, _, hg, hf, of_decide_eq_true hdecls, hmodel, by decide, rfl, rfl, by decide⟩

end ClientGen
