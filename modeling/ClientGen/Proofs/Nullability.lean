/-
  ClientGen.Proofs.Nullability

  What becomes of nullable schemas.  Wherever the type of such a schema is written in
  place, or as that of an alias, null is one of its values: it is added to every type
  that does not end with it, and what is added to a closed text stands outside of all
  brackets and literals.  An enum and an interface are declared without regard to it, so
  `nullable_declared_iff` says that null is kept just for the schemas that are declared
  as aliases.
-/
import ClientGen.Proofs.Accounting
import ClientGen.Proofs.ArrayType
import ClientGen.Proofs.ModelShape

namespace ClientGen

open TypeScript

/-! ## Types that admit null -/

namespace TypeScript

/-- Whether null is a value of a type, as far as the type itself shows it.  A name shows no more
    than that its values are those of something else. -/
inductive TypeTerm.AdmitsNull : TypeTerm → Prop
  | null : AdmitsNull (.operand nullType.toList)
  | any : AdmitsNull (.operand anyType.toList)
  | union {members : List TypeTerm} {term : TypeTerm} (hmem : term ∈ members)
      (h : AdmitsNull term) : AdmitsNull (.union members)
  | intersection {members : List TypeTerm} (h : ∀ term ∈ members, AdmitsNull term) :
      AdmitsNull (.intersection members)

/-- Whether null is a value of the type that is declared.  The values of an enum are its members',
    and those of an interface are objects. -/
def Declaration.AdmitsNull : Declaration → Prop
  | .alias decl => (read decl.typeExpr.toList).AdmitsNull
  | _ => False

/-- A type that is closed admits null once it is widened. -/
theorem admitsNull_withNull {type : String} (h : Closed type.toList) :
    (read (withNull type).toList).AdmitsNull := by
  have hends {front : List Char} (hfront : Closed front) :
      (read (front ++ "| null".toList)).AdmitsNull := by
    rw [read_bar_null hfront]
    exact .union (List.mem_append_right _ (List.mem_singleton_self _)) .null
  unfold withNull
  split
  · next hthere =>
    rcases hthere with rfl | rfl | hsuffix
    · have hread : read nullType.toList = .operand nullType.toList :=
        read_of_operand (by decide) (by decide)
      rw [hread]
      exact .null
    · have hread : read anyType.toList = .operand anyType.toList :=
        read_of_operand (by decide) (by decide)
      rw [hread]
      exact .any
    · rw [Text.endsWith, List.isSuffixOf_iff_suffix] at hsuffix
      obtain ⟨front, htext⟩ := hsuffix
      rw [← htext] at h ⊢
      exact hends h.front_of_null
  · have htext : (type ++ " | null").toList = (type.toList ++ [' ']) ++ "| null".toList := by
      rw [String.toList_append, List.append_assoc]
      rfl
    rw [htext]
    exact hends (h.append (by decide))

end TypeScript

/-! ## Nullable schemas -/

section Nullable

variable {d : Document} {key referrer type : String} {s : Schema}

/-- The type of a nullable schema admits null. -/
theorem admitsNull_of_typeOf (hnull : s.nullable = true)
    (h : (typeOf d referrer s).result = .ok type) : (read type.toList).AdmitsNull := by
  obtain ⟨bare, hbare, rfl⟩ := typeForm_of_typedWithin h
  have hwhole : Whole bare.toList :=
    whole_invariant.typeForm (fun _ _ hnested => whole_invariant.typeWithin hnested) hbare
  rw [admitNull, if_pos hnull]
  exact admitsNull_withNull hwhole.closed

/-- Of the declarations for a nullable schema only an alias admits null. -/
theorem DeclaredAs.admitsNull_iff {shape : ModelShape} {decl : Declaration}
    (h : DeclaredAs d key s shape decl) (hnull : s.nullable = true) :
    decl.AdmitsNull ↔ shape = .alias := by
  cases h with
  | enum decl => exact iff_of_false id ModelShape.noConfusion
  | interface decl => exact iff_of_false id ModelShape.noConfusion
  | «alias» decl htype => exact iff_of_true (admitsNull_of_typeOf hnull htype) rfl

/-- The model of a schema is the last of its declarations, which has the name of the model. -/
theorem exists_model_declaredAs {decls : List Declaration}
    (h : (modelDecls d key s).result = .ok decls) :
    ∃ decl ∈ decls, decl.name = (ModelName.ofKey key).name ∧
      DeclaredAs d key s (s.shape d) decl := by
  obtain ⟨lifted, model, hdecls, hname, -⟩ := modelDecls_buildsGroup decls h
  obtain ⟨front, last, hdecls', hdeclared⟩ := declaredAs_of_modelDecls h
  obtain ⟨-, hlast⟩ := List.append_inj' (hdecls.symm.trans hdecls') rfl
  cases hlast
  exact ⟨model, hdecls ▸ List.mem_append_right _ (List.mem_singleton_self _), hname, hdeclared⟩

/-- Wherever the type of a nullable component is written in place, it admits null.  Where the
    component is declared, it does just if it is declared as an alias. -/
theorem nullable_declared_iff {config : Configuration} {g : Generation} {entry : String × Schema}
    (h : generation d d.service config = .ok g) (hentry : entry ∈ d.modelSchemas)
    (hnull : entry.2.nullable = true) :
    (∀ referrer type, (typeOf d referrer entry.2).result = .ok type →
      (read type.toList).AdmitsNull) ∧
    ∀ decls, (modelDecls d entry.1 entry.2).result = .ok decls →
      ∃ f decl, g.project.get? (ModelName.ofKey entry.1).file = some f ∧
        decl ∈ f.declarations ∧ decl.name = (ModelName.ofKey entry.1).name ∧
        DeclaredAs d entry.1 entry.2 (entry.2.shape d) decl ∧
        (decl.AdmitsNull ↔ entry.2.shape d = .alias) := by
  refine ⟨fun referrer type htype => admitsNull_of_typeOf hnull htype, fun decls hdecls => ?_⟩
  obtain ⟨decl, hdecl, hname, hdeclared⟩ := exists_model_declaredAs hdecls
  rw [generation_eq_ok h, Generation.project_ofPieces]
  obtain ⟨f, hf, hmem⟩ := Project.exists_file_of_mem (modelContribution_mem hentry hdecls)
  rw [modelContribution_file] at hf
  exact ⟨f, decl, hf, hmem decl hdecl, hname, hdeclared, hdeclared.admitsNull_iff hnull⟩

end Nullable

/-- A letter that may be missing. -/
def optionalLetter : Schema := { enumValues := some [.text "A", .text "B"], nullable := true }

/-- A list of letters that may be missing as a whole. -/
def optionalLetters : Schema :=
  { type := some (.single "array"), items := some (.referenceTo "a.Letter"), nullable := true }

def optionalDocument : Document :=
  { components.schemas := .ofList [("a.Letter", optionalLetter), ("a.Letters", optionalLetters)] }

/-- What is generated for such letters. -/
theorem generation_optionalDocument :
    ∃ g f, generation optionalDocument optionalDocument.service {} = .ok g ∧
      g.project.get? "a/types.ts" = some f ∧
      f.declarations =
        [.enum { name := "Letter", members := [("A", "'A'"), ("B", "'B'")] },
          .alias { name := "Letters", typeExpr := "Letter[] | null" }] := by
  have hrun : (generation optionalDocument optionalDocument.service {}).toOption.any (fun g =>
      (g.project.get? "a/types.ts").any fun f => f.declarations =
        [.enum { name := "Letter", members := [("A", "'A'"), ("B", "'B'")] },
          .alias { name := "Letters", typeExpr := "Letter[] | null" }]) = true := by
    decide +kernel
  obtain ⟨g, f, hg, hf, hdecls⟩ := exists_file_of_any hrun
  exact ⟨g, f, hg, hf, of_decide_eq_true hdecls⟩

/-- The list is declared as an alias, and null is kept. -/
theorem nullable_declared_iff_letters :
    ∃ g f decl, generation optionalDocument optionalDocument.service {} = .ok g ∧
      ("a.Letters", optionalLetters) ∈ optionalDocument.modelSchemas ∧
      optionalLetters.nullable = true ∧ g.project.get? "a/types.ts" = some f ∧
      decl ∈ f.declarations ∧ decl.name = "Letters" ∧ decl.AdmitsNull := by
  obtain ⟨g, -, hg, -⟩ := generation_optionalDocument
  have hmem : ("a.Letters", optionalLetters) ∈ optionalDocument.modelSchemas :=
    List.mem_filter.2 ⟨List.mem_cons_of_mem _ List.mem_cons_self, by decide +kernel⟩
  have hdecls : (modelDecls optionalDocument "a.Letters" optionalLetters).result
      = .ok [.alias { name := "Letters", typeExpr := "Letter[] | null" }] := rfl
  obtain ⟨f, decl, hf, hdecl, hname, -, hiff⟩ := (nullable_declared_iff hg hmem rfl).2 _ hdecls
  exact ⟨g, f, decl, hg, hmem, rfl, hf, hdecl, hname, hiff.2 (by decide +kernel)⟩

/-- The letter is declared as an enum, and null is lost that its type has elsewhere. -/
theorem exists_lost_null :
    ∃ g f decl, generation optionalDocument optionalDocument.service {} = .ok g ∧
      ("a.Letter", optionalLetter) ∈ optionalDocument.modelSchemas ∧
      optionalLetter.nullable = true ∧ g.project.get? "a/types.ts" = some f ∧
      f.declarations.filter (·.name == "Letter") = [decl] ∧ ¬decl.AdmitsNull ∧
      (typeOf optionalDocument "a.Letter" optionalLetter).result = .ok "'A' | 'B' | null" ∧
      (read "'A' | 'B' | null".toList).AdmitsNull := by
  obtain ⟨g, f, hg, hf, hdecls⟩ := generation_optionalDocument
  have hmem : ("a.Letter", optionalLetter) ∈ optionalDocument.modelSchemas :=
    List.mem_filter.2 ⟨List.mem_cons_self, by decide +kernel⟩
  have htype : (typeOf optionalDocument "a.Letter" optionalLetter).result
      = .ok "'A' | 'B' | null" := rfl
  have hletter : f.declarations.filter (·.name == "Letter")
      = [.enum { name := "Letter", members := [("A", "'A'"), ("B", "'B'")] }] := by
    rw [hdecls]
    rfl
  exact ⟨g, f, _, hg, hmem, rfl, hf, hletter, id, htype, admitsNull_of_typeOf rfl htype⟩

end ClientGen
