/-
  ClientGen.Proofs.CommentBlock

  Documentation stays inside its comment.  A block comment ends with the first `*/`
  behind its opening; whatever the lines of a block say, this is the end that the block
  itself writes (`renderDocs_closed`).
-/
import ClientGen.Proofs.Reference
import ClientGen.TypeScript.DocComment
import Mathlib.Data.List.Chain

namespace ClientGen.TypeScript

/-! ## Comments -/

/-- What stands in front of the first `*/` of a text, and what follows it. -/
def cutComment : List Char → Option (List Char × List Char)
  | '*' :: '/' :: rest => some ([], rest)
  | c :: rest => (cutComment rest).map fun r => (c :: r.1, r.2)
  | [] => none

/-- What stands in front of the first `*/` of a text, and what follows it. -/
def beforeCommentEnd? (text : String) : Option (String × String) :=
  (cutComment text.toList).map fun r => (String.ofList r.1, String.ofList r.2)

/-- The block comment at the beginning of a text: what stands in it, and what follows it. -/
def readComment? (text : String) : Option (String × String) :=
  (Text.afterStart? "/*" text).bind beforeCommentEnd?

/-- Whether a comment goes on when two characters stand in it side by side. -/
def GoesOn (c next : Char) : Prop := ¬(c = '*' ∧ next = '/')

instance (c next : Char) : Decidable (GoesOn c next) := inferInstanceAs (Decidable (¬_))

/-- Only an asterisk can be the first character of an end. -/
theorem isChain_cons_of_ne {c : Char} (h : c ≠ '*') {cs : List Char} (hcs : cs.IsChain GoesOn) :
    (c :: cs).IsChain GoesOn :=
  hcs.cons fun _ _ hend => h hend.1

/-- A comment in which nothing ends it ends where its end is written.  The asterisk of the end must
    not serve for an earlier one. -/
theorem cutComment_append {inner : List Char} (h : (inner ++ ['*']).IsChain GoesOn)
    (rest : List Char) : cutComment (inner ++ '*' :: '/' :: rest) = some (inner, rest) := by
  induction inner with
  | nil => rfl
  | cons c inner ih =>
    rw [List.cons_append, List.isChain_cons] at h
    have hgoes : ∀ rest', c = '*' → inner ++ '*' :: '/' :: rest ≠ '/' :: rest' := by
      intro rest' hc heq
      refine h.1 '/' ?_ ⟨hc, rfl⟩
      cases inner with
      | nil => cases heq
      | cons next inner =>
        rw [List.cons_append, List.cons.injEq] at heq
        rw [heq.1]
        rfl
    rw [List.cons_append, cutComment, ih h.2]
    · rfl
    · intro rest' hc
      exact hgoes rest' hc

theorem beforeCommentEnd?_append {inner : String} (h : (inner.toList ++ ['*']).IsChain GoesOn)
    (rest : String) : beforeCommentEnd? (inner ++ "*/" ++ rest) = some (inner, rest) := by
  have htext : (inner ++ "*/" ++ rest).toList = inner.toList ++ '*' :: '/' :: rest.toList := by
    rw [String.toList_append, String.toList_append, List.append_assoc]
    rfl
  rw [beforeCommentEnd?, htext, cutComment_append h, Option.map_some, String.ofList_toList,
    String.ofList_toList]

/-! ## Lines -/

theorem isChain_of_not_mem {cs : List Char} (h : '*' ∉ cs) : cs.IsChain GoesOn := by
  induction cs with
  | nil => exact .nil
  | cons c rest ih =>
    rw [List.mem_cons, not_or] at h
    exact isChain_cons_of_ne (Ne.symm h.1) (ih h.2)

theorem isChain_append {cs rest : List Char} (h : cs.IsChain GoesOn) (hrest : rest.IsChain GoesOn)
    (hslash : '/' ∉ rest.head?) : (cs ++ rest).IsChain GoesOn := by
  refine h.append hrest ?_
  rintro c - next hnext ⟨-, rfl⟩
  exact hslash hnext

theorem head?_escapeCommentEnd (cs : List Char) : (escapeCommentEnd cs).head? = cs.head? := by
  fun_cases escapeCommentEnd cs <;> simp_all

/-- In an escaped line nothing ends a comment.  By induction along the line. -/
theorem isChain_escapeCommentEnd (cs : List Char) : (escapeCommentEnd cs).IsChain GoesOn := by
  fun_induction escapeCommentEnd cs with
  | case1 rest ih =>
    have hslash : ('/' :: escapeCommentEnd rest).IsChain GoesOn :=
      isChain_cons_of_ne (by decide) ih
    exact (hslash.cons_cons (by decide)).cons_cons (by decide)
  | case2 c rest hplain ih =>
    refine ih.cons fun next hnext => ?_
    rw [head?_escapeCommentEnd] at hnext
    rintro ⟨rfl, rfl⟩
    obtain ⟨rest', hrest⟩ := List.head?_eq_some_iff.1 hnext
    exact hplain rest' rfl hrest
  | case3 => exact .nil

/-- What a line of a block is made of.  No slash comes next to the asterisk in front. -/
theorem exists_text_of_renderDocLine (indent line : String) :
    ∃ text, text.IsChain GoesOn ∧ '/' ∉ text.head? ∧
      (renderDocLine indent line).toList = indent.toList ++ ' ' :: '*' :: (text ++ ['\n']) := by
  unfold renderDocLine
  dsimp only
  split
  · refine ⟨[], .nil, by decide, ?_⟩
    rw [String.toList_append]
    rfl
  · refine ⟨' ' :: escapeCommentEnd line.toList, ?_, by simp, ?_⟩
    · exact isChain_cons_of_ne (by decide) (isChain_escapeCommentEnd _)
    · simp only [String.toList_append, String.toList_ofList, List.append_assoc]
      rfl

/-! ## Blocks -/

section Blocks

variable {indent : String} (hindent : '*' ∉ indent.toList)
include hindent

/-- By induction on the lines: each of them ends with a line feed, so that it does not matter how
    the next one begins. -/
theorem isChain_renderDocLines_append (lines : List String) {rest : List Char}
    (hrest : rest.IsChain GoesOn) :
    ((String.join (lines.map (renderDocLine indent))).toList ++ rest).IsChain GoesOn := by
  induction lines with
  | nil => exact hrest
  | cons line lines ih =>
    obtain ⟨text, htext, hslash, hline⟩ := exists_text_of_renderDocLine indent line
    have hbreak := isChain_cons_of_ne (c := '\n') (by decide) ih
    have hbehind := (isChain_append htext hbreak (by simp)).cons (x := '*') ?_
    · have hspace := isChain_cons_of_ne (c := ' ') (by decide) hbehind
      have hwhole := isChain_append (isChain_of_not_mem hindent) hspace (by simp)
      rw [List.map_cons, String.join_cons, String.toList_append, hline]
      simpa using hwhole
    · rintro next hnext ⟨-, rfl⟩
      cases text with
      | nil => cases hnext
      | cons first text => exact hslash hnext

/-- A block of lines opens with its indent and `/**`, and the first end of a comment behind that
    is the one that closes it. -/
theorem renderDocs_closed {lines : List String} (hlines : lines ≠ []) :
    ∃ inner, renderDocs indent lines = indent ++ "/**" ++ inner ++ "*/\n" ∧
      ('*' :: (inner.toList ++ ['*'])).IsChain GoesOn := by
  refine ⟨"\n" ++ String.join (lines.map (renderDocLine indent)) ++ indent ++ " ", ?_, ?_⟩
  · have hopen : "/**\n" = "/**" ++ "\n" := by decide
    have hclose : " */\n" = " " ++ "*/\n" := by decide
    rw [renderDocs, if_neg (by simpa using hlines), hopen, hclose]
    simp only [String.append_assoc]
  · have hend : (indent.toList ++ [' ', '*']).IsChain GoesOn :=
      isChain_append (isChain_of_not_mem hindent) (by decide) (by decide)
    have hlines := isChain_renderDocLines_append hindent lines hend
    have hbreak := isChain_cons_of_ne (c := '\n') (by decide) hlines
    have hopen := hbreak.cons_cons (a := '*') (by decide)
    simp only [String.toList_append, List.append_assoc]
    exact hopen

end Blocks

/-- Whatever a title and a description say, and whether or not something is marked as deprecated:
    without lines nothing is written, and any lines are written into one comment, which ends with
    the end of its block in front of any text. -/
theorem docs_stay_in_comment {indent : String} (hindent : ∀ c ∈ indent.toList, c = ' ')
    (title description : Option String) (deprecated : Bool) :
    let lines := markDeprecated deprecated (docLines title description)
    (lines = [] → renderDocs indent lines = "") ∧
      (lines ≠ [] → ∃ inner, renderDocs indent lines = indent ++ "/**" ++ inner ++ "*/\n" ∧
        ∀ rest, beforeCommentEnd? (inner ++ "*/\n" ++ rest) = some (inner, "\n" ++ rest) ∧
          readComment? ("/**" ++ inner ++ "*/\n" ++ rest) = some ("*" ++ inner, "\n" ++ rest)) := by
  intro lines
  refine ⟨fun hnone => by rw [hnone]; rfl, fun hlines => ?_⟩
  have hstar : '*' ∉ indent.toList := fun hmem => absurd (hindent '*' hmem) (by decide)
  obtain ⟨inner, hblock, hinner⟩ := renderDocs_closed hstar hlines
  refine ⟨inner, hblock, fun rest => ?_⟩
  have hclose : "*/\n" = "*/" ++ "\n" := by decide
  have hopen : "/**" = "/*" ++ "*" := by decide
  have hwhole : (("*" ++ inner).toList ++ ['*']).IsChain GoesOn := by
    rw [String.toList_append]
    exact hinner
  constructor
  · rw [hclose, ← String.append_assoc, String.append_assoc, beforeCommentEnd?_append hinner.tail]
  · have hbehind : "/**" ++ inner ++ "*/\n" ++ rest
        = "/*" ++ ("*" ++ inner ++ "*/" ++ ("\n" ++ rest)) := by
      rw [hopen, hclose]
      simp only [String.append_assoc]
    rw [hbehind, readComment?, Text.afterStart?_append, Option.bind_some,
      beforeCommentEnd?_append hwhole]

/-- A title and a description that try to end the comment of a property. -/
theorem docs_stay_in_comment_hostile :
    renderDocs "  " (markDeprecated true (docLines (some "*/ stop") (some "**/\n/ *")))
        = "  /**\n   * *\\/ stop\n   * **\\/\n   * / *\n   * @deprecated\n   */\n" ∧
      ∃ inner, renderDocs "  " (markDeprecated true (docLines (some "*/ stop") (some "**/\n/ *")))
          = "  " ++ "/**" ++ inner ++ "*/\n" ∧
        readComment? ("/**" ++ inner ++ "*/\n" ++ "  b: string;")
          = some ("*" ++ inner, "\n" ++ "  b: string;") := by
  have hindent : ∀ c ∈ "  ".toList, c = ' ' := by simp
  obtain ⟨-, hblock⟩ := docs_stay_in_comment hindent (some "*/ stop") (some "**/\n/ *") true
  obtain ⟨inner, htext, hread⟩ := hblock (by decide +kernel)
  exact ⟨by decide +kernel, inner, htext, (hread "  b: string;").2⟩

end ClientGen.TypeScript
