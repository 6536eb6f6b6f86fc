/-
  ClientGen.Proofs.LegibleType

  Which types of schemas are legible to the scan for operators: all in which no text with an
  apostrophe is spelt out (`legible_of_typedWithin`).
-/
import ClientGen.Proofs.WrittenType

namespace ClientGen

open TypeScript

/-! ## Texts that are spelt out -/

namespace Schema

variable {s inner : Schema}

/-- Whether no text that the type of a schema spells out has an apostrophe. -/
def NoApostrophe (s : Schema) : Prop :=
  ∀ n ∈ s.nodes, ∀ t ∈ n.schema.literals, '\x27' ∉ t.toList

theorem NoApostrophe.nested (h : s.NoApostrophe) (hinner : inner ∈ s.nested) :
    inner.NoApostrophe :=
  fun n hn => h n.below (Node.below_mem_nodes hinner hn)

end Schema

/-! ## Legible types -/

/-- What is written with texts without apostrophes is legible. -/
theorem TypeScript.Written.legible {texts : String → Prop} {cs : List Char} (h : Written texts cs)
    (htexts : ∀ t, texts t → '\x27' ∉ t.toList) : Legible cs := by
  induction h with
  | plain h => exact .of_ordinary (all_isOrdinary_of_isPlain h)
  | literal h => exact .stringLiteral (htexts _ h)
  | bracket hopener _ ih => exact ih.bracket hopener
  | append _ _ ih ih' => exact ih.append ih'

theorem legible_primitiveType (name : String) : Legible (primitiveType name).toList := by
  unfold primitiveType
  repeat' split
  all_goals exact .of_ordinary (by decide)

theorem legible_arrayType {element : String} (h : Legible element.toList) :
    Legible (arrayType element).toList := by
  have hnone : Legible [] := .of_ordinary rfl
  have hbrackets : Legible "[]".toList := hnone.bracket rfl
  unfold arrayType
  split
  · rw [toList_groupArray]
    exact (h.bracket rfl).append hbrackets
  · rw [String.toList_append]
    exact h.append hbrackets

theorem legible_of_typedWithin {d : Document} {referrer type : String} {levels : Nat} {s : Schema}
    (hs : s.NoApostrophe) (h : TypedWithin d referrer levels s type) : Legible type.toList := by
  refine (written_of_typedWithin h).legible ?_
  rintro t ⟨n, hn, ht⟩
  exact hs n hn t ht

end ClientGen
