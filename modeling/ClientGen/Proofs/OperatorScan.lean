/-
  ClientGen.Proofs.OperatorScan

  The scan for operators outside of brackets.  It counts brackets where a reader tells them
  apart, and takes no notice of backslashes, so it loses its way in a literal that holds an
  escaped quote.  Texts that are put together of anything else are `Legible`: the scan finds
  just the operators that show in them (`Legible.hasTopLevelOperator_eq`).
-/
import ClientGen.Proofs.Intersection

namespace ClientGen.TypeScript

/-! ## Scans -/

section Scan

variable {place : Place} {quote opener closer : Char} {cs others : List Char}

theorem operatorFrom_append (place : Place) (cs others : List Char) :
    operatorFrom place (cs ++ others)
      = (operatorFrom place cs || operatorFrom (cs.foldl Place.after place) others) := by
  induction cs generalizing place with
  | nil => rw [List.nil_append, operatorFrom, Bool.false_or, List.foldl_nil]
  | cons c rest ih =>
    rw [List.cons_append, operatorFrom, operatorFrom, ih, List.foldl_cons, Bool.or_assoc]

theorem after_quoted {c : Char} (h : c ≠ quote) (depth : Int) :
    Place.after (.quoted quote depth) c = .quoted quote depth := if_neg h

/-- Without the quote that ends it, a quotation goes on. -/
theorem foldl_after_quoted (h : quote ∉ cs) (depth : Int) :
    cs.foldl Place.after (.quoted quote depth) = .quoted quote depth := by
  induction cs with
  | nil => rfl
  | cons c rest ih =>
    obtain ⟨hc, hrest⟩ := not_or.1 (List.mem_cons.not.1 h)
    rw [List.foldl_cons, after_quoted (Ne.symm hc), ih hrest]

theorem operatorFrom_quoted (h : quote ∉ cs) (depth : Int) :
    operatorFrom (.quoted quote depth) cs = false := by
  induction cs with
  | nil => rfl
  | cons c rest ih =>
    obtain ⟨hc, hrest⟩ := not_or.1 (List.mem_cons.not.1 h)
    have hplace : ¬Place.quoted quote depth = .bare 0 := nofun
    rw [operatorFrom, after_quoted (Ne.symm hc), ih hrest, decide_eq_false hplace, Bool.false_and,
      Bool.or_false]

/-- Inside a bracket a scan is one level deeper. -/
theorem after_bracket (h : closerOf? opener = some closer) (depth : Nat) :
    Place.after (.bare depth) opener = .bare (depth + 1 : Nat) ∧
      Place.after (.bare (depth + 1 : Nat)) closer = .bare depth := by
  unfold closerOf? at h
  grind [Place.after]

/-- No bracket is an operator. -/
theorem operatorFrom_brackets (place : Place) : operatorFrom place "[]".toList = false := by
  have hopen : ('[' == '|' || '[' == '&') = false := rfl
  have hclose : (']' == '|' || ']' == '&') = false := rfl
  show operatorFrom place ['[', ']'] = false
  rw [operatorFrom, operatorFrom, operatorFrom, hopen, hclose, Bool.and_false, Bool.and_false]
  rfl

end Scan

/-! ## Legible texts -/

/-- A closed text in which a scan, at any depth, finds just the operators that show, and after
    which it is where it was before. -/
structure Legible (cs : List Char) : Prop where
  closed : Closed cs
  returns (depth : Nat) : cs.foldl Place.after (.bare depth) = .bare depth
  operators (depth : Nat) :
    operatorFrom (.bare depth) cs = (depth = 0 && (shows '|' cs || shows '&' cs))

/-- Whether a character means nothing by itself but, perhaps, an operator. -/
def isOrdinary (c : Char) : Bool := !isQuote c && !isCloser c && (closerOf? c).isNone

theorem isOrdinary_of_not_mem_marks {c : Char} (h : c ∉ marks) : isOrdinary c = true := by
  simp only [marks, List.mem_cons, List.not_mem_nil, or_false, not_or] at h
  simp [isOrdinary, isQuote, isCloser, closerOf?, h]

/-- Neither a reader nor a scan goes anywhere with such a character. -/
theorem after_of_isOrdinary {c : Char} (h : isOrdinary c = true) :
    Spot.after? (.outside []) c = some (.outside []) ∧
      ∀ depth, Place.after (.bare depth) c = .bare depth := by
  simp only [isOrdinary, isQuote, isCloser, closerOf?] at h
  constructor <;> grind [Spot.after?, Place.after, isQuote, isCloser, closerOf?]

namespace Legible

variable {cs others : List Char}

theorem append (h : Legible cs) (h' : Legible others) : Legible (cs ++ others) where
  closed := h.closed.append h'.closed
  returns depth := by rw [List.foldl_append, h.returns, h'.returns]
  operators depth := by
    rw [operatorFrom_append, h.operators, h.returns, h'.operators, shows_append h.closed,
      shows_append h.closed, ← Bool.and_or_distrib_left]
    congr 1
    ac_rfl

/-- Inside a bracket a scan finds nothing. -/
theorem bracket {opener closer : Char} (hopener : closerOf? opener = some closer)
    (h : Legible cs) : Legible (opener :: (cs ++ [closer])) where
  closed := h.closed.bracket hopener
  returns depth := by
    obtain ⟨hopened, hclosed⟩ := after_bracket hopener depth
    rw [List.foldl_cons, hopened, List.foldl_append, h.returns, List.foldl_cons, hclosed,
      List.foldl_nil]
  operators depth := by
    obtain ⟨hopened, hclosed⟩ := after_bracket hopener depth
    have hbar : opener ≠ '|' := by
      rintro rfl
      cases hopener
    have hamp : opener ≠ '&' := by
      rintro rfl
      cases hopener
    have hdeeper : Place.bare (depth + 1 : Nat) ≠ .bare 0 := by
      rw [ne_eq, Place.bare.injEq]
      omega
    rw [shows_bracket hopener hbar.symm h.closed, shows_bracket hopener hamp.symm h.closed,
      operatorFrom, hopened, operatorFrom_append, h.operators, h.returns, operatorFrom, hclosed,
      decide_eq_false hdeeper]
    simp [operatorFrom, hbar, hamp]

/-- A text without quotes and brackets is read as it stands. -/
theorem of_ordinary (h : cs.all isOrdinary = true) : Legible cs := by
  induction cs with
  | nil => exact ⟨rfl, fun _ => rfl, fun depth => by simp [operatorFrom, shows, showsFrom]⟩
  | cons c rest ih =>
    rw [List.all_cons, Bool.and_eq_true] at h
    obtain ⟨hc, hrest⟩ := h
    obtain ⟨hspot, hplace⟩ := after_of_isOrdinary hc
    have hfirst : Legible [c] := by
      refine ⟨?_, fun depth => hplace depth, fun depth => ?_⟩
      · rw [Closed, Spot.walk?_cons, hspot]
        rfl
      · simp [operatorFrom, shows, showsFrom, hspot]
    exact hfirst.append (ih hrest)

/-- A literal of a text without apostrophes has one at each end only. -/
theorem stringLiteral {s : String} (h : '\x27' ∉ s.toList) :
    Legible (TypeScript.stringLiteral s).toList := by
  have hbody : '\x27' ∉ s.toList.flatMap quotedChar := by
    intro hmem
    obtain ⟨c, hc, hmem⟩ := List.mem_flatMap.1 hmem
    have hne : c ≠ '\x27' := fun heq => h (heq ▸ hc)
    unfold quotedChar at hmem
    grind
  have htext : (TypeScript.stringLiteral s).toList
      = '\x27' :: (s.toList.flatMap quotedChar ++ ['\x27']) := String.toList_ofList
  have hopened (depth : Int) : Place.after (.bare depth) '\x27' = .quoted '\x27' depth := rfl
  have hclosed (depth : Int) : Place.after (.quoted '\x27' depth) '\x27' = .bare depth := rfl
  constructor
  · exact closed_stringLiteral s
  · intro depth
    rw [htext, List.foldl_cons, hopened, List.foldl_append, foldl_after_quoted hbody,
      List.foldl_cons, hclosed, List.foldl_nil]
  · intro depth
    rw [shows_stringLiteral (by decide), shows_stringLiteral (by decide), htext, operatorFrom,
      hopened, operatorFrom_append, operatorFrom_quoted hbody, foldl_after_quoted hbody]
    simp [operatorFrom]

/-- The scan of a legible type finds just the operators that show in it. -/
theorem hasTopLevelOperator_eq {type : String} (h : Legible type.toList) :
    hasTopLevelOperator type = (shows '|' type.toList || shows '&' type.toList) :=
  (h.operators 0).trans (Bool.true_and _)

end Legible

end ClientGen.TypeScript
