/-
  ClientGen.Proofs.FreeName

  Names that are not taken.  A name is free as it is, or with the least number behind
  it that makes it so, and a free number is met before more numbers are tried than
  names are taken.  Whatever texts the parameters of a method are named after, their
  names are identifiers without repeats, and none is a reserved word.
-/
import ClientGen.Generate.MethodName
import ClientGen.Proofs.Words
import Mathlib.Data.List.Nodup

namespace ClientGen

open TypeScript

/-! ## Numbers behind a name -/

theorem toList_numbered (base : String) (n : Nat) :
    (base ++ toString n).toList = base.toList ++ Nat.toDigits 10 n := by
  rw [String.toList_append, Nat.toString_eq_repr, Nat.toList_repr]

/-- The number can be read off. -/
theorem numbered_inj {base : String} {m n : Nat} (h : base ++ toString m = base ++ toString n) :
    m = n := by
  have hchars := congrArg String.toList h
  rw [toList_numbered, toList_numbered] at hchars
  have hdigits : Nat.toDigits 10 m = Nat.toDigits 10 n := List.append_cancel_left hchars
  have hread := congrArg (Nat.ofDigitChars 10 · 0) hdigits
  have hback (k : Nat) : Nat.ofDigitChars 10 (Nat.toDigits 10 k) 0 = k :=
    Nat.ofDigitChars_toDigits (by decide) (by decide)
  rwa [hback, hback] at hread

theorem numbered_ne (base : String) (n : Nat) : base ++ toString n ≠ base := by
  intro h
  have hchars := congrArg String.toList h
  rw [toList_numbered] at hchars
  exact Nat.toDigits_ne_nil (List.append_right_eq_self.1 hchars)

theorem isDigit_of_getLast?_numbered (base : String) (n : Nat) :
    ∃ c, (base ++ toString n).toList.getLast? = some c ∧ c.isDigit = true := by
  have hdigits : Nat.toDigits 10 n ≠ [] := Nat.toDigits_ne_nil
  refine ⟨_, ?_, Nat.isDigit_of_mem_toDigits (by decide) (by decide) (List.getLast_mem hdigits)⟩
  rw [toList_numbered, List.getLast?_append_of_ne_nil _ hdigits,
    List.getLast?_eq_some_getLast hdigits]

theorem isIdentifier_numbered {base : String} (h : isIdentifier base = true) (n : Nat) :
    isIdentifier (base ++ toString n) = true := by
  apply isIdentifier_append h
  intro c hc
  rw [Nat.toString_eq_repr, Nat.toList_repr] at hc
  have hdigit : c.isDigit = true := Nat.isDigit_of_mem_toDigits (by decide) (by decide) hc
  have halphanum : c.isAlphanum = true := by
    rw [Char.isAlphanum, hdigit, Bool.or_true]
  exact continuesIdentifier_of_isAlphanum halphanum

/-! ## Free names -/

section Free

variable {taken : List String} {base : String}

/-- If a name is taken, and all its numbers from two up to some bound, then at least so many names
    are taken. -/
theorem le_length_of_taken {k : Nat} (hbase : base ∈ taken)
    (h : ∀ j, 2 ≤ j → j < k → base ++ toString j ∈ taken) : k ≤ taken.length + 1 := by
  let numbers := List.range' 2 (k - 2)
  let names := base :: numbers.map fun j => base ++ toString j
  have hnodup : names.Nodup := by
    refine List.nodup_cons.2 ⟨fun hmem => ?_, (List.nodup_range' 1).map fun _ _ => numbered_inj⟩
    obtain ⟨j, -, hj⟩ := List.mem_map.1 hmem
    exact numbered_ne base j hj
  have hsubset : names ⊆ taken := by
    rintro name hname
    rcases List.mem_cons.1 hname with rfl | hname
    · exact hbase
    · obtain ⟨j, hj, rfl⟩ := List.mem_map.1 hname
      have hrange : 2 ≤ j ∧ j < 2 + (k - 2) := List.mem_range'_1.1 hj
      exact h j hrange.1 (by omega)
  have hlength : names.length ≤ taken.length := (List.subperm_of_subset hnodup hsubset).length_le
  simp only [names, numbers, List.length_cons, List.length_map, List.length_range'] at hlength
  omega

/-- The search comes to a number before which all are taken.  Unless the tries run out, this number
    is free. -/
theorem numberedFrom_cases (taken : List String) (base : String) (tries n : Nat) :
    ∃ k, numberedFrom taken base tries n = base ++ toString k ∧ n ≤ k ∧
      (∀ j, n ≤ j → j < k → base ++ toString j ∈ taken) ∧
      (base ++ toString k ∉ taken ∨ k = n + tries) := by
  induction tries generalizing n with
  | zero => exact ⟨n, rfl, Nat.le_refl n, fun j hj hlt => absurd hj (Nat.not_le.2 hlt), .inr rfl⟩
  | succ tries ih =>
    unfold numberedFrom
    split
    · next htaken =>
      obtain ⟨k, heq, hle, hbefore, hend⟩ := ih (n + 1)
      refine ⟨k, heq, by omega, fun j hj hlt => ?_, hend.imp_right fun hk => by omega⟩
      rcases Nat.eq_or_lt_of_le hj with rfl | hj
      · exact List.contains_iff_mem.1 htaken
      · exact hbefore j hj hlt
    · next hfree =>
      refine ⟨n, rfl, Nat.le_refl n, fun j hj hlt => absurd hj (Nat.not_le.2 hlt), .inl ?_⟩
      exact fun hmem => hfree (List.contains_iff_mem.2 hmem)

theorem freeName_of_not_mem (h : base ∉ taken) : freeName taken base = base := by
  rw [freeName, if_neg fun hmem => h (List.contains_iff_mem.1 hmem)]

/-- A name that is taken gets the least number that makes it free. -/
theorem freeName_of_mem (h : base ∈ taken) :
    ∃ n, freeName taken base = base ++ toString n ∧ 2 ≤ n ∧ n ≤ taken.length + 1 ∧
      base ++ toString n ∉ taken ∧ ∀ k, 2 ≤ k → k < n → base ++ toString k ∈ taken := by
  obtain ⟨n, heq, hle, hbefore, hend⟩ := numberedFrom_cases taken base taken.length 2
  have hbound : n ≤ taken.length + 1 := le_length_of_taken h hbefore
  -- so many numbers are not taken, hence the tries have not run out
  have hfree : base ++ toString n ∉ taken := hend.resolve_right (by omega)
  refine ⟨n, ?_, hle, hbound, hfree, hbefore⟩
  rw [freeName, if_pos (List.contains_iff_mem.2 h), heq]

/-- The free name is the name itself or one of its numbers. -/
theorem freeName_cases (taken : List String) (base : String) :
    (freeName taken base = base ∧ base ∉ taken) ∨
      ∃ n : Nat, freeName taken base = base ++ toString n ∧ base ++ toString n ∉ taken := by
  by_cases h : base ∈ taken
  · obtain ⟨n, heq, -, -, hfree, -⟩ := freeName_of_mem h
    exact .inr ⟨n, heq, hfree⟩
  · exact .inl ⟨freeName_of_not_mem h, h⟩

theorem freeName_not_mem (taken : List String) (base : String) : freeName taken base ∉ taken := by
  rcases freeName_cases taken base with ⟨heq, hfree⟩ | ⟨n, heq, hfree⟩
  · rw [heq]
    exact hfree
  · rw [heq]
    exact hfree

/-- What holds of a name and of all its numbers holds of the free name. -/
theorem freeName_induction {P : String → Prop} (taken : List String) (hbase : P base)
    (hnumbered : ∀ n : Nat, P (base ++ toString n)) : P (freeName taken base) := by
  rcases freeName_cases taken base with ⟨heq, -⟩ | ⟨n, heq, -⟩
  · rw [heq]
    exact hbase
  · rw [heq]
    exact hnumbered n

theorem isIdentifier_freeName (taken : List String) (h : isIdentifier base = true) :
    isIdentifier (freeName taken base) = true :=
  freeName_induction (P := (isIdentifier · = true)) taken h (isIdentifier_numbered h)

end Free

/-! ## Names after texts -/

/-- An underscore in front makes an identifier of whatever may continue one. -/
theorem isIdentifier_withOpening {s : String}
    (h : ∀ c ∈ s.toList, continuesIdentifier c = true) : isIdentifier (withOpening s) = true := by
  have hunderscore : isIdentifier "_" = true := by decide
  unfold withOpening
  split
  · exact hunderscore
  · next c rest hs =>
    split
    · exact isIdentifier_append hunderscore h
    · next hdigit =>
      have hc : continuesIdentifier c = true := h c (hs ▸ List.mem_cons_self)
      rw [isIdentifier_iff, hs, List.head?_cons, Option.any_some, ← hs]
      refine ⟨?_, h⟩
      -- without the digits, what may continue an identifier may open one
      rw [continuesIdentifier, Char.isAlphanum, Bool.eq_false_iff.2 hdigit, Bool.or_false] at hc
      exact hc

theorem isLower_of_isDigit {c : Char} (h : c.isDigit = true) : c.isLower = false := by
  -- the digits are all below the letters
  simp [Char.isDigit, Char.isLower, UInt32.le_iff_toNat_le] at h ⊢
  omega

section Words

variable {words : List String}
  (hwords : ∀ word ∈ words, word.toList.getLast?.all Char.isLower = true)
include hwords

/-- What does not end in a letter of lower case is none of the words that all do. -/
theorem not_mem_of_getLast? {s : String} {c : Char} (h : s.toList.getLast? = some c)
    (hc : c.isLower = false) : s ∉ words := by
  intro hmem
  have hlower := hwords s hmem
  rw [h, Option.all_some, hc] at hlower
  cases hlower

/-- What goes on with a number ends in a digit. -/
theorem not_mem_numbered (base : String) (n : Nat) : base ++ toString n ∉ words := by
  obtain ⟨c, hlast, hdigit⟩ := isDigit_of_getLast?_numbered base n
  exact not_mem_of_getLast? hwords hlast (isLower_of_isDigit hdigit)

end Words

theorem endings_reservedWords :
    ∀ word ∈ reservedWords, word.toList.getLast?.all Char.isLower = true := by
  decide +kernel

theorem isIdentifier_safeIdentifier (s : String) : isIdentifier (safeIdentifier s) = true := by
  have hname : isIdentifier (withOpening (Text.camelCase s)) = true :=
    isIdentifier_withOpening fun c hc =>
      continuesIdentifier_of_isAlphanum (Text.isAlphanum_of_mem_camelCase c hc)
  have hunderscore : ∀ c ∈ "_".toList, continuesIdentifier c = true :=
    List.all_eq_true.1 (by decide)
  unfold safeIdentifier
  dsimp only
  split
  · exact isIdentifier_append hname hunderscore
  · exact hname

theorem safeIdentifier_not_mem (s : String) : safeIdentifier s ∉ reservedWords := by
  unfold safeIdentifier
  dsimp only
  split
  · have hlast : (withOpening (Text.camelCase s) ++ "_").toList.getLast? = some '_' := by
      rw [String.toList_append]
      exact List.getLast?_concat
    exact not_mem_of_getLast? endings_reservedWords hlast (by decide)
  · next h => exact fun hmem => h (List.contains_iff_mem.2 hmem)

/-! ## Names of parameters -/

/-- A number behind a name makes it no reserved word. -/
theorem freeName_not_mem_reservedWords (taken : List String) {base : String}
    (h : base ∉ reservedWords) : freeName taken base ∉ reservedWords :=
  freeName_induction (P := (· ∉ reservedWords)) taken h
    (not_mem_numbered endings_reservedWords base)

/-- By induction on the texts: every name is taken for those that follow. -/
theorem nodup_parameterNames (taken texts : List String) :
    (parameterNames taken texts).Nodup ∧ ∀ name ∈ parameterNames taken texts, name ∉ taken := by
  induction texts generalizing taken with
  | nil => exact ⟨List.nodup_nil, fun _ h => absurd h List.not_mem_nil⟩
  | cons text rest ih =>
    obtain ⟨hnodup, hfree⟩ := ih (freeName taken (safeIdentifier text) :: taken)
    rw [parameterNames]
    refine ⟨List.nodup_cons.2 ⟨fun hmem => hfree _ hmem List.mem_cons_self, hnodup⟩, ?_⟩
    intro name hname
    rcases List.mem_cons.1 hname with rfl | hname
    · exact freeName_not_mem taken _
    · exact fun hmem => hfree name hname (List.mem_cons_of_mem _ hmem)

theorem legal_parameterNames (taken texts : List String) :
    ∀ name ∈ parameterNames taken texts, isIdentifier name = true ∧ name ∉ reservedWords := by
  induction texts generalizing taken with
  | nil => exact fun _ h => absurd h List.not_mem_nil
  | cons text rest ih =>
    intro name hname
    rw [parameterNames] at hname
    rcases List.mem_cons.1 hname with rfl | hname
    · exact ⟨isIdentifier_freeName taken (isIdentifier_safeIdentifier text),
        freeName_not_mem_reservedWords taken (safeIdentifier_not_mem text)⟩
    · exact ih _ name hname

end ClientGen
