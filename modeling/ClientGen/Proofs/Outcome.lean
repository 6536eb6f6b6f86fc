/-
  ClientGen.Proofs.Outcome

  Steps that give a value or an error.  A run of steps succeeds just when all of
  them do, and fails in the first that fails.
-/
import Mathlib.Data.List.Forall2

namespace ClientGen

section Outcomes

variable {ε α β : Type} {x : Except ε α}

theorem bind_eq_ok_iff {f : α → Except ε β} {b : β} :
    (x >>= f) = .ok b ↔ ∃ a, x = .ok a ∧ f a = .ok b := by
  cases x with
  | error e =>
    constructor
    · intro h
      cases h
    · rintro ⟨a, ha, -⟩
      cases ha
  | ok a =>
    constructor
    · exact fun h => ⟨a, rfl, h⟩
    · rintro ⟨_, ha, h⟩
      cases ha
      exact h

theorem map_eq_ok_iff {f : α → β} {b : β} : f <$> x = .ok b ↔ ∃ a, x = .ok a ∧ f a = b := by
  have hbind := bind_eq_ok_iff (x := x) (f := fun a => pure (f a)) (b := b)
  rw [bind_pure_comp] at hbind
  simpa only [pure, Except.pure, Except.ok.injEq] using hbind

theorem exists_map_eq_ok_iff {f : α → β} : (∃ b, f <$> x = .ok b) ↔ ∃ a, x = .ok a := by
  simp only [map_eq_ok_iff]
  exact ⟨fun ⟨_, a, ha, _⟩ => ⟨a, ha⟩, fun ⟨a, ha⟩ => ⟨f a, a, ha, rfl⟩⟩

theorem map_eq_error_iff {f : α → β} {e : ε} : f <$> x = .error e ↔ x = .error e := by
  cases x with
  | error e' =>
    have hmap : f <$> (.error e' : Except ε α) = .error e' := rfl
    rw [hmap, Except.error.injEq, Except.error.injEq]
  | ok a => constructor <;> intro h <;> cases h

theorem exists_map_eq_error_iff {f : α → β} :
    (∃ e, f <$> x = .error e) ↔ ∃ e, x = .error e :=
  exists_congr fun _ => map_eq_error_iff

/-- Where the second step fails in the same cases whatever the first one gives. -/
theorem exists_bind_eq_error_iff {f : α → Except ε β} {q : Prop}
    (hf : ∀ a, (∃ e, f a = .error e) ↔ q) :
    (∃ e, (x >>= f) = .error e) ↔ (∃ e, x = .error e) ∨ q := by
  cases x with
  | error e => exact ⟨fun _ => .inl ⟨e, rfl⟩, fun _ => ⟨e, rfl⟩⟩
  | ok a =>
    refine (hf a).trans ⟨.inr, ?_⟩
    rintro (⟨e, he⟩ | hq)
    · cases he
    · exact hq

theorem exists_mapM_eq_error_iff {f : α → Except ε β} {as : List α} :
    (∃ e, as.mapM f = .error e) ↔ ∃ a ∈ as, ∃ e, f a = .error e := by
  induction as with
  | nil => simp [pure, Except.pure]
  | cons a rest ih =>
    rw [List.mapM_cons, List.exists_mem_cons_iff, ← ih]
    apply exists_bind_eq_error_iff
    intro b
    rw [bind_pure_comp]
    exact exists_map_eq_error_iff

theorem mapM_eq_ok_iff {f : α → Except ε β} {as : List α} {bs : List β} :
    as.mapM f = .ok bs ↔ List.Forall₂ (fun a b => f a = .ok b) as bs := by
  induction as generalizing bs with
  | nil => simp [pure, Except.pure, eq_comm]
  | cons a rest ih =>
    simp only [List.mapM_cons, bind_eq_ok_iff, ih, pure, Except.pure, Except.ok.injEq,
      List.forall₂_cons_left_iff]
    constructor
    · rintro ⟨b, hb, others, hothers, rfl⟩
      exact ⟨b, others, hb, hothers, rfl⟩
    · rintro ⟨b, others, hb, hothers, rfl⟩
      exact ⟨b, hb, others, hothers, rfl⟩

theorem eq_ok_of_toOption {a : α} (h : x.toOption = some a) : x = .ok a := by
  cases x with
  | ok a' => exact congrArg Except.ok (Option.some.inj h)
  | error e => cases h

/-- A run that has been evaluated, with a test that what it gives has passed. -/
theorem exists_ok_of_any {test : α → Bool} (h : x.toOption.any test = true) :
    ∃ a, x = .ok a ∧ test a = true := by
  cases x with
  | ok a => exact ⟨a, rfl, h⟩
  | error e => cases h

end Outcomes

end ClientGen
