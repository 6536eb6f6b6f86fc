/-
  ClientGen.Generate.Traced

  Computations that may fail and that note on their way what they need.  What
  was noted before a failure stays noted.
-/
import ClientGen.Error

namespace ClientGen

/-- The notes of a computation, in order, and its result. -/
structure Traced (ω α : Type) where
  notes : List ω := []
  result : Except GenerationError α

namespace Traced

variable {ω ω' α β : Type}

/-- Goes on with the result, unless the computation failed. -/
def andThen (t : Traced ω α) (next : α → Traced ω β) : Traced ω β :=
  match t.result with
  | .ok a => ⟨t.notes ++ (next a).notes, (next a).result⟩
  | .error e => ⟨t.notes, .error e⟩

instance : Monad (Traced ω) where
  pure a := { result := .ok a }
  bind := andThen

@[simp] theorem result_pure (a : α) : (pure a : Traced ω α).result = .ok a := rfl

@[simp] theorem notes_pure (a : α) : (pure a : Traced ω α).notes = [] := rfl

theorem bind_eq (t : Traced ω α) (next : α → Traced ω β) : t >>= next = t.andThen next := rfl

theorem id_map_eq (t : Traced ω α) : id <$> t = t := by
  obtain ⟨notes, _ | a⟩ := t <;> simp [Functor.map, andThen]

theorem bind_assoc_eq {γ : Type} (t : Traced ω α) (f : α → Traced ω β) (g : β → Traced ω γ) :
    t >>= f >>= g = t >>= fun a => f a >>= g := by
  obtain ⟨notes, _ | a⟩ := t
  · rfl
  · simp only [bind_eq, andThen]
    cases (f a).result <;> simp [List.append_assoc]

theorem pure_bind_eq (a : α) (f : α → Traced ω β) : (pure a : Traced ω α) >>= f = f a := by
  simp [bind_eq, andThen, pure]

instance : LawfulMonad (Traced ω) := .mk' (Traced ω) id_map_eq pure_bind_eq bind_assoc_eq

/-- Notes one thing. -/
def note (w : ω) : Traced ω Unit := { notes := [w], result := .ok () }

/-- Notes several things. -/
def noteAll (ws : List ω) : Traced ω Unit := { notes := ws, result := .ok () }

/-- Fails. -/
def fail (e : GenerationError) : Traced ω α := { result := .error e }

/-- What may fail, without notes. -/
def ofExcept (result : Except GenerationError α) : Traced ω α := { result }

/-- The same computation with other notes. -/
def mapNotes (f : ω → ω') (t : Traced ω α) : Traced ω' α := ⟨t.notes.map f, t.result⟩

end Traced

end ClientGen
