/-
  ClientGen.Proofs.Traced

  Reasoning about computations that note what they need.  `Traced.Within`
  bounds what a computation may note and how it may fail; its rules follow the
  ways in which computations are put together, so that one lemma for each
  function of the generator is enough.
-/
import ClientGen.Generate.Traced
import ClientGen.Proofs.Outcome
import Mathlib.Data.List.Forall2

namespace ClientGen

/-- A member of one of two lists that go together has a partner in the other. -/
theorem exists_of_mem_of_forall₂ {α β : Type} {R : α → β → Prop} {as : List α} {bs : List β}
    {b : β} (h : List.Forall₂ R as bs) (hb : b ∈ bs) : ∃ a ∈ as, R a b := by
  induction h with
  | nil => exact absurd hb List.not_mem_nil
  | cons hfirst _ ih =>
    rcases List.mem_cons.1 hb with rfl | hb
    · exact ⟨_, List.mem_cons_self, hfirst⟩
    · obtain ⟨a, ha, hR⟩ := ih hb
      exact ⟨a, List.mem_cons_of_mem _ ha, hR⟩

/-- What is made of some items of a list, each under the label of its item, keeps their order. -/
theorem map_filterMap_sublist {α β γ : Type} {f : α → Option β} {label : β → γ} {label' : α → γ}
    (h : ∀ a b, f a = some b → label b = label' a) (as : List α) :
    ((as.filterMap f).map label).Sublist (as.map label') := by
  induction as with
  | nil => exact .slnil
  | cons a rest ih =>
    cases hf : f a with
    | none =>
      rw [List.filterMap_cons_none hf]
      exact ih.cons _
    | some b =>
      rw [List.filterMap_cons_some hf, List.map_cons, List.map_cons, h a b hf]
      exact ih.cons_cons _

namespace Traced

variable {ω ω' α β : Type} {t : Traced ω α} {f : α → Traced ω β}

/-! ## Results and notes -/

@[simp] theorem result_note (w : ω) : (note w).result = .ok () := rfl

@[simp] theorem notes_note (w : ω) : (note w).notes = [w] := rfl

@[simp] theorem result_noteAll (ws : List ω) : (noteAll ws).result = .ok () := rfl

@[simp] theorem notes_ofExcept (r : Except GenerationError α) :
    (ofExcept r : Traced ω α).notes = [] := rfl

@[simp] theorem notes_mapNotes (g : ω → ω') : (t.mapNotes g).notes = t.notes.map g := rfl

theorem bind_of_ok {a : α} (h : t.result = .ok a) :
    t >>= f = ⟨t.notes ++ (f a).notes, (f a).result⟩ := by
  rw [bind_eq, andThen, h]

theorem bind_of_error {e : GenerationError} (h : t.result = .error e) :
    t >>= f = ⟨t.notes, .error e⟩ := by
  rw [bind_eq, andThen, h]

theorem result_bind_eq_ok_iff {b : β} :
    (t >>= f).result = .ok b ↔ ∃ a, t.result = .ok a ∧ (f a).result = .ok b := by
  cases h : t.result with
  | ok a => simp [bind_of_ok h]
  | error e => simp [bind_of_error h]

theorem mem_notes_bind_left {w : ω} (h : w ∈ t.notes) : w ∈ (t >>= f).notes := by
  cases ht : t.result with
  | ok a =>
    rw [bind_of_ok ht]
    exact List.mem_append_left _ h
  | error e =>
    rw [bind_of_error ht]
    exact h

theorem mem_notes_bind_right {a : α} {w : ω} (ht : t.result = .ok a) (h : w ∈ (f a).notes) :
    w ∈ (t >>= f).notes := by
  rw [bind_of_ok ht]
  exact List.mem_append_right _ h

theorem map_eq (g : α → β) : g <$> t = ⟨t.notes, g <$> t.result⟩ := by
  rw [← bind_pure_comp]
  cases h : t.result with
  | ok a => simp [bind_of_ok h, Functor.map, Except.map]
  | error e => simp [bind_of_error h, Functor.map, Except.map]

@[simp] theorem notes_map (g : α → β) : (g <$> t).notes = t.notes := by rw [map_eq]

theorem result_map_eq_ok_iff {g : α → β} {b : β} :
    (g <$> t).result = .ok b ↔ ∃ a, t.result = .ok a ∧ g a = b := by
  rw [map_eq]
  cases t.result <;> simp [Functor.map, Except.map]

/-- What a computation over a list gives and notes when it succeeds. -/
theorem mapM_of_ok {as : List α} {bs : List β} (h : (as.mapM f).result = .ok bs) :
    List.Forall₂ (fun a b => (f a).result = .ok b) as bs ∧
      (as.mapM f).notes = as.flatMap fun a => (f a).notes := by
  induction as generalizing bs with
  | nil =>
    rw [List.mapM_nil, result_pure, Except.ok.injEq] at h
    subst h
    exact ⟨.nil, rfl⟩
  | cons a rest ih =>
    rw [List.mapM_cons, result_bind_eq_ok_iff] at h
    obtain ⟨b, hb, h⟩ := h
    obtain ⟨bs', hbs, h⟩ := result_bind_eq_ok_iff.1 h
    rw [result_pure, Except.ok.injEq] at h
    subst h
    obtain ⟨hall, hnotes⟩ := ih hbs
    refine ⟨.cons hb hall, ?_⟩
    rw [List.mapM_cons, bind_of_ok hb, bind_of_ok hbs, hnotes]
    simp

/-- What a computation over a list gives was given for an item. -/
theorem exists_of_mem_mapM {as : List α} {bs : List β} {b : β} (h : (as.mapM f).result = .ok bs)
    (hb : b ∈ bs) : ∃ a ∈ as, (f a).result = .ok b := by
  obtain ⟨hall, -⟩ := mapM_of_ok h
  obtain ⟨a, ha, hresult⟩ := exists_of_mem_of_forall₂ hall hb
  exact ⟨a, ha, hresult⟩

/-- A computation over a list succeeds when it does for every item. -/
theorem result_mapM_of_forall {as : List α} (h : ∀ a ∈ as, ∃ b, (f a).result = .ok b) :
    ∃ bs, (as.mapM f).result = .ok bs := by
  induction as with
  | nil => exact ⟨[], by rw [List.mapM_nil, result_pure]⟩
  | cons a rest ih =>
    obtain ⟨b, hb⟩ := h a List.mem_cons_self
    obtain ⟨bs, hbs⟩ := ih fun a' ha' => h a' (List.mem_cons_of_mem _ ha')
    rw [List.mapM_cons, bind_of_ok hb, bind_of_ok hbs]
    exact ⟨b :: bs, rfl⟩

/-- What holds at first, and after every step that succeeds, holds in the end. -/
theorem foldlM_induction {P : β → Prop} {g : β → α → Traced ω β} {as : List α} {b b' : β}
    (hstep : ∀ b a b', P b → (g b a).result = .ok b' → P b') (hb : P b)
    (h : (as.foldlM g b).result = .ok b') : P b' := by
  induction as generalizing b with
  | nil =>
    cases h
    exact hb
  | cons a rest ih =>
    rw [List.foldlM_cons] at h
    obtain ⟨next, hnext, h⟩ := result_bind_eq_ok_iff.1 h
    exact ih (hstep b a next hb hnext) h

/-! ## Faults -/

/-- How a computation fails. -/
def fault? (t : Traced ω α) : Option GenerationError :=
  match t.result with
  | .ok _ => none
  | .error e => some e

theorem fault?_eq_some_iff {e : GenerationError} : t.fault? = some e ↔ t.result = .error e := by
  unfold fault?
  cases t.result <;> simp

theorem fault?_eq_none_iff : t.fault? = none ↔ ∃ a, t.result = .ok a := by
  unfold fault?
  cases t.result <;> simp

@[simp] theorem fault?_mapNotes (g : ω → ω') : (t.mapNotes g).fault? = t.fault? := rfl

@[simp] theorem fault?_map (g : α → β) : (g <$> t).fault? = t.fault? := by
  rw [map_eq]
  unfold fault?
  cases t.result <;> rfl

/-- Computations that go on from the same start fail alike when their ends do. -/
theorem fault?_bind_congr {g : α → Traced ω ω'} (h : ∀ a, (f a).fault? = (g a).fault?) :
    (t >>= f).fault? = (t >>= g).fault? := by
  cases ht : t.result with
  | ok a =>
    rw [bind_of_ok ht, bind_of_ok ht]
    exact h a
  | error e =>
    rw [bind_of_error ht, bind_of_error ht]
    rfl

/-- Computations that start alike, and end alike whatever their starts gave, fail alike. -/
theorem fault?_bind_congr_of_fault? {α' β' : Type} {t' : Traced ω α'} {g : α' → Traced ω β'}
    (ht : t.fault? = t'.fault?) (h : ∀ a a', (f a).fault? = (g a').fault?) :
    (t >>= f).fault? = (t' >>= g).fault? := by
  unfold fault? at ht
  cases hr : t.result with
  | ok a =>
    cases hr' : t'.result with
    | ok a' =>
      rw [bind_of_ok hr, bind_of_ok hr']
      exact h a a'
    | error e' => simp [hr, hr'] at ht
  | error e =>
    cases hr' : t'.result with
    | ok a' => simp [hr, hr'] at ht
    | error e' =>
      rw [hr, hr'] at ht
      rw [bind_of_error hr, bind_of_error hr']
      exact ht

/-- A computation fails as its start does, or else as its end, if that fails in one way whatever
    the start gives. -/
theorem fault?_bind {e : Option GenerationError} (h : ∀ a, (f a).fault? = e) :
    (t >>= f).fault? = t.fault?.or e := by
  cases ht : t.result with
  | ok a =>
    rw [bind_of_ok ht, fault?_eq_none_iff.2 ⟨a, ht⟩, Option.none_or]
    exact h a
  | error err =>
    rw [bind_of_error ht, fault?_eq_some_iff.2 ht]
    rfl

/-- An end that never fails does not matter for how a computation fails. -/
theorem fault?_bind_of_none (h : ∀ a, (f a).fault? = none) : (t >>= f).fault? = t.fault? := by
  rw [fault?_bind h, Option.or_none]

/-! ## Courses -/

/-- The course of a computation: what it notes and how it fails, apart from what it gives. -/
def course (t : Traced ω α) : Traced ω Unit := (fun _ => ()) <$> t

@[simp] theorem notes_course : t.course.notes = t.notes := notes_map _

@[simp] theorem fault?_course : t.course.fault? = t.fault? := fault?_map _

@[simp] theorem course_pure (a : α) : (pure a : Traced ω α).course = pure () := map_pure _ a

@[simp] theorem course_map (g : α → β) : (g <$> t).course = t.course := by
  rw [course, ← comp_map]
  rfl

/-- What goes on in one way, whatever comes before, has that way in its course. -/
theorem course_bind {u : Traced ω Unit} (h : ∀ a, (f a).course = u) :
    (t >>= f).course = t.course >>= fun _ => u := by
  simp only [course] at h ⊢
  simp only [map_bind, h, bind_map_left]

/-- What is only put into a result does not show. -/
theorem course_bind_pure {g : α → β} : (t >>= fun a => pure (g a)).course = t.course := by
  rw [bind_pure_comp, course_map]

theorem course_mapM (as : List α) : (as.mapM f).course = forM as fun a => (f a).course := by
  induction as with
  | nil => rw [List.mapM_nil, course_pure, List.forM_nil]
  | cons a rest ih =>
    rw [List.mapM_cons, course_bind fun _ => course_bind_pure.trans ih, List.forM_cons]

variable {visit : α → Traced ω Unit}

theorem forM_flatMap {γ : Type} (as : List γ) (g : γ → List α) :
    forM (as.flatMap g) visit = forM as fun a => forM (g a) visit := by
  induction as with
  | nil => rw [List.flatMap_nil, List.forM_nil, List.forM_nil]
  | cons a rest ih => rw [List.flatMap_cons, List.forM_append, List.forM_cons, ih]

/-- A run over a list fails as the first of its items does that fails. -/
theorem fault?_forM (as : List α) :
    (forM as visit).fault? = as.findSome? fun a => (visit a).fault? := by
  induction as with
  | nil => rfl
  | cons a rest ih =>
    rw [List.forM_cons, List.findSome?_cons, ← ih]
    cases h : (visit a).result with
    | ok _ =>
      rw [bind_of_ok h, fault?_eq_none_iff.2 ⟨_, h⟩]
      rfl
    | error e =>
      rw [bind_of_error h, fault?_eq_some_iff.2 h]
      rfl

theorem fault?_mapM (as : List α) : (as.mapM f).fault? = as.findSome? fun a => (f a).fault? := by
  rw [← fault?_course, course_mapM, fault?_forM]
  simp only [fault?_course]

/-! ## Computations that give as much -/

/-- Whether a computation gives whatever another one gives. -/
def Extends (t' t : Traced ω α) : Prop := ∀ a, t.result = .ok a → t'.result = .ok a

namespace Extends

variable {t' : Traced ω α} {f' : α → Traced ω β}

theorem rfl : t.Extends t := fun _ h => h

theorem bind (ht : t'.Extends t) (hf : ∀ a, (f' a).Extends (f a)) :
    (t' >>= f').Extends (t >>= f) := by
  intro b h
  obtain ⟨a, ha, hb⟩ := result_bind_eq_ok_iff.1 h
  exact result_bind_eq_ok_iff.2 ⟨a, ht a ha, hf a b hb⟩

theorem map (g : α → β) (ht : t'.Extends t) : (g <$> t').Extends (g <$> t) := by
  rw [← bind_pure_comp, ← bind_pure_comp]
  exact ht.bind fun _ => rfl

theorem mapM {as : List α} (h : ∀ a, (f' a).Extends (f a)) : (as.mapM f').Extends (as.mapM f) := by
  induction as with
  | nil => exact rfl
  | cons a rest ih =>
    rw [List.mapM_cons, List.mapM_cons]
    exact (h a).bind fun _ => ih.bind fun _ => rfl

end Extends

/-! ## Bounds -/

/-- Everything noted satisfies `N`, and every failure satisfies `E`. -/
structure Within (N : ω → Prop) (E : GenerationError → Prop) (t : Traced ω α) : Prop where
  notes : ∀ w ∈ t.notes, N w
  faults : ∀ e, t.result = .error e → E e

namespace Within

variable {N : ω → Prop} {E : GenerationError → Prop}

theorem pure (a : α) : (Pure.pure a : Traced ω α).Within N E :=
  ⟨by simp, by simp⟩

theorem bind (ht : t.Within N E) (hf : ∀ a, t.result = .ok a → (f a).Within N E) :
    (t >>= f).Within N E := by
  cases h : t.result with
  | ok a =>
    rw [bind_of_ok h]
    refine ⟨fun w hw => ?_, (hf a h).faults⟩
    rcases List.mem_append.1 hw with hw | hw
    · exact ht.notes w hw
    · exact (hf a h).notes w hw
  | error e =>
    rw [bind_of_error h]
    refine ⟨ht.notes, fun e' he => ?_⟩
    rw [Except.error.injEq] at he
    subst he
    exact ht.faults e h

theorem map (g : α → β) (ht : t.Within N E) : (g <$> t).Within N E := by
  rw [← bind_pure_comp]
  exact ht.bind fun a _ => .pure (g a)

theorem note {w : ω} (h : N w) : (Traced.note w).Within N E :=
  ⟨by simpa using h, by simp⟩

theorem noteAll {ws : List ω} (h : ∀ w ∈ ws, N w) : (Traced.noteAll ws).Within N E :=
  ⟨h, by simp⟩

theorem fail {e : GenerationError} (h : E e) : (Traced.fail e : Traced ω α).Within N E := by
  constructor
  · intro w hw
    exact absurd hw List.not_mem_nil
  · intro e' he
    cases he
    exact h

theorem ofExcept {r : Except GenerationError α} (h : ∀ e, r = .error e → E e) :
    (Traced.ofExcept r : Traced ω α).Within N E :=
  ⟨by simp, h⟩

theorem mapNotes {N' : ω' → Prop} {g : ω → ω'} (ht : t.Within N E)
    (hg : ∀ w, N w → N' (g w)) : (t.mapNotes g).Within N' E := by
  refine ⟨fun w hw => ?_, ht.faults⟩
  obtain ⟨v, hv, rfl⟩ := List.mem_map.1 hw
  exact hg v (ht.notes v hv)

theorem mapM {as : List α} (h : ∀ a ∈ as, (f a).Within N E) : (as.mapM f).Within N E := by
  induction as with
  | nil => exact .pure []
  | cons a rest ih =>
    rw [List.mapM_cons]
    have hrest := ih fun a' ha' => h a' (List.mem_cons_of_mem _ ha')
    exact (h a List.mem_cons_self).bind fun b _ => hrest.bind fun bs _ => .pure (b :: bs)

theorem foldlM {as : List α} {g : β → α → Traced ω β} (h : ∀ b, ∀ a ∈ as, (g b a).Within N E)
    (b : β) : (as.foldlM g b).Within N E := by
  induction as generalizing b with
  | nil => exact .pure b
  | cons a rest ih =>
    rw [List.foldlM_cons]
    exact (h b a List.mem_cons_self).bind fun b' _ =>
      ih (fun b a' ha' => h b a' (List.mem_cons_of_mem _ ha')) b'

end Within

/-! ## Notes of computations that succeed -/

/-- Whether a computation notes something of a kind, unless it fails. -/
def Notes (N : ω → Prop) (t : Traced ω α) : Prop := ∀ a, t.result = .ok a → ∃ w ∈ t.notes, N w

namespace Notes

theorem note {w : ω} (h : N w) : (Traced.note w).Notes N := fun _ _ => ⟨w, List.mem_cons_self, h⟩

theorem bind_left (h : t.Notes N) : (t >>= f).Notes N := by
  intro b hb
  obtain ⟨a, ha, -⟩ := result_bind_eq_ok_iff.1 hb
  obtain ⟨w, hw, hN⟩ := h a ha
  exact ⟨w, mem_notes_bind_left hw, hN⟩

theorem bind_right (h : ∀ a, t.result = .ok a → (f a).Notes N) : (t >>= f).Notes N := by
  intro b hb
  obtain ⟨a, ha, hrest⟩ := result_bind_eq_ok_iff.1 hb
  obtain ⟨w, hw, hN⟩ := h a ha b hrest
  exact ⟨w, mem_notes_bind_right ha hw, hN⟩

theorem mapM {as : List α} {a : α} (ha : a ∈ as) (h : (f a).Notes N) : (as.mapM f).Notes N := by
  induction as with
  | nil => exact absurd ha List.not_mem_nil
  | cons first rest ih =>
    rw [List.mapM_cons]
    rcases List.mem_cons.1 ha with rfl | ha
    · exact h.bind_left
    · exact bind_right fun _ _ => (ih ha).bind_left

/-- In a run over a list, an item is noted for that comes first of its kind, if states in which
    it is noted for are kept by all others. -/
theorem foldlM {g : β → α → Traced ω β} {S : β → Prop} {kind : α → Bool} {as : List α} {a : α}
    (hfind : as.find? kind = some a)
    (hkeep : ∀ b other b', kind other = false → S b → (g b other).result = .ok b' → S b')
    (hnote : ∀ b, S b → (g b a).Notes N) {b : β} (hb : S b) : (as.foldlM g b).Notes N := by
  induction as generalizing b with
  | nil => cases hfind
  | cons first rest ih =>
    rw [List.foldlM_cons]
    cases hfirst : kind first with
    | true =>
      rw [List.find?_cons_of_pos hfirst, Option.some.injEq] at hfind
      rw [hfind]
      exact (hnote b hb).bind_left
    | false =>
      rw [List.find?_cons_of_neg (by simp [hfirst])] at hfind
      exact bind_right fun b' hb' => ih hfind (hkeep b first b' hfirst hb hb')

end Notes

end Traced

end ClientGen
