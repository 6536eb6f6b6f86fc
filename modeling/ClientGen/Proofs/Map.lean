/-
  ClientGen.Proofs.Map

  Lookup in entry lists and in the two kinds of maps: what is found after a
  change, and that the entries of a map are exactly what is found in it.  Maps
  that are listed in order are told apart by what is found in them.
-/
import ClientGen.Map.Sorted
import Mathlib.Data.List.Nodup

namespace ClientGen

universe u

/-! ## Entry lists -/

namespace Entries

variable {α : Type u} {key k : String} {value : α} {entries : List (String × α)}

/-- Keys that increase strictly are distinct. -/
theorem Sorted.nodup (h : Sorted entries) : (keys entries).Nodup := by
  apply List.Pairwise.imp _ h
  intro a b hlt heq
  rw [heq] at hlt
  exact String.lt_irrefl _ hlt

theorem get?_eq_none (h : k ∉ keys entries) : get? k entries = none := by
  rw [← Option.not_isSome_iff_eq_none, get?_isSome]
  exact h

/-- Where keys are distinct, the entries are exactly what is found. -/
theorem get?_eq_some_iff (h : (keys entries).Nodup) :
    get? k entries = some value ↔ (k, value) ∈ entries := by
  induction entries with
  | nil => simp [get?]
  | cons entry rest ih =>
    obtain ⟨k', v⟩ := entry
    simp only [keys, List.map_cons, List.nodup_cons] at h
    obtain ⟨hnot, hrest⟩ := h
    unfold get?
    split
    · next heq =>
      subst heq
      have hrestNot : (k', value) ∉ rest := fun hm => hnot (List.mem_map_of_mem (f := Prod.fst) hm)
      simp only [Option.some.injEq, List.mem_cons, Prod.mk.injEq, true_and, hrestNot, or_false]
      exact eq_comm
    · next hne =>
      simp only [List.mem_cons, Prod.mk.injEq, Ne.symm hne, false_and, false_or]
      exact ih hrest

/-- A change is found under its own key, and nothing else is found otherwise than before. -/
theorem get?_alter {f : Option α → α} (h : Sorted entries) :
    get? k (alter key f entries) = if k = key then some (f (get? key entries)) else get? k entries := by
  induction entries with
  | nil => simp [alter, get?, eq_comm]
  | cons entry rest ih =>
    obtain ⟨k', v⟩ := entry
    have hcons := h
    simp only [Sorted, keys, List.map_cons, List.pairwise_cons] at h
    obtain ⟨hfirst, hrest⟩ := h
    unfold alter
    split
    · next hlt =>
      -- the key comes before all others, so it was not there
      have hnone : get? key ((k', v) :: rest) = none := by
        apply get?_eq_none
        intro hm
        rcases List.mem_cons.1 hm with heq | hm
        · exact String.lt_irrefl _ (heq ▸ hlt)
        · exact String.lt_irrefl _ (String.lt_trans hlt (hfirst key hm))
      rw [hnone]
      simp only [get?, eq_comm (a := key)]
    · split
      · next heq =>
        subst heq
        simp only [get?, if_true, eq_comm (a := k')]
        split <;> rfl
      · next hne =>
        -- the change is further on, and the first entry stays
        have ih := ih hrest
        simp only [get?, if_neg hne, ih]
        by_cases hk : k' = k
        · subst hk
          simp [hne]
        · simp [hk]

theorem get?_mapValues {β : Type u} (f : α → β) :
    get? k (mapValues f entries) = (get? k entries).map f := by
  induction entries with
  | nil => rfl
  | cons entry rest ih =>
    obtain ⟨k', v⟩ := entry
    have hcons : mapValues f ((k', v) :: rest) = (k', f v) :: mapValues f rest := rfl
    rw [hcons, get?, get?, ih]
    split <;> rfl

/-- Sorted lists that have the same entries are the same. -/
theorem Sorted.eq_of_mem_iff {others : List (String × α)} (h : Sorted entries) (h' : Sorted others)
    (hmem : ∀ entry, entry ∈ entries ↔ entry ∈ others) : entries = others := by
  have hperm : entries.Perm others :=
    (List.perm_ext_iff_of_nodup (List.Nodup.of_map _ h.nodup) (List.Nodup.of_map _ h'.nodup)).2 hmem
  apply hperm.eq_of_pairwise _ (List.pairwise_map.1 h) (List.pairwise_map.1 h')
  intro a b _ _ hab hba
  exact absurd (String.lt_trans hab hba) (String.lt_irrefl _)

end Entries

/-! ## Maps -/

/-- What two lookups find is related when they find something together only. -/
theorem rel_of_isSome_iff {α : Type u} {r : α → α → Prop} {x y : Option α}
    (hboth : x.isSome ↔ y.isSome) (h : ∀ a b, x = some a → y = some b → r a b) :
    Option.Rel r x y := by
  cases x with
  | none =>
    cases y with
    | none => exact .none
    | some b => exact absurd (hboth.2 rfl) Bool.false_ne_true
  | some a =>
    cases y with
    | none => exact absurd (hboth.1 rfl) Bool.false_ne_true
    | some b => exact .some (h a b rfl rfl)

namespace OrderedMap

variable {α : Type u} {m : OrderedMap α} {k : String} {value : α}

theorem get?_eq_some_iff : m.get? k = some value ↔ (k, value) ∈ m.entries :=
  Entries.get?_eq_some_iff m.nodup

/-- What is found does not depend on the order of the entries. -/
theorem get?_of_perm {others : OrderedMap α} (h : others.entries.Perm m.entries) :
    others.get? k = m.get? k := by
  apply Option.ext
  intro value
  rw [get?_eq_some_iff, get?_eq_some_iff, h.mem_iff]

/-- The map with every value replaced. -/
def map (f : α → α) (m : OrderedMap α) : OrderedMap α :=
  ⟨Entries.mapValues f m.entries, by
    rw [Entries.keys_mapValues]
    exact m.nodup⟩

@[simp] theorem values_map (f : α → α) : (m.map f).values = m.values.map f := by
  simp [values, map, Entries.mapValues]

end OrderedMap

namespace SortedMap

variable {α : Type u} {m : SortedMap α} {key k : String} {value : α}

theorem get?_eq_some_iff : m.get? k = some value ↔ (k, value) ∈ m.entries :=
  Entries.get?_eq_some_iff m.sorted.nodup

@[simp] theorem get?_alter {f : Option α → α} :
    (m.alter key f).get? k = if k = key then some (f (m.get? key)) else m.get? k :=
  Entries.get?_alter m.sorted

/-- Maps in which the same is found are the same. -/
theorem ext_get? {others : SortedMap α} (h : ∀ k, m.get? k = others.get? k) : m = others := by
  have hentries : m.entries = others.entries := by
    apply m.sorted.eq_of_mem_iff others.sorted
    rintro ⟨k, value⟩
    rw [← get?_eq_some_iff, ← get?_eq_some_iff, h]
  cases m
  cases others
  cases hentries
  rfl

theorem mem_keys_iff : k ∈ m.keys ↔ ∃ value, m.get? k = some value := by
  rw [← Option.isSome_iff_exists]
  exact Entries.get?_isSome.symm

/-- The values of a map are what is found in it. -/
theorem mem_values_iff : value ∈ m.values ↔ ∃ k, m.get? k = some value := by
  simp only [values, List.mem_map, Prod.exists, exists_eq_right, get?_eq_some_iff]

@[simp] theorem get?_empty : (({} : SortedMap α)).get? k = none := rfl

@[simp] theorem values_map {β : Type u} (f : α → β) : (m.map f).values = m.values.map f := by
  simp [values, map, Entries.mapValues]

@[simp] theorem get?_map {β : Type u} (f : α → β) : (m.map f).get? k = (m.get? k).map f :=
  Entries.get?_mapValues f

@[simp] theorem keys_map {β : Type u} (f : α → β) : (m.map f).keys = m.keys :=
  Entries.keys_mapValues f m.entries

end SortedMap

/-! ## Sets -/

namespace NameSet

variable {s : NameSet} {name n : String} {names : List String}

@[simp] theorem mem_keys_add : n ∈ (s.add name).keys ↔ n = name ∨ n ∈ s.keys :=
  SortedMap.mem_keys_alter

@[simp] theorem mem_keys_addAll : n ∈ (s.addAll names).keys ↔ n ∈ names ∨ n ∈ s.keys := by
  induction names generalizing s with
  | nil => simp [addAll]
  | cons first rest ih =>
    have hstep : s.addAll (first :: rest) = (s.add first).addAll rest := rfl
    rw [hstep, ih, mem_keys_add, List.mem_cons]
    constructor
    · rintro (h | h | h) <;> simp [h]
    · rintro ((h | h) | h) <;> simp [h]

/-- Sets of the same names are the same. -/
theorem ext_keys {others : NameSet} (h : ∀ n, n ∈ s.keys ↔ n ∈ others.keys) : s = others := by
  apply SortedMap.ext_get?
  intro n
  have hn := h n
  rw [SortedMap.mem_keys_iff, SortedMap.mem_keys_iff] at hn
  -- a name has no value of its own, so it is enough that it is there
  cases hs : SortedMap.get? s n with
  | none =>
    cases ho : SortedMap.get? others n with
    | none => rfl
    | some u =>
      obtain ⟨u', hu'⟩ := hn.2 ⟨u, ho⟩
      rw [hs] at hu'
      cases hu'
  | some u =>
    obtain ⟨u', hu'⟩ := hn.1 ⟨u, hs⟩
    rw [hu']

/-- Maps that have the same keys list them alike. -/
theorem keys_eq_of_mem_iff {α : Type} {m m' : SortedMap α} (h : ∀ k, k ∈ m.keys ↔ k ∈ m'.keys) :
    m.keys = m'.keys := by
  have hset : (m.map fun _ => ()) = m'.map fun _ => () := by
    apply ext_keys
    intro n
    rw [SortedMap.keys_map, SortedMap.keys_map]
    exact h n
  have hkeys := congrArg SortedMap.keys hset
  rw [SortedMap.keys_map, SortedMap.keys_map] at hkeys
  exact hkeys

end NameSet

end ClientGen
