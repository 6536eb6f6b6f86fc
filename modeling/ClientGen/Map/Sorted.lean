/-
  ClientGen.Map.Sorted

  Maps listed in increasing order of their keys, and sets of texts as maps to
  nothing.  Texts are ordered by their characters' code points.
-/
import ClientGen.Map.Ordered

namespace ClientGen

universe u

namespace Entries

variable {α : Type u}

/-- Changes the value of a key in a sorted entry list; `f` gets the value that was
    there, and a key that was not there is put where it belongs. -/
def alter (key : String) (f : Option α → α) : List (String × α) → List (String × α)
  | [] => [(key, f none)]
  | (k, v) :: rest =>
    if key < k then (key, f none) :: (k, v) :: rest
    else if k = key then (key, f (some v)) :: rest
    else (k, v) :: alter key f rest

theorem keys_mapValues {β : Type u} (f : α → β) (entries : List (String × α)) :
    keys (mapValues f entries) = keys entries := by
  simp [keys, mapValues]

/-- The keys of the list increase strictly. -/
def Sorted (entries : List (String × α)) : Prop := (keys entries).Pairwise (· < ·)

theorem sorted_nil : Sorted ([] : List (String × α)) := List.Pairwise.nil

theorem mem_keys_alter {key k : String} {f : Option α → α} {entries : List (String × α)} :
    k ∈ keys (alter key f entries) ↔ k = key ∨ k ∈ keys entries := by
  induction entries with
  | nil => simp [alter, keys]
  | cons entry rest ih =>
    obtain ⟨k', v⟩ := entry
    simp only [keys] at ih ⊢
    unfold alter
    split
    · simp
    · split
      · next h => subst h; simp
      · simp only [List.map_cons, List.mem_cons, ih]
        constructor <;> rintro (h | h | h) <;> simp [h]

theorem sorted_alter {key : String} {f : Option α → α} {entries : List (String × α)}
    (h : Sorted entries) : Sorted (alter key f entries) := by
  induction entries with
  | nil => simp [alter, Sorted, keys]
  | cons entry rest ih =>
    obtain ⟨k, v⟩ := entry
    simp only [Sorted, keys, List.map_cons, List.pairwise_cons] at h
    obtain ⟨hk, hrest⟩ := h
    unfold alter
    split
    · next hlt =>
      simp only [Sorted, keys, List.map_cons, List.pairwise_cons]
      refine ⟨fun k' hk' => ?_, hk, hrest⟩
      rcases List.mem_cons.1 hk' with rfl | hk'
      · exact hlt
      · exact String.lt_trans hlt (hk k' hk')
    · next hlt =>
      split
      · next heq =>
        subst heq
        simpa only [Sorted, keys, List.map_cons, List.pairwise_cons] using ⟨hk, hrest⟩
      · next hne =>
        simp only [Sorted, keys, List.map_cons, List.pairwise_cons]
        refine ⟨fun k' hk' => ?_, ih hrest⟩
        rcases (mem_keys_alter (f := f)).1 hk' with rfl | hk'
        · rcases Decidable.em (k < k') with h' | h'
          · exact h'
          · exact absurd (String.le_antisymm (String.not_lt.1 hlt) (String.not_lt.1 h')) hne
        · exact hk k' hk'

end Entries

/-- A map listed in strictly increasing order of its keys. -/
structure SortedMap (α : Type u) where
  entries : List (String × α) := []
  sorted : Entries.Sorted entries := by exact ClientGen.Entries.sorted_nil

namespace SortedMap

variable {α : Type u}

instance : Inhabited (SortedMap α) := ⟨{}⟩

/-- The map with the value of one key changed; a new key starts from `none`. -/
def alter (m : SortedMap α) (key : String) (f : Option α → α) : SortedMap α :=
  ⟨Entries.alter key f m.entries, Entries.sorted_alter m.sorted⟩

/-- The map with one key set. -/
def insert (m : SortedMap α) (key : String) (value : α) : SortedMap α :=
  m.alter key fun _ => value

/-- The map of an entry list; a repeated key takes its last value. -/
def ofList (entries : List (String × α)) : SortedMap α :=
  entries.foldl (fun m entry => m.insert entry.1 entry.2) {}

/-- The value of a key. -/
def get? (m : SortedMap α) (key : String) : Option α := Entries.get? key m.entries

/-- Whether a key has a value. -/
def contains (m : SortedMap α) (key : String) : Bool := (m.get? key).isSome

/-- The keys in order. -/
def keys (m : SortedMap α) : List String := Entries.keys m.entries

/-- The values in order of their keys. -/
def values (m : SortedMap α) : List α := m.entries.map Prod.snd

/-- The map with every value replaced. -/
def map {β : Type u} (f : α → β) (m : SortedMap α) : SortedMap β :=
  ⟨Entries.mapValues f m.entries, by
    rw [Entries.Sorted, Entries.keys_mapValues]
    exact m.sorted⟩

/-- The number of keys. -/
def size (m : SortedMap α) : Nat := m.entries.length

/-- Whether the map has no key. -/
def isEmpty (m : SortedMap α) : Bool := m.entries.isEmpty

@[simp] theorem mem_keys_alter {m : SortedMap α} {key k : String} {f : Option α → α} :
    k ∈ (m.alter key f).keys ↔ k = key ∨ k ∈ m.keys :=
  Entries.mem_keys_alter

end SortedMap

/-! ## Sets -/

/-- A set of texts, listed in increasing order. -/
abbrev NameSet := SortedMap Unit

namespace NameSet

/-- The set with one more name. -/
def add (s : NameSet) (name : String) : NameSet := SortedMap.insert s name ()

/-- The set with the names of a list. -/
def addAll (s : NameSet) (names : List String) : NameSet := names.foldl add s

end NameSet

end ClientGen
