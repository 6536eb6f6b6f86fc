/-
  ClientGen.Map.Ordered

  Maps that remember the order in which keys first came.  A key that comes
  again keeps its first place and takes its last value.
-/

namespace ClientGen

universe u v

/-! ## Entry lists -/

namespace Entries

variable {α : Type u} {β : Type v}

/-- Sets the value of a key in an entry list, in its place when it has one and at
    the end otherwise. -/
def put (key : String) (value : α) : List (String × α) → List (String × α)
  | [] => [(key, value)]
  | (k, v) :: rest => if k = key then (key, value) :: rest else (k, v) :: put key value rest

/-- An entry list in which repeated keys are merged into their first place. -/
def collapse (entries : List (String × α)) : List (String × α) :=
  entries.foldl (fun acc entry => put entry.1 entry.2 acc) []

/-- The keys of an entry list. -/
def keys (entries : List (String × α)) : List String := entries.map Prod.fst

theorem nodup_nil : (keys ([] : List (String × α))).Nodup := List.nodup_nil

theorem mem_keys_put {key k : String} {value : α} {entries : List (String × α)} :
    k ∈ keys (put key value entries) ↔ k = key ∨ k ∈ keys entries := by
  induction entries with
  | nil => simp [put, keys]
  | cons entry rest ih =>
    obtain ⟨k', v⟩ := entry
    simp only [keys] at ih ⊢
    unfold put
    split
    · next h => subst h; simp
    · simp only [List.map_cons, List.mem_cons, ih]
      constructor <;> rintro (h | h | h) <;> simp [h]

theorem nodup_put {key : String} {value : α} {entries : List (String × α)}
    (h : (keys entries).Nodup) : (keys (put key value entries)).Nodup := by
  induction entries with
  | nil => simp [put, keys]
  | cons entry rest ih =>
    obtain ⟨k, v⟩ := entry
    simp only [keys, List.map_cons, List.nodup_cons] at h
    unfold put
    split
    · next hk => subst hk; simpa [keys] using h
    · next hk =>
      simp only [keys, List.map_cons, List.nodup_cons]
      refine ⟨fun hm => ?_, ih h.2⟩
      rcases mem_keys_put.1 hm with h' | h'
      · exact hk h'
      · exact h.1 h'

theorem nodup_collapse (entries : List (String × α)) : (keys (collapse entries)).Nodup := by
  suffices ∀ acc : List (String × α), (keys acc).Nodup →
      (keys (entries.foldl (fun acc entry => put entry.1 entry.2 acc) acc)).Nodup from
    this [] (by simp [keys])
  induction entries with
  | nil => intro acc h; simpa using h
  | cons entry rest ih => intro acc h; exact ih _ (nodup_put h)

/-- The value of a key. -/
def get? (key : String) : List (String × α) → Option α
  | [] => none
  | (k, v) :: rest => if k = key then some v else get? key rest

theorem get?_isSome {key : String} {entries : List (String × α)} :
    (get? key entries).isSome ↔ key ∈ keys entries := by
  induction entries with
  | nil => simp [get?, keys]
  | cons entry rest ih =>
    obtain ⟨k, v⟩ := entry
    simp only [keys] at ih ⊢
    unfold get?
    split
    · next h => simp [h]
    · next h => simp [ih, Ne.symm h]

theorem get?_put (key k : String) (value : α) (entries : List (String × α)) :
    get? k (put key value entries) = if k = key then some value else get? k entries := by
  induction entries with
  | nil => simp [put, get?, eq_comm]
  | cons entry rest ih =>
    obtain ⟨k', v⟩ := entry
    unfold put
    split
    · next h => subst h; simp only [get?, eq_comm (a := k')]; split <;> rfl
    · next h =>
      simp only [get?, ih]
      split
      · next h' => subst h'; simp [h]
      · rfl

/-- An entry list with every value replaced. -/
def mapValues (f : α → β) (entries : List (String × α)) : List (String × β) :=
  entries.map fun entry => (entry.1, f entry.2)

end Entries

/-! ## Ordered maps -/

/-- A map whose keys are listed once each, in the order in which they first came. -/
structure OrderedMap (α : Type u) where
  entries : List (String × α) := []
  nodup : (Entries.keys entries).Nodup := by exact ClientGen.Entries.nodup_nil

namespace OrderedMap

variable {α : Type u}

instance : Inhabited (OrderedMap α) := ⟨{}⟩

/-- The map of an entry list, repeated keys merged. -/
def ofList (entries : List (String × α)) : OrderedMap α :=
  ⟨Entries.collapse entries, Entries.nodup_collapse entries⟩

/-- The keys in order. -/
def keys (m : OrderedMap α) : List String := Entries.keys m.entries

/-- The value of a key. -/
def get? (m : OrderedMap α) (key : String) : Option α := Entries.get? key m.entries

/-- Whether a key has a value. -/
def contains (m : OrderedMap α) (key : String) : Bool := (m.get? key).isSome

/-- The map with one key set. -/
def put (m : OrderedMap α) (key : String) (value : α) : OrderedMap α :=
  ⟨Entries.put key value m.entries, Entries.nodup_put m.nodup⟩

/-- The values in order of their keys. -/
def values (m : OrderedMap α) : List α := m.entries.map Prod.snd

/-- The map with every value replaced by what `f` makes of it, unless `f` fails
    for one of them. -/
def traverse {ε : Type v} {β : Type u} (f : α → Except ε β) (m : OrderedMap α) :
    Except ε (OrderedMap β) :=
  ofList <$> m.entries.mapM fun entry => (entry.1, ·) <$> f entry.2

@[simp] theorem get?_put (m : OrderedMap α) (key k : String) (value : α) :
    (m.put key value).get? k = if k = key then some value else m.get? k :=
  Entries.get?_put key k value m.entries

end OrderedMap

end ClientGen
