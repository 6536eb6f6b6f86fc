/-
  ClientGen.Proofs.NameCheck

  What the checks of a service decide.  A scan that remembers what it has passed
  stops at the first item that repeats the key of an earlier one, and passes only
  lists without repeats.  `check_decides` says what this makes of the two checks:
  a service passes just when no two schemas share a model and no two tags a file,
  and a failure reports the earliest clash, that of schemas before that of tags.
-/
import ClientGen.Service.Check
import Mathlib.Data.List.Nodup
import Mathlib.Data.Set.Function

namespace ClientGen

/-! ## The earliest clash -/

/-- The earliest clash of a list under `f`: `second` is the first item that has its image in
    common with an earlier one, and `first` is that one. -/
structure EarliestClash {α β : Type} (f : α → β) (items : List α) (first second : α) : Prop where
  split : ∃ before after, items = before ++ second :: after ∧ (before.map f).Nodup ∧ first ∈ before
  same : f first = f second

section Clashes

variable {α β : Type} {f : α → β} {items before after front : List α} {first second : α}

/-- No front of a list goes past a clash without having a repeat. -/
theorem length_le_of_clash (hfirst : first ∈ before) (hsame : f first = f second)
    (hfront : front <+: before ++ second :: after) (hnodup : (front.map f).Nodup) :
    front.length ≤ before.length := by
  by_contra hpast
  have hclash : before ++ [second] <+: before ++ second :: after :=
    ⟨after, by rw [List.append_assoc, List.singleton_append]⟩
  have hpart : before ++ [second] <+: front :=
    List.prefix_of_prefix_length_le hclash hfront (by
      rw [List.length_append, List.length_singleton]
      omega)
  have hrepeat := (hpart.map f).sublist.nodup hnodup
  rw [List.map_append, List.map_singleton] at hrepeat
  exact (List.nodup_append.1 hrepeat).2.2 _ (List.mem_map_of_mem hfirst) _ List.mem_cons_self hsame

namespace EarliestClash

theorem not_nodup (h : EarliestClash f items first second) : ¬(items.map f).Nodup := by
  obtain ⟨before, after, rfl, -, hfirst⟩ := h.split
  intro hnodup
  have hlength := length_le_of_clash hfirst h.same List.prefix_rfl hnodup
  rw [List.length_append, List.length_cons] at hlength
  omega

/-- A list has one earliest clash only. -/
theorem unique {first' second' : α} (h : EarliestClash f items first second)
    (h' : EarliestClash f items first' second') : first' = first ∧ second' = second := by
  obtain ⟨before, after, hitems, hbefore, hfirst⟩ := h.split
  obtain ⟨before', after', hitems', hbefore', hfirst'⟩ := h'.split
  -- neither of the two second items stands before the other
  have hle : before'.length ≤ before.length :=
    length_le_of_clash hfirst h.same (hitems ▸ hitems' ▸ List.prefix_append _ _) hbefore'
  have hge : before.length ≤ before'.length :=
    length_le_of_clash hfirst' h'.same (hitems' ▸ hitems ▸ List.prefix_append _ _) hbefore
  obtain ⟨rfl, hrest⟩ := List.append_inj (hitems'.symm.trans hitems) (Nat.le_antisymm hle hge)
  cases hrest
  exact ⟨List.inj_on_of_nodup_map hbefore hfirst' hfirst (h'.same.trans h.same.symm), rfl⟩

end EarliestClash

/-! ## The scan -/

variable [DecidableEq β] {label : α → String}

/-- What a scan remembers of the items that it has passed, and what it is given of those to come. -/
def labelled (f : α → β) (label : α → String) (items : List α) : List (β × String) :=
  items.map fun item => (f item, label item)

/-- A scan that has passed `before` without a repeat passes the rest as well, or stops at the
    earliest clash.  By induction on the rest. -/
theorem firstRepeat?_cases (hbefore : (before.map f).Nodup) (rest : List α) :
    (firstRepeat? (labelled f label before).reverse (labelled f label rest) = none ∧
        ((before ++ rest).map f).Nodup) ∨
      ∃ first second, EarliestClash f (before ++ rest) first second ∧
        firstRepeat? (labelled f label before).reverse (labelled f label rest)
          = some (f second, label first, label second) := by
  induction rest generalizing before with
  | nil =>
    rw [List.append_nil]
    exact .inl ⟨rfl, hbefore⟩
  | cons item rest ih =>
    have hcons : labelled f label (item :: rest)
        = (f item, label item) :: labelled f label rest := rfl
    rw [hcons, firstRepeat?]
    cases hfind : (labelled f label before).reverse.find? (·.1 = f item) with
    | some earlier =>
      -- the item clashes with one that was passed
      have hmem := List.mem_of_find?_eq_some hfind
      rw [List.mem_reverse] at hmem
      obtain ⟨first, hfirst, rfl⟩ := List.mem_map.1 hmem
      have hsame : f first = f item := by simpa using List.find?_some hfind
      exact .inr ⟨first, item, ⟨⟨before, rest, rfl, hbefore, hfirst⟩, hsame⟩, rfl⟩
    | none =>
      have hnew : f item ∉ before.map f := by
        intro hmem
        obtain ⟨first, hfirst, hsame⟩ := List.mem_map.1 hmem
        have hnone := List.find?_eq_none.1 hfind (f first, label first)
          (List.mem_reverse.2 (List.mem_map_of_mem (f := fun item => (f item, label item)) hfirst))
        simp [hsame] at hnone
      have hpassed : ((before ++ [item]).map f).Nodup := by
        rw [List.map_append, List.map_singleton, ← List.concat_eq_append]
        exact hbefore.concat hnew
      have hnext := ih hpassed
      have hseen : (labelled f label (before ++ [item])).reverse
          = (f item, label item) :: (labelled f label before).reverse := by
        simp [labelled]
      rw [hseen, List.append_assoc, List.singleton_append] at hnext
      exact hnext

/-- A scan from the start passes a list without repeats, and stops at the earliest clash of any
    other. -/
theorem scan_cases (f : α → β) (label : α → String) (items : List α) :
    (firstRepeat? [] (labelled f label items) = none ∧ (items.map f).Nodup) ∨
      ∃ first second, EarliestClash f items first second ∧
        firstRepeat? [] (labelled f label items) = some (f second, label first, label second) :=
  have hnil : (([] : List α).map f).Nodup := List.nodup_nil
  firstRepeat?_cases hnil items

/-- A check that passes the lists without repeats under `f`, and fails with a report of the
    earliest clash for all others. -/
structure ReportsClash (f : α → β) (items : List α) (report : α → α → GenerationError)
    (check : Except GenerationError Unit) : Prop where
  ok : check = .ok () ↔ (items.map f).Nodup
  error : ∀ e, check = .error e ↔
    ∃ first second, EarliestClash f items first second ∧ e = report first second

/-- A check by a scan. -/
theorem reportsClash_of_scan (label : α → String) (report : β → String → String → GenerationError)
    {check : Except GenerationError Unit}
    (hpass : firstRepeat? [] (labelled f label items) = none → check = .ok ())
    (hfail : ∀ image first second,
      firstRepeat? [] (labelled f label items) = some (image, first, second) →
        check = .error (report image first second)) :
    ReportsClash f items (fun first second => report (f second) (label first) (label second))
      check := by
  rcases scan_cases f label items with ⟨hnone, hnodup⟩ | ⟨first, second, hclash, hsome⟩
  · rw [hpass hnone]
    constructor
    · exact iff_of_true rfl hnodup
    · intro e
      refine iff_of_false (fun h => by cases h) ?_
      rintro ⟨_, _, hclash, -⟩
      exact hclash.not_nodup hnodup
  · rw [hfail _ _ _ hsome]
    constructor
    · exact iff_of_false (fun h => by cases h) hclash.not_nodup
    · intro e
      rw [Except.error.injEq]
      constructor
      · rintro rfl
        exact ⟨first, second, hclash, rfl⟩
      · rintro ⟨first', second', hclash', rfl⟩
        obtain ⟨rfl, rfl⟩ := hclash.unique hclash'
        rfl

end Clashes

/-! ## The checks -/

/-- Distinct items have distinct images just when no image is repeated. -/
theorem nodup_map_iff_injOn {α β : Type} {f : α → β} {items : List α} (h : items.Nodup) :
    (items.map f).Nodup ↔ Set.InjOn f {item | item ∈ items} := by
  rw [List.nodup_map_iff_inj_on h]
  exact ⟨fun hinj x hx y hy => hinj x hx y hy, fun hinj x hx y hy => hinj hx hy⟩

theorem Document.nodup_modelKeys (d : Document) : d.modelKeys.Nodup :=
  d.components.schemas.nodup.filter _

theorem OrderedMap.nodup_entries {α : Type} (m : OrderedMap α) : m.entries.Nodup :=
  .of_map _ m.nodup

/-- The check of names reports the earliest key of a schema that shares its model. -/
theorem Document.checkModelNames_reports (d : Document) :
    ReportsClash ModelName.ofKey d.modelKeys (fun first second =>
        .namingCollision (ModelName.ofKey second).name (ModelName.ofKey second).path first second)
      d.checkModelNames := by
  let report (model : ModelName) (first second : String) : GenerationError :=
    .namingCollision model.name model.path first second
  refine reportsClash_of_scan id report (fun hnone => ?_) (fun model first second hsome => ?_)
  · have hscan : firstRepeat? [] (d.modelKeys.map fun key => (ModelName.ofKey key, key)) = none :=
      hnone
    rw [checkModelNames, hscan]
  · have hscan : firstRepeat? [] (d.modelKeys.map fun key => (ModelName.ofKey key, key))
        = some (model, first, second) := hsome
    rw [checkModelNames, hscan]

/-- The check of client files reports the earliest tag that shares its file. -/
theorem Service.checkApiClients_reports (s : Service) (d : Document) :
    ReportsClash (fun entry => entry.2.file d) s.apiTags.entries (fun first second =>
        .namingCollision (second.2.classStart ++ "ApiClient") (second.2.file d) first.2.tag.name
          second.2.tag.name)
      (s.checkApiClients d) := by
  have hlabelled : (s.apiTags.values.map fun t => (t.file d, t.tag.name))
      = labelled (fun entry : String × ApiTag => entry.2.file d) (fun entry => entry.2.tag.name)
          s.apiTags.entries := by
    rw [OrderedMap.values, List.map_map]
    rfl
  let report (file first second : String) : GenerationError :=
    .namingCollision (Text.pascalCase second ++ "ApiClient") file first second
  refine reportsClash_of_scan (fun entry : String × ApiTag => entry.2.tag.name) report
    (fun hnone => ?_) (fun file first second hsome => ?_)
  · rw [checkApiClients, hlabelled, hnone]
  · rw [checkApiClients, hlabelled, hsome]

/-- A service passes the checks just when no two schemas of the document that are not reserved have
    the same model, and no two of its tags the same file.  Otherwise the failure names the earliest
    schema in document order that has the model of an earlier one, with that one; and only if there
    is none, the earliest tag that has the file of an earlier one, with that one. -/
theorem check_decides (s : Service) (d : Document) :
    (s.check d = .ok () ↔ Set.InjOn ModelName.ofKey {key | key ∈ d.modelKeys} ∧
      Set.InjOn (fun entry => entry.2.file d) {entry | entry ∈ s.apiTags.entries}) ∧
    ∀ e, s.check d = .error e ↔
      (∃ first second, EarliestClash ModelName.ofKey d.modelKeys first second ∧
        e = .namingCollision (ModelName.ofKey second).name (ModelName.ofKey second).path first
          second) ∨
      Set.InjOn ModelName.ofKey {key | key ∈ d.modelKeys} ∧
        ∃ first second, EarliestClash (fun entry => entry.2.file d) s.apiTags.entries first second ∧
          e = .namingCollision (second.2.classStart ++ "ApiClient") (second.2.file d)
            first.2.tag.name second.2.tag.name := by
  have hnames := d.checkModelNames_reports
  have hclients := s.checkApiClients_reports d
  rw [← nodup_map_iff_injOn d.nodup_modelKeys, ← nodup_map_iff_injOn s.apiTags.nodup_entries,
    ← hnames.ok, ← hclients.ok]
  simp only [← hnames.error, ← hclients.error]
  have hcheck : s.check d = d.checkModelNames >>= fun _ => s.checkApiClients d := rfl
  rw [hcheck]
  -- the second check is not made when the first fails
  cases d.checkModelNames with
  | error e => simp [bind, Except.bind]
  | ok _ => simp [bind, Except.bind]

example :
    let keys := ["a.B", "wow.api.Foo", "a.C.D", "wow.api.Foo.Bar", "a.CD", "a.B."]
    Document.checkModelNames { components.schemas := .ofList (keys.map (·, {})) }
      = .error (.namingCollision "CD" "/a" "a.C.D" "a.CD") := by
  decide +kernel

end ClientGen
