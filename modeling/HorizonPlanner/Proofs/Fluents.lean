import HorizonPlanner.Fluent
import Mathlib.Data.List.Nodup

/-!
# The numbering of fluents

Fluents are numbered in the order in which their labels first occur. No label is given to two
fluents, so that looking up a fluent by its label and looking it up by its number undo each other.
-/

namespace HorizonPlanner

/-- Entries are found by their labels and by their numbers, and both ways lead to the same entries.
The entry with number `i` has the label at position `i` of the list. -/
structure Registered {α : Type} (labels : List String) (label : α → String) (id : α → Nat)
    (byLabel : String → Option α) (byId : Nat → Except Violation α) : Prop where
  /-- No label is given twice. -/
  nodup : labels.Nodup
  /-- The entries are numbered from zero. -/
  exists_byId : ∀ i, (∃ x, byId i = .ok x) ↔ i < labels.length
  /-- What is found by its number has this number, and is found by its label as well. -/
  of_byId : ∀ i x, byId i = .ok x → id x = i ∧ labels[i]? = some (label x) ∧
    byLabel (label x) = some x
  /-- The labels are those by which entries are found. -/
  exists_byLabel : ∀ l, (∃ x, byLabel l = some x) ↔ l ∈ labels
  /-- What is found by its label has this label, and is found by its number as well. -/
  of_byLabel : ∀ l x, byLabel l = some x → label x = l ∧ byId (id x) = .ok x

namespace FluentSet

variable {s : FluentSet} {label : String} {id : Nat} {f : Fluent}

/-! ### Fluents, labels and the index -/

/-- The fluent at a position has the label at this position, and the position as its number. -/
theorem getElem?_eq_some_iff :
    s.fluents[id]? = some f ↔ s.labels[id]? = some f.label ∧ f.id = id := by
  rw [labels, List.getElem?_map]
  constructor
  · intro h
    exact ⟨congrArg _ h, s.id_eq h⟩
  · rintro ⟨hlabel, rfl⟩
    obtain ⟨g, hg, heq⟩ := Option.map_eq_some_iff.mp hlabel
    have hid := s.id_eq hg
    rw [hg]
    cases f
    cases g
    simp_all

/-- The labels of a set and those in its index are the same. -/
theorem contains_iff : s.ids.contains label = true ↔ label ∈ s.labels := by
  rw [s.ids_eq, Index.contains_ofLabels_iff, labels]

/-- There are as many labels as fluents. -/
theorem length_labels (s : FluentSet) : s.labels.length = s.size :=
  List.length_map _

/-- A set is determined by its labels in numbering order. -/
theorem eq_of_labels_eq {t : FluentSet} (h : s.labels = t.labels) : s = t := by
  have hfluents : s.fluents = t.fluents := by
    refine List.ext_getElem? fun i => Option.ext fun f => ?_
    rw [getElem?_eq_some_iff, getElem?_eq_some_iff, h]
  have hids : s.ids = t.ids := by rw [s.ids_eq, t.ids_eq, hfluents]
  cases s
  cases t
  simp_all

/-! ### Labels in order of their first occurrence -/

/-- A set with a fluent of the label stays as it is. -/
theorem insert_of_mem (h : label ∈ s.labels) : s.insert label = s :=
  if_pos (contains_iff.mpr h)

/-- A label is appended unless it occurs already. -/
theorem labels_insert (s : FluentSet) (label : String) :
    (s.insert label).labels = if label ∈ s.labels then s.labels else s.labels ++ [label] := by
  unfold insert
  split
  · next h => rw [if_pos (contains_iff.mp h)]
  · next h => rw [if_neg fun hmem => h (contains_iff.mpr hmem), labels, List.map_append,
      List.map_singleton, labels]

/-- A label is appended to those that were given unless it is among them. -/
theorem labels_insert_of_eq_eraseDups {given : List String} (h : s.labels = given.eraseDups) :
    (s.insert label).labels = (given ++ [label]).eraseDups := by
  rw [List.eraseDups_append, labels_insert, h]
  by_cases hmem : label ∈ given
  · rw [if_pos (List.mem_eraseDups.mpr hmem)]
    simp [List.removeAll, hmem]
  · rw [if_neg fun hdup => hmem (List.mem_eraseDups.mp hdup)]
    simp [List.removeAll, hmem, List.eraseDups_cons]

private theorem labels_insertAll_of_eq_eraseDups {given : List String}
    (h : s.labels = given.eraseDups) (later : List String) :
    (s.insertAll later).labels = (given ++ later).eraseDups := by
  induction later generalizing s given with
  | nil => simpa [insertAll] using h
  | cons label rest ih =>
    have hinsert : (s.insert label).labels = (given ++ [label]).eraseDups :=
      labels_insert_of_eq_eraseDups h
    have hrest := ih hinsert
    rwa [List.append_assoc] at hrest

/-- The fluents of a list of labels are its labels in order of their first occurrence. -/
theorem labels_ofList (labels : List String) : (ofList labels).labels = labels.eraseDups := by
  have hempty : empty.labels = [].eraseDups := rfl
  exact labels_insertAll_of_eq_eraseDups hempty labels

/-- Fluents may be given at once or added later. -/
theorem insertAll_ofList (labels later : List String) :
    (ofList labels).insertAll later = ofList (labels ++ later) := by
  simp [ofList, insertAll]

/-- A new label keeps the labels distinct. -/
theorem nodup_labels_insert (h : s.labels.Nodup) : (s.insert label).labels.Nodup := by
  rw [labels_insert]
  split
  · exact h
  · next hmem =>
    have hne : ∀ l ∈ s.labels, l ≠ label := fun l hl heq => hmem (heq ▸ hl)
    exact List.nodup_append.mpr ⟨h, List.nodup_singleton _, by simpa using hne⟩

/-- No two fluents have the same label. -/
theorem nodup_labels_ofList (labels : List String) : (ofList labels).labels.Nodup :=
  List.foldlRecOn labels insert (motive := fun s => s.labels.Nodup) List.nodup_nil
    fun _ hs _ _ => nodup_labels_insert hs

/-! ### Looking up fluents -/

/-- Exactly the labels of fluents have numbers. -/
theorem idOf?_eq_none_iff : s.idOf? label = none ↔ label ∉ s.labels := by
  rw [idOf?, s.ids_eq, Index.get?_ofLabels_eq_none_iff, labels]

/-- A label stands at its number. -/
theorem getElem?_of_idOf? (h : s.idOf? label = some id) : s.labels[id]? = some label := by
  rw [idOf?, s.ids_eq] at h
  exact Index.getElem?_of_get?_ofLabels h

/-- A number belongs to one label. -/
theorem eq_of_idOf?_eq {other : String} (h : s.idOf? label = some id)
    (hother : s.idOf? other = some id) :
    label = other :=
  Option.some.inj ((getElem?_of_idOf? h).symm.trans (getElem?_of_idOf? hother))

/-- Exactly the labels of fluents have numbers. -/
theorem exists_idOf?_iff : (∃ id, s.idOf? label = some id) ↔ label ∈ s.labels := by
  rw [← Option.isSome_iff_exists, Option.isSome_iff_ne_none, Ne, idOf?_eq_none_iff, not_not]

/-- Where no label occurs twice, the number of a label is its position. -/
theorem idOf?_eq_some_iff (hs : s.labels.Nodup) :
    s.idOf? label = some id ↔ s.labels[id]? = some label := by
  rw [idOf?, s.ids_eq]
  exact Index.get?_ofLabels_eq_some_iff hs

/-- The fluent with a number is the one whose label stands in this place. -/
theorem byId_eq_ok : s.byId id = .ok f ↔ s.labels[id]? = some f.label ∧ f.id = id := by
  rw [← getElem?_eq_some_iff]
  unfold byId lookup
  cases s.fluents[id]? <;> simp

/-- A fluent is found by its label exactly when the label has its number. -/
theorem get?_eq_some : s.get? label = some f ↔ s.idOf? label = some f.id ∧ f.label = label := by
  rw [get?, Option.bind_eq_some_iff]
  constructor
  · rintro ⟨id, hid, hf⟩
    obtain ⟨hlabel, rfl⟩ := getElem?_eq_some_iff.mp hf
    exact ⟨hid, Option.some.inj (hlabel.symm.trans (getElem?_of_idOf? hid))⟩
  · rintro ⟨hid, rfl⟩
    exact ⟨f.id, hid, getElem?_eq_some_iff.mpr ⟨getElem?_of_idOf? hid, rfl⟩⟩

/-- The number that the index gives for a label is that of a fluent. -/
theorem get?_eq (s : FluentSet) (label : String) :
    s.get? label = (s.idOf? label).map fun id => ⟨id, label⟩ := by
  cases hid : s.idOf? label with
  | none => rw [get?, hid, Option.bind_none, Option.map_none]
  | some id => exact get?_eq_some.mpr ⟨hid, rfl⟩

/-- Exactly the labels of fluents lead to fluents. -/
theorem get?_eq_none_iff : s.get? label = none ↔ label ∉ s.labels := by
  rw [get?_eq, Option.map_eq_none_iff, idOf?_eq_none_iff]

/-- Where no label occurs twice, fluents are found by label and by number alike. -/
theorem registered (hs : s.labels.Nodup) :
    Registered s.labels Fluent.label Fluent.id s.get? s.byId where
  nodup := hs
  exists_byId i := by
    constructor
    · rintro ⟨f, hf⟩
      exact (List.getElem?_eq_some_iff.mp (byId_eq_ok.mp hf).1).1
    · intro hi
      exact ⟨⟨i, s.labels[i]⟩, byId_eq_ok.mpr ⟨List.getElem?_eq_getElem hi, rfl⟩⟩
  of_byId i f hf := by
    obtain ⟨hlabel, rfl⟩ := byId_eq_ok.mp hf
    exact ⟨rfl, hlabel, get?_eq_some.mpr ⟨(idOf?_eq_some_iff hs).mpr hlabel, rfl⟩⟩
  exists_byLabel l := by
    rw [← exists_idOf?_iff, get?_eq]
    simp
  of_byLabel l f hf := by
    obtain ⟨hid, rfl⟩ := get?_eq_some.mp hf
    exact ⟨rfl, byId_eq_ok.mpr ⟨(idOf?_eq_some_iff hs).mp hid, rfl⟩⟩

end FluentSet

end HorizonPlanner
