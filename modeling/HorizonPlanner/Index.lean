import HorizonPlanner.Violation

/-!
# Indices

An index maps labels to numbers. It is kept beside a list of labelled things, so that a thing is
found by its label without a search: the number of a label is a position in the list.
-/

namespace HorizonPlanner

/-- A map from labels to numbers. Of several entries for one label the newest counts. -/
structure Index where
  /-- The entries, the newest first. -/
  entries : List (String × Nat)
  deriving DecidableEq, Repr

namespace Index

/-- The index without entries. -/
def empty : Index := ⟨[]⟩

/-- The number of a label, if there is an entry for it. -/
def get? (m : Index) (label : String) : Option Nat :=
  m.entries.lookup label

/-- Whether there is an entry for a label. -/
def contains (m : Index) (label : String) : Bool :=
  (m.get? label).isSome

/-- Gives a number to a label. -/
def insert (m : Index) (label : String) (number : Nat) : Index :=
  ⟨(label, number) :: m.entries⟩

/-- The index into which these labels were entered one after the other, each with its position as
its number. -/
def ofLabels (labels : List String) : Index :=
  ⟨labels.zipIdx.reverse⟩

variable {labels : List String} {label : String} {number : Nat}

/-- The next label gets the next position. -/
theorem ofLabels_concat (labels : List String) (label : String) :
    ofLabels (labels ++ [label]) = (ofLabels labels).insert label labels.length := by
  simp [ofLabels, insert, List.zipIdx_append]

/-- A label is found at its number. -/
theorem getElem?_of_get?_ofLabels (h : (ofLabels labels).get? label = some number) :
    labels[number]? = some label := by
  obtain ⟨newer, older, hentries, -⟩ := List.lookup_eq_some_iff.mp h
  have hmem : (label, number) ∈ labels.zipIdx.reverse := by
    show (label, number) ∈ (ofLabels labels).entries
    simp [hentries]
  exact List.mk_mem_zipIdx_iff_getElem?.mp (List.mem_reverse.mp hmem)

/-- Exactly the labels that were entered have numbers. -/
theorem contains_ofLabels_iff : (ofLabels labels).contains label = true ↔ label ∈ labels := by
  rw [contains, get?, List.lookup_isSome_iff]
  constructor
  · rintro ⟨⟨l, i⟩, hmem, heq⟩
    have hget := List.mk_mem_zipIdx_iff_getElem?.mp (List.mem_reverse.mp hmem)
    exact eq_of_beq heq ▸ List.mem_of_getElem? hget
  · intro hmem
    obtain ⟨i, hget⟩ := List.mem_iff_getElem?.mp hmem
    exact ⟨(label, i), List.mem_reverse.mpr (List.mk_mem_zipIdx_iff_getElem?.mpr hget),
      beq_self_eq_true _⟩

/-- Labels that were not entered have no number. -/
theorem get?_ofLabels_eq_none_iff : (ofLabels labels).get? label = none ↔ label ∉ labels := by
  rw [← contains_ofLabels_iff, contains, Option.not_isSome_iff_eq_none]

/-- Where no label occurs twice, the number of a label is its only position. -/
theorem get?_ofLabels_eq_some_iff (hlabels : labels.Nodup) :
    (ofLabels labels).get? label = some number ↔ labels[number]? = some label := by
  refine ⟨getElem?_of_get?_ofLabels, fun h => ?_⟩
  cases hfound : (ofLabels labels).get? label with
  | none => exact absurd (List.mem_of_getElem? h) (get?_ofLabels_eq_none_iff.mp hfound)
  | some other =>
    have hlt := (List.getElem?_eq_some_iff.mp h).1
    have hother := getElem?_of_get?_ofLabels hfound
    rw [(List.getElem?_inj hlt hlabels).mp (h.trans hother.symm)]

end Index

end HorizonPlanner
