import HorizonPlanner.Index

/-!
# Fluents

A fluent is a named Boolean quantity of the world. The fluents of a problem are numbered from zero
in the order in which their labels first appear. They are kept in this order, with an index of their
numbers beside them.
-/

namespace HorizonPlanner

/-- A fluent: its number and its label. -/
structure Fluent where
  /-- The number of the fluent. -/
  id : Nat
  /-- The name of the fluent. -/
  label : String
  deriving DecidableEq, Repr

/-- The fluents of a problem. -/
structure FluentSet where
  /-- The fluents, in numbering order. -/
  fluents : List Fluent
  /-- The numbers of the fluents, by their labels. -/
  ids : Index
  /-- The fluent at position `i` is fluent `i`. -/
  id_eq : ∀ {i : Nat} {f : Fluent}, fluents[i]? = some f → f.id = i
  /-- The index has the positions of all labels, and nothing else. -/
  ids_eq : ids = .ofLabels (fluents.map (·.label))
  deriving DecidableEq, Repr

namespace FluentSet

/-- The set without fluents. -/
def empty : FluentSet where
  fluents := []
  ids := .empty
  id_eq h := by cases h
  ids_eq := rfl

/-- The number of fluents. -/
def size (s : FluentSet) : Nat :=
  s.fluents.length

/-- The labels of the fluents, in numbering order. -/
def labels (s : FluentSet) : List String :=
  s.fluents.map (·.label)

/-- A fluent behind all others has their number as its own. -/
theorem id_eq_concat (s : FluentSet) (label : String) {i : Nat} {f : Fluent}
    (h : (s.fluents ++ [⟨s.size, label⟩])[i]? = some f) : f.id = i := by
  rw [List.getElem?_append] at h
  split at h
  · exact s.id_eq h
  · rw [List.getElem?_singleton] at h
    split at h
    · cases h
      show s.fluents.length = i
      omega
    · cases h

/-- The index stays that of the labels when a fluent and its number are added. -/
theorem ids_eq_concat (s : FluentSet) (label : String) :
    s.ids.insert label s.size = .ofLabels
      ((s.fluents ++ [Fluent.mk s.size label]).map (·.label)) := by
  rw [List.map_append, List.map_singleton, Index.ofLabels_concat, ← s.ids_eq, List.length_map]
  rfl

/-- Adds a fluent at the end and its number to the index, unless the index has its label. -/
def insert (s : FluentSet) (label : String) : FluentSet :=
  if s.ids.contains label then s
  else
    { fluents := s.fluents ++ [⟨s.size, label⟩]
      ids := s.ids.insert label s.size
      id_eq := s.id_eq_concat label
      ids_eq := s.ids_eq_concat label }

/-- Adds fluents one after the other. -/
def insertAll (s : FluentSet) (labels : List String) : FluentSet :=
  labels.foldl insert s

/-- The fluents of these labels; only the first occurrence of a label counts. -/
def ofList (labels : List String) : FluentSet :=
  empty.insertAll labels

/-- Whether a fluent has this label. -/
def contains (s : FluentSet) (label : String) : Bool :=
  s.ids.contains label

/-- The number of the fluent with this label. -/
def idOf? (s : FluentSet) (label : String) : Option Nat :=
  s.ids.get? label

/-- The fluent with this label. It stands at the position that the index gives. -/
def get? (s : FluentSet) (label : String) : Option Fluent :=
  (s.idOf? label).bind fun id => s.fluents[id]?

/-- The fluent with this number, which must exist. -/
def byId (s : FluentSet) (id : Nat) : Except Violation Fluent :=
  lookup s.fluents id

/-- All fluents, in numbering order. -/
def toList (s : FluentSet) : List Fluent :=
  s.fluents

/-- The refusal of a label that no fluent has. -/
def unknownMessage (label : String) : String :=
  "no such fluent: " ++ label

end FluentSet

end HorizonPlanner
