import HorizonPlanner.Sat.ClauseSet
import Mathlib.Data.List.Basic

/-!
# What a set of clauses says

A set of clauses leaves out tautologies, clauses it has already and repeated literals. The clauses
it keeps hold under the same valuations as those that were added, and the contradictions it notices
are contradictions.
-/

namespace HorizonPlanner.Sat

/-- A valuation gives a truth value to every variable. -/
abbrev Valuation := Variable → Bool

/-- The literal is true under a valuation. -/
def Literal.Holds (v : Valuation) (l : Literal) : Prop :=
  v l.var = l.positive

/-- A literal of the clause is true under a valuation. -/
def Clause.Holds (v : Valuation) (c : Clause) : Prop :=
  ∃ l ∈ c, l.Holds v

/-- The clause has two opposite literals. -/
def Clause.Tautological (c : Clause) : Prop :=
  ∃ l ∈ c, l.negate ∈ c

variable {v : Valuation} {l : Literal} {c d : Clause}

/-- The opposite of the opposite is the literal. -/
@[simp] theorem Literal.negate_negate (l : Literal) : l.negate.negate = l := by
  simp [negate]

/-- No literal is its own opposite. -/
@[simp] theorem Literal.negate_ne_self (l : Literal) : l.negate ≠ l := fun h => by
  simpa [negate] using congrArg positive h

/-- Two literals of one variable are equal or opposite. -/
theorem Literal.eq_or_eq_negate {k l : Literal} (h : k.var = l.var) : k = l ∨ k = l.negate := by
  obtain ⟨x, p⟩ := k
  obtain ⟨y, q⟩ := l
  cases p <;> cases q <;> simp_all [negate]

/-- The opposite of a literal is true exactly when the literal is not. -/
theorem Literal.holds_negate : l.negate.Holds v ↔ ¬ l.Holds v := by
  simp only [Holds, negate]
  cases v l.var <;> cases l.positive <;> simp

/-- Clauses with the same literals are true together. -/
theorem Clause.holds_congr (h : ∀ l, l ∈ c ↔ l ∈ d) : c.Holds v ↔ d.Holds v :=
  exists_congr fun l => and_congr_left fun _ => h l

/-- A clause of one literal is true if the literal is. -/
theorem Clause.holds_singleton : Clause.Holds v [l] ↔ l.Holds v := by
  simp [Holds]

/-- A clause with two opposite literals is true under every valuation. -/
theorem Clause.Tautological.holds (h : c.Tautological) (v : Valuation) : c.Holds v := by
  obtain ⟨l, hl, hneg⟩ := h
  by_cases htrue : l.Holds v
  · exact ⟨l, hl, htrue⟩
  · exact ⟨l.negate, hneg, Literal.holds_negate.mpr htrue⟩

namespace Clause

/-! ### Clauses without repetition, ordered by variable -/

/-- Removing repetitions keeps every literal. -/
theorem mem_withoutRepetition : l ∈ c.withoutRepetition ↔ l ∈ c :=
  List.mem_eraseDups

/-- Sorting keeps the literals. -/
theorem mem_sorted : l ∈ c.sorted ↔ l ∈ c :=
  List.mem_mergeSort

/-- No literal is left twice. -/
theorem nodup_withoutRepetition (c : Clause) : c.withoutRepetition.Nodup := by
  unfold withoutRepetition
  match c with
  | [] => simp
  | l :: rest =>
    rw [List.eraseDups_cons, List.nodup_cons]
    refine ⟨fun hmem => ?_, nodup_withoutRepetition _⟩
    simp [List.mem_eraseDups] at hmem
termination_by c.length
decreasing_by exact Nat.lt_succ_of_le (List.length_filter_le _ _)

/-- Ordered by variable, opposite literals of a clause without repetition are neighbours. -/
theorem tautological_of_hasOpposites (hc : c.Nodup) (h : hasOpposites c = true) :
    c.Tautological := by
  induction c with
  | nil => cases h
  | cons a rest ih =>
    cases rest with
    | nil => cases h
    | cons b rest =>
      rw [hasOpposites, Bool.or_eq_true, beq_iff_eq] at h
      obtain ⟨hhead, htail⟩ := List.nodup_cons.mp hc
      rcases h with hvar | h
      · rcases Literal.eq_or_eq_negate hvar with rfl | rfl
        · simp at hhead
        · exact ⟨b, by simp, by simp⟩
      · obtain ⟨l, hl, hneg⟩ := ih htail h
        exact ⟨l, by simp [hl], by simp [hneg]⟩

end Clause

namespace ClauseSet

variable {s : ClauseSet}

/-- What the set knows about its clauses is right. -/
structure WellFormed (s : ClauseSet) : Prop where
  /-- The known clauses are those of the set, ordered. -/
  known : ∀ key, key ∈ s.known ↔ ∃ c ∈ s.toList, c.sorted = key
  /-- The unit literals are those of the unit clauses. -/
  units : ∀ l, l ∈ s.units ↔ [l] ∈ s.toList
  /-- A contradiction is an empty clause or two opposite unit clauses. -/
  contradictory : s.contradictory = true ↔
    [] ∈ s.toList ∨ ∃ l, [l] ∈ s.toList ∧ [Literal.negate l] ∈ s.toList

/-- The clauses of the set are some of these, and the others are tautologies or repetitions. -/
structure Represents (s : ClauseSet) (cs : List Clause) : Prop where
  /-- The set knows its clauses. -/
  wellFormed : s.WellFormed
  /-- Every clause of the set has the literals of one that was added. -/
  origin : ∀ c ∈ s.toList, ∃ d ∈ cs, ∀ l, l ∈ c ↔ l ∈ d
  /-- Every clause that was added is a tautology or has the literals of one of the set. -/
  kept : ∀ d ∈ cs, d.Tautological ∨ ∃ c ∈ s.toList, ∀ l, l ∈ c ↔ l ∈ d

/-- A clause that is stored is the last one. -/
theorem toList_store (c key : Clause) : (s.store c key).toList = s.toList ++ [c] := by
  unfold store
  split <;> simp [toList]

private theorem mem_known_store {c key other : Clause} :
    other ∈ (s.store c key).known ↔ key = other ∨ other ∈ s.known := by
  unfold store
  split <;> simp [Std.HashSet.mem_insert]

private theorem mem_units_store {c key : Clause} {l : Literal} :
    l ∈ (s.store c key).units ↔ l ∈ s.units ∨ [l] = c := by
  unfold store
  split
  · simp
  · next k =>
    rw [Std.HashSet.mem_insert, beq_iff_eq, List.cons.injEq, and_iff_left rfl, or_comm, eq_comm]
  · next hunit =>
    have hne : [l] ≠ c := fun h => hunit l h.symm
    rw [or_iff_left hne]

/-- A new clause makes a contradiction if it is empty or the opposite of a unit clause. -/
theorem WellFormed.contradictory_store (hs : s.WellFormed) (c key : Clause) :
    (s.store c key).contradictory = true ↔
      s.contradictory = true ∨ c = [] ∨ ∃ l, c = [l] ∧ [l.negate] ∈ s.toList := by
  unfold ClauseSet.store
  split
  · simp
  · next k =>
    rw [Bool.or_eq_true, Std.HashSet.contains_iff_mem, hs.units]
    simp
  · next hnil hunit =>
    have hunit' : ¬ ∃ l, c = [l] ∧ [Literal.negate l] ∈ s.toList := fun ⟨l, h, _⟩ => hunit l h
    rw [or_iff_left (not_or.mpr ⟨hnil, hunit'⟩)]

/-- Storing a clause keeps the knowledge about the clauses right. -/
theorem WellFormed.store (hs : s.WellFormed) (c : Clause) : (s.store c c.sorted).WellFormed := by
  refine ⟨fun key => ?_, fun l => ?_, ?_⟩
  · rw [mem_known_store, hs.known, toList_store]
    simp only [List.mem_append, List.mem_singleton, or_and_right, exists_or, exists_eq_left]
    exact or_comm
  · rw [mem_units_store, hs.units, toList_store, List.mem_append, List.mem_singleton]
  · rw [hs.contradictory_store, hs.contradictory, toList_store]
    simp only [List.mem_append, List.mem_singleton]
    constructor
    · rintro ((h | ⟨l, hl, hneg⟩) | rfl | ⟨l, rfl, hneg⟩)
      · exact .inl (.inl h)
      · exact .inr ⟨l, .inl hl, .inl hneg⟩
      · exact .inl (.inr rfl)
      · exact .inr ⟨l, .inr rfl, .inl hneg⟩
    · rintro ((h | rfl) | ⟨l, hl | rfl, hneg | hneg⟩)
      · exact .inl (.inl h)
      · exact .inr (.inl rfl)
      · exact .inl (.inr ⟨l, hl, hneg⟩)
      · exact .inr (.inr ⟨l.negate, hneg.symm, by rwa [Literal.negate_negate]⟩)
      · exact .inr (.inr ⟨l, rfl, hneg⟩)
      · rw [List.cons.injEq, and_iff_left rfl] at hneg
        exact absurd hneg l.negate_ne_self

private theorem represents_empty : empty.Represents [] where
  wellFormed := ⟨by simp [empty, toList], by simp [empty, toList], by simp [empty, toList]⟩
  origin := by simp [empty, toList]
  kept := by simp

/-- A clause that is left out is a tautology or has the literals of one that is there. -/
theorem WellFormed.of_skipped (hs : s.WellFormed)
    (h : (Clause.hasOpposites d.withoutRepetition.sorted ||
      s.known.contains d.withoutRepetition.sorted) = true) :
    d.Tautological ∨ ∃ c ∈ s.toList, ∀ l, l ∈ c ↔ l ∈ d := by
  have hsame : ∀ l, l ∈ d.withoutRepetition.sorted ↔ l ∈ d := fun l => by
    rw [Clause.mem_sorted, Clause.mem_withoutRepetition]
  rw [Bool.or_eq_true, Std.HashSet.contains_iff_mem, hs.known] at h
  rcases h with hopposites | ⟨c, hc, hkey⟩
  · have hnodup : d.withoutRepetition.sorted.Nodup :=
      (List.mergeSort_perm _ _).nodup_iff.mpr d.nodup_withoutRepetition
    obtain ⟨l, hl, hneg⟩ := Clause.tautological_of_hasOpposites hnodup hopposites
    rw [hsame] at hl hneg
    exact .inl ⟨l, hl, hneg⟩
  · refine .inr ⟨c, hc, fun l => ?_⟩
    rw [← hsame, ← hkey, Clause.mem_sorted]

/-- A clause is added to the set exactly as it is to the formula. -/
theorem Represents.insert {cs : List Clause} (hs : s.Represents cs) (d : Clause) :
    (s.insert d).1.Represents (cs ++ [d]) := by
  have horigin : ∀ c ∈ s.toList, ∃ e ∈ cs ++ [d], ∀ l, l ∈ c ↔ l ∈ e := fun c hc => by
    obtain ⟨e, he, h⟩ := hs.origin c hc
    exact ⟨e, List.mem_append_left _ he, h⟩
  have hnew : ∀ l, l ∈ d.withoutRepetition ↔ l ∈ d := fun l => Clause.mem_withoutRepetition
  unfold ClauseSet.insert
  simp only
  split
  · next hskip =>
    refine ⟨hs.wellFormed, horigin, List.forall_mem_append.mpr ⟨hs.kept, ?_⟩⟩
    exact List.forall_mem_singleton.mpr (hs.wellFormed.of_skipped hskip)
  · refine ⟨hs.wellFormed.store _, ?_, ?_⟩
    · rw [toList_store]
      refine List.forall_mem_append.mpr ⟨horigin, List.forall_mem_singleton.mpr ?_⟩
      exact ⟨d, by simp, hnew⟩
    · rw [toList_store]
      refine List.forall_mem_append.mpr ⟨fun e he => ?_, List.forall_mem_singleton.mpr ?_⟩
      · refine (hs.kept e he).imp_right ?_
        rintro ⟨c, hc, h⟩
        exact ⟨c, List.mem_append_left _ hc, h⟩
      · exact .inr ⟨d.withoutRepetition, by simp, hnew⟩

/-- The set of a list of clauses represents them all. -/
theorem represents_ofList (cs : List Clause) : (ofList cs).Represents cs := by
  suffices h : ∀ (s : ClauseSet) (added : List Clause), s.Represents added →
      (cs.foldl (fun s c => (s.insert c).1) s).Represents (added ++ cs) by
    simpa [ofList, insertAll] using h empty [] represents_empty
  induction cs with
  | nil => simp
  | cons c rest ih =>
    intro s added hs
    simpa using ih _ _ (hs.insert c)

private theorem nodup_of_mem_insert (h : ∀ c ∈ s.toList, c.Nodup) :
    ∀ c ∈ (s.insert d).1.toList, c.Nodup := by
  unfold ClauseSet.insert
  simp only
  split
  · exact h
  · rw [toList_store]
    exact List.forall_mem_append.mpr ⟨h, List.forall_mem_singleton.mpr d.nodup_withoutRepetition⟩

/-- No clause of a set repeats a literal. -/
theorem nodup_of_mem_ofList (cs : List Clause) : ∀ c ∈ (ofList cs).toList, c.Nodup :=
  List.foldlRecOn cs (fun s d => (ClauseSet.insert s d).1)
    (motive := fun s => ∀ c ∈ s.toList, c.Nodup) (by simp [empty, toList])
    fun _ hs _ _ => nodup_of_mem_insert hs

variable {cs : List Clause}

/-- The clauses of the set are true exactly when those that were added are. -/
theorem Represents.holds_iff (hs : s.Represents cs) :
    (∀ c ∈ s.toList, c.Holds v) ↔ ∀ c ∈ cs, c.Holds v := by
  constructor
  · intro h d hd
    rcases hs.kept d hd with htaut | ⟨c, hc, hsame⟩
    · exact htaut.holds v
    · exact (Clause.holds_congr hsame).mp (h c hc)
  · intro h c hc
    obtain ⟨d, hd, hsame⟩ := hs.origin c hc
    exact (Clause.holds_congr hsame).mpr (h d hd)

/-- The clauses of a set with a contradiction are never all true. -/
theorem WellFormed.not_holds_of_contradictory (hs : s.WellFormed) (h : s.contradictory = true) :
    ¬ ∀ c ∈ s.toList, c.Holds v := by
  intro hall
  rcases hs.contradictory.mp h with hnil | ⟨l, hl, hneg⟩
  · simpa [Clause.Holds] using hall [] hnil
  · have htrue := Clause.holds_singleton.mp (hall _ hl)
    have hfalse := Clause.holds_singleton.mp (hall _ hneg)
    exact Literal.holds_negate.mp hfalse htrue

end ClauseSet

end HorizonPlanner.Sat
