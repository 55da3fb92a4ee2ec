import HorizonPlanner.Condition
import Mathlib.Data.List.Basic

/-!
# Ordered conditions

Operators and goals keep their conditions in order, at most one for each fluent. The operations on
conditions preserve this form, and the binary search decides membership in such a list.
-/

namespace HorizonPlanner

/-- Elements with strictly increasing keys are determined by their keys. -/
theorem eq_of_increasing {α : Type} {key : α → Nat} {xs : List α}
    (h : xs.Pairwise fun a b => key a < key b) {a b : α} (ha : a ∈ xs) (hb : b ∈ xs)
    (hkey : key a = key b) : a = b := by
  have hup : xs.Pairwise fun a b => key a = key b → a = b := by
    refine h.imp fun hlt heq => ?_
    omega
  have hdown : xs.Pairwise (flip fun a b => key a = key b → a = b) := by
    refine h.imp fun hlt heq => ?_
    omega
  exact hup.forall_of_forall_of_flip (fun _ _ _ => rfl) hdown ha hb hkey

private theorem nodup_of_increasing {α : Type} {key : α → Nat} {xs : List α}
    (h : xs.Pairwise fun a b => key a < key b) : xs.Nodup := by
  refine h.imp fun hlt heq => ?_
  rw [heq] at hlt
  omega

/-- A list with strictly increasing keys is determined by its elements. -/
theorem eq_of_increasing_of_mem_iff {α : Type} {key : α → Nat} {xs ys : List α}
    (hxs : xs.Pairwise fun a b => key a < key b) (hys : ys.Pairwise fun a b => key a < key b)
    (h : ∀ a, a ∈ xs ↔ a ∈ ys) : xs = ys := by
  have hperm : xs.Perm ys :=
    (List.perm_ext_iff_of_nodup (nodup_of_increasing hxs) (nodup_of_increasing hys)).mpr h
  refine hperm.eq_of_pairwise ?_ hxs hys
  intro a b _ _ hab hba
  omega

namespace Condition

/-- The place of a condition among all conditions in their order. -/
def rank (c : Condition) : Nat :=
  2 * c.fluent + c.polarity.toNat

/-- The conditions come in strictly increasing order. -/
def Ordered (cs : List Condition) : Prop :=
  cs.Pairwise fun a b => a.rank < b.rank

/-- The conditions ask for increasing fluents below `n`, so no fluent is asked for both values. -/
structure Canonical (n : Nat) (cs : List Condition) : Prop where
  /-- The fluents increase strictly. -/
  increasing : cs.Pairwise fun a b => a.fluent < b.fluent
  /-- All fluents exist. -/
  bounded : ∀ c ∈ cs, c.fluent < n

/-- The opposite of the opposite is the condition. -/
@[simp] theorem negate_negate (c : Condition) : c.negate.negate = c := by
  simp [negate]

/-- Opposite conditions are about the same fluent. -/
@[simp] theorem fluent_negate (c : Condition) : c.negate.fluent = c.fluent := rfl

/-- Opposite conditions ask for opposite values. -/
@[simp] theorem polarity_negate (c : Condition) : c.negate.polarity = !c.polarity := rfl

/-- Two conditions on one fluent are equal or opposite. -/
theorem eq_or_eq_negate {c d : Condition} (hf : c.fluent = d.fluent) : c = d ∨ c = d.negate := by
  obtain ⟨f, p⟩ := c
  obtain ⟨g, q⟩ := d
  cases p <;> cases q <;> simp_all [negate]

/-! ### The order of conditions -/

/-- Different conditions have different ranks. -/
theorem rank_injective {c d : Condition} (h : c.rank = d.rank) : c = d := by
  obtain ⟨f, p⟩ := c
  obtain ⟨g, q⟩ := d
  cases p <;> cases q <;> simp [rank] at h ⊢ <;> omega

private theorem rank_lt_of_fluent_lt {c d : Condition} (h : c.fluent < d.fluent) :
    c.rank < d.rank := by
  have hc := Bool.toNat_le c.polarity
  unfold rank
  omega

/-- The order of conditions is that of their ranks. -/
theorem order_eq_compare (c d : Condition) : order c d = compare c.rank d.rank := by
  obtain ⟨f, p⟩ := c
  obtain ⟨g, q⟩ := d
  rcases Nat.lt_trichotomy f g with h | rfl | h
  · have hr : rank ⟨f, p⟩ < rank ⟨g, q⟩ := rank_lt_of_fluent_lt h
    simp [order, Nat.compare_eq_lt.mpr h, Nat.compare_eq_lt.mpr hr]
  · have hup : compare (2 * f) (2 * f + 1) = .lt := Nat.compare_eq_lt.mpr (by omega)
    have hdown : compare (2 * f + 1) (2 * f) = .gt := Nat.compare_eq_gt.mpr (by omega)
    cases p <;> cases q <;> simp [order, rank, hup, hdown] <;> rfl
  · have hr : rank ⟨g, q⟩ < rank ⟨f, p⟩ := rank_lt_of_fluent_lt h
    simp [order, Nat.compare_eq_gt.mpr h, Nat.compare_eq_gt.mpr hr]

/-- The test of the order compares ranks. -/
theorem le_iff {c d : Condition} : le c d = true ↔ c.rank ≤ d.rank := by
  obtain ⟨f, p⟩ := c
  obtain ⟨g, q⟩ := d
  cases p <;> cases q <;> simp [le, rank] <;> omega

/-! ### Ordered insertion -/

/-- Insertion adds the condition and nothing else. -/
theorem mem_insertInto {c d : Condition} {cs : List Condition} :
    d ∈ insertInto c cs ↔ d = c ∨ d ∈ cs := by
  induction cs with
  | nil => simp [insertInto]
  | cons e rest ih =>
    unfold insertInto
    split
    · next h => simp [h]
    · split
      · simp
      · simp only [List.mem_cons, ih]
        tauto

/-- Insertion keeps a list strictly ordered. -/
theorem Ordered.insertInto {c : Condition} {cs : List Condition} (hcs : Ordered cs) :
    Ordered (insertInto c cs) := by
  induction cs with
  | nil => simp [Ordered, Condition.insertInto]
  | cons e rest ih =>
    obtain ⟨hhead, hrest⟩ := List.pairwise_cons.mp hcs
    unfold Condition.insertInto
    split
    · exact hcs
    · next hne =>
      have hrank : c.rank ≠ e.rank := fun h => hne (rank_injective h)
      split
      · next hle =>
        rw [le_iff] at hle
        refine List.pairwise_cons.mpr ⟨fun d hd => ?_, hcs⟩
        rcases List.mem_cons.mp hd with rfl | hd
        · omega
        · have := hhead d hd
          omega
      · next hle =>
        rw [le_iff] at hle
        refine List.pairwise_cons.mpr ⟨fun d hd => ?_, ih hrest⟩
        rcases mem_insertInto.mp hd with rfl | hd
        · omega
        · exact hhead d hd

/-- Bringing conditions in order keeps them all and adds none. -/
theorem mem_normalize {d : Condition} {cs : List Condition} : d ∈ normalize cs ↔ d ∈ cs := by
  induction cs with
  | nil => simp [normalize]
  | cons c rest ih =>
    show d ∈ insertInto c (normalize rest) ↔ d ∈ c :: rest
    rw [mem_insertInto, ih, List.mem_cons]

/-- Conditions that were brought in order are in order. -/
theorem ordered_normalize (cs : List Condition) : Ordered (normalize cs) := by
  induction cs with
  | nil => exact .nil
  | cons c rest ih => exact ih.insertInto

/-! ### Canonical lists -/

/-- An ordered list is canonical if no condition occurs together with its opposite. -/
theorem Ordered.canonical {n : Nat} {cs : List Condition} (hcs : Ordered cs)
    (hbound : ∀ c ∈ cs, c.fluent < n) (hneg : ∀ c ∈ cs, c.negate ∉ cs) : Canonical n cs := by
  refine ⟨?_, hbound⟩
  refine List.Pairwise.imp_of_mem (fun {a b} ha hb hab => ?_) hcs
  by_contra hlt
  have hf : a.fluent = b.fluent := by
    have := Bool.toNat_le a.polarity
    have := Bool.toNat_le b.polarity
    unfold rank at hab
    omega
  rcases eq_or_eq_negate hf with rfl | h
  · omega
  · exact hneg b hb (h ▸ ha)

/-- An ordered list without opposite neighbours has strictly increasing fluents. -/
theorem Ordered.increasing_of_contradiction?_eq_none {cs : List Condition} (hcs : Ordered cs)
    (hnone : contradiction? cs = none) : cs.Pairwise fun a b => a.fluent < b.fluent := by
  induction cs with
  | nil => exact .nil
  | cons a rest ih =>
    cases rest with
    | nil => simp
    | cons b rest =>
      obtain ⟨hhead, hrest⟩ := List.pairwise_cons.mp hcs
      unfold contradiction? at hnone
      split at hnone
      · cases hnone
      · next hne =>
        have htail := ih hrest hnone
        have hab : a.fluent < b.fluent := by
          have := Bool.toNat_le a.polarity
          have := Bool.toNat_le b.polarity
          have := hhead b (by simp)
          unfold rank at this
          omega
        refine List.pairwise_cons.mpr ⟨fun c hc => ?_, htail⟩
        rcases List.mem_cons.mp hc with rfl | hc
        · exact hab
        · exact Nat.lt_trans hab ((List.pairwise_cons.mp htail).1 c hc)

/-- Neighbours of an ordered list that are about one fluent ask it for both values. -/
theorem Ordered.mem_of_contradiction?_eq_some {cs : List Condition} {f : Nat} (hcs : Ordered cs)
    (h : contradiction? cs = some f) : ⟨f, false⟩ ∈ cs ∧ ⟨f, true⟩ ∈ cs := by
  fun_induction contradiction? cs with
  | case1 a b rest hf =>
    obtain ⟨g, p⟩ := a
    obtain ⟨g', q⟩ := b
    obtain rfl : g = g' := hf
    obtain rfl : g = f := by simpa using h
    have hlt := (List.pairwise_cons.mp hcs).1 _ List.mem_cons_self
    cases p <;> cases q <;> simp [rank] at hlt ⊢
  | case2 a b rest hf ih =>
    obtain ⟨hfalse, htrue⟩ := ih (List.pairwise_cons.mp hcs).2 h
    exact ⟨List.mem_cons_of_mem a hfalse, List.mem_cons_of_mem a htrue⟩
  | case3 => cases h

/-- In an ordered list that asks a fluent for both values some neighbours are about one fluent. -/
theorem Ordered.contradiction?_ne_none {cs : List Condition} {f : Nat} (hcs : Ordered cs)
    (hfalse : ⟨f, false⟩ ∈ cs) (htrue : ⟨f, true⟩ ∈ cs) : contradiction? cs ≠ none := by
  intro hnone
  have hincreasing := hcs.increasing_of_contradiction?_eq_none hnone
  have heq := eq_of_increasing hincreasing hfalse htrue rfl
  simp at heq

/-- Canonical conditions are in order. -/
theorem Canonical.ordered {n : Nat} {cs : List Condition} (hcs : Canonical n cs) : Ordered cs :=
  hcs.increasing.imp rank_lt_of_fluent_lt

/-- No condition occurs twice among canonical ones. -/
theorem Canonical.nodup {n : Nat} {cs : List Condition} (hcs : Canonical n cs) : cs.Nodup :=
  nodup_of_increasing hcs.increasing

/-- A canonical list has at most one condition on each fluent. -/
theorem Canonical.eq_of_fluent_eq {n : Nat} {cs : List Condition} (hcs : Canonical n cs)
    {c d : Condition} (hc : c ∈ cs) (hd : d ∈ cs) (hf : c.fluent = d.fluent) : c = d :=
  eq_of_increasing hcs.increasing hc hd hf

/-- A canonical list is determined by its conditions. -/
theorem Canonical.ext {n : Nat} {cs ds : List Condition} (hcs : Canonical n cs)
    (hds : Canonical n ds) (h : ∀ c, c ∈ cs ↔ c ∈ ds) : cs = ds :=
  eq_of_increasing_of_mem_iff hcs.increasing hds.increasing h

/-- A canonical list asks no fluent for both values. -/
theorem Canonical.negate_notMem {n : Nat} {cs : List Condition} (hcs : Canonical n cs)
    {c : Condition} (hc : c ∈ cs) : c.negate ∉ cs := by
  intro hneg
  have hpol := congrArg polarity (hcs.eq_of_fluent_eq hneg hc (fluent_negate c))
  simp at hpol

/-- A condition whose opposite does not occur may be inserted into a canonical list. -/
theorem Canonical.insertInto {n : Nat} {c : Condition} {cs : List Condition} (hcs : Canonical n cs)
    (hc : c.fluent < n) (hneg : c.negate ∉ cs) : Canonical n (insertInto c cs) := by
  refine hcs.ordered.insertInto.canonical (fun d hd => ?_) (fun d hd hd' => ?_)
  · rcases mem_insertInto.mp hd with rfl | hd
    · exact hc
    · exact hcs.bounded d hd
  · rw [mem_insertInto] at hd hd'
    rcases hd with rfl | hd <;> rcases hd' with hd' | hd'
    · have := congrArg polarity hd'
      simp at this
    · exact hneg hd'
    · exact hneg (by rwa [← hd', negate_negate])
    · exact hcs.negate_notMem hd hd'

/-! ### Binary search -/

/-- What the search finds is there, whether or not the array is ordered. -/
theorem getElem?_of_searchBetween {c : Condition} {cs : Array Condition} {low high i : Nat}
    (h : c.searchBetween cs low high = .found i) : cs[i]? = some c := by
  fun_induction searchBetween c cs low high with
  | case1 => cases h
  | case2 low high hlt middle d hd horder =>
    rw [order_eq_compare, Nat.compare_eq_eq] at horder
    rw [← Place.found.inj h, ← rank_injective horder]
    exact hd
  | case3 low high hlt middle d hd hless ih => exact ih h
  | case4 low high hlt middle d hd hgreater ih => exact ih h
  | case5 => cases h

/-- A position separates the conditions that come before a condition from those that come after
it. -/
structure Separates (c : Condition) (cs : Array Condition) (i : Nat) : Prop where
  /-- The position is in the array or just behind it. -/
  le_size : i ≤ cs.size
  /-- What stands before the position comes before the condition. -/
  before : ∀ {j : Nat} {d : Condition}, j < i → cs[j]? = some d → d.rank < c.rank
  /-- What stands at the position or behind it comes after the condition. -/
  after : ∀ {j : Nat} {d : Condition}, i ≤ j → cs[j]? = some d → c.rank < d.rank

/-- A condition does not occur where a position separates it. -/
theorem Separates.notMem {c : Condition} {cs : Array Condition} {i : Nat} (h : Separates c cs i) :
    c ∉ cs := by
  intro hmem
  obtain ⟨j, hj⟩ := Array.mem_iff_getElem?.mp hmem
  rcases Nat.lt_or_ge j i with hlt | hge
  · exact Nat.lt_irrefl _ (h.before hlt hj)
  · exact Nat.lt_irrefl _ (h.after hge hj)

/-- The ranks in an ordered array increase with the positions. -/
theorem Ordered.rank_le {cs : Array Condition} (hcs : Ordered cs.toList) {i j : Nat}
    {c d : Condition} (hi : cs[i]? = some c) (hj : cs[j]? = some d) (hij : i ≤ j) :
    c.rank ≤ d.rank := by
  obtain ⟨hilt, rfl⟩ := Array.getElem?_eq_some_iff.mp hi
  obtain ⟨hjlt, rfl⟩ := Array.getElem?_eq_some_iff.mp hj
  rcases Nat.eq_or_lt_of_le hij with rfl | hlt
  · exact Nat.le_refl _
  · exact Nat.le_of_lt (List.pairwise_iff_getElem.mp hcs i j hilt hjlt hlt)

/-- Where a condition is missing from an ordered array, the search gives the position that separates
it. What stands before the lower position of the search comes before the condition, and what stands
at the upper one or behind it comes after: this is what the search keeps. -/
theorem Ordered.separates_of_searchBetween {c : Condition} {cs : Array Condition} {low high i : Nat}
    (hcs : Ordered cs.toList) (hle : low ≤ high) (hsize : high ≤ cs.size)
    (hbefore : ∀ {j : Nat} {d : Condition}, j < low → cs[j]? = some d → d.rank < c.rank)
    (hafter : ∀ {j : Nat} {d : Condition}, high ≤ j → cs[j]? = some d → c.rank < d.rank)
    (h : c.searchBetween cs low high = .missing i) : Separates c cs i := by
  fun_induction searchBetween c cs low high with
  | case1 low high hlt middle hnone =>
    have hmiddle : middle = low + (high - low) / 2 := rfl
    rw [Array.getElem?_eq_none_iff] at hnone
    omega
  | case2 => cases h
  | case3 low high hlt middle d hd hless ih =>
    have hmiddle : middle = low + (high - low) / 2 := rfl
    rw [order_eq_compare, Nat.compare_eq_lt] at hless
    refine ih (by omega) hsize (fun hj hget => ?_) hafter h
    exact Nat.lt_of_le_of_lt (hcs.rank_le hget hd (by omega)) hless
  | case4 low high hlt middle d hd hgreater ih =>
    have hmiddle : middle = low + (high - low) / 2 := rfl
    rw [order_eq_compare, Nat.compare_eq_gt] at hgreater
    refine ih (by omega) (by omega) hbefore (fun hj hget => ?_) h
    exact Nat.lt_of_lt_of_le hgreater (hcs.rank_le hd hget hj)
  | case5 low high hnot =>
    cases h
    exact ⟨by omega, hbefore, fun hj => hafter (by omega)⟩

/-- The whole array is searched. -/
theorem Ordered.separates_of_search {c : Condition} {cs : Array Condition}
    {i : Nat} (hcs : Ordered cs.toList) (h : c.search cs = .missing i) : Separates c cs i := by
  refine hcs.separates_of_searchBetween (Nat.zero_le _) (Nat.le_refl _)
    (fun hj => absurd hj (by omega))
    (fun hj hget => ?_) h
  exact absurd (Array.getElem?_eq_some_iff.mp hget).1 (by omega)

/-- The binary search decides membership in an ordered array. -/
theorem occursIn_iff {c : Condition} {cs : Array Condition} (hcs : Ordered cs.toList) :
    c.occursIn cs = true ↔ c ∈ cs := by
  unfold occursIn
  cases h : c.search cs with
  | found i => simp [Array.mem_of_getElem? (getElem?_of_searchBetween h)]
  | missing i => simp [(hcs.separates_of_search h).notMem]

/-- What separates a condition from a list separates it from the tail as well. -/
theorem Separates.tail {c d : Condition} {cs : List Condition} {i : Nat}
    (h : Separates c (d :: cs).toArray (i + 1)) : Separates c cs.toArray i where
  le_size := Nat.le_of_succ_le_succ h.le_size
  before {j e} hj hget := h.before (Nat.succ_lt_succ hj)
    (show (d :: cs).toArray[j + 1]? = some e by simpa using hget)
  after {j e} hj hget := h.after (Nat.succ_le_succ hj)
    (show (d :: cs).toArray[j + 1]? = some e by simpa using hget)

/-- Where a position separates a condition, insertion at this position is ordered insertion. -/
theorem Separates.insertIdx_eq {c : Condition} {cs : List Condition} {i : Nat}
    (h : Separates c cs.toArray i) :
    cs.insertIdx i c = c.insertInto cs := by
  induction cs generalizing i with
  | nil =>
    obtain rfl : i = 0 := Nat.le_zero.mp h.le_size
    rfl
  | cons d rest ih =>
    cases i with
    | zero =>
      have hlt : c.rank < d.rank := h.after (Nat.zero_le 0) (by simp)
      have hne : c ≠ d := fun heq => Nat.ne_of_lt hlt (congrArg rank heq)
      rw [insertInto, if_neg hne, if_pos (le_iff.mpr (Nat.le_of_lt hlt)), List.insertIdx_zero]
    | succ i =>
      have hlt : d.rank < c.rank := h.before (Nat.succ_pos i) (by simp)
      have hne : c ≠ d := fun heq => Nat.ne_of_gt hlt (congrArg rank heq)
      rw [insertInto, if_neg hne, if_neg (fun hle => Nat.not_le.mpr hlt (le_iff.mp hle)),
        List.insertIdx_succ_cons, ih h.tail]

/-- In an ordered list, the place that the search gives is that of ordered insertion. -/
theorem Ordered.placeInto_eq {c : Condition} {cs : List Condition} (hcs : Ordered cs) :
    c.placeInto cs = c.insertInto cs := by
  unfold placeInto
  split
  · next i hfound =>
    have hmem : c ∈ cs := by simpa using Array.mem_of_getElem? (getElem?_of_searchBetween hfound)
    refine eq_of_increasing_of_mem_iff hcs hcs.insertInto fun d => ?_
    rw [mem_insertInto]
    exact ⟨.inr, fun h => h.elim (fun heq => heq ▸ hmem) id⟩
  · next i hmissing => exact (hcs.separates_of_search hmissing).insertIdx_eq

end Condition

end HorizonPlanner
