import HorizonPlanner.Encoding.Interference
import HorizonPlanner.Proofs.WellFormed
import Mathlib.Data.Prod.Lex

/-!
# Interference

Two operators interfere when an effect of one is the opposite of a precondition or an effect of the
other. The test on two operators and the pairs collected over all effects of a problem agree on
this, and the pairs are listed in lexicographic order, each of them once.
-/

namespace HorizonPlanner

namespace Operator

/-- An effect of the first operator is the opposite of a precondition or an effect of the second. -/
def Opposes (a b : Operator) : Prop :=
  ∃ e ∈ a.effects, e.negate ∈ b.preconditions ∨ e.negate ∈ b.effects

private theorem negates_iff {effects conditions : List Condition}
    (h : Condition.Ordered conditions) :
    negates effects conditions = true ↔ ∃ e ∈ effects, e.negate ∈ conditions := by
  simp only [negates, List.any_eq_true]
  refine exists_congr fun e => and_congr_right fun _ => ?_
  rw [Condition.occursIn_iff h, List.mem_toArray]

/-- The test for interference is right on canonical conditions. -/
theorem interferes_iff {n : Nat} {a b : Operator} (ha : a.WellFormed n) (hb : b.WellFormed n) :
    a.interferes b = true ↔ a.id ≠ b.id ∧ (a.Opposes b ∨ b.Opposes a) := by
  simp only [interferes, Bool.and_eq_true, Bool.or_eq_true, bne_iff_ne,
    negates_iff ha.preconditions.ordered, negates_iff hb.preconditions.ordered,
    negates_iff hb.effects.ordered]
  refine and_congr_right fun _ => ⟨?_, ?_⟩
  · rintro ((⟨e, he, h⟩ | ⟨e, he, h⟩) | ⟨e, he, h⟩)
    · exact .inl ⟨e, he, .inl h⟩
    · exact .inr ⟨e, he, .inl h⟩
    · exact .inl ⟨e, he, .inr h⟩
  · rintro (⟨e, he, h | h⟩ | ⟨e, he, h | h⟩)
    · exact .inl (.inl ⟨e, he, h⟩)
    · exact .inr ⟨e, he, h⟩
    · exact .inl (.inr ⟨e, he, h⟩)
    · exact .inr ⟨e.negate, h, by rwa [Condition.negate_negate]⟩

/-- Interference is mutual. -/
theorem interferes_comm {n : Nat} {a b : Operator} (ha : a.WellFormed n) (hb : b.WellFormed n) :
    a.interferes b = b.interferes a := by
  rw [Bool.eq_iff_iff, interferes_iff ha hb, interferes_iff hb ha, ne_comm, or_comm]

end Operator

namespace Problem

/-- An operator of a well-formed problem stands at the position of its number. -/
theorem WellFormed.mem_operators_iff {p : Problem} (hp : p.WellFormed) {o : Operator} :
    o ∈ p.operators ↔ p.operators[o.id]? = some o := by
  refine ⟨fun h => ?_, List.mem_of_getElem?⟩
  obtain ⟨i, hi⟩ := List.mem_iff_getElem?.mp h
  rwa [hp.id_eq hi]

/-- The number of an operator is below the number of operators. -/
theorem WellFormed.id_lt {p : Problem} (hp : p.WellFormed) {o : Operator} (ho : o ∈ p.operators) :
    o.id < p.nOperators := by
  rw [hp.mem_operators_iff] at ho
  exact (List.getElem?_eq_some_iff.mp ho).1

/-- The producers of a condition are the operators that have it among their effects. -/
theorem WellFormed.mem_producers {p : Problem} (hp : p.WellFormed) {c : Condition} {i : Nat} :
    i ∈ p.producers c ↔ ∃ o, p.operators[i]? = some o ∧ c ∈ o.effects := by
  simp only [producers, List.mem_map, List.mem_filter, List.contains_eq_mem, decide_eq_true_eq,
    hp.mem_operators_iff]
  constructor
  · rintro ⟨o, ⟨ho, hc⟩, rfl⟩
    exact ⟨o, ho, hc⟩
  · rintro ⟨o, ho, hc⟩
    obtain rfl := hp.id_eq ho
    exact ⟨o, ⟨ho, hc⟩, rfl⟩

private theorem WellFormed.mem_requirers {p : Problem} (hp : p.WellFormed)
    {c : Condition} {i : Nat} :
    i ∈ p.requirers c ↔ ∃ o, p.operators[i]? = some o ∧ c ∈ o.preconditions := by
  simp only [requirers, List.mem_map, List.mem_filter, List.contains_eq_mem, decide_eq_true_eq,
    hp.mem_operators_iff]
  constructor
  · rintro ⟨o, ⟨ho, hc⟩, rfl⟩
    exact ⟨o, ho, hc⟩
  · rintro ⟨o, ho, hc⟩
    obtain rfl := hp.id_eq ho
    exact ⟨o, ⟨ho, hc⟩, rfl⟩

private theorem mem_dropRepeats {x : Nat × Nat} {xs : List (Nat × Nat)} :
    x ∈ dropRepeats xs ↔ x ∈ xs := by
  fun_induction dropRepeats xs with
  | case1 y rest ih => simp [ih]
  | case2 y z rest hne ih => simp [ih]
  | case3 => rfl

/-- The pairs collected for an operator and one of its effects. -/
theorem WellFormed.mem_opposedBy {p : Problem} (hp : p.WellFormed) {o : Operator} {e : Condition}
    {x : Nat × Nat} :
    x ∈ p.opposedBy o e ↔ ∃ other : Operator, p.operators[other.id]? = some other ∧
      other.id ≠ o.id ∧ (e.negate ∈ other.preconditions ∨ e.negate ∈ other.effects) ∧
      x = (min o.id other.id, max o.id other.id) := by
  simp only [opposedBy, List.mem_map, List.mem_filter, List.mem_append, hp.mem_requirers,
    hp.mem_producers, bne_iff_ne]
  constructor
  · rintro ⟨i, ⟨⟨other, ho, h⟩ | ⟨other, ho, h⟩, hne⟩, rfl⟩
    · obtain rfl := hp.id_eq ho
      exact ⟨other, ho, hne, .inl h, rfl⟩
    · obtain rfl := hp.id_eq ho
      exact ⟨other, ho, hne, .inr h, rfl⟩
  · rintro ⟨other, ho, hne, h | h, rfl⟩
    · exact ⟨other.id, ⟨.inl ⟨other, ho, h⟩, hne⟩, rfl⟩
    · exact ⟨other.id, ⟨.inr ⟨other, ho, h⟩, hne⟩, rfl⟩

/-- The collected pairs are those of interfering operators, the smaller number first. -/
theorem WellFormed.mem_interferingPairs {p : Problem} (hp : p.WellFormed) {i j : Nat} :
    (i, j) ∈ p.interferingPairs ↔ i < j ∧ ∃ a b, p.operators[i]? = some a ∧
      p.operators[j]? = some b ∧ a.interferes b = true := by
  simp only [interferingPairs, mem_dropRepeats, List.mem_mergeSort, List.mem_flatMap,
    hp.mem_opposedBy, Prod.mk.injEq]
  constructor
  · rintro ⟨o, ho, e, he, other, hother, hne, h, rfl, rfl⟩
    have hwo := hp.operators o ho
    have hwother := hp.operators other (hp.mem_operators_iff.mpr hother)
    rw [hp.mem_operators_iff] at ho
    refine ⟨by omega, ?_⟩
    have hopp : o.Opposes other := ⟨e, he, h⟩
    rcases Nat.lt_or_gt_of_ne hne with hlt | hlt
    · have hle := Nat.le_of_lt hlt
      rw [Nat.min_eq_right hle, Nat.max_eq_left hle]
      exact ⟨other, o, hother, ho, (Operator.interferes_iff hwother hwo).mpr ⟨hne, .inr hopp⟩⟩
    · have hle := Nat.le_of_lt hlt
      rw [Nat.min_eq_left hle, Nat.max_eq_right hle]
      exact ⟨o, other, ho, hother, (Operator.interferes_iff hwo hwother).mpr ⟨hne.symm, .inl hopp⟩⟩
  · rintro ⟨hlt, a, b, ha, hb, h⟩
    obtain rfl := hp.id_eq ha
    obtain rfl := hp.id_eq hb
    have hmema := hp.mem_operators_iff.mpr ha
    have hmemb := hp.mem_operators_iff.mpr hb
    have hle := Nat.le_of_lt hlt
    obtain ⟨hne, ⟨e, he, h⟩ | ⟨e, he, h⟩⟩ :=
      (Operator.interferes_iff (hp.operators a hmema) (hp.operators b hmemb)).mp h
    · exact ⟨a, hmema, e, he, b, hb, hne.symm, h, (Nat.min_eq_left hle).symm,
        (Nat.max_eq_right hle).symm⟩
    · exact ⟨b, hmemb, e, he, a, ha, hne, h, (Nat.min_eq_right hle).symm,
        (Nat.max_eq_left hle).symm⟩

/-! ### The order of the pairs -/

/-- The test of the order is the lexicographic one. -/
theorem pairLe_iff {x y : Nat × Nat} : pairLe x y = true ↔ toLex x ≤ toLex y := by
  simp [pairLe, Prod.Lex.toLex_le_toLex]

/-- Pairs are sorted in lexicographic order. -/
theorem pairwise_mergeSort_pairLe (xs : List (Nat × Nat)) :
    (xs.mergeSort pairLe).Pairwise fun x y => toLex x ≤ toLex y := by
  have htrans : ∀ x y z, pairLe x y = true → pairLe y z = true → pairLe x z = true := by
    intro x y z hxy hyz
    rw [pairLe_iff] at hxy hyz ⊢
    exact hxy.trans hyz
  have htotal : ∀ x y, (pairLe x y || pairLe y x) = true := by
    intro x y
    rw [Bool.or_eq_true, pairLe_iff, pairLe_iff]
    exact le_total _ _
  exact (List.pairwise_mergeSort htrans htotal xs).imp pairLe_iff.mp

/-- Without its repetitions an ordered list is strictly increasing. -/
theorem pairwise_dropRepeats {xs : List (Nat × Nat)}
    (h : xs.Pairwise fun x y => toLex x ≤ toLex y) :
    (dropRepeats xs).Pairwise fun x y => toLex x < toLex y := by
  fun_induction dropRepeats xs with
  | case1 y rest ih => exact ih (List.pairwise_cons.mp h).2
  | case2 x y rest hne ih =>
    obtain ⟨hhead, hrest⟩ := List.pairwise_cons.mp h
    have hxy : toLex x < toLex y :=
      lt_of_le_of_ne (hhead y (by simp)) fun heq => hne (toLex.injective heq)
    refine List.pairwise_cons.mpr ⟨fun z hz => ?_, ih hrest⟩
    rcases List.mem_cons.mp (mem_dropRepeats.mp hz) with rfl | hz
    · exact hxy
    · exact hxy.trans_le ((List.pairwise_cons.mp hrest).1 z hz)
  | case3 xs hshort =>
    match xs, hshort with
    | [], _ => exact .nil
    | [x], _ => simp
    | x :: y :: rest, hshort => exact (hshort x y rest rfl).elim

/-! ### Agreement of the test and the list -/

/-- The list of pairs and the test on two operators agree, and the test does not depend on the order
of its arguments. The list is strictly increasing in lexicographic order, the smaller number of a
pair comes first, and no operator is paired with itself, even if it destroys its own
preconditions. -/
theorem Built.mem_interferingPairs_iff_interferes {p : Problem} (hp : p.Built) :
    (∀ i j, i < j → j < p.nOperators →
      ∃ a b, p.operatorById i = .ok a ∧ p.operatorById j = .ok b ∧
        ((i, j) ∈ p.interferingPairs ↔ a.interferes b = true) ∧
          (a.interferes b = true ↔ b.interferes a = true)) ∧
      p.interferingPairs.Pairwise (fun x y => toLex x < toLex y) ∧
      (∀ x ∈ p.interferingPairs, x.1 < x.2 ∧ x.2 < p.nOperators) ∧
      ∀ o ∈ p.operators, (o.id, o.id) ∉ p.interferingPairs ∧ o.interferes o = false := by
  have hwf := hp.wellFormed
  refine ⟨fun i j hij hj => ?_, pairwise_dropRepeats (pairwise_mergeSort_pairLe _), ?_, ?_⟩
  · obtain ⟨a, ha⟩ := exists_operatorById_iff.mpr (Nat.lt_trans hij hj)
    obtain ⟨b, hb⟩ := exists_operatorById_iff.mpr hj
    refine ⟨a, b, ha, hb, ?_, ?_⟩
    · rw [operatorById_eq_ok] at ha hb
      rw [hwf.mem_interferingPairs]
      simp [hij, ha, hb]
    · rw [operatorById_eq_ok] at ha hb
      rw [Operator.interferes_comm (hwf.operators _ (List.mem_of_getElem? ha))
        (hwf.operators _ (List.mem_of_getElem? hb))]
  · rintro ⟨i, j⟩ hij
    obtain ⟨hlt, a, b, ha, hb, -⟩ := hwf.mem_interferingPairs.mp hij
    exact ⟨hlt, (List.getElem?_eq_some_iff.mp hb).1⟩
  · intro o ho
    refine ⟨fun h => ?_, by simp [Operator.interferes]⟩
    obtain ⟨hlt, -⟩ := hwf.mem_interferingPairs.mp h
    exact Nat.lt_irrefl _ hlt

/-- A candle that can be lit, is to burn down to ashes, and stands on a table that is dusted while
there are none. -/
def candle : Problem :=
  afterEdits (.ofList ["lit", "ashes", "dusted"])
    [.operator "light" [] [("lit", true)],
      .operator "burn" [("lit", true)] [("lit", false), ("ashes", true)],
      .operator "look" [] [],
      .operator "dust" [("ashes", false)] [("dusted", true)],
      .goal "ashes" true]

/-- The candle is a problem that was built. -/
theorem candle_built : candle.Built := ⟨_, _, rfl⟩

/-- Burning interferes with lighting and with dusting, and with neither looking nor itself. -/
theorem mem_interferingPairs_iff_interferes_candle :
    (0, 1) ∈ candle.interferingPairs ∧ (1, 3) ∈ candle.interferingPairs ∧
      (1, 2) ∉ candle.interferingPairs ∧ (1, 1) ∉ candle.interferingPairs := by
  obtain ⟨hpairs, -, hbound, -⟩ := candle_built.mem_interferingPairs_iff_interferes
  obtain ⟨light, burn, hlight, hburn, hlightBurn, -⟩ := hpairs 0 1 (by decide) (by decide)
  obtain ⟨_, look, h, hlook, hburnLook, -⟩ := hpairs 1 2 (by decide) (by decide)
  obtain rfl := Except.ok.inj (hburn.symm.trans h)
  obtain ⟨_, dust, h, hdust, hburnDust, -⟩ := hpairs 1 3 (by decide) (by decide)
  obtain rfl := Except.ok.inj (hburn.symm.trans h)
  cases hlight
  cases hburn
  cases hlook
  cases hdust
  refine ⟨hlightBurn.mpr (by decide +kernel), hburnDust.mpr (by decide +kernel),
    fun h => ?_, fun h => ?_⟩
  · exact absurd (hburnLook.mp h) (by decide +kernel)
  · exact Nat.lt_irrefl _ (hbound _ h).1

end Problem

end HorizonPlanner
