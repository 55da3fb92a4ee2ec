import HorizonPlanner.Proofs.Sat.Assignments
import Mathlib.Data.Finset.Insert
import Mathlib.Data.List.Induction

/-!
# Clauses added one after the other

A set of clauses is a list of clauses, the ordered form of every one of them, the literals of the
unit clauses and a flag. After any sequence of additions these four agree: among the added clauses
with the same literals the first one is kept, unless it is a tautology, and everything else is
determined by the clauses that are kept.
-/

namespace HorizonPlanner.Sat

/-- Variables with the same number are equal. -/
theorem Variable.ext {x y : Variable} (h : x.number = y.number) : x = y := by
  cases x
  cases y
  simpa using h

namespace Literal

/-- The order of literals is transitive. -/
theorem le_trans (a b c : Literal) (hab : le a b = true) (hbc : le b c = true) : le a c = true := by
  simp only [le, Bool.or_eq_true, Bool.and_eq_true, decide_eq_true_eq, beq_iff_eq,
    Bool.not_eq_true'] at *
  rcases hab with hab | ⟨hab, hsign⟩ <;> rcases hbc with hbc | ⟨hbc, hsign'⟩
  · exact .inl (hab.trans hbc)
  · exact .inl (hbc ▸ hab)
  · exact .inl (hab ▸ hbc)
  · refine .inr ⟨hab.trans hbc, ?_⟩
    cases ha : a.positive <;> cases hb : b.positive <;> simp_all

/-- Any two literals are in order one way or the other. -/
theorem le_total (a b : Literal) : (le a b || le b a) = true := by
  simp only [le, Bool.or_eq_true, Bool.and_eq_true, decide_eq_true_eq, beq_iff_eq]
  rcases Nat.lt_trichotomy a.var.number b.var.number with h | h | h
  · exact .inl (.inl h)
  · cases a.positive <;> simp [h]
  · exact .inr (.inl h)

private theorem number_le_of_le {a b : Literal} (h : le a b = true) :
    a.var.number ≤ b.var.number := by
  simp only [le, Bool.or_eq_true, Bool.and_eq_true, decide_eq_true_eq, beq_iff_eq] at h
  omega

end Literal

namespace Clause

variable {l : Literal} {c d : Clause}

instance : DecidablePred Tautological := fun c =>
  inferInstanceAs (Decidable (∃ l ∈ c, l.negate ∈ c))

/-- The clauses have the same literals. -/
def sameLiterals (c d : Clause) : Bool :=
  c.toFinset = d.toFinset

/-- The first one of the clauses with the same literals, for all of these clauses except the
tautologies, each literal where it occurs first. -/
def firstOccurrences (added : List Clause) : List Clause :=
  ((added.filter fun c => ¬ c.Tautological).eraseDupsBy sameLiterals).map withoutRepetition

private theorem toFinset_withoutRepetition (c : Clause) :
    c.withoutRepetition.toFinset = c.toFinset :=
  List.toFinset.ext fun _ => mem_withoutRepetition.trans Iff.rfl

private theorem tautological_congr (h : c.toFinset = d.toFinset) :
    c.Tautological ↔ d.Tautological := by
  simp only [Tautological, List.toFinset.ext_iff.mp h]

/-! ### The ordered form of a clause -/

private theorem sorted_perm (c : Clause) : c.sorted.Perm c :=
  List.mergeSort_perm _ _

/-- Ordered literals no two neighbours of which are about the same variable are all about different
ones. -/
theorem strict_of_not_hasOpposites (hle : c.Pairwise fun a b => Literal.le a b = true)
    (h : hasOpposites c = false) : c.Pairwise fun a b => a.var.number < b.var.number := by
  induction c with
  | nil => exact .nil
  | cons a rest ih =>
    cases rest with
    | nil => exact List.pairwise_singleton _ a
    | cons b rest =>
      rw [hasOpposites, Bool.or_eq_false_iff, beq_eq_false_iff_ne] at h
      obtain ⟨hhead, htail⟩ := List.pairwise_cons.mp hle
      have hrest := ih htail h.2
      have hab : a.var.number < b.var.number :=
        Nat.lt_of_le_of_ne (Literal.number_le_of_le (hhead b (by simp))) fun hnumber =>
          h.1 (Variable.ext hnumber)
      refine List.pairwise_cons.mpr ⟨fun x hx => ?_, hrest⟩
      rcases List.mem_cons.mp hx with rfl | hx
      · exact hab
      · exact hab.trans (List.rel_of_pairwise_cons hrest hx)

private theorem sorted_strict (h : hasOpposites c.sorted = false) :
    c.sorted.Pairwise fun a b => a.var.number < b.var.number :=
  strict_of_not_hasOpposites (List.pairwise_mergeSort Literal.le_trans Literal.le_total c) h

/-- Neighbours in the ordered form tell whether a clause without repetition is a tautology. -/
theorem hasOpposites_sorted_iff (hc : c.Nodup) : hasOpposites c.sorted = true ↔ c.Tautological := by
  constructor
  · intro h
    obtain ⟨l, hl, hneg⟩ := tautological_of_hasOpposites (c.sorted_perm.nodup_iff.mpr hc) h
    exact ⟨l, mem_sorted.mp hl, mem_sorted.mp hneg⟩
  · rintro ⟨l, hl, hneg⟩
    by_contra hopposites
    have hstrict := sorted_strict (Bool.eq_false_of_not_eq_true hopposites)
    have hdifferent : (c.sorted.map Literal.var).Nodup :=
      List.pairwise_map.mpr (hstrict.imp fun hlt hvar => absurd (congrArg Variable.number hvar)
        (Nat.ne_of_lt hlt))
    have heq := List.inj_on_of_nodup_map hdifferent (mem_sorted.mpr hneg) (mem_sorted.mpr hl) rfl
    exact l.negate_ne_self heq

/-- Clauses with the same literals have the same ordered form. -/
theorem sorted_eq_sorted_iff (hc : c.Nodup) (hd : d.Nodup) (h : ¬ c.Tautological) :
    c.sorted = d.sorted ↔ c.toFinset = d.toFinset := by
  constructor
  · intro heq
    exact List.toFinset.ext fun l => by rw [← mem_sorted, heq, mem_sorted]
  · intro heq
    have hperm : c.Perm d := List.perm_of_nodup_nodup_toFinset_eq hc hd heq
    have hstrict : ∀ e : Clause, e.Nodup → ¬ e.Tautological →
        e.sorted.Pairwise fun a b => a.var.number < b.var.number := fun e he htaut =>
      sorted_strict (Bool.eq_false_of_not_eq_true ((hasOpposites_sorted_iff he).not.mpr htaut))
    refine List.Perm.eq_of_pairwise (fun a b _ _ hab hba => absurd hab (Nat.lt_asymm hba))
      (hstrict c hc h)
      (hstrict d hd ((tautological_congr heq).not.mp h)) ?_
    exact (c.sorted_perm.trans hperm).trans d.sorted_perm.symm

/-! ### First occurrences -/

/-- Going on with one more element, it is kept if it is related to none of those that are kept. -/
theorem eraseDupsBy_concat {α : Type} (r : α → α → Bool) (x : α) (xs : List α) :
    (xs ++ [x]).eraseDupsBy r =
      if (xs.eraseDupsBy r).any (r x) then xs.eraseDupsBy r else xs.eraseDupsBy r ++ [x] := by
  match xs with
  | [] => simp [List.eraseDupsBy_cons]
  | y :: ys =>
    have ih := eraseDupsBy_concat r x (ys.filter fun z => r z y = false)
    rw [List.cons_append, List.eraseDupsBy_cons, List.eraseDupsBy_cons, List.filter_append]
    cases hxy : r x y with
    | true => simp [hxy]
    | false =>
      have hkept : List.filter (fun z => decide (r z y = false)) [x] = [x] := by simp [hxy]
      rw [hkept, ih, List.any_cons, hxy, Bool.false_or]
      split <;> rfl
termination_by xs.length
decreasing_by exact Nat.lt_succ_of_le (List.length_filter_le _ _)

/-- One more clause is kept unless it is a tautology or has the literals of one that is kept. -/
theorem firstOccurrences_concat (added : List Clause) (d : Clause) :
    firstOccurrences (added ++ [d]) =
      if d.Tautological ∨ ∃ c ∈ firstOccurrences added, c.toFinset =
        d.toFinset then firstOccurrences added
      else firstOccurrences added ++ [d.withoutRepetition] := by
  have hany : ((added.filter fun c => ¬ c.Tautological).eraseDupsBy sameLiterals).any
      (sameLiterals d) = true ↔
      ∃ c ∈ firstOccurrences added, c.toFinset = d.toFinset := by
    simp only [firstOccurrences, List.any_eq_true, List.mem_map, exists_exists_and_eq_and,
      sameLiterals, decide_eq_true_eq, toFinset_withoutRepetition]
    exact exists_congr fun c => and_congr_right fun _ => eq_comm
  by_cases htaut : d.Tautological
  · simp [firstOccurrences, htaut]
  · have hfilter : ((added ++ [d]).filter fun c => ¬ c.Tautological) =
        (added.filter fun c => ¬ c.Tautological) ++ [d] := by
      simp [List.filter_append, htaut]
    rw [firstOccurrences, hfilter, eraseDupsBy_concat, apply_ite (List.map withoutRepetition),
      List.map_append]
    simp only [hany, htaut, false_or]
    rfl

/-- Clauses without repeated and opposite literals, no two of them with the same literals. -/
structure Distinct (cs : List Clause) : Prop where
  /-- No literal is repeated. -/
  nodup : ∀ c ∈ cs, c.Nodup
  /-- No two literals are opposite. -/
  not_tautological : ∀ c ∈ cs, ¬ c.Tautological
  /-- No two clauses have the same literals. -/
  pairwise : cs.Pairwise fun c d => c.toFinset ≠ d.toFinset

private theorem distinct_firstOccurrences (added : List Clause) :
    Distinct (firstOccurrences added) := by
  induction added using List.reverseRecOn with
  | nil => exact ⟨by simp [firstOccurrences], by simp [firstOccurrences], by
      simp [firstOccurrences]⟩
  | append_singleton added d ih =>
    rw [firstOccurrences_concat]
    split
    · exact ih
    · next hnew =>
      obtain ⟨htaut, hother⟩ := not_or.mp hnew
      refine ⟨List.forall_mem_append.mpr ⟨ih.nodup, ?_⟩,
        List.forall_mem_append.mpr ⟨ih.not_tautological, ?_⟩, ?_⟩
      · exact List.forall_mem_singleton.mpr d.nodup_withoutRepetition
      · exact List.forall_mem_singleton.mpr
          ((tautological_congr d.toFinset_withoutRepetition).not.mpr htaut)
      · refine List.pairwise_append.mpr ⟨ih.pairwise, List.pairwise_singleton _ _,
          fun c hc e he heq => ?_⟩
        rw [List.mem_singleton.mp he, toFinset_withoutRepetition] at heq
        exact hother ⟨c, hc, heq⟩

/-- A clause without repetition stays as it is. -/
theorem withoutRepetition_of_nodup (h : c.Nodup) : c.withoutRepetition = c := by
  unfold withoutRepetition
  induction c with
  | nil => rfl
  | cons l rest ih =>
    obtain ⟨hl, hrest⟩ := List.nodup_cons.mp h
    have hfilter : (rest.filter fun k => !k == l) = rest := by
      refine List.filter_eq_self.mpr fun k hk => ?_
      have hne : k ≠ l := ne_of_mem_of_not_mem hk hl
      simpa using hne
    rw [List.eraseDups_cons, hfilter, ih hrest]

/-- Of different clauses added behind others, those are kept whose literals are not those of a
clause before. -/
theorem Distinct.firstOccurrences_append {cs : List Clause} (hcs : Distinct cs)
    (added : List Clause) :
    firstOccurrences (added ++ cs) = firstOccurrences added ++
      cs.filter fun d => ∀ c ∈ firstOccurrences added, c.toFinset ≠ d.toFinset := by
  induction cs using List.reverseRecOn with
  | nil => simp
  | append_singleton cs d ih =>
    have hrest : Distinct cs := by
      refine ⟨fun c hc => hcs.nodup c ?_, fun c hc => hcs.not_tautological c ?_, ?_⟩
      · exact List.mem_append_left _ hc
      · exact List.mem_append_left _ hc
      · exact (List.pairwise_append.mp hcs.pairwise).1
    have htaut : ¬ d.Tautological := hcs.not_tautological d (by simp)
    have hnodup : d.Nodup := hcs.nodup d (by simp)
    have hdifferent : ∀ c ∈ cs, c.toFinset ≠ d.toFinset := fun c hc =>
      (List.pairwise_append.mp hcs.pairwise).2.2 c hc d (by simp)
    have hknown : (∃ c ∈ firstOccurrences added ++
        cs.filter fun d => ∀ c ∈ firstOccurrences added, c.toFinset ≠ d.toFinset, c.toFinset =
          d.toFinset) ↔
          ∃ c ∈ firstOccurrences added, c.toFinset = d.toFinset := by
      constructor
      · rintro ⟨c, hc, heq⟩
        rcases List.mem_append.mp hc with hc | hc
        · exact ⟨c, hc, heq⟩
        · exact absurd heq (hdifferent c (List.mem_filter.mp hc).1)
      · rintro ⟨c, hc, heq⟩
        exact ⟨c, List.mem_append_left _ hc, heq⟩
    rw [← List.append_assoc, firstOccurrences_concat, ih hrest, withoutRepetition_of_nodup hnodup,
      List.filter_append]
    by_cases hd : ∃ c ∈ firstOccurrences added, c.toFinset = d.toFinset
    · have hskip :
          [d].filter (fun d => ∀ c ∈ firstOccurrences added, c.toFinset ≠ d.toFinset) = [] := by
        simpa using hd
      rw [if_pos (.inr (hknown.mpr hd)), hskip, List.append_nil]
    · have hkeep :
          [d].filter (fun d => ∀ c ∈ firstOccurrences added, c.toFinset ≠ d.toFinset) = [d] := by
        simpa using hd
      rw [if_neg (not_or.mpr ⟨htaut, hknown.not.mpr hd⟩), hkeep, List.append_assoc]

/-- Different clauses are all kept. -/
theorem Distinct.firstOccurrences_eq {cs : List Clause} (hcs : Distinct cs) :
    firstOccurrences cs = cs := by
  have h := hcs.firstOccurrences_append []
  simpa [firstOccurrences] using h

end Clause

namespace ClauseSet

variable {s : ClauseSet} {added : List Clause} {d : Clause} {l : Literal}

/-- A clause is left out exactly when it is a tautology or has the literals of one that is there. -/
theorem WellFormed.insert_eq (hs : s.WellFormed) (hnodup : ∀ c ∈ s.toList, c.Nodup) (d : Clause) :
    s.insert d =
      if d.Tautological ∨ ∃ c ∈ s.toList, c.toFinset = d.toFinset then (s, false)
      else (s.store d.withoutRepetition d.withoutRepetition.sorted, true) := by
  have htautological : d.withoutRepetition.Tautological ↔ d.Tautological :=
    Clause.tautological_congr d.toFinset_withoutRepetition
  have hknown : ¬ d.Tautological →
      (d.withoutRepetition.sorted ∈ s.known ↔ ∃ c ∈ s.toList, c.toFinset = d.toFinset) :=
        fun htaut => by
    rw [hs.known]
    refine exists_congr fun c => and_congr_right fun hc => ?_
    rw [eq_comm, Clause.sorted_eq_sorted_iff d.nodup_withoutRepetition (hnodup c hc)
      (htautological.not.mpr htaut), Clause.toFinset_withoutRepetition, eq_comm]
  have hskip : (Clause.hasOpposites d.withoutRepetition.sorted ||
      s.known.contains d.withoutRepetition.sorted) = true ↔
        d.Tautological ∨ ∃ c ∈ s.toList, c.toFinset = d.toFinset := by
    rw [Bool.or_eq_true, Clause.hasOpposites_sorted_iff d.nodup_withoutRepetition, htautological,
      Std.HashSet.contains_iff_mem]
    by_cases htaut : d.Tautological
    · simp [htaut]
    · rw [hknown htaut]
  simp only [ClauseSet.insert, hskip]

private theorem ofList_concat (added : List Clause) (d : Clause) :
    ofList (added ++ [d]) = ((ofList added).insert d).1 := by
  simp [ofList, insertAll]

/-- The clauses of a set are the first occurrences of those that were added. -/
theorem toList_ofList (added : List Clause) :
    (ofList added).toList = Clause.firstOccurrences added := by
  induction added using List.reverseRecOn with
  | nil => rfl
  | append_singleton added d ih =>
    have hinsert := (represents_ofList added).wellFormed.insert_eq (nodup_of_mem_ofList added) d
    rw [ofList_concat, hinsert, Clause.firstOccurrences_concat, ← ih]
    split
    · rfl
    · exact toList_store _ _

/-- A clause has been kept exactly when one with its literals was added that is not a tautology. -/
theorem exists_mem_ofList_iff (htaut : ¬ d.Tautological) :
    (∃ c ∈ (ofList added).toList, c.toFinset = d.toFinset) ↔
      ∃ c ∈ added, c.toFinset = d.toFinset := by
  have hs := represents_ofList added
  constructor
  · rintro ⟨c, hc, heq⟩
    obtain ⟨e, he, hsame⟩ := hs.origin c hc
    exact ⟨e, he, (List.toFinset.ext hsame).symm.trans heq⟩
  · rintro ⟨e, he, heq⟩
    obtain ⟨c, hc, hsame⟩ := (hs.kept e he).resolve_left
      ((Clause.tautological_congr heq).not.mpr htaut)
    exact ⟨c, hc, (List.toFinset.ext hsame).trans heq⟩

/-- A clause is new exactly when it is no tautology and none with its literals was added before. -/
theorem insert_ofList_snd (added : List Clause) (d : Clause) :
    ((ofList added).insert d).2 = true ↔ ¬ d.Tautological ∧
      ∀ c ∈ added, c.toFinset ≠ d.toFinset := by
  rw [(represents_ofList added).wellFormed.insert_eq (nodup_of_mem_ofList added) d]
  by_cases htaut : d.Tautological
  · simp [htaut]
  · simp only [exists_mem_ofList_iff htaut, htaut, false_or, not_false_eq_true, true_and, ne_eq]
    split <;> simp_all

private theorem fst_insert_of_not_new (h : (s.insert d).2 = false) : (s.insert d).1 = s := by
  unfold ClauseSet.insert at h ⊢
  simp only at h ⊢
  split
  · rfl
  · simp_all

/-! ### The ordered forms and the flag -/

/-- The clauses as sets are the ordered forms of the clauses, without repetition. -/
theorem literalSets_ofList (added : List Clause) :
    (ofList added).literalSets.Nodup ∧
      (ofList added).literalSets.Perm ((ofList added).toList.map Clause.sorted) := by
  have hs := represents_ofList added
  have hdistinct := toList_ofList added ▸ Clause.distinct_firstOccurrences added
  have hperm : (ofList added).literalSets.Perm (ofList added).known.toList :=
    List.mergeSort_perm _ _
  have hknown : (ofList added).known.toList.Nodup :=
    Std.HashSet.distinct_toList.imp fun h => ne_of_beq_false h
  have hmap : ((ofList added).toList.map Clause.sorted).Nodup := by
    refine List.pairwise_map.mpr (hdistinct.pairwise.imp_of_mem fun {c d} hc hd hne heq => hne ?_)
    exact (Clause.sorted_eq_sorted_iff (hdistinct.nodup c hc) (hdistinct.nodup d hd)
      (hdistinct.not_tautological c hc)).mp heq
  refine ⟨hperm.nodup_iff.mpr hknown,
    hperm.trans ((List.perm_ext_iff_of_nodup hknown hmap).mpr fun key => ?_)⟩
  rw [Std.HashSet.mem_toList, hs.wellFormed.known, List.mem_map]

/-- The empty clause and the unit clauses are kept as they are. -/
theorem mem_ofList_of_short (h : d.length ≤ 1) :
    d ∈ (ofList added).toList ↔ ∃ c ∈ added, c.toFinset = d.toFinset := by
  have hnodup : d.Nodup ∧ ¬ d.Tautological := by
    match d with
    | [] => simp [Clause.Tautological]
    | [l] => simp [Clause.Tautological]
  have hunique : ∀ c ∈ (ofList added).toList, c.toFinset = d.toFinset → c = d := fun c hc heq => by
    have hperm := List.perm_of_nodup_nodup_toFinset_eq (nodup_of_mem_ofList added c hc) hnodup.1 heq
    match d with
    | [] => exact hperm.eq_nil
    | [l] => exact List.perm_singleton.mp hperm
  rw [← exists_mem_ofList_iff hnodup.2]
  exact ⟨fun hd => ⟨d, hd, rfl⟩, fun ⟨c, hc, heq⟩ => hunique c hc heq ▸ hc⟩

/-- A contradiction is noticed exactly when an empty clause or opposite unit clauses were added. -/
theorem contradictory_ofList_iff (added : List Clause) :
    (ofList added).contradictory = true ↔
      [] ∈ added ∨ ∃ l : Literal, (∃ c ∈ added, c.toFinset = {l}) ∧
        ∃ c ∈ added, c.toFinset = {l.negate} := by
  have hunit : ∀ l : Literal, [l] ∈ (ofList added).toList ↔ ∃ c ∈ added, c.toFinset = {l} :=
    fun l => by
    rw [mem_ofList_of_short (by simp)]
    rfl
  have hempty : [] ∈ (ofList added).toList ↔ [] ∈ added := by
    rw [mem_ofList_of_short (by simp)]
    simp
  rw [(represents_ofList added).wellFormed.contradictory, hempty]
  simp only [hunit]

/-! ### The whole set -/

/-- What a set of clauses is after these clauses were added to the empty one. -/
structure IsCanonical (s : ClauseSet) (added : List Clause) : Prop where
  /-- The clauses are the first occurrences of those that were added, in the same order. -/
  toList_eq : s.toList = Clause.firstOccurrences added
  /-- No clause repeats a literal or has opposite ones, and no two clauses have the same
  literals. -/
  distinct : Clause.Distinct s.toList
  /-- The set of literal sets has no entry twice. -/
  literalSets_nodup : s.literalSets.Nodup
  /-- The literal sets are the ordered forms of the clauses. -/
  literalSets_perm : s.literalSets.Perm (s.toList.map Clause.sorted)
  /-- There are as many literal sets as clauses. -/
  literalSets_length : s.literalSets.length = s.size
  /-- The ordered form of a clause has the literals of the clause, ordered by their variables. -/
  sorted : ∀ c ∈ s.toList, c.sorted.Perm c ∧ c.sorted.Pairwise fun a b =>
    a.var.number < b.var.number
  /-- The clauses are true exactly when those that were added are. -/
  holds_iff : ∀ v : Valuation, (∀ c ∈ s.toList, c.Holds v) ↔ ∀ c ∈ added, c.Holds v
  /-- An assignment of all variables satisfies the clauses exactly when it satisfies those that were
  added. -/
  satisfiesAll_eq : ∀ a : Assignment, (∀ c ∈ added, ∀ l ∈ c, (a.valueOf l.var).isSome = true) →
    a.satisfiesAll s.toList = a.satisfiesAll added
  /-- Adding a clause tells whether it is neither a tautology nor known. -/
  insert_snd_iff : ∀ d : Clause,
    (s.insert d).2 = true ↔ ¬ d.Tautological ∧ ∀ c ∈ added, c.toFinset ≠ d.toFinset
  /-- A clause that is not new changes nothing. -/
  insert_fst : ∀ d : Clause, (s.insert d).2 = false → (s.insert d).1 = s
  /-- The contradictions that are noticed are the empty clause and opposite unit clauses. -/
  contradictory_iff : s.contradictory = true ↔
    [] ∈ added ∨ ∃ l : Literal, (∃ c ∈ added, c.toFinset = {l}) ∧
      ∃ c ∈ added, c.toFinset = {l.negate}
  /-- With a contradiction, no valuation makes all clauses true. -/
  not_holds_of_contradictory : s.contradictory = true → ∀ v : Valuation, ¬ ∀ c ∈ added, c.Holds v

/-- Whatever clauses are added in whatever order, the list, the ordered forms, the unit literals and
the flag of the set say the same about them. -/
theorem isCanonical_ofList (added : List Clause) : (ofList added).IsCanonical added := by
  have hs := represents_ofList added
  have hdistinct := toList_ofList added ▸ Clause.distinct_firstOccurrences added
  obtain ⟨hsets, hperm⟩ := literalSets_ofList added
  exact
    { toList_eq := toList_ofList added
      distinct := hdistinct
      literalSets_nodup := hsets
      literalSets_perm := hperm
      literalSets_length := by simpa [toList, size] using hperm.length_eq
      sorted := fun c hc =>
        ⟨c.sorted_perm, Clause.sorted_strict (Bool.eq_false_of_not_eq_true
          ((Clause.hasOpposites_sorted_iff (hdistinct.nodup c hc)).not.mpr
            (hdistinct.not_tautological c hc)))⟩
      holds_iff := fun v => hs.holds_iff
      satisfiesAll_eq := fun a hvalues => by
        have horigin : ∀ c ∈ (ofList added).toList, ∀ l ∈ c, (a.valueOf l.var).isSome = true :=
          fun c hc l hl => by
          obtain ⟨d, hd, hsame⟩ := hs.origin c hc
          exact hvalues d hd l ((hsame l).mp hl)
        rw [Bool.eq_iff_iff, Assignment.satisfiesAll_iff_holds horigin,
          Assignment.satisfiesAll_iff_holds hvalues]
        exact hs.holds_iff
      insert_snd_iff := insert_ofList_snd added
      insert_fst := fun d => fst_insert_of_not_new
      contradictory_iff := contradictory_ofList_iff added
      not_holds_of_contradictory := fun h v hall =>
        hs.wellFormed.not_holds_of_contradictory h (hs.holds_iff.mpr hall) }

end ClauseSet

end HorizonPlanner.Sat
