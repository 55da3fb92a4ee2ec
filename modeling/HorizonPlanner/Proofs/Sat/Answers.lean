import HorizonPlanner.Proofs.Sat.Assignments
import HorizonPlanner.Proofs.Traversal
import HorizonPlanner.Sat.AnswerText

/-!
# What the lines of an answer say

Every line of an answer makes a statement, or cannot be understood. The reading of an answer is a
function of the statements made so far, and it goes on as long as they are acceptable together: one
status, one zero, and no variable beyond those of the instance.
-/

namespace HorizonPlanner.Sat.AnswerText

open Text

/-- What a line of an answer says. -/
inductive Statement
  /-- Nothing. -/
  | silent
  /-- The status of the instance. -/
  | status (s : Status)
  /-- Integers that stand for literals, and possibly the zero that closes them. -/
  | values (integers : List Int)
  deriving DecidableEq, Repr

namespace Statement

/-- The status a statement gives. -/
@[simp] def status? : Statement → Option Status
  | .status s => some s
  | .silent | .values _ => none

/-- The integers a statement gives. -/
@[simp] def integers : Statement → List Int
  | .values integers => integers
  | .silent | .status _ => []

/-- Whether a statement is about values. -/
@[simp] def isValues : Statement → Bool
  | .values _ => true
  | .silent | .status _ => false

end Statement

/-- The statuses given, in order. -/
def statuses (ys : List Statement) : List Status :=
  ys.filterMap Statement.status?

/-- The integers given, in order. -/
def integers (ys : List Statement) : List Int :=
  ys.flatMap Statement.integers

/-- The literals among integers. -/
def literals (integers : List Int) : List Literal :=
  integers.filterMap fun i => if h : i = 0 then none else some (.ofNonzero i h)

/-- A line is understood as a statement. -/
inductive Understood : List Char → Statement → Prop
  /-- A status line gives the status. -/
  | status {line : List Char} {s : Status} : statusOf? line = some s → Understood line (.status s)
  /-- A value line gives the integers that are its words behind the first one. -/
  | values {line : List Char} {integers : List Int} : statusOf? line = none →
    ['v', ' '].isPrefixOf line = true →
    List.Forall₂ (fun w i => Numeral.toInt? w = .ok i) ((words isSeparator line).drop 1) integers →
    Understood line (.values integers)
  /-- Other lines may be silent. -/
  | silent {line : List Char} : statusOf? line = none → ['v', ' '].isPrefixOf line = false →
    isSilent line = true → Understood line .silent

/-- The statements may be made together about an instance with `nVars` variables. -/
@[mk_iff]
structure Acceptable (nVars : Nat) (ys : List Statement) : Prop where
  /-- There is at most one status. -/
  statuses_le : (statuses ys).length ≤ 1
  /-- There is at most one zero. -/
  zeroes_le : (integers ys).count 0 ≤ 1
  /-- All variables are known. -/
  bounded : ∀ i ∈ integers ys, i.natAbs ≤ nVars

/-- What has been understood after these statements. -/
def Reading.after (ys : List Statement) : Reading :=
  ⟨(statuses ys).head?, ys.any Statement.isValues, decide (0 ∈ integers ys),
    (literals (integers ys)).reverse⟩

variable {nVars : Nat} {r r' : Reading} {ys zs : List Statement} {is : List Int} {line : List Char}

@[simp] private theorem statuses_singleton (y : Statement) : statuses [y] = y.status?.toList := by
  cases y <;> rfl

@[simp] private theorem integers_singleton (y : Statement) : integers [y] = y.integers :=
  List.flatMap_singleton _ _

/-- Statuses are collected statement by statement. -/
@[simp] theorem statuses_append : statuses (ys ++ zs) = statuses ys ++ statuses zs :=
  List.filterMap_append

/-- Integers are collected statement by statement. -/
@[simp] theorem integers_append : integers (ys ++ zs) = integers ys ++ integers zs :=
  List.flatMap_append

/-- Literals are collected integer by integer. -/
@[simp] theorem literals_append {js : List Int} :
    literals (is ++ js) = literals is ++ literals js :=
  List.filterMap_append

private theorem Acceptable.of_append (h : Acceptable nVars (ys ++ zs)) : Acceptable nVars ys := by
  simp only [acceptable_iff, statuses_append, integers_append, List.length_append,
    List.count_append, List.forall_mem_append] at h
  exact ⟨by omega, by omega, h.2.2.1⟩

/-! ### Words -/

/-- Integers are noted: the zero closes the values, all others add one. -/
def Reading.noting (r : Reading) (is : List Int) : Reading :=
  { r with closed := r.closed || decide (0 ∈ is), values := (literals is).reverse ++ r.values }

private theorem Reading.noting_nil (r : Reading) : r.noting [] = r := by
  simp [noting, literals]

private theorem Reading.noting_append (r : Reading) (is js : List Int) :
    r.noting (is ++ js) = (r.noting is).noting js := by
  simp [noting, Bool.or_assoc, Bool.decide_or]

/-- There are no more zeros than one, the noted one included. -/
def Reading.Admits (r : Reading) (is : List Int) : Prop :=
  r.closed.toNat + is.count 0 ≤ 1

private theorem Reading.admits_append {js : List Int} :
    r.Admits (is ++ js) ↔ r.Admits is ∧ (r.noting is).Admits js := by
  by_cases hmem : 0 ∈ is
  · have hsome : 0 < is.count 0 := List.count_pos_iff.mpr hmem
    simp only [Admits, noting, List.count_append, hmem, decide_true, Bool.or_true, Bool.toNat_true]
    omega
  · have hnone : is.count 0 = 0 := List.count_eq_zero_of_not_mem hmem
    simp only [Admits, noting, List.count_append, hmem, decide_false, Bool.or_false, hnone]
    omega

/-- A word is accepted if it is an integer on a known variable, or the only zero. -/
theorem Reading.word_eq_ok_iff {w : List Char} : r.word nVars w = .ok r' ↔
    ∃ i, Numeral.toInt? w = .ok i ∧ i.natAbs ≤ nVars ∧ r.Admits [i] ∧ r.noting [i] = r' := by
  unfold Reading.word
  cases Numeral.toInt? w with
  | error fault => simp
  | ok i =>
    simp only [Except.ok.injEq, exists_eq_left', Admits, noting]
    by_cases hzero : i = 0
    · cases hclosed : r.closed <;> simp [hzero, literals]
    · have hne : 0 ≠ i := Ne.symm hzero
      by_cases hlarge : nVars < i.natAbs
      · simp [hzero, hlarge, Nat.not_le_of_lt hlarge]
      · have hcount : [i].count 0 = 0 := by simp [hzero]
        have hclosed : r.closed.toNat ≤ 1 := Bool.toNat_le _
        simp [hzero, hne, hlarge, literals, hcount, Nat.le_of_not_lt hlarge, hclosed]

/-- Words are accepted if they are integers on known variables, with one zero at most. -/
theorem Reading.foldlM_word_eq_ok_iff {ws : List (List Char)} :
    ws.foldlM (Reading.word nVars) r = .ok r' ↔
      ∃ is, List.Forall₂ (fun w i => Numeral.toInt? w = .ok i) ws is ∧
        (∀ i ∈ is, i.natAbs ≤ nVars) ∧
        r.Admits is ∧ r.noting is = r' := by
  induction ws generalizing r with
  | nil =>
    have hadmits : r.Admits [] := Bool.toNat_le _
    simp only [List.foldlM_nil, List.forall₂_nil_left_iff, exists_eq_left, Reading.noting_nil,
      List.not_mem_nil, false_implies, implies_true, true_and, hadmits]
    show Except.ok r = .ok r' ↔ r = r'
    rw [Except.ok.injEq]
  | cons w ws ih =>
    rw [List.foldlM_cons, bind_eq_ok_iff]
    simp only [Reading.word_eq_ok_iff, ih]
    constructor
    · rintro ⟨_, ⟨i, hi, hle, hadmits, rfl⟩, is, his, hbounded, hrest, rfl⟩
      have hcons : i :: is = [i] ++ is := rfl
      refine ⟨i :: is, .cons hi his, List.forall_mem_cons.mpr ⟨hle, hbounded⟩, ?_, ?_⟩
      · rw [hcons, Reading.admits_append]
        exact ⟨hadmits, hrest⟩
      · rw [hcons, Reading.noting_append]
    · rintro ⟨_, his, hbounded, hadmits, rfl⟩
      obtain ⟨i, is, hi, hrest, rfl⟩ := List.forall₂_cons_left_iff.mp his
      obtain ⟨hle, hbounded⟩ := List.forall_mem_cons.mp hbounded
      have hsplit : r.Admits ([i] ++ is) := hadmits
      obtain ⟨hfirst, hadmits⟩ := Reading.admits_append.mp hsplit
      exact ⟨_, ⟨i, hi, hle, hfirst, rfl⟩, is, hrest, hbounded, hadmits,
        (Reading.noting_append r [i] is).symm⟩

/-! ### Lines -/

variable {s : Status}

private theorem acceptable_append_silent (h : Acceptable nVars ys) :
    Acceptable nVars (ys ++ [.silent]) := by
  simpa [acceptable_iff] using h

private theorem acceptable_append_status_iff (h : Acceptable nVars ys) :
    Acceptable nVars (ys ++ [.status s]) ↔ statuses ys = [] := by
  have hzeroes := h.zeroes_le
  have hbounded := h.bounded
  simpa [acceptable_iff, hzeroes] using fun _ => hbounded

private theorem acceptable_append_values_iff (h : Acceptable nVars ys) :
    Acceptable nVars (ys ++ [.values is]) ↔
      (∀ i ∈ is, i.natAbs ≤ nVars) ∧ (Reading.after ys).Admits is := by
  have hstatuses := h.statuses_le
  have hbounded := h.bounded
  have hclosed : (Reading.after ys).closed.toNat = (integers ys).count 0 := by
    have hpos : 0 ∈ integers ys ↔ 0 < (integers ys).count 0 := List.count_pos_iff.symm
    simp only [Reading.after]
    by_cases hmem : 0 ∈ integers ys
    · rw [decide_eq_true hmem, Bool.toNat_true]
      exact Nat.le_antisymm (hpos.mp hmem) h.zeroes_le
    · rw [decide_eq_false hmem, List.count_eq_zero_of_not_mem hmem, Bool.toNat_false]
  simp only [acceptable_iff, statuses_append, statuses_singleton, Statement.status?,
    Option.toList_none, List.append_nil, integers_append, integers_singleton, Statement.integers,
    List.count_append, List.forall_mem_append, Reading.Admits, hclosed, hstatuses, true_and]
  tauto

private theorem Reading.after_append_silent : Reading.after (ys ++ [.silent]) = .after ys := by
  simp [Reading.after]

private theorem Reading.after_append_status (h : statuses ys = []) :
    Reading.after (ys ++ [.status s]) = { Reading.after ys with status := some s } := by
  simp [Reading.after, h]

private theorem Reading.after_append_values :
    Reading.after (ys ++ [.values is]) =
      Reading.noting { Reading.after ys with hasValues := true } is := by
  simp [Reading.after, Reading.noting, Bool.decide_or]

/-- Status lines begin with an `s`. -/
theorem statusOf?_cons {c : Char} (hc : c ≠ 's') : statusOf? (c :: line) = none := by
  simp [statusOf?, hc]

/-- After acceptable statements a line is accepted if it makes another acceptable one. -/
theorem Reading.line_after_eq_ok_iff (h : Acceptable nVars ys) :
    (Reading.after ys).line nVars line = .ok r' ↔
      ∃ y, Understood line y ∧ Acceptable nVars (ys ++ [y]) ∧ .after (ys ++ [y]) = r' := by
  unfold Reading.line
  cases hstatus : statusOf? line with
  | some s =>
    have hunderstood : ∀ y, Understood line y ↔ y = .status s := fun y =>
      ⟨fun hy => by cases hy <;> simp_all, fun hy => hy ▸ .status hstatus⟩
    simp only [hunderstood, exists_eq_left, acceptable_append_status_iff h, Reading.setStatus]
    cases hstatuses : statuses ys with
    | nil =>
      rw [Reading.after_append_status hstatuses]
      simp [Reading.after, hstatuses]
    | cons t ts => simp [Reading.after, hstatuses]
  | none =>
    simp only
    split
    · next hvalues =>
      have hunderstood : ∀ y, Understood line y ↔ ∃ is, List.Forall₂
          (fun w i => Numeral.toInt? w = .ok i) ((words isSeparator line).drop 1) is ∧
            y = .values is := fun y =>
        ⟨fun hy => by cases hy <;> simp_all, fun ⟨_, his, hy⟩ => hy ▸ .values hstatus hvalues his⟩
      rw [Reading.foldlM_word_eq_ok_iff]
      simp only [hunderstood]
      constructor
      · rintro ⟨is, his, hbounded, hadmits, rfl⟩
        exact ⟨_, ⟨is, his, rfl⟩, (acceptable_append_values_iff h).mpr ⟨hbounded, hadmits⟩,
          Reading.after_append_values⟩
      · rintro ⟨_, ⟨is, his, rfl⟩, hall, rfl⟩
        obtain ⟨hbounded, hadmits⟩ := (acceptable_append_values_iff h).mp hall
        exact ⟨is, his, hbounded, hadmits, Reading.after_append_values.symm⟩
    · next hvalues =>
      have hunderstood : ∀ y, Understood line y ↔ isSilent line = true ∧ y = .silent := fun y =>
        ⟨fun hy => by cases hy <;> simp_all,
          fun ⟨hsilent, hy⟩ => hy ▸ .silent hstatus (Bool.eq_false_iff.mpr hvalues) hsilent⟩
      simp only [hunderstood]
      split
      · next hsilent =>
        simp [hsilent, acceptable_append_silent h, Reading.after_append_silent]
      · next hsilent => simp [hsilent]

/-- Lines are accepted if they all make statements that are acceptable together. -/
theorem Reading.lines_after_eq_ok_iff {ls : List Line} (h : Acceptable nVars ys) :
    (Reading.after ys).lines nVars ls = .ok r' ↔
      ∃ zs, List.Forall₂ (fun l z => ∃ line, l = .ok line ∧ Understood line z) ls zs ∧
        Acceptable nVars (ys ++ zs) ∧ .after (ys ++ zs) = r' := by
  induction ls generalizing ys with
  | nil =>
    simp only [Reading.lines, Except.ok.injEq, List.forall₂_nil_left_iff, exists_eq_left,
      List.append_nil]
    exact ⟨fun hr => ⟨h, hr⟩, fun hr => hr.2⟩
  | cons l ls ih =>
    cases l with
    | error fault => simp [Reading.lines, List.forall₂_cons_left_iff]
    | ok line =>
      constructor
      · intro hlines
        rw [Reading.lines] at hlines
        split at hlines
        · next r₁ hline =>
          obtain ⟨y, hy, hacceptable, rfl⟩ := (line_after_eq_ok_iff h).mp hline
          obtain ⟨zs, hzs, hall, rfl⟩ := (ih hacceptable).mp hlines
          rw [List.append_assoc, List.singleton_append] at hall
          exact ⟨y :: zs, .cons ⟨line, rfl, hy⟩ hzs, hall, by simp⟩
        · cases hlines
      · rintro ⟨zs, hzs, hall, rfl⟩
        obtain ⟨y, zs, ⟨_, heq, hy⟩, hrest, rfl⟩ := List.forall₂_cons_left_iff.mp hzs
        cases heq
        have hsplit : ys ++ y :: zs = ys ++ [y] ++ zs := by simp
        rw [hsplit] at hall
        have hline := (line_after_eq_ok_iff h).mpr ⟨y, hy, hall.of_append, rfl⟩
        rw [Reading.lines, hline]
        exact (ih hall.of_append).mpr ⟨zs, hrest, hall, by rw [hsplit]⟩

/-- Nothing is read if there is no room for a model, whatever the output is. -/
theorem read_eq_noRoom_iff {bytes : List UInt8} :
    read nVars bytes = .error .noRoom ↔ Word.half ≤ nVars := by
  unfold read
  split
  · next room =>
    refine iff_of_false ?_ (Nat.not_le.mpr room)
    cases Reading.start.lines nVars (lines bytes none) <;> simp
  · next hlarge => exact iff_of_true rfl (Nat.le_of_not_lt hlarge)

/-- An answer is understood if there is room for a model, all its lines are understood and their
statements are acceptable together. Its meaning depends on the statements only. -/
theorem read_eq_ok_iff {bytes : List UInt8} {a : Answer} : read nVars bytes = .ok a ↔
    ∃ room : nVars < Word.half, ∃ ys,
      List.Forall₂ (fun l y => ∃ line, l = .ok line ∧ Understood line y) (lines bytes none) ys ∧
        Acceptable nVars ys ∧ (Reading.after ys).answer room = a := by
  by_cases room : nVars < Word.half
  · have hstart :
        Acceptable nVars [] := ⟨by simp [statuses], by simp [integers], by simp [integers]⟩
    have hlines : ∀ r, (Reading.after []).lines nVars (lines bytes none) = .ok r ↔
        ∃ ys, List.Forall₂ (fun l y => ∃ line, l = .ok line ∧ Understood line y)
          (lines bytes none) ys ∧
          Acceptable nVars ys ∧ .after ys = r := fun _ => Reading.lines_after_eq_ok_iff hstart
    rw [read, dif_pos room, show Reading.start = .after [] from rfl, exists_prop_of_true room]
    cases hread : (Reading.after []).lines nVars (lines bytes none) with
    | error fault =>
      simp only [reduceCtorEq, false_iff]
      rintro ⟨ys, hys, hacceptable, -⟩
      rw [(hlines _).mpr ⟨ys, hys, hacceptable, rfl⟩] at hread
      cases hread
    | ok r =>
      simp only [Except.ok.injEq]
      constructor
      · rintro rfl
        obtain ⟨ys, hys, hacceptable, rfl⟩ := (hlines r).mp hread
        exact ⟨ys, hys, hacceptable, rfl⟩
      · rintro ⟨ys, hys, hacceptable, rfl⟩
        rw [(hlines _).mpr ⟨ys, hys, hacceptable, rfl⟩, Except.ok.injEq] at hread
        rw [hread]
  · rw [read, dif_neg room]
    exact ⟨fun h => (by cases h), fun ⟨h, _⟩ => absurd h room⟩

/-! ### Values -/

/-- The value of a variable is given by the first of its literals. -/
theorem join_getElem?_valuesOf {ls : List Literal} {x : Variable} :
    (valuesOf nVars ls)[x.number - 1]?.join =
      if x.number ≤ nVars then (ls.find? (·.var = x)).map (·.positive) else none := by
  have hpos := x.number_pos
  induction ls with
  | nil =>
    rw [valuesOf, List.foldr_nil, Array.getElem?_replicate]
    split <;> simp
  | cons l ls ih =>
    have hsize := size_valuesOf nVars ls
    have hcons : valuesOf nVars (l :: ls) =
        (valuesOf nVars ls).setIfInBounds (l.var.number - 1) (some l.positive) := rfl
    rw [hcons]
    by_cases hvar : l.var = x
    · subst hvar
      rw [List.find?_cons_of_pos (by simp), Array.getElem?_setIfInBounds_self]
      by_cases hle : l.var.number ≤ nVars
      · rw [if_pos (by omega), if_pos hle]
        rfl
      · rw [if_neg (by omega), if_neg hle]
        rfl
    · have hindex : l.var.number - 1 ≠ x.number - 1 := fun h => hvar (by
        have hpos' := l.var.number_pos
        have hnumber : l.var.number = x.number := by omega
        cases hl : l.var
        cases x
        simp_all)
      rw [List.find?_cons_of_neg (by simpa using hvar), ← ih,
        Array.getElem?_setIfInBounds_ne hindex]

/-- The assignment of literals gives them to the variables. -/
theorem valueOf_assignmentOf {room : nVars < Word.half} {ls : List Literal} {x : Variable} :
    (assignmentOf room ls).valueOf x =
      if x.number ≤ nVars then (ls.find? (·.var = x)).map (·.positive) else none :=
  join_getElem?_valuesOf

end HorizonPlanner.Sat.AnswerText
