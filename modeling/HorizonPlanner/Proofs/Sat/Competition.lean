import HorizonPlanner.Proofs.Sat.Answers
import HorizonPlanner.Proofs.Sat.Dimacs
import HorizonPlanner.Proofs.Text.Lines
import Mathlib.Data.List.FinRange

/-!
# Competition solvers

A competition solver is given a formula as a DIMACS text and prints what it finds out: a status
line, the literals of a model on value lines if there is one, and comments and empty lines wherever
it likes. Its output is always understood, and means what the solver has found out.
-/

namespace HorizonPlanner.Sat

open Text AnswerText

/-- The assignment is a model of the formula that gives a value to all its variables. -/
structure Dimacs.Formula.IsModel (f : Dimacs.Formula) (a : Assignment) : Prop where
  /-- The variables of the formula, and no others, have a value. -/
  total : a.Total f.nVars
  /-- All clauses are satisfied. -/
  satisfies : a.satisfiesAll f.clauses = true

namespace Competition

/-- What the lines of an output say. A value line holds integers, apart by any blanks. -/
inductive Says : List Char → Statement → Prop
  /-- An empty line says nothing. -/
  | empty : Says [] .silent
  /-- An empty comment says nothing. -/
  | mark : Says ['c'] .silent
  /-- A comment says nothing. -/
  | comment (text : List Char) : Says ('c' :: ' ' :: text) .silent
  /-- There is a model. -/
  | satisfiable : Says "s SATISFIABLE".toList (.status .satisfiable)
  /-- There is no model. -/
  | unsatisfiable : Says "s UNSATISFIABLE".toList (.status .unsatisfiable)
  /-- A value line holds integers. -/
  | values {text : List Char} {is : List Int} : words isSeparator text = is.map Numeral.ofInt →
    Says ('v' :: ' ' :: text) (.values is)

/-- The statements tell whether a formula has a model, and if so, they list the literals of one and
close them by a zero. -/
inductive Conveys (f : Dimacs.Formula) (ys : List Statement) : Prop
  /-- There is a model. -/
  | model (a : Assignment) (ls : List Literal) : f.IsModel a → statuses ys = [.satisfiable] →
    (∀ l, l ∈ ls ↔ a.makesTrue l = true) → integers ys = ls.map Literal.toInt ++ [0] → Conveys f ys
  /-- There is no model. -/
  | refutation : (¬ ∃ a, f.IsModel a) → statuses ys = [.unsatisfiable] →
      integers ys = [] → Conveys f ys

/-- The output of a competition solver about a formula. -/
def IsOutput (f : Dimacs.Formula) (output : List UInt8) : Prop :=
  ∃ text ls ys, output = utf8 text ∧ LaidOut text ls ∧ List.Forall₂ Says ls ys ∧ Conveys f ys

variable {f : Dimacs.Formula} {line read : List Char} {y : Statement} {ys : List Statement}
  {output : List UInt8}

/-! ### Lines -/

private theorem chomp_cons {c : Char} (h : line ≠ []) : chomp (c :: line) = c :: chomp line := by
  unfold chomp
  rw [List.getLast?_cons_of_ne_nil h, List.dropLast_cons_of_ne_nil h]
  split <;> rfl

/-- A carriage return at the end belongs to no word. -/
theorem words_chomp (line : List Char) :
    words isSeparator (chomp line) = words isSeparator line := by
  unfold chomp
  split
  · next hlast =>
    have hline : line.dropLast ++ ['\r'] = line := List.dropLast_append_getLast? _ hlast
    rw [← words_concat_of_isSep (c := '\r') rfl, hline]
  · rfl

/-- What stands behind a character and a space is chomped by itself. -/
theorem chomp_cons_cons (c : Char) (text : List Char) :
    chomp (c :: ' ' :: text) = c :: ' ' :: chomp text := by
  rw [chomp_cons (by simp)]
  cases text with
  | nil => rfl
  | cons x text => rw [chomp_cons (by simp)]

/-- A carriage return at its end does not change what a line says. -/
theorem Says.chomp (h : Says line y) : Says (Text.chomp line) y := by
  cases h with
  | empty => exact .empty
  | mark => exact .mark
  | comment text =>
    rw [chomp_cons_cons]
    exact .comment _
  | satisfiable => exact .satisfiable
  | unsatisfiable => exact .unsatisfiable
  | values hwords =>
    rw [chomp_cons_cons]
    exact .values (by rw [words_chomp, hwords])

/-- What a line says is understood, if its integers fit into words. -/
theorem Says.understood (h : Says line y) (hwords : ∀ i ∈ y.integers, i.natAbs < Word.half) :
    Understood line y := by
  cases h with
  | empty => exact .silent (by decide) (by decide) (by decide)
  | mark => exact .silent (by decide) (by decide) (by decide)
  | comment text => exact .silent (statusOf?_cons (by decide)) rfl (by simp [isSilent])
  | satisfiable => exact .status (by decide)
  | unsatisfiable => exact .status (by decide)
  | @values text is hline =>
    refine .values (statusOf?_cons (by decide)) rfl ?_
    have hwordv : words isSeparator ('v' :: ' ' :: text) = ['v'] :: words isSeparator text :=
      words_append_cons (List.cons_ne_nil 'v' []) (by simp [isSeparator]) rfl
    rw [hwordv, List.drop_one, List.tail_cons, hline, List.forall₂_map_left_iff, List.forall₂_same]
    exact fun i hi => Numeral.toInt?_ofInt (hwords i hi)

/-- Lines are understood whether or not they have lost their carriage returns. -/
theorem forall₂_understood {ls read : List (List Char)} {ys : List Statement}
    (hls : List.Forall₂ Says ls ys) (hread : List.Forall₂ (fun l r => r = l ∨ r = chomp l) ls read)
    (hwords : ∀ i ∈ integers ys, i.natAbs < Word.half) :
    List.Forall₂ (fun l z => ∃ line, l = .ok line ∧ Understood line z)
      (read.map (Except.ok : List Char → Line)) ys := by
  induction hls generalizing read with
  | nil =>
    cases hread
    exact .nil
  | @cons l y ls ys hsays _ ih =>
    obtain ⟨r, read, hr, hrest, rfl⟩ := List.forall₂_cons_left_iff.mp hread
    have hcons : integers (y :: ys) = y.integers ++ integers ys := rfl
    rw [hcons, List.forall_mem_append] at hwords
    have hsays : Says r y := by
      rcases hr with rfl | rfl
      · exact hsays
      · exact hsays.chomp
    exact .cons ⟨r, rfl, hsays.understood hwords.1⟩ (ih hrest hwords.2)

/-- The statements of an output are understood, except that silence at its end may be missed. -/
theorem exists_understood {text : List Char} {ls : List (List Char)} (htext : LaidOut text ls)
    (hls : List.Forall₂ Says ls ys) (hwords : ∀ i ∈ integers ys, i.natAbs < Word.half) :
    ∃ zs, List.Forall₂ (fun l z => ∃ line, l = .ok line ∧ Understood line z)
      (lines (utf8 text) none) zs ∧
      statuses zs = statuses ys ∧ integers zs = integers ys := by
  obtain ⟨read, hlines, hread | ⟨init, rfl, hread⟩⟩ := htext.exists_lines
  · rw [hlines]
    exact ⟨ys, forall₂_understood hls hread hwords, rfl, rfl⟩
  · have htake := List.forall₂_take init.length hls
    have hdrop := List.forall₂_drop init.length hls
    rw [List.take_left] at htake
    rw [List.drop_left] at hdrop
    obtain ⟨y, rest, hy, hrest, hlast⟩ := List.forall₂_cons_left_iff.mp hdrop
    cases hrest
    cases hy
    -- The last line is empty, so it says nothing.
    have hys : ys = ys.take init.length ++ [.silent] := by
      rw [← hlast, List.take_append_drop]
    have hstatuses : statuses ys = statuses (ys.take init.length) := by
      conv_lhs => rw [hys]
      simp
    have hintegers : integers ys = integers (ys.take init.length) := by
      conv_lhs => rw [hys]
      simp
    rw [hlines]
    rw [hintegers] at hwords
    exact ⟨_, forall₂_understood htake hread hwords, hstatuses.symm, hintegers.symm⟩

/-! ### Models -/

/-- A total assignment is given back by its literals. -/
theorem assignmentOf_eq {n : Nat} {a : Assignment} (ha : a.Total n) {ls : List Literal}
    (hls : ∀ l, l ∈ ls ↔ a.makesTrue l = true) : assignmentOf ha.lt ls = a := by
  have hvalue : ∀ x : Variable, x.number ≤ n → (assignmentOf ha.lt ls).valueOf x = a.valueOf x := by
    intro x hx
    obtain ⟨b, hb⟩ := Option.isSome_iff_exists.mp (ha.2 x hx)
    have hmem : (⟨x, b⟩ : Literal) ∈ ls := (hls _).mpr (by simp [Assignment.makesTrue, hb])
    rw [valueOf_assignmentOf, if_pos hx, hb]
    cases hfind : ls.find? (·.var = x) with
    | none => simpa using List.find?_eq_none.mp hfind _ hmem
    | some l =>
      -- The literal that is found is true as well, and about the same variable.
      have htrue := (hls l).mp (List.mem_of_find?_eq_some hfind)
      have hvar : l.var = x := by simpa using List.find?_some hfind
      rw [Assignment.makesTrue, hvar, hb, beq_iff_eq] at htrue
      rw [Option.map_some, htrue]
  have htotal : (assignmentOf ha.lt ls).Total n :=
    ⟨size_valuesOf n ls, fun x hx => by rw [hvalue x hx]; exact ha.2 x hx⟩
  refine htotal.eq_of_valuation_eq ha fun x hx => ?_
  rw [Assignment.valuation, hvalue x hx, Assignment.valuation]

/-- Literals are read off the integers that stand for them. -/
theorem literals_map_toInt (ls : List Literal) : literals (ls.map Literal.toInt) = ls := by
  induction ls with
  | nil => rfl
  | cons l ls ih =>
    have hcons : (l :: ls).map Literal.toInt = [l.toInt] ++ ls.map Literal.toInt := rfl
    rw [hcons, literals_append, ih]
    simp [literals, l.toInt_ne_zero, Literal.ofNonzero_toInt]

/-- The literals that an assignment makes true. -/
def trueLiterals (a : Assignment) : List Literal :=
  (List.finRange a.values.size).filterMap fun i =>
    a.values[i].map fun b => ⟨⟨i + 1, Nat.succ_pos i⟩, b⟩

/-- The true literals are those that the assignment makes true. -/
theorem mem_trueLiterals {a : Assignment} {l : Literal} :
    l ∈ trueLiterals a ↔ a.makesTrue l = true := by
  obtain ⟨⟨number, hpos⟩, positive⟩ := l
  obtain ⟨index, rfl⟩ := Nat.exists_eq_succ_of_ne_zero (Nat.ne_of_gt hpos)
  simp only [trueLiterals, List.mem_filterMap, List.mem_finRange, true_and, Option.map_eq_some_iff,
    Literal.mk.injEq, Variable.mk.injEq, Nat.succ_eq_add_one, Nat.add_right_cancel_iff,
    Assignment.makesTrue, Assignment.valueOf, beq_iff_eq, Nat.add_sub_cancel]
  constructor
  · rintro ⟨i, b, hb, rfl, rfl⟩
    simpa using hb
  · intro h
    have hindex : index < a.values.size := by
      by_contra hout
      simp [Array.getElem?_eq_none (Nat.le_of_not_lt hout)] at h
    rw [Array.getElem?_eq_getElem hindex, Option.join_some] at h
    exact ⟨⟨index, hindex⟩, positive, h, rfl, rfl⟩

/-- The literals that a total assignment makes true are about its variables. -/
theorem number_le_of_makesTrue {n : Nat} {a : Assignment} (ha : a.Total n) {l : Literal}
    (hl : a.makesTrue l = true) : l.var.number ≤ n := by
  obtain ⟨i, -, hi⟩ := List.mem_filterMap.mp (mem_trueLiterals.mpr hl)
  obtain ⟨b, -, rfl⟩ := Option.map_eq_some_iff.mp hi
  exact ha.1 ▸ i.isLt

/-- What is understood of an output is what the solver has found out. -/
theorem IsOutput.read_eq (h : IsOutput f output) (hwords : f.nVars < Word.half) :
    (∃ a, f.IsModel a ∧ AnswerText.read f.nVars output = .ok (.satisfiable a)) ∨
      (¬ ∃ a, f.IsModel a) ∧ AnswerText.read f.nVars output = .ok .unsatisfiable := by
  obtain ⟨text, ls, ys, rfl, htext, hls, hconveys⟩ := h
  cases hconveys with
  | model a ls ha hstatuses hliterals hintegers =>
    have hbounded : ∀ i ∈ integers ys, i.natAbs ≤ f.nVars := by
      rw [hintegers, List.forall_mem_append, List.forall_mem_map]
      refine ⟨fun l hl => ?_, by simp⟩
      rw [Literal.natAbs_toInt]
      exact number_le_of_makesTrue ha.total ((hliterals l).mp hl)
    obtain ⟨zs, hzs, hstatuses', hintegers'⟩ := exists_understood htext hls fun i hi =>
      Nat.lt_of_le_of_lt (hbounded i hi) hwords
    rw [hstatuses] at hstatuses'
    have hzeroes : (integers zs).count 0 ≤ 1 := by
      have hnone : (ls.map Literal.toInt).count 0 = 0 := List.count_eq_zero.mpr fun hmem => by
        obtain ⟨l, -, hl⟩ := List.mem_map.mp hmem
        exact l.toInt_ne_zero hl
      rw [hintegers', hintegers, List.count_append, hnone]
      simp
    rw [hintegers] at hintegers'
    have hvalues : zs.any Statement.isValues = true := by
      have hmem : 0 ∈ integers zs := by simp [hintegers']
      obtain ⟨z, hz, hzero⟩ := List.mem_flatMap.mp hmem
      refine List.any_eq_true.mpr ⟨z, hz, ?_⟩
      cases z <;> simp_all
    refine .inl ⟨a, ha, read_eq_ok_iff.mpr ⟨hwords, zs, hzs, ⟨?_, hzeroes, ?_⟩, ?_⟩⟩
    · simp [hstatuses']
    · rwa [hintegers', ← hintegers]
    · have hliterals' : literals (integers zs) = ls := by
        rw [hintegers', literals_append, literals_map_toInt]
        exact List.append_nil _
      have hmodel : assignmentOf hwords ls.reverse = a :=
        assignmentOf_eq ha.total fun l => by rw [List.mem_reverse, hliterals]
      simp [Reading.answer, Reading.after, hstatuses', hvalues, hliterals', hmodel]
  | refutation hnone hstatuses hintegers =>
    obtain ⟨zs, hzs, hstatuses', hintegers'⟩ := exists_understood htext hls (by simp [hintegers])
    rw [hstatuses] at hstatuses'
    rw [hintegers] at hintegers'
    refine .inr ⟨hnone, read_eq_ok_iff.mpr ⟨hwords, zs, hzs, ⟨?_, ?_, ?_⟩, ?_⟩⟩
    · simp [hstatuses']
    · simp [hintegers']
    · simp [hintegers']
    · simp [Reading.answer, Reading.after, hstatuses']

/-! ### Existence -/

/-- There is an output about every formula. -/
theorem exists_isOutput (f : Dimacs.Formula) : ∃ output, IsOutput f output := by
  by_cases hmodel : ∃ a, f.IsModel a
  · obtain ⟨a, ha⟩ := hmodel
    let is := (trueLiterals a).map Literal.toInt ++ [0]
    let text := is.flatMap fun i => Numeral.ofInt i ++ [' ']
    have hwords : words isSeparator text = is.map Numeral.ofInt := by
      have h := words_numbers is []
      rwa [List.append_nil, show words isSeparator [] = [] from rfl, List.append_nil] at h
    have hfeed : '\n' ∉ text := fun hmem => by
      obtain ⟨i, -, hi⟩ := List.mem_flatMap.mp hmem
      rcases List.mem_append.mp hi with hi | hi
      · exact absurd (isSeparator_of_mem_ofInt hi) (by decide)
      · exact absurd (List.mem_singleton.mp hi) (by decide)
    refine ⟨_, _, ["s SATISFIABLE".toList, 'v' :: ' ' :: text],
      [.status .satisfiable, .values is], rfl,
      ⟨?_, .inl rfl⟩, .cons .satisfiable (.cons (.values hwords) .nil),
      .model a (trueLiterals a) ha rfl (fun _ => mem_trueLiterals) (List.append_nil _)⟩
    exact List.forall_mem_cons.mpr ⟨by decide, List.forall_mem_singleton.mpr (by simpa using hfeed)⟩
  · exact ⟨_, _, ["s UNSATISFIABLE".toList], [.status .unsatisfiable], rfl,
      ⟨List.forall_mem_singleton.mpr (by decide), .inl rfl⟩, .cons .unsatisfiable .nil,
      .refutation hmodel rfl rfl⟩

end Competition

/-! ### Solvers -/

/-- A program that reads the text of an instance, within a limit of time, and prints its output. -/
abbrev Program (σ : Type) :=
  Source → Option Nat → StateM σ (List UInt8)

/-- A competition solver is right about every formula whose text it reads, as long as there is room
for models. -/
def Program.Competes {σ : Type} (program : Program σ) : Prop :=
  ∀ source limit w f, Dimacs.parse? (source.preamble ++ source.clauses) = some f →
    f.nVars < Word.half →
    Competition.IsOutput f ((program source limit).run w).1

/-- The solver that asks a program. -/
def Program.engine {σ : Type} (program : Program σ) : Engine (StateM σ) := fun i => do
  let output ← program (.ofInstance i) i.timeLimit
  return i.answerOf output

/-- The answer of a competition solver about an instance is understood, and right. -/
theorem Program.Competes.engine_run {σ : Type} {program : Program σ} (h : program.Competes)
    {i : Instance} (hwords : i.nVars < Word.half) (w : σ) :
    (∃ a, a.Total i.nVars ∧ a.satisfiesAll i.clauses.toList = true ∧
        ((program.engine i).run w).1 = .ok (.satisfiable a)) ∨
      (¬ ∃ a : Assignment, a.Total i.nVars ∧ a.satisfiesAll i.clauses.toList = true) ∧
        ((program.engine i).run w).1 = .ok .unsatisfiable := by
  have houtput := h (.ofInstance i) i.timeLimit w _ (Dimacs.parse?_dimacs i) hwords
  have hrun : ((program.engine i).run w).1 =
      i.answerOf ((program (.ofInstance i) i.timeLimit).run w).1 := rfl
  rw [hrun, Instance.answerOf]
  rcases houtput.read_eq hwords with ⟨a, ha, hread⟩ | ⟨hnone, hread⟩
  · rw [hread]
    exact .inl ⟨a, ha.total, ha.satisfies, rfl⟩
  · rw [hread]
    exact .inr ⟨fun ⟨a, htotal, ha⟩ => hnone ⟨a, htotal, ha⟩, rfl⟩

/-- A program that knows all about every formula it is given. -/
noncomputable def Program.ideal : Program Unit := fun source _ =>
  pure (((Dimacs.parse? (source.preamble ++ source.clauses)).map fun f =>
    (Competition.exists_isOutput f).choose).getD [])

/-- The ideal program is a correct competition solver. -/
theorem Program.competes_ideal : Program.ideal.Competes := by
  intro source limit w f hf _
  have houtput :
      ((Program.ideal source limit).run w).1 = (Competition.exists_isOutput f).choose := by
    show ((Dimacs.parse? (source.preamble ++ source.clauses)).map _).getD [] = _
    rw [hf]
    rfl
  rw [houtput]
  exact (Competition.exists_isOutput f).choose_spec

end HorizonPlanner.Sat
