import HorizonPlanner.Proofs.Sat.Answers
import HorizonPlanner.Proofs.Sat.Dimacs
import HorizonPlanner.Proofs.Text.Cuts
import Mathlib.Algebra.Group.Int.Defs
import Mathlib.Logic.Relation

/-!
# What an output comes to

An output is malformed for one of five reasons. Any other output has one outcome, which depends on
its status, on whether it has a value line, and on the integers of its value lines one after the
other. It does not depend on where the other lines stand, nor on how the integers are spread over
value lines.
-/

namespace HorizonPlanner.Sat

open Text

/-! ### Integers of 64 bits -/

/-- The integer of 64 bits that is written in decimal digits, possibly with a sign in front. -/
def signedWord? (text : List Char) : Option Int :=
  let written := match text with
    | '+' :: digits => (Dimacs.natural? digits).map fun n : Nat => (n : Int)
    | text => Dimacs.integer? text
  written.filter fun i => -2 ^ 63 ≤ i ∧ i < 2 ^ 63

private theorem Dimacs.natural?_eq_some_iff {text : List Char} {n : Nat} : natural? text = some n ↔
    text ≠ [] ∧ (∀ c ∈ text, c.isDigit = true) ∧ Nat.ofDigitChars 10 text 0 = n := by
  rw [natural?, Option.ite_none_right_eq_some, Option.some.injEq, List.all_eq_true, and_assoc]

private theorem unsigned_eq_ok_iff {bound n : Nat} {text : List Char} :
    Numeral.unsigned bound text = .ok n ↔ Dimacs.natural? text = some n ∧ n ≤ bound := by
  rw [Dimacs.natural?_eq_some_iff]
  cases text with
  | nil => simp [Numeral.unsigned]
  | cons c rest => simp [Numeral.unsigned, Numeral.extend_eq_ok_iff, and_assoc]

private theorem map_unsigned_eq_ok_iff {bound : Nat} {sign : Nat → Int} {digits : List Char}
    {i : Int} (hrange : ∀ n, n ≤ bound ↔ -2 ^ 63 ≤ sign n ∧ sign n < 2 ^ 63) :
    (Numeral.unsigned bound digits).map sign = .ok i ↔
      ((Dimacs.natural? digits).map sign).filter (fun i => -2 ^ 63 ≤ i ∧ i < 2 ^ 63) = some i := by
  rw [Option.filter_eq_some_iff, Option.map_eq_some_iff, decide_eq_true_eq]
  constructor
  · intro h
    cases hread : Numeral.unsigned bound digits with
    | error fault =>
      rw [hread] at h
      cases h
    | ok n =>
      rw [hread] at h
      cases h
      obtain ⟨hn, hle⟩ := unsigned_eq_ok_iff.mp hread
      exact ⟨⟨n, hn, rfl⟩, (hrange n).mp hle⟩
  · rintro ⟨⟨n, hn, rfl⟩, hword⟩
    rw [unsigned_eq_ok_iff.mpr ⟨hn, (hrange n).mpr hword⟩]
    rfl

/-- Exactly the integers of 64 bits are read. -/
theorem toInt?_eq_ok_iff {text : List Char} {i : Int} :
    Numeral.toInt? text = .ok i ↔ signedWord? text = some i := by
  have hbound : Nat.pow 2 63 = 9223372036854775808 := by decide
  have hpositive : ∀ n, n ≤ Nat.pow 2 63 - 1 ↔ -2 ^ 63 ≤ (n : Int) ∧ (n : Int) < 2 ^ 63 := by
    intro n
    rw [hbound]
    omega
  have hnegative : ∀ n, n ≤ Nat.pow 2 63 ↔ -2 ^ 63 ≤ -(n : Int) ∧ -(n : Int) < 2 ^ 63 := by
    intro n
    rw [hbound]
    omega
  cases text with
  | nil => simp [Numeral.toInt?, signedWord?, Dimacs.integer?, Dimacs.natural?]
  | cons c rest =>
    by_cases hplus : c = '+'
    · subst hplus
      exact map_unsigned_eq_ok_iff hpositive
    · by_cases hminus : c = '-'
      · subst hminus
        have hread : Numeral.toInt? ('-' :: rest) =
            (Numeral.unsigned (Nat.pow 2 63) rest).map fun n : Nat => -(n : Int) := by
          rw [Numeral.toInt?]
          cases Numeral.unsigned (Nat.pow 2 63) rest <;> rfl
        have hword : signedWord? ('-' :: rest) =
            ((Dimacs.natural? rest).map fun n : Nat => -(n : Int)).filter
            fun i => -2 ^ 63 ≤ i ∧ i < 2 ^ 63 := by
          simp [signedWord?, Dimacs.integer?]
        rw [hread, hword]
        exact map_unsigned_eq_ok_iff hnegative
      · have hread :
            Numeral.toInt? (c :: rest) = (Numeral.unsigned (Nat.pow 2 63 - 1) (c :: rest)).map
            Int.ofNat := by
          simp [Numeral.toInt?, Numeral.unsigned]
        have hword : signedWord? (c :: rest) =
            ((Dimacs.natural? (c :: rest)).map fun n : Nat => (n : Int)).filter
            fun i => -2 ^ 63 ≤ i ∧ i < 2 ^ 63 := by
          simp [signedWord?, Dimacs.integer?, hplus, hminus]
        rw [hread, hword]
        exact map_unsigned_eq_ok_iff hpositive

namespace AnswerText

/-! ### Lines and tokens -/

/-- The line that gives a status. -/
def Status.line : Status → List Char
  | .satisfiable => "s SATISFIABLE".toList
  | .unsatisfiable => "s UNSATISFIABLE".toList
  | .unknown => "s UNKNOWN".toList

/-- The lines that give a status. -/
def statusLines : List (List Char) :=
  [Status.satisfiable.line, Status.unsatisfiable.line, Status.unknown.line]

/-- The line gives values. -/
def IsValueLine (line : List Char) : Prop :=
  ['v', ' '] <+: line

instance (line : List Char) : Decidable (IsValueLine line) :=
  inferInstanceAs (Decidable (['v', ' '] <+: line))

/-- The line may stand in an output. -/
def IsExpected (line : List Char) : Prop :=
  line ∈ statusLines ∨ IsValueLine line ∨ ['c', ' '] <+: line ∨ line ∈ [['v'], ['c'], []]

instance (line : List Char) : Decidable (IsExpected line) :=
  inferInstanceAs (Decidable (_ ∨ _ ∨ _ ∨ _))

/-- The tokens of a line, which only value lines have. -/
def tokensOf (line : List Char) : List (List Char) :=
  if IsValueLine line then ((line.drop 2).splitOnP isSeparator).filter (· ≠ []) else []

/-- The tokens of lines, one line after the other. -/
def tokens (ls : List (List Char)) : List (List Char) :=
  ls.flatMap tokensOf

/-- The integers among the tokens of lines. -/
def integersOf (ls : List (List Char)) : List Int :=
  (tokens ls).filterMap signedWord?

/-- The reasons why lines about `nVars` variables are not an output. -/
inductive Malformed (nVars : Nat) (ls : List (List Char)) : Prop
  /-- A line may not stand in an output. -/
  | unexpected {line : List Char} : line ∈ ls → ¬ IsExpected line → Malformed nVars ls
  /-- There are several status lines. -/
  | statuses : 1 < ls.countP (· ∈ statusLines) → Malformed nVars ls
  /-- A token is no integer of 64 bits. -/
  | noInteger {token : List Char} :
      token ∈ tokens ls → signedWord? token = none → Malformed nVars ls
  /-- There are several zeros, on whatever lines. -/
  | zeroes : 1 < (integersOf ls).count 0 → Malformed nVars ls
  /-- A token is about a variable that is not known. -/
  | unknownVariable {i : Int} : i ∈ integersOf ls → nVars < i.natAbs → Malformed nVars ls

/-- What a line says if it is understood. -/
def statementOf (line : List Char) : Statement :=
  match statusOf? line with
  | some s => .status s
  | none => if IsValueLine line then .values ((tokensOf line).filterMap signedWord?) else .silent

variable {nVars : Nat} {line : List Char} {ls : List (List Char)} {ys : List Statement}
    {y : Statement}

/-- A status is given by one line only. -/
theorem statusOf?_eq_some_iff {s : Status} : statusOf? line = some s ↔ line = s.line := by
  constructor
  · intro h
    unfold statusOf? at h
    split at h
    · next hline =>
      cases h
      exact hline
    · split at h
      · next hline =>
        cases h
        exact hline
      · split at h
        · next hline =>
          cases h
          exact hline
        · cases h
  · rintro rfl
    cases s <;> decide

private theorem isSome_statusOf? (line : List Char) :
    (statusOf? line).isSome = decide (line ∈ statusLines) := by
  rw [Bool.eq_iff_iff, Option.isSome_iff_exists, decide_eq_true_eq, statusLines]
  simp only [statusOf?_eq_some_iff, List.mem_cons, List.not_mem_nil, or_false]
  exact ⟨fun ⟨s, hs⟩ => by cases s <;> simp [hs],
    fun h => by rcases h with h | h | h <;> exact ⟨_, h⟩⟩

private theorem isPrefixOf_eq_decide (line : List Char) :
    ['v', ' '].isPrefixOf line = decide (IsValueLine line) := by
  rw [Bool.eq_iff_iff, List.isPrefixOf_iff_prefix, decide_eq_true_eq]
  rfl

/-- A line that gives a status gives no values. -/
theorem statusOf?_of_isValueLine (h : IsValueLine line) : statusOf? line = none := by
  obtain ⟨rest, rfl⟩ := h
  exact statusOf?_cons (by decide)

private theorem isExpected_iff : IsExpected line ↔
    (statusOf? line).isSome = true ∨ IsValueLine line ∨ isSilent line = true := by
  rw [isSome_statusOf?, decide_eq_true_eq, IsExpected, isSilent]
  simp only [Bool.or_eq_true, decide_eq_true_eq, List.isPrefixOf_iff_prefix,
    List.mem_cons, List.not_mem_nil, or_false]
  tauto

private theorem drop_words_of_isValueLine (h : IsValueLine line) :
    (words isSeparator line).drop 1 = tokensOf line := by
  obtain ⟨rest, rfl⟩ := h
  have hwords : words isSeparator (['v', ' '] ++ rest) = ['v'] :: words isSeparator rest :=
    words_append_cons (List.cons_ne_nil 'v' []) (by simp [isSeparator]) rfl
  have hvalues : IsValueLine (['v', ' '] ++ rest) := List.prefix_append _ _
  rw [hwords, tokensOf, if_pos hvalues]
  exact words_eq_filter_splitOnP rest

private theorem forall₂_toInt?_iff {ws : List (List Char)} {is : List Int} :
    List.Forall₂ (fun w i => Numeral.toInt? w = .ok i) ws is ↔
      (∀ w ∈ ws, (signedWord? w).isSome = true) ∧ is = ws.filterMap signedWord? := by
  simp only [toInt?_eq_ok_iff]
  induction ws generalizing is with
  | nil => simp
  | cons w ws ih =>
    rw [List.forall₂_cons_left_iff]
    simp only [ih]
    cases hw : signedWord? w <;> simp [hw]

/-- A line that is understood says one thing. -/
theorem understood_iff : Understood line y ↔
    IsExpected line ∧ (∀ w ∈ tokensOf line, (signedWord? w).isSome = true) ∧
      y = statementOf line := by
  rw [isExpected_iff]
  cases hstatus : statusOf? line with
  | some s =>
    have hnone : ¬ IsValueLine line := fun h => by
      rw [statusOf?_of_isValueLine h] at hstatus
      cases hstatus
    have htokens : tokensOf line = [] := if_neg hnone
    have hunderstood : Understood line y ↔ y = .status s :=
      ⟨fun h => by cases h <;> simp_all, fun h => h ▸ .status hstatus⟩
    simp [hunderstood, statementOf, hstatus, htokens]
  | none =>
    by_cases hvalues : IsValueLine line
    · have hprefix : ['v', ' '].isPrefixOf line = true := by
        rw [isPrefixOf_eq_decide, decide_eq_true hvalues]
      have hunderstood : Understood line y ↔
          ∃ is, List.Forall₂ (fun w i => Numeral.toInt? w = .ok i) (tokensOf line) is ∧
            y = .values is := by
        rw [← drop_words_of_isValueLine hvalues]
        exact ⟨fun h => by cases h <;> simp_all,
          fun ⟨_, his, hy⟩ => hy ▸ .values hstatus hprefix his⟩
      simp only [hunderstood, forall₂_toInt?_iff, statementOf, hstatus, hvalues,
        if_true, or_true, true_or, true_and]
      exact ⟨fun ⟨_, ⟨hsome, his⟩, hy⟩ => ⟨hsome, his ▸ hy⟩,
        fun ⟨hsome, hy⟩ => ⟨_, ⟨hsome, rfl⟩, hy⟩⟩
    · have hprefix : ['v', ' '].isPrefixOf line = false := by
        rw [isPrefixOf_eq_decide, decide_eq_false hvalues]
      have htokens : tokensOf line = [] := if_neg hvalues
      have hunderstood : Understood line y ↔ isSilent line = true ∧ y = .silent :=
        ⟨fun h => by cases h <;> simp_all,
          fun ⟨hsilent, hy⟩ => hy ▸ .silent hstatus hprefix hsilent⟩
      simp [hunderstood, statementOf, hstatus, hvalues, htokens]

/-! ### All lines -/

private theorem forall₂_understood_iff :
    List.Forall₂ Understood ls ys ↔ (∀ line ∈ ls, IsExpected line) ∧
      (∀ w ∈ tokens ls, (signedWord? w).isSome = true) ∧ ys = ls.map statementOf := by
  rw [tokens, List.forall_mem_flatMap]
  induction ls generalizing ys with
  | nil => simp
  | cons line ls ih =>
    rw [List.forall₂_cons_left_iff]
    simp only [understood_iff, ih, List.forall_mem_cons, List.map_cons]
    constructor
    · rintro ⟨_, _, ⟨hline, hwords, rfl⟩, ⟨hlines, hrest, rfl⟩, rfl⟩
      exact ⟨⟨hline, hlines⟩, ⟨hwords, hrest⟩, rfl⟩
    · rintro ⟨⟨hline, hlines⟩, ⟨hwords, hrest⟩, rfl⟩
      exact ⟨_, _, ⟨hline, hwords, rfl⟩, ⟨hlines, hrest, rfl⟩, rfl⟩

private theorem statuses_map_statementOf (ls : List (List Char)) :
    statuses (ls.map statementOf) = ls.filterMap statusOf? := by
  rw [statuses, List.filterMap_map]
  refine List.filterMap_congr fun line _ => ?_
  rw [Function.comp_apply, statementOf]
  split
  · next hstatus => simp [hstatus]
  · next hstatus => split <;> simp [hstatus]

private theorem integers_statementOf (line : List Char) :
    (statementOf line).integers = (tokensOf line).filterMap signedWord? := by
  unfold statementOf
  by_cases hvalues : IsValueLine line
  · simp [statusOf?_of_isValueLine hvalues, hvalues]
  · have htokens : tokensOf line = [] := if_neg hvalues
    cases statusOf? line <;> simp [htokens, hvalues]

private theorem integers_map_statementOf (ls : List (List Char)) :
    integers (ls.map statementOf) = integersOf ls := by
  rw [integers, List.flatMap_map, integersOf, tokens, List.filterMap_flatMap]
  exact List.flatMap_congr fun line _ => integers_statementOf line

private theorem isValues_statementOf (line : List Char) :
    (statementOf line).isValues = decide (IsValueLine line) := by
  unfold statementOf
  by_cases hvalues : IsValueLine line
  · simp [statusOf?_of_isValueLine hvalues, hvalues]
  · cases statusOf? line <;> simp [hvalues]

private theorem any_isValues_map_statementOf (ls : List (List Char)) :
    (ls.map statementOf).any Statement.isValues = decide (∃ line ∈ ls, IsValueLine line) := by
  rw [List.any_map, Bool.eq_iff_iff, List.any_eq_true, decide_eq_true_eq]
  simp only [Function.comp_apply, isValues_statementOf, decide_eq_true_eq]

/-- Lines are an output if all of them are understood, and acceptable together. -/
theorem not_malformed_iff : ¬ Malformed nVars ls ↔
    (∀ line ∈ ls, IsExpected line) ∧ (∀ w ∈ tokens ls, (signedWord? w).isSome = true) ∧
      Acceptable nVars (ls.map statementOf) := by
  have hstatuses : (ls.filterMap statusOf?).length = ls.countP (· ∈ statusLines) := by
    rw [List.length_filterMap_eq_countP]
    exact List.countP_congr fun line _ => by rw [isSome_statusOf?]
  rw [acceptable_iff, statuses_map_statementOf, integers_map_statementOf, hstatuses]
  constructor
  · intro h
    refine ⟨fun line hline => ?_, fun w hw => ?_, ?_, ?_, fun i hi => ?_⟩
    · exact by_contra fun hunexpected => h (.unexpected hline hunexpected)
    · exact Option.isSome_iff_ne_none.mpr fun hnone => h (.noInteger hw hnone)
    · exact Nat.le_of_not_lt fun hmany => h (.statuses hmany)
    · exact Nat.le_of_not_lt fun hmany => h (.zeroes hmany)
    · exact Nat.le_of_not_lt fun hlarge => h (.unknownVariable hi hlarge)
  · rintro ⟨hexpected, hwords, hstatus, hzero, hbound⟩ h
    cases h with
    | unexpected hline hunexpected => exact hunexpected (hexpected _ hline)
    | statuses hmany => exact Nat.not_lt.mpr hstatus hmany
    | noInteger hw hnone =>
      have hsome := hwords _ hw
      rw [hnone] at hsome
      cases hsome
    | zeroes hmany => exact Nat.not_lt.mpr hzero hmany
    | unknownVariable hi hlarge => exact Nat.not_lt.mpr (hbound _ hi) hlarge

/-- The output is read if there is room for a model, unless it is malformed. -/
theorem read_utf8_eq_ok_iff {text : List Char} {a : Answer} : read nVars (utf8 text) = .ok a ↔
    ∃ room : nVars < Word.half, ¬ Malformed nVars (linesOf text) ∧
      (Reading.after ((linesOf text).map statementOf)).answer room = a := by
  have hforall : ∀ ys, List.Forall₂ (fun l y => ∃ line, l = .ok line ∧ Understood line y)
      ((linesOf text).map (Except.ok : List Char → Line)) ys ↔
        List.Forall₂ Understood (linesOf text) ys := fun ys => by
    rw [List.forall₂_map_left_iff]
    simp only [Except.ok.injEq, exists_eq_left']
  rw [read_eq_ok_iff, lines_utf8_eq, not_malformed_iff]
  simp only [hforall, forall₂_understood_iff]
  refine exists_congr fun room => ?_
  constructor
  · rintro ⟨_, ⟨hexpected, hwords, rfl⟩, hacceptable, hanswer⟩
    exact ⟨⟨hexpected, hwords, hacceptable⟩, hanswer⟩
  · rintro ⟨⟨hexpected, hwords, hacceptable⟩, hanswer⟩
    exact ⟨_, ⟨hexpected, hwords, rfl⟩, hacceptable, hanswer⟩

/-! ### The outcome -/

/-- The only status is the one that some line gives. -/
theorem head?_statuses_eq_some_iff (h : (ls.filterMap statusOf?).length ≤ 1) {s : Status} :
    (ls.filterMap statusOf?).head? = some s ↔ ∃ line ∈ ls, statusOf? line = some s := by
  rw [← List.mem_filterMap]
  match ls.filterMap statusOf?, h with
  | [], _ => simp
  | [t], _ => simp [eq_comm]

/-- The value of a variable is the sign of its last integer. -/
theorem valueOf_assignmentOf_literals {room : nVars < Word.half} {is : List Int}
    (hbound : ∀ i ∈ is, i.natAbs ≤ nVars) (x : Variable) :
    (assignmentOf room (literals is).reverse).valueOf x =
      (is.filter (·.natAbs = x.number)).getLast?.map fun i => decide (0 < i) := by
  have hvalues : ((literals is).filter (·.var = x)).map (·.positive) =
      (is.filter (·.natAbs = x.number)).map fun i => decide (0 < i) := by
    clear hbound
    induction is with
    | nil => rfl
    | cons i is ih =>
      have hpos := x.number_pos
      have hsplit : i :: is = [i] ++ is := rfl
      rw [hsplit, literals_append, List.filter_append, List.map_append, ih, ← hsplit]
      by_cases hzero : i = 0
      · have hne : i.natAbs ≠ x.number := by omega
        have hnone : literals [i] = [] := by simp [literals, hzero]
        rw [hnone, List.filter_cons_of_neg (by simpa using hne)]
        rfl
      · have hone : literals [i] = [.ofNonzero i hzero] := by simp [literals, hzero]
        have hvar : (Literal.ofNonzero i hzero).var = x ↔ i.natAbs = x.number := by
          cases x
          simp [Literal.ofNonzero]
        rw [hone]
        by_cases heq : i.natAbs = x.number
        · rw [List.filter_cons_of_pos (by simpa using hvar.mpr heq),
            List.filter_cons_of_pos (by simpa using heq)]
          rfl
        · rw [List.filter_cons_of_neg (by simpa using mt hvar.mp heq),
            List.filter_cons_of_neg (by simpa using heq)]
          rfl
  rw [valueOf_assignmentOf]
  split
  · rw [← List.head?_filter, List.filter_reverse, List.head?_reverse, ← List.getLast?_map,
      hvalues, List.getLast?_map]
  · next hlarge =>
    have hnone : is.filter (·.natAbs = x.number) = [] := List.filter_eq_nil_iff.mpr fun i hi => by
      have hle := hbound i hi
      simp only [decide_eq_true_eq]
      omega
    rw [hnone]
    rfl

private theorem status_after_eq_some_iff (h : ¬ Malformed nVars ls) {s : Status} :
    (Reading.after (ls.map statementOf)).status = some s ↔ s.line ∈ ls := by
  have hfew := (not_malformed_iff.mp h).2.2.statuses_le
  rw [statuses_map_statementOf] at hfew
  show (statuses (ls.map statementOf)).head? = some s ↔ s.line ∈ ls
  rw [statuses_map_statementOf, head?_statuses_eq_some_iff hfew]
  simp only [statusOf?_eq_some_iff, exists_eq_right]

/-- Lines that are an output come to one of three outcomes. -/
theorem answer_after_eq {room : nVars < Word.half} (h : ¬ Malformed nVars ls) :
    (Reading.after (ls.map statementOf)).answer room =
    if Status.unsatisfiable.line ∈ ls then .unsatisfiable
    else if Status.satisfiable.line ∈ ls ∧ ∃ line ∈ ls, IsValueLine line then
      .satisfiable (assignmentOf room (literals (integersOf ls)).reverse)
    else .unknown := by
  have hvalues : (Reading.after (ls.map statementOf)).hasValues = decide
      (∃ line ∈ ls, IsValueLine line) :=
    any_isValues_map_statementOf ls
  have hliterals :
      (Reading.after (ls.map statementOf)).values = (literals (integersOf ls)).reverse := by
    rw [← integers_map_statementOf]
    rfl
  rw [Reading.answer, hvalues, hliterals]
  simp only [← status_after_eq_some_iff h]
  cases (Reading.after (ls.map statementOf)).status with
  | none => simp
  | some s => cases s <;> simp

/-! ### Rearranged lines -/

/-- Lines are rearranged in one place. -/
inductive Move : List (List Char) → List (List Char) → Prop
  /-- Two neighbours change places, unless both give values. -/
  | swap {before after : List (List Char)} {x y : List Char} : ¬ (IsValueLine x ∧ IsValueLine y) →
    Move (before ++ x :: y :: after) (before ++ y :: x :: after)
  /-- A line of values is split at a separator. -/
  | split {before after : List (List Char)} {body rest : List Char} {c : Char} :
      isSeparator c = true →
    Move (before ++ (['v', ' '] ++ body ++ c :: rest) :: after)
      (before ++ (['v', ' '] ++ body) :: (['v', ' '] ++ rest) :: after)

/-- Lines have the same content, as far as it matters. -/
structure Alike (ls ls' : List (List Char)) : Prop where
  /-- The tokens are the same. -/
  tokens_eq : tokens ls = tokens ls'
  /-- The other lines are the same. -/
  mem_iff : ∀ line, ¬ IsValueLine line → (line ∈ ls ↔ line ∈ ls')
  /-- There are as many status lines. -/
  countP_eq : ls.countP (· ∈ statusLines) = ls'.countP (· ∈ statusLines)
  /-- Both have value lines, or none. -/
  exists_iff : (∃ line ∈ ls, IsValueLine line) ↔ ∃ line ∈ ls', IsValueLine line

variable {ls' : List (List Char)}

/-- Lines are like themselves. -/
theorem Alike.refl (ls : List (List Char)) : Alike ls ls :=
  ⟨rfl, fun _ _ => Iff.rfl, rfl, Iff.rfl⟩

/-- Being alike goes both ways. -/
theorem Alike.symm (h : Alike ls ls') : Alike ls' ls :=
  ⟨h.tokens_eq.symm, fun line hline => (h.mem_iff line hline).symm, h.countP_eq.symm,
    h.exists_iff.symm⟩

/-- Lines that are like the same lines are alike. -/
theorem Alike.trans {ls'' : List (List Char)} (h : Alike ls ls') (h' : Alike ls' ls'') :
    Alike ls ls'' :=
  ⟨h.tokens_eq.trans h'.tokens_eq,
    fun line hline => (h.mem_iff line hline).trans (h'.mem_iff line hline),
    h.countP_eq.trans h'.countP_eq, h.exists_iff.trans h'.exists_iff⟩

private theorem isValueLine_append (body : List Char) : IsValueLine (['v', ' '] ++ body) :=
  List.prefix_append _ _

private theorem notMem_statusLines_of_isValueLine (h : IsValueLine line) :
    line ∉ statusLines := fun hmem => by
  have hsome := isSome_statusOf? line
  rw [statusOf?_of_isValueLine h, decide_eq_true hmem] at hsome
  cases hsome

private theorem tokensOf_append (body : List Char) :
    tokensOf (['v', ' '] ++ body) = words isSeparator body := by
  rw [tokensOf, if_pos (isValueLine_append body), words_eq_filter_splitOnP]
  rfl

/-- Moves keep the content. -/
theorem Move.alike (h : Move ls ls') : Alike ls ls' := by
  cases h with
  | @swap before after x y hnone =>
    have hperm : (before ++ x :: y :: after).Perm (before ++ y :: x :: after) :=
      (List.Perm.swap y x after).append_left before
    have htokens : tokensOf x ++ tokensOf y = tokensOf y ++ tokensOf x := by
      rcases not_and_or.mp hnone with hx | hy
      · simp [tokensOf, hx]
      · simp [tokensOf, hy]
    refine ⟨?_, fun _ _ => hperm.mem_iff, hperm.countP_eq _, by simp only [hperm.mem_iff]⟩
    simp only [tokens, List.flatMap_append, List.flatMap_cons,
      ← List.append_assoc _ _ (after.flatMap _)]
    rw [htokens]
  | @split before after body rest c hc =>
    have hwhole : IsValueLine (['v', ' '] ++ body ++ c :: rest) :=
      isValueLine_append (body ++ c :: rest)
    have hbody := isValueLine_append body
    have hrest := isValueLine_append rest
    have htokens : tokensOf (['v', ' '] ++ body ++ c :: rest) =
        tokensOf (['v', ' '] ++ body) ++ tokensOf (['v', ' '] ++ rest) := by
      rw [List.append_assoc, tokensOf_append, tokensOf_append, tokensOf_append,
        words_append_cons_of_isSep hc]
    refine ⟨?_, fun line hline => ?_, ?_, ?_⟩
    · rw [tokens, tokens, List.flatMap_append, List.flatMap_cons, htokens,
        List.flatMap_append, List.flatMap_cons, List.flatMap_cons, List.append_assoc (tokensOf _)]
    · have hne : ∀ l, IsValueLine l → line ≠ l := fun l hl heq => hline (heq ▸ hl)
      simp only [List.mem_append, List.mem_cons, hne _ hwhole, hne _ hbody, hne _ hrest, false_or]
    · simp only [List.countP_append, List.countP_cons, notMem_statusLines_of_isValueLine hwhole,
        notMem_statusLines_of_isValueLine hbody, notMem_statusLines_of_isValueLine hrest]
      rfl
    · have hmem : ∀ (l : List Char) (more : List (List Char)), l ∈ before ++ l :: more :=
        fun l more =>
        List.mem_append_right _ List.mem_cons_self
      exact iff_of_true ⟨_, hmem _ _, hwhole⟩ ⟨_, hmem _ _, hbody⟩

/-- Rearranged lines have the same content. -/
theorem alike_of_eqvGen (h : Relation.EqvGen Move ls ls') : Alike ls ls' := by
  induction h with
  | rel _ _ hmove => exact hmove.alike
  | refl => exact .refl _
  | symm _ _ _ ih => exact ih.symm
  | trans _ _ _ _ _ ih ih' => exact ih.trans ih'

private theorem isExpected_of_isValueLine (h : IsValueLine line) : IsExpected line :=
  .inr (.inl h)

private theorem Alike.integersOf_eq (h : Alike ls ls') : integersOf ls = integersOf ls' := by
  rw [integersOf, integersOf, h.tokens_eq]

/-- Lines that are like malformed ones are malformed. -/
theorem Alike.malformed (h : Alike ls ls') (hls : Malformed nVars ls) : Malformed nVars ls' := by
  cases hls with
  | @unexpected line hline hunexpected =>
    have hnone : ¬ IsValueLine line := fun hvalues =>
      hunexpected (isExpected_of_isValueLine hvalues)
    exact .unexpected ((h.mem_iff line hnone).mp hline) hunexpected
  | statuses hmany => exact .statuses (h.countP_eq ▸ hmany)
  | noInteger htoken hnone => exact .noInteger (h.tokens_eq ▸ htoken) hnone
  | zeroes hmany => exact .zeroes (h.integersOf_eq ▸ hmany)
  | unknownVariable hi hlarge => exact .unknownVariable (h.integersOf_eq ▸ hi) hlarge

private theorem Alike.malformed_iff (h : Alike ls ls') : Malformed nVars ls ↔ Malformed nVars ls' :=
  ⟨h.malformed, h.symm.malformed⟩

private theorem Status.not_isValueLine_line (s : Status) : ¬ IsValueLine s.line := by
  cases s <;> decide

/-- Lines with the same content come to the same outcome. -/
theorem Alike.answer_after_eq {room : nVars < Word.half} (h : Alike ls ls')
    (hls : ¬ Malformed nVars ls) :
    (Reading.after (ls.map statementOf)).answer room =
      (Reading.after (ls'.map statementOf)).answer room := by
  rw [AnswerText.answer_after_eq hls, AnswerText.answer_after_eq (mt h.malformed_iff.mpr hls)]
  simp only [h.mem_iff _ (Status.not_isValueLine_line _), h.exists_iff, h.integersOf_eq]

/-! ### Outputs -/

/-- The output is not read if there is no room for a model, or if it is malformed. -/
theorem exists_read_utf8_eq_error_iff {text : List Char} :
    (∃ violation, read nVars (utf8 text) = .error violation) ↔
      Word.half ≤ nVars ∨ Malformed nVars (linesOf text) := by
  constructor
  · rintro ⟨violation, hviolation⟩
    by_contra h
    obtain ⟨hroom, hwell⟩ := not_or.mp h
    rw [read_utf8_eq_ok_iff.mpr ⟨Nat.lt_of_not_le hroom, hwell, rfl⟩] at hviolation
    cases hviolation
  · intro h
    cases hread : read nVars (utf8 text) with
    | error violation => exact ⟨violation, rfl⟩
    | ok a =>
      obtain ⟨room, hwell, -⟩ := read_utf8_eq_ok_iff.mp hread
      exact absurd h (not_or.mpr ⟨Nat.not_le.mpr room, hwell⟩)

/-- What the output of a solver comes to. -/
theorem read_utf8 (nVars : Nat) (text : List Char) :
    (read nVars (utf8 text) = .error .noRoom ↔ Word.half ≤ nVars) ∧
      ((∃ violation, read nVars (utf8 text) = .error violation) ↔
        Word.half ≤ nVars ∨ Malformed nVars (linesOf text)) ∧
      (nVars < Word.half → ¬ Malformed nVars (linesOf text) →
        (read nVars (utf8 text) = .ok .unsatisfiable ↔ Status.unsatisfiable.line ∈ linesOf text) ∧
        (∀ a, read nVars (utf8 text) = .ok (.satisfiable a) ↔
          Status.satisfiable.line ∈ linesOf text ∧ (∃ line ∈ linesOf text, IsValueLine line) ∧
            a.size = nVars ∧
            ∀ x, a.valueOf x = ((integersOf (linesOf text)).filter
              (·.natAbs = x.number)).getLast?.map
              fun i => decide (0 < i)) ∧
        (read nVars (utf8 text) = .ok .unknown ↔ Status.unsatisfiable.line ∉ linesOf text ∧
          ¬ (Status.satisfiable.line ∈ linesOf text ∧ ∃ line ∈ linesOf text, IsValueLine line))) ∧
      ∀ other, Relation.EqvGen Move (linesOf text) (linesOf other) →
        ∀ a, read nVars (utf8 text) = .ok a ↔ read nVars (utf8 other) = .ok a := by
  refine ⟨read_eq_noRoom_iff, exists_read_utf8_eq_error_iff, fun room h => ?_,
    fun other hmoves a => ?_⟩
  · have hbound : ∀ i ∈ integersOf (linesOf text), i.natAbs ≤ nVars := fun i hi =>
      Nat.le_of_not_lt fun hlarge => h (.unknownVariable hi hlarge)
    have hmodel : ∀ a, assignmentOf room (literals (integersOf (linesOf text))).reverse = a ↔
        a.size = nVars ∧
        ∀ x, a.valueOf x = ((integersOf (linesOf text)).filter (·.natAbs = x.number)).getLast?.map
          fun i => decide (0 < i) := fun a => by
      have hsize' : (assignmentOf room (literals (integersOf (linesOf text))).reverse).size =
          nVars :=
        size_valuesOf _ _
      constructor
      · rintro rfl
        exact ⟨hsize', valueOf_assignmentOf_literals hbound⟩
      · rintro ⟨hsize, hvalue⟩
        refine Assignment.eq_of_valueOf_eq (hsize'.trans hsize.symm) fun x _ => ?_
        rw [valueOf_assignmentOf_literals hbound, hvalue]
    have hread := read_utf8_eq_ok_iff.mpr ⟨room, h, answer_after_eq h⟩
    have hone : Status.unsatisfiable.line ∈ linesOf text →
        Status.satisfiable.line ∉ linesOf text := by
      rw [← status_after_eq_some_iff h, ← status_after_eq_some_iff h]
      intro hunsatisfiable hsatisfiable
      rw [hunsatisfiable] at hsatisfiable
      cases hsatisfiable
    rw [hread]
    by_cases hunsatisfiable : Status.unsatisfiable.line ∈ linesOf text
    · simp [hunsatisfiable, hone hunsatisfiable]
    · by_cases hsatisfiable : Status.satisfiable.line ∈ linesOf text ∧
        ∃ line ∈ linesOf text, IsValueLine line
      · rw [if_neg hunsatisfiable, if_pos hsatisfiable]
        refine ⟨by simp [hunsatisfiable], fun a => ?_, by simp [hsatisfiable]⟩
        rw [Except.ok.injEq, Answer.satisfiable.injEq, hmodel]
        exact ⟨fun ha => ⟨hsatisfiable.1, hsatisfiable.2, ha⟩, fun ha => ha.2.2⟩
      · simp only [hunsatisfiable, hsatisfiable, if_false, ← and_assoc]
        simp
  · have halike := alike_of_eqvGen hmoves
    rw [read_utf8_eq_ok_iff, read_utf8_eq_ok_iff, halike.malformed_iff]
    refine exists_congr fun room => and_congr_right fun hother => ?_
    rw [halike.answer_after_eq (mt halike.malformed_iff.mp hother)]

/-- The last of two values counts, also when the value lines are joined behind the status line. -/
theorem read_utf8_joined :
    let text := "v 1 -2\ns SATISFIABLE\nv 2\n".toList
    let joined := "s SATISFIABLE\nv 1 -2 2".toList
    ¬ Malformed 3 (linesOf text) ∧ Relation.EqvGen Move (linesOf text) (linesOf joined) ∧
      read 3 (utf8 joined) = .ok (.satisfiable ⟨#[some true, some true, none], by decide⟩) := by
  intro text joined
  have htext : linesOf text = ["v 1 -2".toList, Status.satisfiable.line, "v 2".toList] := by
    decide +kernel
  have hjoined : linesOf joined = [Status.satisfiable.line, "v 1 -2 2".toList] := by decide +kernel
  have hintegers : integersOf (linesOf text) = [1, -2, 2] := by decide +kernel
  have hmalformed : ¬ Malformed 3 (linesOf text) := by
    rw [not_malformed_iff, acceptable_iff, integers_map_statementOf, hintegers, htext]
    decide +kernel
  have hmoves : Relation.EqvGen Move (linesOf text) (linesOf joined) := by
    have hswap : Move ([] ++ "v 1 -2".toList :: Status.satisfiable.line :: ["v 2".toList])
        ([] ++ Status.satisfiable.line :: "v 1 -2".toList :: ["v 2".toList]) :=
      .swap fun h => Status.not_isValueLine_line _ h.2
    have hsplit : Move ([Status.satisfiable.line] ++
        (['v', ' '] ++ "1 -2".toList ++ ' ' :: "2".toList) :: [])
        ([Status.satisfiable.line] ++ (['v', ' '] ++ "1 -2".toList) :: (['v', ' '] ++ "2".toList) ::
          []) :=
      .split rfl
    rw [htext, hjoined]
    exact .trans _ _ _ (.rel _ _ hswap) (.symm _ _ (.rel _ _ hsplit))
  obtain ⟨-, -, houtcome, hsame⟩ := read_utf8 3 text
  refine ⟨hmalformed, hmoves, (hsame joined hmoves _).mp
    (((houtcome (by decide) hmalformed).2.1 _).mpr ⟨?_, ?_, rfl, fun x => ?_⟩)⟩
  · rw [htext]
    exact List.mem_cons_of_mem _ List.mem_cons_self
  · rw [htext]
    exact ⟨_, List.mem_cons_self, by decide⟩
  · rw [hintegers]
    match x with
    | ⟨1, _⟩ => rfl
    | ⟨2, _⟩ => rfl
    | ⟨3, _⟩ => rfl
    | ⟨n + 4, _⟩ => simp [Assignment.valueOf]

/-- An empty output is not malformed, but it is not read if all words are reserved for variables. -/
theorem read_empty_of_all_words :
    ¬ Malformed 18446744073709551615 (linesOf []) ∧
      read 18446744073709551615 (utf8 []) = .error .noRoom := by
  have hlines : linesOf [] = [] := by decide +kernel
  refine ⟨?_, read_eq_noRoom_iff.mpr (by decide)⟩
  rw [hlines, not_malformed_iff, acceptable_iff]
  decide

end AnswerText

end HorizonPlanner.Sat
