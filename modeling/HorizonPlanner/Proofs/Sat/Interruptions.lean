import HorizonPlanner.Proofs.Sat.Competition
import HorizonPlanner.Proofs.Text.Cuts
import Mathlib.Data.List.Infix
import Mathlib.Tactic.IntervalCases

/-!
# Outputs of solvers that are stopped

A solver that is stopped while it prints a model leaves the beginning of its output behind. What is
read then is decided by the numerals in front of the cut. The status line and the beginning of a
value line are enough for a model, which lacks the values that were not printed, and has a wrong one
if the cut has shortened a numeral. Only with the closing zero the model is the one the solver was
about to print.
-/

namespace HorizonPlanner.Sat.Competition

open Text AnswerText

/-- The status line in front of a model. -/
def statusLine : List Char :=
  "s SATISFIABLE".toList

/-- The value line with these words. -/
def valueLine (body : List Char) : List Char :=
  'v' :: ' ' :: body

/-- The status line and value lines. -/
def outputText (bodies : List (List Char)) : List Char :=
  (statusLine :: bodies.map valueLine).flatMap (· ++ ['\n'])

/-- The value lines list the literals that an assignment makes true, each of them once, and then a
zero. -/
structure Lists (a : Assignment) (bodies : List (List Char)) (ls : List Literal) : Prop where
  /-- No value line has a line feed in it. -/
  line_feed_not_mem : ∀ body ∈ bodies, '\n' ∉ body
  /-- The words of the value lines are the literals and the zero. -/
  words_eq : bodies.flatMap (words isSeparator) = ls.map Literal.text ++ [['0']]
  /-- No literal is listed twice. -/
  nodup : ls.Nodup
  /-- The literals are those that are true. -/
  mem_iff : ∀ l, l ∈ ls ↔ a.makesTrue l = true

/-- The beginning of an output has come to a value line, all its numerals can be read, and a literal
is not among them. -/
structure Misleads (ls : List Literal) (t : List Char) : Prop where
  /-- The first value line has begun. -/
  begun : statusLine ++ "\nv ".toList <+: t
  /-- The last numeral is not down to its dash. -/
  dash_notMem : ['-'] ∉ words isSeparator t
  /-- A literal is missing. -/
  missing : ∃ l ∈ ls, l.text ∉ words isSeparator t

variable {n : Nat} {a : Assignment} {bodies done : List (List Char)} {ls : List Literal}
    {l : Literal}
  {is : List Int} {xs : List (List Char)} {body last text t : List Char} {answer : Answer}

/-! ### Numerals in front of a cut -/

/-- The integers in front of a cut: the list up to the cut, which may have shortened the last of
them. -/
inductive Begins (ls : List Literal) : List Int → Prop
  /-- The cut is between two numerals. -/
  | between {is : List Int} : is <+: ls.map Literal.toInt ++ [0] → Begins ls is
  /-- The cut is in a numeral. -/
  | within (front back : List Literal) {l : Literal} {i : Int} : ls = front ++ l :: back → i ≠ 0 →
    i.natAbs ≤ l.var.number → Begins ls (front.map Literal.toInt ++ [i])

/-- One more literal in front of a list is one more integer in front of its beginnings. -/
theorem Begins.cons (h : Begins ls is) (l : Literal) : Begins (l :: ls) (l.toInt :: is) := by
  cases h with
  | between h => exact .between (List.cons_prefix_cons.mpr ⟨rfl, h⟩)
  | within front back hls hne hle =>
    exact .within (l :: front) back (by rw [hls, List.cons_append]) hne hle

/-- Words in front of a cut are numerals of integers, unless only the dash of the last one is
left. -/
theorem exists_integers_of_cutShort (h : CutShort xs (ls.map Literal.text ++ [['0']]))
    (hdash : ['-'] ∉ xs) :
    ∃ is, xs = is.map Numeral.ofInt ∧ Begins ls is := by
  induction ls generalizing xs with
  | nil =>
    have hzero : [['0']] = [0].map Numeral.ofInt := by rw [List.map_singleton, Numeral.ofInt_zero]
    cases h with
    | nil => exact ⟨[], rfl, .between List.nil_prefix⟩
    | @last x _ _ hne hpre =>
      obtain ⟨c, rest, rfl⟩ := List.exists_cons_of_ne_nil hne
      obtain ⟨rfl, hrest⟩ := List.cons_prefix_cons.mp hpre
      exact ⟨[0], by rw [List.prefix_nil.mp hrest, hzero], .between (List.prefix_refl _)⟩
    | cons h =>
      cases h
      exact ⟨[0], hzero, .between (List.prefix_refl _)⟩
  | cons l ls ih =>
    cases h with
    | nil => exact ⟨[], rfl, .between List.nil_prefix⟩
    | @last x _ _ hne hpre =>
      obtain ⟨i, rfl, hle, hpos⟩ := Numeral.exists_of_prefix_ofInt hpre hne fun hx =>
        hdash (by simp [hx])
      rw [l.natAbs_toInt] at hle
      exact ⟨[i], rfl, .within [] ls rfl (hpos l.toInt_ne_zero) hle⟩
    | cons h =>
      obtain ⟨is, rfl, his⟩ := ih h fun hmem => hdash (List.mem_cons_of_mem _ hmem)
      exact ⟨l.toInt :: is, rfl, his.cons l⟩

/-- The literals among integers are those that the integers stand for. -/
theorem mem_literals : l ∈ literals is ↔ l.toInt ∈ is := by
  simp only [literals, List.mem_filterMap]
  constructor
  · rintro ⟨i, hi, hl⟩
    split at hl
    · cases hl
    · rw [← Option.some.inj hl, Literal.toInt_ofNonzero]
      exact hi
  · intro hmem
    exact ⟨l.toInt, hmem, by rw [dif_neg l.toInt_ne_zero, l.ofNonzero_toInt]⟩

private theorem zero_notMem_map_toInt (ls : List Literal) :
    0 ∉ ls.map Literal.toInt := fun hmem => by
  obtain ⟨l, -, hl⟩ := List.mem_map.mp hmem
  exact l.toInt_ne_zero hl

private theorem toInt_mem_map_iff : l.toInt ∈ ls.map Literal.toInt ↔ l ∈ ls := by
  rw [← mem_literals, literals_map_toInt]

/-- The integers in front of a cut are about known variables, and at most one of them is a zero. -/
theorem Begins.bounded (h : Begins ls is) (hls : ∀ l ∈ ls, l.var.number ≤ n) :
    (∀ i ∈ is, i.natAbs ≤ n) ∧ is.count 0 ≤ 1 := by
  have hliterals :
      ∀ ls' : List Literal, (∀ l ∈ ls', l ∈ ls) → ∀ i ∈ ls'.map Literal.toInt, i.natAbs ≤ n :=
    fun ls' hsub => List.forall_mem_map.mpr fun l hl => l.natAbs_toInt ▸ hls l (hsub l hl)
  have hnone : ∀ ls' : List Literal, (ls'.map Literal.toInt).count 0 = 0 := fun ls' =>
    List.count_eq_zero.mpr (zero_notMem_map_toInt ls')
  cases h with
  | between hpre =>
    refine ⟨fun i hi => ?_, ?_⟩
    · rcases List.mem_append.mp (hpre.subset hi) with hi | hi
      · exact hliterals ls (fun _ hl => hl) i hi
      · simp [List.mem_singleton.mp hi]
    · calc is.count 0 ≤ (ls.map Literal.toInt ++ [0]).count 0 := hpre.sublist.count_le 0
        _ ≤ 1 := by simp [hnone]
  | @within front back m i hsplit hne hle =>
    have hsub : ∀ l ∈ front, l ∈ ls := fun l hl => hsplit ▸ List.mem_append_left _ hl
    have hm : m ∈ ls := by simp [hsplit]
    refine ⟨List.forall_mem_append.mpr ⟨hliterals front hsub, List.forall_mem_singleton.mpr ?_⟩, ?_⟩
    · exact hle.trans (hls m hm)
    · simp [hnone, hne]

/-- If the zero is in front of the cut, all literals are. -/
theorem Begins.toInt_mem_of_zero_mem (h : Begins ls is) (hzero : 0 ∈ is) :
    ∀ l ∈ ls, l.toInt ∈ is := by
  intro l hl
  cases h with
  | between hpre =>
    rcases List.prefix_concat_iff.mp hpre with rfl | hpre
    · exact List.mem_append_left _ (toInt_mem_map_iff.mpr hl)
    · exact absurd (hpre.subset hzero) (zero_notMem_map_toInt ls)
  | within front back hsplit hne hle =>
    rcases List.mem_append.mp hzero with hzero | hzero
    · exact absurd hzero (zero_notMem_map_toInt front)
    · exact absurd (List.mem_singleton.mp hzero).symm hne

/-- If all literals are in front of the cut, there are no others. -/
theorem Begins.mem_literals_iff (h : Begins ls is) (hnodup : ls.Nodup)
    (hall : ∀ l ∈ ls, l.toInt ∈ is) :
    l ∈ literals is ↔ l ∈ ls := by
  rw [mem_literals]
  refine ⟨fun hmem => ?_, hall l⟩
  cases h with
  | between hpre =>
    rcases List.mem_append.mp (hpre.subset hmem) with hmem | hmem
    · exact toInt_mem_map_iff.mp hmem
    · exact absurd (List.mem_singleton.mp hmem) l.toInt_ne_zero
  | @within front back m i hsplit hne hle =>
    -- A shortened numeral lacks the literal it belongs to, unless it is that of the literal after
    -- all.
    have hm : m ∈ ls := by simp [hsplit]
    have hfront : m ∉ front := fun hmem => by
      rw [hsplit, List.nodup_append] at hnodup
      exact hnodup.2.2 m hmem m List.mem_cons_self rfl
    have hi : m.toInt = i := by
      rcases List.mem_append.mp (hall m hm) with hmem | hmem
      · exact absurd (toInt_mem_map_iff.mp hmem) hfront
      · exact List.mem_singleton.mp hmem
    have hlist : front.map Literal.toInt ++ [i] = (front ++ [m]).map Literal.toInt := by
      rw [List.map_append, List.map_singleton, hi]
    rw [hlist, toInt_mem_map_iff] at hmem
    rcases List.mem_append.mp hmem with hmem | hmem
    · exact hsplit ▸ List.mem_append_left _ hmem
    · exact List.mem_singleton.mp hmem ▸ hm

/-- The assignment in front of a cut is the whole one exactly if all literals are in front of the
cut. -/
theorem Begins.assignmentOf_eq_iff (h : Begins ls is) (ha : a.Total n) (hnodup : ls.Nodup)
    (hls : ∀ l, l ∈ ls ↔ a.makesTrue l = true) :
    assignmentOf ha.lt (literals is).reverse = a ↔ ∀ l ∈ ls, l.toInt ∈ is := by
  constructor
  · intro heq l hl
    have hvalue : a.valueOf l.var =
        some l.positive := by simpa [Assignment.makesTrue] using (hls l).mp hl
    rw [← heq, valueOf_assignmentOf, if_pos (number_le_of_makesTrue ha ((hls l).mp hl)),
      Option.map_eq_some_iff]
      at hvalue
    obtain ⟨m, hfind, hpositive⟩ := hvalue
    have hvar : m.var = l.var := by simpa using List.find?_some hfind
    have hm : m = l := by
      cases m
      cases l
      simp_all
    exact mem_literals.mp (hm ▸ List.mem_reverse.mp (List.mem_of_find?_eq_some hfind))
  · intro hall
    exact assignmentOf_eq ha fun l => by rw [List.mem_reverse, h.mem_literals_iff hnodup hall, hls]

/-! ### Lines in front of a cut -/

/-- What is left of a value line, after complete ones, and its words. -/
inductive Rest : List Char → List (List Char) → Prop
  /-- Nothing. -/
  | nothing : Rest [] []
  /-- The line is not yet a value line. -/
  | mark : Rest ['v'] []
  /-- The line is a value line. -/
  | body (body : List Char) : Rest (valueLine body) [body]

private theorem words_valueLine (body : List Char) :
    words isSeparator (valueLine body) = ['v'] :: words isSeparator body :=
  words_append_cons (List.cons_ne_nil 'v' []) (by simp [isSeparator]) rfl

private theorem line_feed_notMem_valueLine (h : '\n' ∉ body) : '\n' ∉ valueLine body := by
  simpa [valueLine] using h

/-- The words of an output that is cut off are those of its value lines, and the first words of its
lines. -/
theorem mem_words_outputText_append {part : List (List Char)} (hpart : Rest last part)
    {w : List Char} (hw : w ∉ [['s'], "SATISFIABLE".toList, ['v']]) :
    w ∈ words isSeparator (outputText done ++ last) ↔
      w ∈ (done ++ part).flatMap (words isSeparator) := by
  have hstatus : words isSeparator statusLine = [['s'], "SATISFIABLE".toList] := by decide
  have hlast : w ∈ words isSeparator last ↔ w ∈ part.flatMap (words isSeparator) := by
    cases hpart with
    | nothing => rfl
    | mark =>
      have hmark : words isSeparator ['v'] = [['v']] := by decide
      simp_all
    | body body => simp_all [words_valueLine]
  have hdone : w ∈ (done.map valueLine).flatMap (words isSeparator) ↔ w ∈ done.flatMap
      (words isSeparator) := by
    simp_all [words_valueLine, List.mem_flatMap]
  rw [outputText, words_lines_append rfl, List.flatMap_cons, List.flatMap_append,
    List.mem_append, List.mem_append, List.mem_append, hstatus, hdone, hlast]
  simp_all

/-- Integers in words are integers line by line. -/
theorem exists_integers_of_flatMap (h : bodies.flatMap (words isSeparator) = is.map Numeral.ofInt) :
    ∃ iss, List.Forall₂ (fun body js => words isSeparator body = js.map Numeral.ofInt) bodies iss ∧
      iss.flatten = is := by
  induction bodies generalizing is with
  | nil =>
    obtain rfl : is = [] := by simpa using h
    exact ⟨[], .nil, rfl⟩
  | cons body bodies ih =>
    rw [List.flatMap_cons] at h
    obtain ⟨js, rest, rfl, hjs, hrest⟩ := List.append_eq_map_iff.mp h
    obtain ⟨iss, hiss, rfl⟩ := ih hrest.symm
    exact ⟨js :: iss, .cons hjs.symm hiss, rfl⟩

/-- A value line gives its integers, whether or not it has lost a carriage return. -/
theorem understood_valueLine (h : words isSeparator body = is.map Numeral.ofInt)
    (hwords : ∀ i ∈ is, i.natAbs < Word.half) :
    Understood (valueLine body) (.values is) ∧ Understood (chomp (valueLine body)) (.values is) :=
  have hvalues : Says (valueLine body) (.values is) := .values h
  ⟨hvalues.understood hwords, hvalues.chomp.understood hwords⟩

/-- What is left of a line says nothing, unless it is a value line. -/
theorem Rest.exists_understood {part : List (List Char)} (h : Rest last part)
    (his : part.flatMap (words isSeparator) = is.map Numeral.ofInt)
    (hwords : ∀ i ∈ is, i.natAbs < Word.half) :
    ∃ zs, List.Forall₂ (fun l z => ∃ line, l = .ok line ∧ Understood line z)
        (if last = [] then [] else [(.ok last : Line)]) zs ∧
      statuses zs = [] ∧ integers zs = is ∧ (zs.any Statement.isValues = true ↔ part ≠ []) := by
  cases h with
  | nothing =>
    obtain rfl : is = [] := by simpa using his
    exact ⟨[], .nil, rfl, rfl, by simp⟩
  | mark =>
    obtain rfl : is = [] := by simpa using his
    have hsilent : Understood ['v'] .silent := .silent (by decide) (by decide) (by decide)
    exact ⟨[.silent], .cons ⟨_, rfl, hsilent⟩ .nil, rfl, rfl, by simp⟩
  | body body =>
    rw [List.flatMap_singleton] at his
    exact ⟨[.values is], .cons ⟨_, rfl, (understood_valueLine his hwords).1⟩ .nil,
      rfl, by simp, by simp⟩

private theorem statuses_map_values (iss : List (List Int)) : statuses (iss.map .values) = [] := by
  simp [statuses, List.filterMap_map, Function.comp_def]

private theorem integers_map_values (iss : List (List Int)) :
    integers (iss.map .values) = iss.flatten := by
  rw [integers, List.flatMap_map]
  exact List.flatMap_id

/-- Complete value lines give their integers. -/
theorem forall₂_understood_valueLines {iss : List (List Int)}
    (h : List.Forall₂ (fun body js => words isSeparator body = js.map Numeral.ofInt) done iss)
    (hwords : ∀ i ∈ iss.flatten, i.natAbs < Word.half) :
    List.Forall₂ (fun l z => ∃ line, l = (.ok line : Line) ∧ Understood line z)
      ((done.map valueLine).map fun l => .ok (chomp l)) (iss.map .values) := by
  induction h with
  | nil => exact .nil
  | cons hbody _ ih =>
    rw [List.flatten_cons, List.forall_mem_append] at hwords
    exact .cons ⟨_, rfl, (understood_valueLine hbody hwords.1).2⟩ (ih hwords.2)

/-- The lines of an output that is cut off. -/
theorem lines_outputText_append {part : List (List Char)} (hpart : Rest last part)
    (hfeed : ∀ body ∈ done ++ part, '\n' ∉ body) :
    lines (utf8 (outputText done ++ last)) none =
      .ok statusLine :: (done.map valueLine).map (fun l => .ok (chomp l)) ++
        if last = [] then [] else [.ok last] := by
  rw [List.forall_mem_append] at hfeed
  have hls : ∀ l ∈ statusLine :: done.map valueLine, '\n' ∉ l :=
    List.forall_mem_cons.mpr ⟨by decide, List.forall_mem_map.mpr fun body hbody =>
      line_feed_notMem_valueLine (hfeed.1 body hbody)⟩
  have hlast : '\n' ∉ last := by
    cases hpart with
    | nothing => simp
    | mark => decide
    | body body => exact line_feed_notMem_valueLine (hfeed.2 body (List.mem_singleton_self body))
  exact lines_utf8 hls hlast

/-- An output that is cut off is understood if its words are integers, and means a model if it has
come to a value line. -/
theorem read_outputText_append {part : List (List Char)} (hpart : Rest last part)
    (hfeed : ∀ body ∈ done ++ part, '\n' ∉ body)
    (hwords : (done ++ part).flatMap (words isSeparator) = is.map Numeral.ofInt)
    (hbounded : ∀ i ∈ is, i.natAbs ≤ n) (hzeroes : is.count 0 ≤ 1)
    (hn : n < Word.half) :
    AnswerText.read n (utf8 (outputText done ++ last)) =
      .ok (if done ++ part = [] then .unknown else .satisfiable
        (assignmentOf hn (literals is).reverse)) := by
  rw [List.flatMap_append] at hwords
  obtain ⟨js, ks, rfl, hjs, hks⟩ := List.append_eq_map_iff.mp hwords
  obtain ⟨iss, hiss, rfl⟩ := exists_integers_of_flatMap hjs.symm
  have hsmall : ∀ i ∈ iss.flatten ++ ks, i.natAbs < Word.half := fun i hi =>
    Nat.lt_of_le_of_lt (hbounded i hi) hn
  rw [List.forall_mem_append] at hsmall
  obtain ⟨zs, hzs, hstatuses, hintegers, hvalues⟩ := hpart.exists_understood hks.symm hsmall.2
  have hstatus : Understood statusLine (.status .satisfiable) := .status (by decide)
  let ys := .status .satisfiable :: (iss.map .values ++ zs)
  have hys : statuses ys = [.satisfiable] ∧ integers ys = iss.flatten ++ ks := by
    have hcons : ys = [.status .satisfiable] ++ (iss.map .values ++ zs) := rfl
    rw [hcons, statuses_append, statuses_append, integers_append, integers_append,
      statuses_map_values, hstatuses, integers_map_values, hintegers]
    exact ⟨rfl, rfl⟩
  have hbegun : ys.any Statement.isValues = true ↔ done ++ part ≠ [] := by
    have hdone : (iss.map Statement.values).any Statement.isValues = true ↔ done ≠ [] := by
      cases hiss <;> simp
    rw [List.any_cons, List.any_append, Statement.isValues, Bool.false_or,
      Bool.or_eq_true, hdone, hvalues, ne_eq, ne_eq, ne_eq, List.append_eq_nil_iff, not_and_or]
  refine read_eq_ok_iff.mpr ⟨hn, ys, ?_, ⟨?_, ?_, ?_⟩, ?_⟩
  · rw [lines_outputText_append hpart hfeed]
    exact .cons ⟨_, rfl, hstatus⟩ (List.rel_append
      (forall₂_understood_valueLines hiss hsmall.1) hzs)
  · simp [hys.1]
  · rwa [hys.2]
  · rwa [hys.2]
  · simp only [Reading.answer, Reading.after, hys.1, hys.2, List.head?_cons]
    by_cases hnone : done ++ part = []
    · rw [if_pos hnone, if_neg (hbegun.not.mpr (not_not.mpr hnone))]
    · rw [if_neg hnone, if_pos (hbegun.mpr hnone)]

/-! ### Outputs that are not understood or mean nothing -/

private theorem exists_of_forall₂_of_mem {α β : Type} {R : α → β → Prop}
    {xs : List α} {ys : List β} {x : α} (h : List.Forall₂ R xs ys) (hx : x ∈ xs) : ∃ y, R x y := by
  induction h with
  | nil => simp at hx
  | cons hR _ ih =>
    rcases List.mem_cons.mp hx with rfl | hx
    · exact ⟨_, hR⟩
    · exact ih hx

/-- A value line with a lone dash is not understood. -/
theorem not_understood_of_dash {y : Statement} (hdash : ['-'] ∈ words isSeparator body) :
    ¬ Understood (valueLine body) y := by
  intro h
  cases h with
  | status hstatus =>
    rw [valueLine, statusOf?_cons (by decide)] at hstatus
    cases hstatus
  | values _ _ hwords =>
    rw [words_valueLine, List.drop_one, List.tail_cons] at hwords
    obtain ⟨i, hi⟩ := exists_of_forall₂_of_mem hwords hdash
    have herror : Numeral.toInt? ['-'] = .error .badDigit := rfl
    rw [herror] at hi
    cases hi
  | silent _ hno _ => simp [valueLine] at hno

/-- An output that is cut off behind a dash is not understood. -/
theorem read_outputText_append_ne_ok {part : List (List Char)} (hpart : Rest last part)
    (hfeed : ∀ body ∈ done ++ part, '\n' ∉ body)
    (hdash : ['-'] ∈ (done ++ part).flatMap (words isSeparator)) :
    AnswerText.read n (utf8 (outputText done ++ last)) ≠ .ok answer := by
  intro hread
  obtain ⟨-, ys, hys, -⟩ := read_eq_ok_iff.mp hread
  rw [lines_outputText_append hpart hfeed] at hys
  obtain ⟨body, hbody, hword⟩ := List.mem_flatMap.mp hdash
  rcases List.mem_append.mp hbody with hdone | hlast
  · have hmem : (.ok (chomp (valueLine body)) : Line) ∈
        .ok statusLine :: (done.map valueLine).map (fun l => .ok (chomp l)) ++
          if last = [] then [] else [.ok last] := by
      simp only [List.mem_append, List.mem_cons, List.mem_map, exists_exists_and_eq_and]
      exact .inl (.inr ⟨body, hdone, rfl⟩)
    obtain ⟨y, line, hline, hy⟩ := exists_of_forall₂_of_mem hys hmem
    rw [valueLine, chomp_cons_cons, Except.ok.injEq] at hline
    rw [← words_chomp] at hword
    exact not_understood_of_dash hword (hline ▸ hy)
  · cases hpart with
    | nothing => simp at hlast
    | mark => simp at hlast
    | body part =>
      obtain rfl := List.mem_singleton.mp hlast
      obtain ⟨y, line, hline, hy⟩ :=
        exists_of_forall₂_of_mem hys (x := .ok (valueLine body)) (by simp [valueLine])
      exact not_understood_of_dash hword (Except.ok.inj hline ▸ hy)

/-- A part of the status line means nothing. -/
theorem read_of_prefix_statusLine (h : t <+: statusLine)
    (hread : AnswerText.read n (utf8 t) = .ok answer) :
    answer = .unknown := by
  have hall : ∀ t ∈ statusLine.inits, '\n' ∉ t ∧ statusOf? t ≠ some .unsatisfiable ∧
      ['v', ' '].isPrefixOf t = false := by decide
  obtain ⟨hfeed, hstatus, hvalues⟩ := hall t (List.mem_inits _ _ |>.mpr h)
  obtain ⟨-, ys, hys, -, rfl⟩ := read_eq_ok_iff.mp hread
  have hlines : lines (utf8 t) none = if t = [] then [] else [.ok t] :=
    lines_utf8 (List.forall_mem_nil _) hfeed
  rw [hlines] at hys
  by_cases hnil : t = []
  · rw [if_pos hnil] at hys
    cases hys
    rfl
  · rw [if_neg hnil] at hys
    obtain ⟨y, _, ⟨line, hline, hy⟩, hrest, rfl⟩ := List.forall₂_cons_left_iff.mp hys
    cases hline
    cases hrest
    cases hy with
    | @status s hs => cases s <;> first | rfl | exact absurd hs hstatus
    | values _ hv => simp [hvalues] at hv
    | silent => rfl

/-! ### Every cut -/

/-- The outputs are ASCII texts. -/
theorem Lists.isAscii (h : Lists a bodies ls) : ∀ c ∈ outputText bodies, c.toNat < 0x80 := by
  have hbody : ∀ body ∈ bodies, ∀ c ∈ body, c.toNat < 0x80 := fun body hbody c hc => by
    rcases isSep_or_mem_words isSeparator hc with hsep | ⟨w, hw, hcw⟩
    · simp only [isSeparator, Bool.or_eq_true, beq_iff_eq] at hsep
      rcases hsep with (((rfl | rfl) | rfl) | rfl) | rfl <;> decide
    · have hword : w ∈ ls.map Literal.text ++ [['0']] :=
        h.words_eq ▸ List.mem_flatMap.mpr ⟨body, hbody, hw⟩
      rcases List.mem_append.mp hword with hword | hword
      · obtain ⟨l, -, rfl⟩ := List.mem_map.mp hword
        exact Numeral.isAscii_of_mem_ofInt hcw
      · rw [List.mem_singleton.mp hword] at hcw
        obtain rfl := List.mem_singleton.mp hcw
        decide
  -- Deciding the quantifier itself could try all characters there are.
  have hstatus : ∀ c ∈ statusLine, c.toNat < 0x80 := by
    simpa using show statusLine.all (·.toNat < 0x80) = true by decide
  have hmarks : ∀ c ∈ ['v', ' ', '\n'], c.toNat < 0x80 := by simp
  intro c hc
  obtain ⟨line, hline, hc⟩ := List.mem_flatMap.mp hc
  rcases List.mem_append.mp hc with hc | hc
  · rcases List.mem_cons.mp hline with rfl | hline
    · exact hstatus c hc
    · obtain ⟨body, hmem, rfl⟩ := List.mem_map.mp hline
      rcases List.mem_cons.mp hc with rfl | hc
      · exact hmarks _ (by simp)
      · rcases List.mem_cons.mp hc with rfl | hc
        · exact hmarks _ (by simp)
        · exact hbody body hmem c hc
  · exact hmarks c (by simpa using Or.inr (Or.inr (List.mem_singleton.mp hc)))

/-- A value line that is cut off. -/
theorem exists_rest_of_prefix (h : last <+: valueLine body) :
    ∃ part, Rest last part ∧ (∀ p ∈ part, p <+: body) ∧
      CutShort (part.flatMap (words isSeparator)) (words isSeparator body) := by
  rcases List.prefix_cons_iff.mp h with rfl | ⟨rest, rfl, hrest⟩
  · exact ⟨[], .nothing, by simp, .nil⟩
  · rcases List.prefix_cons_iff.mp hrest with rfl | ⟨part, rfl, hpart⟩
    · exact ⟨[], .mark, by simp, .nil⟩
    · refine ⟨[part], .body part, List.forall_mem_singleton.mpr hpart, ?_⟩
      rw [List.flatMap_singleton]
      exact cutShort_words hpart

/-- An output that is cut off ends in its status line, or it has value lines and the rest of one. -/
theorem cases_of_prefix (h : t <+: outputText bodies) (hfeed : ∀ body ∈ bodies, '\n' ∉ body) :
    t <+: statusLine ∨ ∃ done part last, t = outputText done ++ last ∧ Rest last part ∧
      (∀ body ∈ done ++ part, '\n' ∉ body) ∧
      CutShort ((done ++ part).flatMap (words isSeparator))
        (bodies.flatMap (words isSeparator)) := by
  obtain ⟨init, last, more, rfl, hlines, hlast⟩ := exists_lines_of_prefix h
  cases init with
  | nil =>
    refine .inl ?_
    rcases hlast with rfl | ⟨l, more', rfl, hlast⟩
    · exact List.nil_prefix
    · obtain ⟨rfl, -⟩ := List.cons.inj hlines
      exact hlast
  | cons l init =>
    obtain ⟨rfl, hbodies⟩ := List.cons.inj hlines
    obtain ⟨done, rest, rfl, rfl, rfl⟩ := List.map_eq_append_iff.mp hbodies
    rw [List.forall_mem_append] at hfeed
    obtain ⟨part, hpart, hsub, hcut⟩ : ∃ part, Rest last part ∧
      (∀ p ∈ part, ∃ body ∈ rest, p <+: body) ∧
        CutShort (part.flatMap (words isSeparator)) (rest.flatMap (words isSeparator)) := by
      rcases hlast with rfl | ⟨l, more, hmore, hlast⟩
      · exact ⟨[], .nothing, by simp, .nil⟩
      · obtain ⟨body, rest, rfl, rfl, rfl⟩ := List.map_eq_cons_iff.mp hmore
        obtain ⟨part, hpart, hsub, hcut⟩ := exists_rest_of_prefix hlast
        exact ⟨part, hpart, fun p hp => ⟨body, List.mem_cons_self, hsub p hp⟩,
          by simpa using hcut.append_right (rest.flatMap (words isSeparator))⟩
    refine .inr ⟨done, part, last, rfl, hpart,
      List.forall_mem_append.mpr ⟨hfeed.1, fun p hp hmem => ?_⟩, ?_⟩
    · obtain ⟨body, hbody, hpre⟩ := hsub p hp
      exact hfeed.2 body hbody (hpre.subset hmem)
    · rw [List.flatMap_append, List.flatMap_append]
      exact hcut.append_left _

/-- A value line has begun when its mark and a space behind the status line are there. -/
theorem begun_iff {part : List (List Char)} (hpart : Rest last part) :
    statusLine ++ "\nv ".toList <+: outputText done ++ last ↔ done ++ part ≠ [] := by
  have htext : outputText done ++ last =
      statusLine ++ ('\n' :: (done.map valueLine).flatMap (· ++ ['\n']) ++ last) := by
    simp [outputText]
  have hbegun : "\nv ".toList = ['\n', 'v', ' '] := by decide
  rw [htext, List.prefix_append_right_inj, hbegun]
  cases done with
  | cons body done => simp [valueLine]
  | nil => cases hpart <;> simp [valueLine]

/-- Behind the zero there is no numeral that is cut off. -/
theorem dash_notMem_of_zero_mem (h : CutShort xs (ls.map Literal.text ++ [['0']]))
    (hzero : ['0'] ∈ xs) :
    ['-'] ∉ xs := by
  have hsingle : ∀ {x : List Char}, ['0'] ∈ [x] → ['-'] ∉ [x] := fun hx => by
    rw [← List.mem_singleton.mp hx]
    decide
  induction ls generalizing xs with
  | nil =>
    cases h with
    | nil => exact List.not_mem_nil
    | last => exact hsingle hzero
    | cons h =>
      cases h
      decide
  | cons l ls ih =>
    cases h with
    | nil => exact List.not_mem_nil
    | last => exact hsingle hzero
    | cons h =>
      have hne : ['0'] ≠ l.text := fun heq =>
        l.toInt_ne_zero (Numeral.ofInt_injective (heq.symm.trans Numeral.ofInt_zero.symm))
      have hdash : ['-'] ≠ l.text := fun heq => Numeral.ofInt_ne_dash l.toInt heq.symm
      exact List.not_mem_cons_of_ne_of_not_mem hdash
        (ih h ((List.mem_cons.mp hzero).resolve_left hne))

/-- The first words of lines are no numerals. -/
theorem ofInt_notMem (i : Int) : Numeral.ofInt i ∉ [['s'], "SATISFIABLE".toList, ['v']] := by
  have hall : ∀ w ∈ [['s'], "SATISFIABLE".toList, ['v']], ∃ c ∈ w,
      ¬ (c = '-' ∨ c.isDigit = true) := by simp
  intro hmem
  obtain ⟨c, hc, hno⟩ := hall _ hmem
  exact hno (Numeral.eq_dash_or_isDigit_of_mem_ofInt hc)

/-- The numerals of an output are those of its value lines. -/
theorem ofInt_mem_words_iff {part : List (List Char)} (hpart : Rest last part)
    (his : (done ++ part).flatMap (words isSeparator) = is.map Numeral.ofInt) {i : Int} :
    Numeral.ofInt i ∈ words isSeparator (outputText done ++ last) ↔ i ∈ is := by
  rw [mem_words_outputText_append hpart (ofInt_notMem i), his]
  exact List.mem_map_of_injective fun _ _ => Numeral.ofInt_injective

/-- Nothing in front of the value lines is misleading. -/
theorem not_misleads_of_prefix_statusLine (h : t <+: statusLine) :
    ¬ Misleads ls t := fun hmisleads => by
  have hlength := (hmisleads.begun.trans h).length_le
  rw [List.length_append] at hlength
  exact absurd hlength (by decide)

/-- An output whose value lines have these integers is misleading if it has come to a value line and
a literal is not among the integers. -/
theorem misleads_iff {part : List (List Char)} (hpart : Rest last part)
    (his : (done ++ part).flatMap (words isSeparator) = is.map Numeral.ofInt) :
    Misleads ls (outputText done ++ last) ↔ done ++ part ≠ [] ∧ ¬ ∀ l ∈ ls, l.toInt ∈ is := by
  have hdash : ['-'] ∉ words isSeparator (outputText done ++ last) := by
    rw [mem_words_outputText_append hpart (by decide), his, List.mem_map]
    rintro ⟨i, -, hi⟩
    exact Numeral.ofInt_ne_dash i hi
  have hmissing : (∃ l ∈ ls, l.text ∉ words isSeparator (outputText done ++ last)) ↔
      ¬ ∀ l ∈ ls, l.toInt ∈ is := by
    simp only [not_forall, exists_prop]
    exact exists_congr fun l => and_congr_right fun _ => (ofInt_mem_words_iff hpart his).not
  rw [← hmissing, ← begun_iff hpart]
  exact ⟨fun h => ⟨h.begun, h.missing⟩, fun h => ⟨h.1, hdash, h.2⟩⟩

/-- The beginning of an output is read as the model that the output is about if the closing zero is
there. It is read as another model exactly if it is misleading. -/
theorem read_of_cut (ha : a.Total n) (h : Lists a bodies ls) {cut : List UInt8}
    (hcut : cut <+: utf8 (outputText bodies)) :
    ∃ t, cut = utf8 t ∧ t <+: outputText bodies ∧
      ((∀ answer, AnswerText.read n cut = .ok answer → answer = .unknown ∨
        answer = .satisfiable a) ↔
        ¬ Misleads ls t) ∧
      (['0'] ∈ words isSeparator t → AnswerText.read n cut = .ok (.satisfiable a)) := by
  obtain ⟨t, ht, rfl⟩ := exists_prefix_of_utf8 h.isAscii hcut
  refine ⟨t, rfl, ht, ?_⟩
  rcases cases_of_prefix ht h.line_feed_not_mem with hstatus | ⟨done, part,
    last, rfl, hpart, hfeed, hshort⟩
  · have hzero : ∀ t ∈ statusLine.inits, ['0'] ∉ words isSeparator t := by decide
    refine ⟨iff_of_true (fun answer hread => ?_) (not_misleads_of_prefix_statusLine hstatus),
      fun hmem => ?_⟩
    · exact .inl (read_of_prefix_statusLine hstatus hread)
    · exact absurd hmem (hzero t ((List.mem_inits _ _).mpr hstatus))
  · rw [h.words_eq] at hshort
    by_cases hdash : ['-'] ∈ (done ++ part).flatMap (words isSeparator)
    · have hnone : ∀ answer, AnswerText.read n (utf8 (outputText done ++ last)) ≠ .ok answer :=
        fun _ =>
        read_outputText_append_ne_ok hpart hfeed hdash
      refine ⟨iff_of_true (fun answer hread => absurd hread (hnone answer)) fun hmisleads => ?_,
        fun hzero => ?_⟩
      · exact hmisleads.dash_notMem ((mem_words_outputText_append hpart (by decide)).mpr hdash)
      · rw [mem_words_outputText_append hpart (by decide)] at hzero
        exact absurd hdash (dash_notMem_of_zero_mem hshort hzero)
    · obtain ⟨is, his, hbegins⟩ := exists_integers_of_cutShort hshort hdash
      obtain ⟨hbounded, hzeroes⟩ := hbegins.bounded fun l hl =>
        number_le_of_makesTrue ha ((h.mem_iff l).mp hl)
      have hread := read_outputText_append hpart hfeed his hbounded hzeroes ha.lt
      have hmodel := hbegins.assignmentOf_eq_iff ha h.nodup h.mem_iff
      rw [hread, misleads_iff hpart his, ← hmodel, ← Numeral.ofInt_zero,
        ofInt_mem_words_iff hpart his]
      by_cases hnone : done ++ part = []
      · have hnil : is = [] := by simpa [hnone] using his.symm
        simp [hnone, hnil]
      · have hzero : 0 ∈ is → assignmentOf ha.lt (literals is).reverse = a := fun hzero =>
          hmodel.mpr (hbegins.toInt_mem_of_zero_mem hzero)
        rw [if_neg hnone]
        refine ⟨?_, fun hmem => by rw [hzero hmem]⟩
        simp only [Except.ok.injEq, forall_eq', reduceCtorEq, false_or, Answer.satisfiable.injEq,
          ne_eq, hnone, not_false_eq_true, true_and, not_not]

/-- The assignment that makes two variables true. -/
def bothTrue : Assignment :=
  ⟨#[some true, some true], by decide⟩

private theorem bothTrue_total : bothTrue.Total 2 := by
  refine ⟨rfl, fun x hx => ?_⟩
  obtain ⟨number, hpos⟩ := x
  have hx : number ≤ 2 := hx
  interval_cases number <;> rfl

/-- The output about both variables, on one value line. -/
theorem bothTrue_lists : Lists bothTrue ["1 2 0".toList] (trueLiterals bothTrue) where
  line_feed_not_mem := by decide
  words_eq := by decide +kernel
  nodup := by decide
  mem_iff _ := mem_trueLiterals

/-- The beginning of this output, up to the first literal. -/
def bothTrueCut : List UInt8 :=
  utf8 "s SATISFIABLE\nv 1".toList

/-- This beginning of an output is understood exactly if it does not mislead. -/
theorem read_of_cut_bothTrue :
    ∃ t, bothTrueCut = utf8 t ∧ t <+: outputText ["1 2 0".toList] ∧
      ((∀ answer, AnswerText.read 2 bothTrueCut = .ok answer → answer = .unknown ∨
        answer = .satisfiable bothTrue) ↔
        ¬ Misleads (trueLiterals bothTrue) t) ∧
      (['0'] ∈ words isSeparator t → AnswerText.read 2 bothTrueCut = .ok (.satisfiable bothTrue)) :=
  read_of_cut bothTrue_total bothTrue_lists (by decide +kernel)

/-- The solver is stopped behind the first literal of its model, and what is read is another
model. -/
theorem read_bothTrueCut :
    bothTrue.Total 2 ∧ Lists bothTrue ["1 2 0".toList] (trueLiterals bothTrue) ∧
      bothTrueCut <+: utf8 (outputText ["1 2 0".toList]) ∧
      AnswerText.read 2 bothTrueCut = .ok (.satisfiable ⟨#[some true, none], by decide⟩) ∧
      (⟨#[some true, none], by decide⟩ : Assignment) ≠ bothTrue :=
  ⟨bothTrue_total, bothTrue_lists, by decide +kernel, by decide +kernel, by decide⟩

end HorizonPlanner.Sat.Competition
