import HorizonPlanner.Proofs.Histories
import HorizonPlanner.Proofs.Moves
import HorizonPlanner.Proofs.ProblemText.Grammar
import HorizonPlanner.Proofs.ProblemText.Rejections
import HorizonPlanner.Proofs.Sat.Dimacs
import HorizonPlanner.Proofs.Text.Lines
import HorizonPlanner.Report
import Mathlib.Data.List.TakeDrop

/-!
# Reports read back

The report of a plan says what the plan is. If the labels of the operators are names, as in every
problem that is read from a text, they are found again between the spaces of a line, and each of
them belongs to one operator. So the steps can be read off the lines, with their times and with
their operators in order.
-/

namespace HorizonPlanner

open Text

/-- The labels of all operators are names. -/
def Problem.Named (p : Problem) : Prop :=
  ∀ o ∈ p.operators, Declaration.IsNameText o.label.toList

namespace Report

/-! ### Reading -/

/-- The step a line stands for: the number in front of the first colon is its time, and the words
behind it are the labels of its operators. -/
def step? (p : Problem) (line : List Char) : Option PlanStep :=
  match line.dropWhile (· ≠ ':') with
  | ':' :: labels => do
    let time ← Sat.Dimacs.natural? (line.takeWhile (· ≠ ':'))
    let operators ← (words (· == ' ') labels).mapM fun label => p.operator? (String.ofList label)
    return ⟨time, operators.map (·.id)⟩
  | _ => none

/-- The plan that is reported by lines, behind the one that says that there is a plan. -/
def plan? (p : Problem) : List Line → Option Plan
  | .ok header :: steps =>
    if header = "PLAN".toList then (steps.mapM fun l : Line => l.toOption.bind (step? p)).map
      Plan.mk else none
  | _ => none

variable {p : Problem} {c : Char} {operators : List Operator} {steps : List PlanStep} {plan : Plan}

/-! ### Bytes -/

/-- The list of bytes is made from the front; what has been read are the bytes in front of the
index. -/
theorem loop_eq_toList {bs : ByteArray} {i : Nat} {read : List UInt8}
    (h : read.reverse = bs.data.toList.take i) :
    ByteArray.toList.loop bs i read = bs.data.toList := by
  induction i, read using ByteArray.toList.loop.induct bs with
  | case1 i read hlt ih =>
    have hi : i < bs.data.toList.length := hlt
    have hget : bs.get! i = bs.data.toList[i] := getElem!_pos bs.data i hlt
    rw [ByteArray.toList.loop, if_pos hlt]
    refine ih ?_
    rw [List.reverse_cons, h, hget, List.take_append_getElem hi]
  | case2 i read hge =>
    rw [ByteArray.toList.loop, if_neg hge, h]
    exact List.take_of_length_le (Nat.le_of_not_lt hge)

/-- The bytes of a report are those of its characters. -/
theorem bytes_eq_utf8 (text : List Char) : bytes text = utf8 text := by
  rw [bytes, ByteArray.toList, loop_eq_toList rfl, String.toUTF8, String.toByteArray_ofList,
    List.utf8Encode, List.data_toByteArray]
  rfl

private theorem Medium.length_taken_lt_iff {m : Medium} {d : Draft} :
    (m.taken d).length < (bytes d.text).length ↔ m.taken d ≠ bytes d.text := by
  unfold taken
  cases m.capacity with
  | none => simp
  | some n =>
    simp only [List.length_take, ne_eq, List.take_eq_self_iff, not_le]
    omega

/-- A report is written exactly when nothing is missing of what the medium has taken, when it does
not break off, and when the medium can be flushed. -/
theorem Medium.write_eq_ok_iff {m : Medium} {d : Draft} :
    m.write d = .ok () ↔ m.taken d = bytes d.text ∧ d.brokenOff = none ∧ m.flushFails = false := by
  rw [write]
  split
  · next hfull => simp [length_taken_lt_iff.mp hfull]
  · next hfull =>
    rw [length_taken_lt_iff, not_not] at hfull
    cases d.brokenOff <;> simp [hfull]

/-! ### Lines of steps -/

/-- The line of a step, without its line feed. -/
def stepText (time : Nat) (operators : List Operator) : List Char :=
  Numeral.ofNat time ++ ':' :: operators.flatMap fun o => ' ' :: o.label.toList

private theorem stepLine_eq (time : Nat) (operators : List Operator) :
    stepLine time (operators.map (·.label)) = stepText time operators ++ ['\n'] := by
  simp [stepLine, stepText, List.flatMap_map]

/-- The characters of a line are digits, the colon, spaces and those of names. -/
theorem notMem_stepText (hnamed : ∀ o ∈ operators, Declaration.IsNameText o.label.toList)
    (time : Nat) (hdigit : c.isDigit = false) (hcolon : c ≠ ':') (hspace : c ≠ ' ')
    (hname : Declaration.isNameRest c = false) :
    c ∉ stepText time operators := by
  have hnumber : c ∉ Numeral.ofNat time := fun hc => by
    rw [Numeral.isDigit_of_mem_ofNat hc] at hdigit
    cases hdigit
  simp only [stepText, List.mem_append, List.mem_cons, List.mem_flatMap,
    not_or, not_exists, not_and]
  exact ⟨hnumber, hcolon, fun o ho => ⟨hspace, (hnamed o ho).notMem hname⟩⟩

/-- The labels of operators are found again. -/
theorem words_labels (hnamed : ∀ o ∈ operators, Declaration.IsNameText o.label.toList) :
    words (· == ' ') (operators.flatMap fun o => ' ' :: o.label.toList) = operators.map fun o =>
      o.label.toList := by
  have hlabels : ∀ w ∈ operators.map fun o => o.label.toList, w ≠ [] ∧
      ∀ x ∈ w, (x == ' ') = false := by
    refine List.forall_mem_map.mpr fun o ho => ⟨(hnamed o ho).ne_nil, fun x hx => ?_⟩
    rw [beq_eq_false_iff_ne]
    rintro rfl
    exact (hnamed o ho).notMem (by decide) hx
  have hwords : words (· == ' ') ((operators.map fun o => o.label.toList).flatMap (' ' :: ·)) =
      operators.map fun o => o.label.toList := words_flatMap_cons rfl hlabels
  rwa [List.flatMap_map] at hwords

/-- Operators are found by their labels. -/
theorem mapM_operator?_labels (hp : p.WellFormed) (hmem : ∀ o ∈ operators, o ∈ p.operators) :
    (operators.map fun o => o.label.toList).mapM (fun label => p.operator? (String.ofList label)) =
      some operators := by
  induction operators with
  | nil => rfl
  | cons o rest ih =>
    obtain ⟨ho, hrest⟩ := List.forall_mem_cons.mp hmem
    have hlabel : p.operator? (String.ofList o.label.toList) = some o := by
      rw [String.ofList_toList]
      exact hp.operator?_eq_some.mpr ⟨ho, rfl⟩
    rw [List.map_cons, List.mapM_cons, hlabel, ih hrest]
    rfl

/-- A line is read as the step it was written for. -/
theorem step?_stepText (hp : p.WellFormed)
    (hnamed : ∀ o ∈ operators, Declaration.IsNameText o.label.toList)
    (hmem : ∀ o ∈ operators, o ∈ p.operators) (time : Nat) :
    step? p (stepText time operators) = some ⟨time, operators.map (·.id)⟩ := by
  have hnumber : ∀ x ∈ Numeral.ofNat time, decide (x ≠ ':') = true := fun x hx => by
    rw [decide_eq_true_iff]
    rintro rfl
    exact absurd (Numeral.isDigit_of_mem_ofNat hx) (by decide)
  have htake : (stepText time operators).takeWhile (· ≠ ':') = Numeral.ofNat time := by
    rw [stepText, List.takeWhile_append_of_pos hnumber]
    simp
  have hdrop : (stepText time operators).dropWhile (· ≠ ':') =
      ':' :: operators.flatMap fun o => ' ' :: o.label.toList := by
    rw [stepText, List.dropWhile_append_of_pos hnumber]
    simp
  rw [step?, htake, hdrop]
  simp only [words_labels hnamed, mapM_operator?_labels hp hmem, Sat.Dimacs.natural?_ofNat]
  rfl

/-! ### Reports of plans -/

/-- Steps whose operators exist are written in full, one line for each, and can be read off the
lines. -/
theorem exists_texts (hp : p.Built) (hnamed : p.Named)
    (hsteps : ∀ step ∈ steps, ∀ i ∈ step.operators, i < p.nOperators) :
    ∃ texts : List (List Char), stepLines p steps = (texts.flatMap (· ++ ['\n']), none) ∧
      (∀ t ∈ texts, '\n' ∉ t ∧ '\r' ∉ t) ∧ texts.mapM (step? p) = some steps := by
  induction steps with
  | nil => exact ⟨[], rfl, by simp, rfl⟩
  | cons step rest ih =>
    obtain ⟨hstep, hrest⟩ := List.forall_mem_cons.mp hsteps
    obtain ⟨texts, hlines, hfeeds, hread⟩ := ih hrest
    obtain ⟨operators, hresolve⟩ := Problem.exists_resolve_iff.mpr hstep
    have hmem : ∀ o ∈ operators, o ∈ p.operators := fun o ho =>
      ((hp.wellFormed.mem_of_resolve hresolve).mp ho).1
    have hnames : ∀ o ∈ operators, Declaration.IsNameText o.label.toList :=
      fun o ho => hnamed o (hmem o ho)
    have hid := hp.wellFormed.map_id_of_resolve hresolve
    have hfeed : '\n' ∉ stepText step.time operators :=
      notMem_stepText hnames _ (by decide) (by decide) (by decide) (by decide)
    have hreturn : '\r' ∉ stepText step.time operators :=
      notMem_stepText hnames _ (by decide) (by decide) (by decide) (by decide)
    refine ⟨stepText step.time operators :: texts, ?_,
      List.forall_mem_cons.mpr ⟨⟨hfeed, hreturn⟩, hfeeds⟩, ?_⟩
    · rw [stepLines, hresolve]
      simp only [hlines, stepLine_eq, List.flatMap_cons]
    · rw [List.mapM_cons, step?_stepText hp.wellFormed hnames hmem, hread, hid]
      rfl

/-- A plan whose operators exist is read off the bytes of its report. -/
theorem plan?_lines_bytes (hp : p.Built) (hnamed : p.Named)
    (hplan : ∀ step ∈ plan.steps, ∀ i ∈ step.operators, i < p.nOperators) :
    (ofPlan p plan).brokenOff = none ∧ plan? p (lines (bytes (ofPlan p plan).text) none) =
      some plan := by
  obtain ⟨texts, hlines, hfeeds, hread⟩ := exists_texts hp hnamed hplan
  have hheader : "PLAN".toList ++ ['\n'] = "PLAN\n".toList := by decide
  have htext : (ofPlan p plan).text = ("PLAN".toList :: texts).flatMap (· ++ ['\n']) ++ [] := by
    rw [List.append_nil, List.flatMap_cons, hheader, ofPlan, hlines]
  have hall : ∀ t ∈ "PLAN".toList :: texts, '\n' ∉ t ∧ '\r' ∉ t :=
    List.forall_mem_cons.mpr ⟨by decide, hfeeds⟩
  have hchomp : ("PLAN".toList :: texts).map (fun t => (.ok (chomp t) : Line)) =
      .ok "PLAN".toList :: texts.map .ok :=
    List.map_congr_left fun t ht => congrArg Except.ok (chomp_of_notMem (hall t ht).2)
  refine ⟨by rw [ofPlan, hlines], ?_⟩
  rw [bytes_eq_utf8, htext, lines_utf8 (fun t ht => (hall t ht).1) List.not_mem_nil,
    hchomp, if_pos rfl, List.append_nil, plan?, if_pos rfl, List.mapM_map]
  exact congrArg (Option.map Plan.mk) hread

end Report

/-! ### Problems that are read from texts -/

namespace ProblemText

variable {ls : List Line} {p : Problem}

/-- A problem that is read is built by its edits. -/
theorem built_of_read (h : (read ls).problem = .ok p) : p.Built := by
  have hstates := (read_eq_ok_iff.mp h).2
  rw [← map_declaration_located 1 ls] at hstates
  obtain ⟨-, hrecords⟩ := records_of_states hstates
  exact ⟨_, _, (Problem.afterEdits_of_build (Problem.build_eq_ok_iff.mpr hrecords)).symm⟩

/-- The labels of operators are names, since no others are read. -/
theorem named_of_read (h : (read ls).problem = .ok p) : p.Named := by
  intro o ho
  obtain ⟨-, hstates⟩ := read_eq_ok_iff.mp h
  have hlabel : o.label ∈ p.operators.map (·.label) := List.mem_map_of_mem ho
  rw [hstates.operators, List.mem_eraseDups] at hlabel
  obtain ⟨d, hd, hname⟩ := List.mem_filterMap.mp hlabel
  obtain ⟨l, -, hl⟩ := List.mem_filterMap.mp hd
  obtain ⟨chars, -, -, hread⟩ := declaration?_eq_some_iff.mp hl
  have hnamed := (Declaration.read_eq_declaration_iff.mp hread).1
  cases d with
  | operator name =>
    obtain rfl := Option.some.inj hname
    exact hnamed
  | _ => cases hname

end ProblemText

namespace Report

/-- Written plans can be read back. The labels are names in every problem that is read from a text.
Wherever they are, a plan whose operators exist can be written, and whatever medium takes the report
without a failure, the plan is read off the lines of what has been taken. So different plans have
different texts. -/
theorem plan?_lines_taken :
    (∀ ls p, (ProblemText.read ls).problem = .ok p → p.Built ∧ p.Named) ∧
      ∀ p : Problem, p.Built → p.Named →
        ∀ plan : Plan, (∀ step ∈ plan.steps, ∀ i ∈ step.operators, i < p.nOperators) →
          (∃ m : Medium, m.write (ofPlan p plan) = .ok ()) ∧
          (∀ m : Medium, m.write (ofPlan p plan) = .ok () →
            plan? p (lines (m.taken (ofPlan p plan)) none) = some plan) ∧
          ∀ other : Plan, (∀ step ∈ other.steps, ∀ i ∈ step.operators, i < p.nOperators) →
            (ofPlan p other).text = (ofPlan p plan).text → other = plan := by
  refine ⟨fun ls p h => ⟨ProblemText.built_of_read h, ProblemText.named_of_read h⟩, ?_⟩
  intro p hp hnamed plan hplan
  obtain ⟨hwhole, hread⟩ := plan?_lines_bytes hp hnamed hplan
  refine ⟨⟨⟨none, false⟩, ?_⟩, fun m hm => ?_, fun other hother htext => ?_⟩
  · exact Medium.write_eq_ok_iff.mpr ⟨rfl, hwhole, rfl⟩
  · rw [(Medium.write_eq_ok_iff.mp hm).1, hread]
  · obtain ⟨-, hotherRead⟩ := plan?_lines_bytes hp hnamed hother
    rw [htext, hread] at hotherRead
    exact (Option.some.inj hotherRead).symm

/-- The lines of a text that introduces two operators without conditions. -/
def pumps : List Line :=
  ["operator(pump-1).", "fluent(wet).", "operator(_2)."].map fun l => .ok l.toList

/-- The problem of the two operators. -/
def pumping : Problem :=
  Problem.afterEdits (.ofList ["wet"]) [.operator "pump-1" [] [], .operator "_2" [] []]

/-- The order of operators and the largest time are kept. No step at all is a plan as well. -/
theorem plan?_lines_taken_pumping :
    (ProblemText.read pumps).problem = .ok pumping ∧
      (ofPlan pumping ⟨[⟨0, [1, 0]⟩, ⟨18446744073709551615, [0]⟩]⟩).text =
        "PLAN\n0: _2 pump-1\n18446744073709551615: pump-1\n".toList ∧
      plan? pumping (lines (Medium.taken ⟨some 47, false⟩
        (ofPlan pumping ⟨[⟨0, [1, 0]⟩, ⟨18446744073709551615, [0]⟩]⟩)) none) =
          some ⟨[⟨0, [1, 0]⟩, ⟨18446744073709551615, [0]⟩]⟩ ∧
      plan? pumping (lines (Medium.taken ⟨none, false⟩ (ofPlan pumping ⟨[]⟩)) none) = some ⟨[]⟩ ∧
      (ofPlan pumping ⟨[⟨0, [0, 1]⟩]⟩).text ≠ (ofPlan pumping ⟨[⟨0, [1, 0]⟩]⟩).text := by
  obtain ⟨hread, hplans⟩ := plan?_lines_taken
  have hpumps : (ProblemText.read pumps).problem = .ok pumping := by rfl
  obtain ⟨hbuilt, hnamed⟩ := hread pumps pumping hpumps
  obtain ⟨-, htwo, -⟩ := hplans pumping hbuilt hnamed ⟨[⟨0, [1, 0]⟩, ⟨18446744073709551615, [0]⟩]⟩
    (by decide)
  obtain ⟨-, hnone, -⟩ := hplans pumping hbuilt hnamed ⟨[]⟩ (by decide)
  obtain ⟨-, -, hother⟩ := hplans pumping hbuilt hnamed ⟨[⟨0, [1, 0]⟩]⟩ (by decide)
  have hwritten : Medium.write ⟨some 47, false⟩
      (ofPlan pumping ⟨[⟨0, [1, 0]⟩, ⟨18446744073709551615, [0]⟩]⟩) = .ok () := by
    rw [Medium.write_eq_ok_iff, Medium.taken, bytes_eq_utf8]
    exact ⟨List.take_of_length_le (by decide +kernel), rfl, rfl⟩
  have hempty : Medium.write ⟨none, false⟩ (ofPlan pumping ⟨[]⟩) = .ok () :=
    Medium.write_eq_ok_iff.mpr ⟨rfl, rfl, rfl⟩
  refine ⟨hpumps, by decide +kernel, htwo _ hwritten, hnone _ hempty, fun htext => ?_⟩
  exact absurd (hother ⟨[⟨0, [0, 1]⟩]⟩ (by decide) htext) (by decide)

end Report

end HorizonPlanner
