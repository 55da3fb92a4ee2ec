import HorizonPlanner.ProblemText
import HorizonPlanner.Proofs.Builds

/-!
# The problem a text states

What a text says is decided by its declarations. The order of the lines matters for the numbers of
fluents and operators, which follow the lines that introduce them, and for nothing else: conditions
may be stated before the names they use are introduced, for one operator on many lines, and more
than once.
-/

namespace HorizonPlanner

/-- The fluent a declaration introduces. -/
def Declaration.fluentName? : Declaration → Option String
  | .fluent name => some name
  | _ => none

/-- The operator a declaration introduces. -/
def Declaration.operatorName? : Declaration → Option String
  | .operator name => some name
  | _ => none

/-- The names a declaration uses are among these. -/
def Declaration.Uses (fluents operators : List String) : Declaration → Prop
  | .fluent _ | .operator _ => True
  | .precondition o f _ | .effect o f _ => f ∈ fluents ∧ o ∈ operators
  | .initially f _ | .goal f _ => f ∈ fluents

/-- What is known among some names is known among more. -/
theorem Declaration.Uses.mono {fluents fluents' operators operators' : List String}
    {d : Declaration} (h : d.Uses fluents operators) (hf : fluents ⊆ fluents')
    (ho : operators ⊆ operators') :
    d.Uses fluents' operators' := by
  cases d with
  | fluent | operator => trivial
  | precondition | effect => exact ⟨hf h.1, ho h.2⟩
  | initially | goal => exact hf h

namespace ProblemText

open Text

/-- The problem that declarations state. -/
structure States (ds : List Declaration) (p : Problem) : Prop where
  /-- Operators are numbered by position, all conditions are ordered by fluent, at most one for each
  fluent, and the initial state gives a value to every fluent. -/
  wellFormed : p.WellFormed
  /-- The fluents are the different names introduced as fluents, in order of their first
  introduction. -/
  fluents : p.fluents.labels = (ds.filterMap Declaration.fluentName?).eraseDups
  /-- The operators are the different names introduced as operators, in order of their first
  introduction. -/
  operators : p.operators.map (·.label) = (ds.filterMap Declaration.operatorName?).eraseDups
  /-- No name is used that is not introduced. -/
  uses : ∀ d ∈ ds, d.Uses p.fluents.labels (p.operators.map (·.label))
  /-- The preconditions of an operator are those stated for it. -/
  preconditions : ∀ o ∈ p.operators, p.fluents.Collects (fun f b => .precondition o.label f b ∈ ds)
    o.preconditions
  /-- The effects of an operator are those stated for it. -/
  effects : ∀ o ∈ p.operators, p.fluents.Collects (fun f b => .effect o.label f b ∈ ds) o.effects
  /-- A fluent is initially true if this is stated of it, whatever else is. -/
  initial : ∀ f id, p.fluents.idOf? f = some id →
    (p.initial[id]? = some true ↔ .initially f true ∈ ds)
  /-- The goal consists of the conditions stated for it. -/
  goal : p.fluents.Collects (fun f b => .goal f b ∈ ds) p.goal

/-! ### Lines -/

/-- The declaration a line holds, unless the line is skipped or at fault. -/
def declaration? : Line → Option Declaration
  | .error _ => none
  | .ok chars =>
    if isSkipped (trim chars) then none
    else
      match Declaration.read chars with
      | .declaration d => some d
      | _ => none

/-- The line is skipped or holds a declaration. -/
def Understood : Line → Prop
  | .error _ => False
  | .ok chars => isSkipped (trim chars) = true ∨ ∃ d, Declaration.read chars = .declaration d

/-- The declarations of a text. -/
def declarations (ls : List Line) : List Declaration :=
  ls.filterMap declaration?

variable {ls ls' : List Line} {l : Line} {ds : List Located} {p : Problem} {number : Nat}

/-- The declaration of a line is what a line that is not skipped is read as. -/
theorem declaration?_eq_some_iff {d : Declaration} : declaration? l = some d ↔
    ∃ chars, l = .ok chars ∧ isSkipped (trim chars) = false ∧
      Declaration.read chars = .declaration d := by
  cases l with
  | error why => simp [declaration?]
  | ok chars =>
    by_cases hskip : isSkipped (trim chars) = true
    · simp [declaration?, hskip]
    · cases hread : Declaration.read chars <;> simp [declaration?, hskip, hread]

/-- A line that is understood gives its declaration, if it has one, and its number. -/
theorem readLine_eq_ok_iff {read? : Option Located} :
    readLine number l = .ok read? ↔ Understood l ∧ read? = (declaration? l).map (⟨number, ·⟩) := by
  unfold readLine declaration? Understood
  cases l with
  | error why => simp
  | ok chars =>
    by_cases hskip : isSkipped (trim chars) = true
    · simp [hskip, eq_comm]
    · cases hread : Declaration.read chars with
      | declaration d => simp [hskip, hread, eq_comm (b := read?)]
      | badArguments keyword => simp [hskip, hread]
      | shapeless => simp [hskip, hread]

/-- Lines are read exactly when all of them are understood, and give their declarations. -/
theorem readLines_eq_ok (h : (readLines number ls).2 = .ok ds) :
    (∀ l ∈ ls, Understood l) ∧ ds.map (·.declaration) = declarations ls := by
  induction ls generalizing number ds with
  | nil =>
    cases h
    simp [declarations]
  | cons l rest ih =>
    unfold readLines at h
    split at h
    · cases h
    · next hline =>
      obtain ⟨hl, hnone⟩ := readLine_eq_ok_iff.mp hline
      obtain ⟨hrest, hds⟩ := ih h
      rw [eq_comm, Option.map_eq_none_iff] at hnone
      exact ⟨List.forall_mem_cons.mpr ⟨hl, hrest⟩,
        by rw [hds, declarations, declarations, List.filterMap_cons, hnone]⟩
    · next d hline =>
      obtain ⟨hl, hsome⟩ := readLine_eq_ok_iff.mp hline
      cases hds : (readLines (number + 1) rest).2 with
      | error f => simp [hds, Except.map] at h
      | ok others =>
        simp only [hds, Except.map, Except.ok.injEq] at h
        subst h
        obtain ⟨hrest, hothers⟩ := ih hds
        obtain ⟨e, he, rfl⟩ := Option.map_eq_some_iff.mp hsome.symm
        exact ⟨List.forall_mem_cons.mpr ⟨hl, hrest⟩,
          by rw [List.map_cons, hothers, declarations, declarations, List.filterMap_cons, he]⟩

private theorem exists_readLines (h : ∀ l ∈ ls, Understood l) (number : Nat) :
    ∃ ds, (readLines number ls).2 = .ok ds := by
  induction ls generalizing number with
  | nil => exact ⟨[], rfl⟩
  | cons l rest ih =>
    obtain ⟨hl, hrest⟩ := List.forall_mem_cons.mp h
    obtain ⟨ds, hds⟩ := ih hrest (number + 1)
    have hline : readLine number l = .ok ((declaration? l).map (⟨number, ·⟩)) :=
      readLine_eq_ok_iff.mpr ⟨hl, rfl⟩
    unfold readLines
    rw [hline]
    cases declaration? l with
    | none => exact ⟨ds, hds⟩
    | some d => exact ⟨⟨number, d⟩ :: ds, by simp [hds, Except.map]⟩

/-! ### Names -/

/-- The names of the fluents are those of the declarations, wherever these stand. -/
theorem fluentNames_eq (ds : List Located) :
    fluentNames ds = (ds.map (·.declaration)).filterMap Declaration.fluentName? := by
  rw [List.filterMap_map]
  exact List.filterMap_congr fun d _ => by cases h : d.declaration <;>
    simp [h, Declaration.fluentName?]

/-- The names of the operators are those of the declarations, wherever these stand. -/
theorem operatorNames_eq (ds : List Located) :
    operatorNames ds = (ds.map (·.declaration)).filterMap Declaration.operatorName? := by
  rw [List.filterMap_map]
  exact List.filterMap_congr fun d _ => by cases h : d.declaration <;>
    simp [h, Declaration.operatorName?]

/-- A declaration is at fault unless the names it uses are introduced. -/
theorem undeclared?_eq_none_iff {fluents operators : List String} {d : Located} :
    undeclared? fluents operators d = none ↔ d.declaration.Uses fluents operators := by
  unfold undeclared? Declaration.Uses
  cases d.declaration <;> simp

/-! ### Edits -/

/-- The edits that add the goal. -/
def goalEdits (ds : List Located) : List Edit :=
  ds.filterMap fun d =>
    match d.declaration with
    | .goal f polarity => some (.goal f polarity)
    | _ => none

/-- Adding the goal line by line is a series of edits. -/
theorem addGoals_eq_ok_iff {q : Problem} :
    addGoals p ds = .ok q ↔ (goalEdits ds).foldlM Problem.edit p = .ok q := by
  induction ds generalizing p with
  | nil => simp [addGoals, goalEdits, pure, Except.pure]
  | cons d rest ih =>
    obtain ⟨line, d⟩ := d
    cases d with
    | goal f polarity =>
      have hedits : goalEdits (⟨line, .goal f polarity⟩ :: rest) =
          .goal f polarity :: goalEdits rest := rfl
      rw [hedits, List.foldlM_cons, addGoals]
      cases hadd : p.edit (.goal f polarity) with
      | error reason => simp [hadd, bind, Except.bind]
      | ok next =>
        simp only [hadd]
        exact ih
    | fluent name => exact ih
    | operator name => exact ih
    | precondition o f polarity => exact ih
    | effect o f polarity => exact ih
    | initially f polarity => exact ih

/-- Declarations make a problem exactly when all they name is declared and the edits they ask for
succeed. -/
theorem assemble_eq_ok_iff :
    assemble ds = .ok p ↔
      (∀ d ∈ ds, d.declaration.Uses (FluentSet.ofList (fluentNames ds)).labels (operatorNames ds)) ∧
        Problem.Records (FluentSet.ofList (fluentNames ds)) (edits ds ++ goalEdits ds) p := by
  unfold assemble
  simp only
  split
  · next f hfault =>
    obtain ⟨d, hd, hfault⟩ := List.exists_of_findSome?_eq_some hfault
    simp only [reduceCtorEq, false_iff, not_and]
    intro huses
    rw [undeclared?_eq_none_iff.mpr (huses d hd)] at hfault
    cases hfault
  · next hnone =>
    have huses : ∀ d ∈ ds, d.declaration.Uses (FluentSet.ofList (fluentNames ds)).labels
        (operatorNames ds) :=
      fun d hd => undeclared?_eq_none_iff.mp (List.findSome?_eq_none_iff.mp hnone d hd)
    rw [and_iff_right huses, ← Problem.build_eq_ok_iff, Problem.build, Problem.build,
      List.foldlM_append, bind_eq_ok_iff]
    simp only [← addGoals_eq_ok_iff]
    cases (edits ds).foldlM Problem.edit (Problem.ofFluents (FluentSet.ofList (fluentNames ds))) <;>
      simp

/-! ### Declarations and edits -/

variable {f o : String} {polarity : Bool}

/-- The preconditions of an operator are those that are declared. -/
theorem mem_preconditionsOf :
    (f, polarity) ∈ preconditionsOf ds o ↔ .precondition o f polarity ∈ ds.map (·.declaration) := by
  rw [preconditionsOf, List.mem_filterMap, List.mem_map]
  refine exists_congr fun d => and_congr_right fun _ => ?_
  cases d.declaration <;> simp

/-- The effects of an operator are those that are declared. -/
theorem mem_effectsOf :
    (f, polarity) ∈ effectsOf ds o ↔ .effect o f polarity ∈ ds.map (·.declaration) := by
  rw [effectsOf, List.mem_filterMap, List.mem_map]
  refine exists_congr fun d => and_congr_right fun _ => ?_
  cases d.declaration <;> simp

/-- The fluents that are true at first are those that are declared to be. -/
theorem mem_initiallyTrue : f ∈ initiallyTrue ds ↔ .initially f true ∈ ds.map (·.declaration) := by
  rw [initiallyTrue, List.mem_filterMap, List.mem_map]
  refine exists_congr fun d => and_congr_right fun _ => ?_
  cases d.declaration with
  | initially name value => cases value <;> simp
  | _ => simp

private theorem mem_goalEdits {e : Edit} :
    e ∈ goalEdits ds ↔ ∃ f polarity, .goal f polarity ∈ ds.map (·.declaration) ∧
      e = .goal f polarity := by
  rw [goalEdits, List.mem_filterMap]
  constructor
  · rintro ⟨d, hd, hedit⟩
    cases hdeclaration : d.declaration with
    | goal f polarity =>
      rw [hdeclaration, Option.some.injEq] at hedit
      exact ⟨f, polarity, List.mem_map.mpr ⟨d, hd, hdeclaration⟩, hedit.symm⟩
    | _ => simp [hdeclaration] at hedit
  · rintro ⟨f, polarity, hmem, rfl⟩
    obtain ⟨d, hd, hdeclaration⟩ := List.mem_map.mp hmem
    exact ⟨d, hd, by rw [hdeclaration]⟩

/-- Every operator is added once, with all that is stated for it. -/
theorem operator_mem_edits {preconditions effects : List LabelledCondition} :
    .operator o preconditions effects ∈ edits ds ++ goalEdits ds ↔
      o ∈ operatorNames ds ∧ preconditions = preconditionsOf ds o ∧ effects = effectsOf ds o := by
  simp only [edits, List.mem_append, List.mem_map, List.mem_eraseDups, mem_goalEdits]
  constructor
  · rintro ((⟨name, hname, hedit⟩ | ⟨name, -, hedit⟩) | ⟨name, value, -, hedit⟩)
    · obtain ⟨rfl, rfl, rfl⟩ := Edit.operator.inj hedit
      exact ⟨hname, rfl, rfl⟩
    · cases hedit
    · cases hedit
  · rintro ⟨hname, rfl, rfl⟩
    exact .inl (.inl ⟨o, hname, rfl⟩)

private theorem initiallyTrue_mem_edits :
    .initiallyTrue f ∈ edits ds ++ goalEdits ds ↔ .initially f true ∈ ds.map (·.declaration) := by
  simp [edits, mem_goalEdits, mem_initiallyTrue]

/-- The goals among the edits are those that are declared. -/
theorem goal_mem_edits {ds' : List Located} :
    .goal f polarity ∈ edits ds ++ goalEdits ds' ↔ .goal f polarity ∈ ds'.map (·.declaration) := by
  simp [edits, mem_goalEdits]

/-- The operators are added in order of their first introduction. -/
theorem filterMap_operatorLabel?_edits (ds : List Located) :
    (edits ds ++ goalEdits ds).filterMap Edit.operatorLabel? = (operatorNames ds).eraseDups := by
  have hgoal : (goalEdits ds).filterMap Edit.operatorLabel? = [] := by
    refine List.filterMap_eq_nil_iff.mpr fun e he => ?_
    obtain ⟨f, polarity, -, rfl⟩ := mem_goalEdits.mp he
    rfl
  simp [edits, List.filterMap_append, List.filterMap_map, hgoal, Function.comp_def,
    Edit.operatorLabel?]

/-- What the edits record is what the declarations state. -/
theorem states_of_records (huses :
      ∀ d ∈ ds, d.declaration.Uses (FluentSet.ofList (fluentNames ds)).labels (operatorNames ds))
      (h : Problem.Records (FluentSet.ofList (fluentNames ds)) (edits ds ++ goalEdits ds) p) :
    States (ds.map (·.declaration)) p := by
  have hoperators : p.operators.map (·.label) = (operatorNames ds).eraseDups :=
    h.labels_eq.trans (filterMap_operatorLabel?_edits ds)
  have hconditions : ∀ o ∈ p.operators,
      p.fluents.Collects (fun f b => .precondition o.label f b ∈ ds.map (·.declaration))
        o.preconditions ∧
        p.fluents.Collects (fun f b => .effect o.label f b ∈ ds.map (·.declaration)) o.effects :=
          fun o ho => by
    have hname : o.label ∈ operatorNames ds :=
      List.mem_eraseDups.mp (hoperators ▸ List.mem_map_of_mem (f := (·.label)) ho)
    obtain ⟨added, hadded, hlabel, hpre, heff⟩ :=
      h.operators _ _ _ (operator_mem_edits.mpr ⟨hname, rfl, rfl⟩)
    obtain rfl := h.eq_of_label_eq hadded ho hlabel
    rw [h.fluents_eq]
    exact ⟨hpre.congr fun _ _ => mem_preconditionsOf, heff.congr fun _ _ => mem_effectsOf⟩
  refine ⟨h.wellFormed, ?_, ?_, ?_, fun o ho => (hconditions o ho).1,
    fun o ho => (hconditions o ho).2, ?_, ?_⟩
  · rw [h.fluents_eq, FluentSet.labels_ofList, fluentNames_eq]
  · rw [hoperators, operatorNames_eq]
  · rw [h.fluents_eq, hoperators]
    exact List.forall_mem_map.mpr fun d hd =>
      (huses d hd).mono (List.Subset.refl _) fun o ho => List.mem_eraseDups.mpr ho
  · intro f id hid
    rw [h.fluents_eq] at hid
    rw [h.initial, ← initiallyTrue_mem_edits]
    constructor
    · rintro ⟨name, hname, hmem⟩
      rwa [FluentSet.eq_of_idOf?_eq hid hname]
    · exact fun hmem => ⟨f, hid, hmem⟩
  · rw [h.fluents_eq]
    exact h.goal.congr fun _ _ => goal_mem_edits

/-- What the declarations state is what the edits record. -/
theorem records_of_states (h : States (ds.map (·.declaration)) p) :
    (∀ d ∈ ds, d.declaration.Uses (FluentSet.ofList (fluentNames ds)).labels (operatorNames ds)) ∧
      Problem.Records (FluentSet.ofList (fluentNames ds)) (edits ds ++ goalEdits ds) p := by
  have hlabels : p.fluents.labels = (FluentSet.ofList (fluentNames ds)).labels := by
    rw [h.fluents, FluentSet.labels_ofList, fluentNames_eq]
  have hfluents : p.fluents = FluentSet.ofList (fluentNames ds) := FluentSet.eq_of_labels_eq hlabels
  have hnodup : p.fluents.labels.Nodup := hlabels ▸ FluentSet.nodup_labels_ofList _
  have hoperators : p.operators.map (·.label) = (operatorNames ds).eraseDups := by
    rw [h.operators, operatorNames_eq]
  rw [← hfluents]
  refine ⟨fun d hd => ?_, h.wellFormed, rfl, ?_, ?_, ?_, ?_, ?_⟩
  · refine (h.uses _ (List.mem_map_of_mem hd)).mono (List.Subset.refl _) fun o ho => ?_
    exact List.mem_eraseDups.mp (hoperators ▸ ho)
  · rw [hoperators, filterMap_operatorLabel?_edits]
  · intro label preconditions effects hmem
    obtain ⟨hname, rfl, rfl⟩ := operator_mem_edits.mp hmem
    obtain ⟨o, ho, rfl⟩ : ∃ o ∈ p.operators, o.label = label :=
      List.mem_map.mp (hoperators ▸ List.mem_eraseDups.mpr hname)
    exact ⟨o, ho, rfl, (h.preconditions o ho).congr fun _ _ => mem_preconditionsOf.symm,
      (h.effects o ho).congr fun _ _ => mem_effectsOf.symm⟩
  · intro label hmem
    exact FluentSet.exists_idOf?_iff.mpr (h.uses _ (initiallyTrue_mem_edits.mp hmem))
  · intro id
    constructor
    · intro htrue
      have hlt : id < p.fluents.labels.length := by
        rw [FluentSet.length_labels]
        exact Nat.lt_of_lt_of_eq (Array.getElem?_eq_some_iff.mp htrue).1 h.wellFormed.initial_size
      have hid : p.fluents.idOf? p.fluents.labels[id] = some id :=
        (FluentSet.idOf?_eq_some_iff hnodup).mpr (List.getElem?_eq_getElem hlt)
      exact ⟨_, hid, initiallyTrue_mem_edits.mpr ((h.initial _ id hid).mp htrue)⟩
    · rintro ⟨label, hid, hmem⟩
      exact (h.initial label id hid).mpr (initiallyTrue_mem_edits.mp hmem)
  · exact h.goal.congr fun _ _ => goal_mem_edits.symm

/-- The declarations of a text are put together exactly to the problem they state. -/
theorem assemble_eq_ok_iff_states : assemble ds = .ok p ↔ States (ds.map (·.declaration)) p :=
  assemble_eq_ok_iff.trans ⟨fun h => states_of_records h.1 h.2, records_of_states⟩

/-! ### The whole text -/

/-- The declarations of all lines are put together once the last line is read. -/
theorem problem_read (ls : List Line) : (read ls).problem = (readLines 1 ls).2.bind assemble := by
  unfold read
  match readLines 1 ls with
  | (_, .error _) => rfl
  | (_, .ok _) => rfl

/-- A text is read exactly when all its lines are understood and its declarations state a problem,
and gives this problem. -/
theorem read_eq_ok_iff :
    (read ls).problem = .ok p ↔ (∀ l ∈ ls, Understood l) ∧ States (declarations ls) p := by
  rw [problem_read]
  cases hlines : (readLines 1 ls).2 with
  | error f =>
    simp only [Except.bind, reduceCtorEq, false_iff, not_and]
    intro hunderstood
    obtain ⟨ds, hds⟩ := exists_readLines hunderstood 1
    rw [hlines] at hds
    cases hds
  | ok ds =>
    obtain ⟨hunderstood, hds⟩ := readLines_eq_ok hlines
    rw [and_iff_right hunderstood, ← hds]
    exact assemble_eq_ok_iff_states

/-- What declarations state depends on which they are, and on the order in which names are
introduced. -/
theorem States.congr {ds ds' : List Declaration} (h : States ds p) (hmem : ∀ d, d ∈ ds ↔ d ∈ ds')
    (hfluents : ds.filterMap Declaration.fluentName? = ds'.filterMap Declaration.fluentName?)
    (hoperators : ds.filterMap Declaration.operatorName? =
      ds'.filterMap Declaration.operatorName?) :
    States ds' p where
  wellFormed := h.wellFormed
  fluents := hfluents ▸ h.fluents
  operators := hoperators ▸ h.operators
  uses d hd := h.uses d ((hmem d).mpr hd)
  preconditions o ho := (h.preconditions o ho).congr fun _ _ => hmem _
  effects o ho := (h.effects o ho).congr fun _ _ => hmem _
  initial f id hid := (h.initial f id hid).trans (hmem _)
  goal := h.goal.congr fun _ _ => hmem _

/-- Lines may be exchanged, if fluents and operators are introduced in the same order. -/
theorem read_of_perm (hperm : ls.Perm ls')
    (hfluents : (declarations ls).filterMap Declaration.fluentName? =
      (declarations ls').filterMap Declaration.fluentName?)
    (hoperators : (declarations ls).filterMap Declaration.operatorName? =
      (declarations ls').filterMap Declaration.operatorName?)
    (h : (read ls).problem = .ok p) : (read ls').problem = .ok p := by
  obtain ⟨hunderstood, hstates⟩ := read_eq_ok_iff.mp h
  have hmem : ∀ d, d ∈ declarations ls ↔ d ∈ declarations ls' := fun d =>
    (hperm.filterMap declaration?).mem_iff
  exact read_eq_ok_iff.mpr ⟨fun l hl => hunderstood l (hperm.mem_iff.mpr hl),
    hstates.congr hmem hfluents hoperators⟩

/-- A problem that is read from a text is the one the declarations of the text state, wherever they
stand. Of two texts with the same lines that introduce fluents in the same order, and operators in
the same order, both give the same problem or none gives any. -/
theorem read_states_and_perm (ls : List Line) :
    (∀ p, (read ls).problem = .ok p → States (declarations ls) p) ∧
      ∀ ls', ls.Perm ls' →
        (declarations ls).filterMap Declaration.fluentName? =
          (declarations ls').filterMap Declaration.fluentName? →
        (declarations ls).filterMap Declaration.operatorName? =
          (declarations ls').filterMap Declaration.operatorName? →
        ∀ p, (read ls).problem = .ok p ↔ (read ls').problem = .ok p :=
  ⟨fun _ h => (read_eq_ok_iff.mp h).2, fun _ hperm hfluents hoperators _ =>
    ⟨read_of_perm hperm hfluents hoperators, read_of_perm hperm.symm hfluents.symm hoperators.symm⟩⟩

/-- The lines of a text that uses names before it introduces them. -/
def earlyUses : List Line :=
  ["goal(-a).", "eff(o, -a).", "% nothing", "init(a).", "pre(o, a).", "operator(o).",
    "fluent(b).", "init(-a).",
    "fluent(a).", "fluent(b)."].map fun l => .ok l.toList

/-- The problem these lines state. -/
def earlyUsesProblem : Problem where
  fluents := .ofList ["b", "a"]
  operators := [⟨0, "o", [⟨1, true⟩], [⟨1, false⟩]⟩]
  operatorIds := .ofLabels ["o"]
  initial := #[false, true]
  goal := [⟨1, false⟩]

/-- Names may be used before they are declared, and the order of the lines does not matter. -/
theorem read_states_and_perm_earlyUses :
    (read earlyUses).problem = .ok earlyUsesProblem ∧
      States (declarations earlyUses) earlyUsesProblem ∧
      (read earlyUses.reverse).problem = .ok earlyUsesProblem := by
  have hread : (read earlyUses).problem = .ok earlyUsesProblem := by rfl
  obtain ⟨hstates, hperm⟩ := read_states_and_perm earlyUses
  refine ⟨hread, hstates _ hread, (hperm _ (List.reverse_perm _).symm ?_ ?_ _).mp hread⟩
  · decide +kernel
  · decide +kernel

end ProblemText

end HorizonPlanner
