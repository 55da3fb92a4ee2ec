import HorizonPlanner.Proofs.ProblemText.Accesses
import HorizonPlanner.Proofs.ProblemText.Content

/-!
# Why a text is not read

A text that states no problem is rejected for the first fault of the first of four rounds in which
there is one: lines that cannot be understood, names that are declared nowhere, operators with
contradictory conditions, and goals that contradict each other. A round is about the whole text, so
that a late line may be reported although an earlier one is at fault as well.
-/

namespace HorizonPlanner

/-- The fluent a declaration is about, if it does not introduce it. -/
def Declaration.usedFluent? : Declaration → Option String
  | .fluent _ | .operator _ => none
  | .precondition _ f _ | .effect _ f _ | .initially f _ | .goal f _ => some f

/-- The operator a declaration is about, if it does not introduce it. -/
def Declaration.usedOperator? : Declaration → Option String
  | .precondition o _ _ | .effect o _ _ => some o
  | .fluent _ | .operator _ | .initially _ _ | .goal _ _ => none

namespace ProblemText

open Text

/-! ### Faults -/

/-- The declaration of the line at this position. -/
def declarationAt? (ls : List Line) (n : Nat) : Option Declaration :=
  ls[n]?.bind declaration?

/-- What is wrong with the line at this position, whatever the others are. -/
inductive Misread (ls : List Line) (n : Nat) : LineFault → Prop
  /-- The line cannot be read, be it a comment or not. -/
  | unreadable {why : StreamFault} : ls[n]? = some (.error why) → Misread ls n (.unreadable why)
  /-- The line is not skipped, and has no shape of a declaration. -/
  | shapeless {chars : List Char} : ls[n]? = some (.ok chars) → isSkipped (trim chars) = false →
    Declaration.read chars = .shapeless → Misread ls n (.shapeless (String.ofList (trim chars)))
  /-- The line is not skipped, and its arguments do not fit its keyword. -/
  | badArguments {chars : List Char} {keyword : Keyword} : ls[n]? = some (.ok chars) →
    isSkipped (trim chars) = false → Declaration.read chars = .badArguments keyword →
    Misread ls n (.badArguments keyword (String.ofList (trim chars)))

/-- The line at this position uses a name that no line introduces. Its fluent counts before its
operator. -/
inductive Undeclared (ls : List Line) (n : Nat) : LineFault → Prop
  /-- The fluent is introduced nowhere. -/
  | fluent {d : Declaration} {f : String} : declarationAt? ls n = some d → d.usedFluent? = some f →
    .fluent f ∉ declarations ls → Undeclared ls n (.undeclaredFluent f)
  /-- The operator is introduced nowhere, but the fluent is. -/
  | operator {d : Declaration} {o : String} : declarationAt? ls n = some d →
    (∀ f, d.usedFluent? = some f → .fluent f ∈ declarations ls) → d.usedOperator? = some o →
    .operator o ∉ declarations ls → Undeclared ls n (.undeclaredOperator o)

/-- A fluent is required to be both true and false. -/
def Contradictory (ds : List Declaration) (stated : String → Bool → Declaration) (f : String) :
    Prop :=
  stated f true ∈ ds ∧ stated f false ∈ ds

/-- What is wrong with the conditions stated for an operator. Its preconditions count before its
effects. -/
inductive OperatorFault (ds : List Declaration) (o : String) : Refusal → Prop
  /-- The preconditions are contradictory. -/
  | preconditions {f : String} : Contradictory ds (.precondition o) f →
    OperatorFault ds o (.preconditions o (.contradictory f))
  /-- The effects are contradictory, but the preconditions are not. -/
  | effects {f : String} :
      (∀ g, ¬ Contradictory ds (.precondition o) g) → Contradictory ds (.effect o) f →
    OperatorFault ds o (.effects o (.contradictory f))

/-- The goal of the line at this position contradicts one of an earlier line. -/
inductive Contradicted (ls : List Line) (n : Nat) : LineFault → Prop
  /-- The earlier line requires the other truth value. -/
  | goal {m : Nat} {f : String} {polarity : Bool} :
      declarationAt? ls n = some (.goal f polarity) → m < n →
    declarationAt? ls m = some (.goal f !polarity) →
      Contradicted ls n (.refused (.goalContradiction f))

/-- A fault of the first line that is at fault. -/
structure FirstFault (faulty : Nat → LineFault → Prop) (n : Nat) (fault : LineFault) : Prop where
  /-- The line has this fault. -/
  found : faulty n fault
  /-- No line before it has any. -/
  before : ∀ m < n, ∀ fault', ¬ faulty m fault'

variable {ls : List Line} {l : Line} {ds ds₁ ds₂ : List Located} {d : Located}
    {n number : Nat} {f : Failure}
  {fault : LineFault} {p q : Problem}

/-! ### Lines that cannot be understood -/

/-- A line is misread exactly when it is not understood. -/
theorem exists_misread_iff :
    (∃ fault, Misread ls n fault) ↔ ∃ l, ls[n]? = some l ∧ ¬ Understood l := by
  constructor
  · rintro ⟨fault, h⟩
    cases h with
    | unreadable hl => exact ⟨_, hl, id⟩
    | shapeless hl hskip hread => exact ⟨_, hl, by simp [Understood, hskip, hread]⟩
    | badArguments hl hskip hread => exact ⟨_, hl, by simp [Understood, hskip, hread]⟩
  · rintro ⟨l, hl, hnot⟩
    cases l with
    | error why => exact ⟨_, .unreadable hl⟩
    | ok chars =>
      obtain ⟨hskip, hnone⟩ := not_or.mp hnot
      rw [Bool.not_eq_true] at hskip
      cases hread : Declaration.read chars with
      | declaration d => exact absurd ⟨d, hread⟩ hnone
      | badArguments keyword => exact ⟨_, .badArguments hl hskip hread⟩
      | shapeless => exact ⟨_, .shapeless hl hskip hread⟩

private theorem forall_understood_iff :
    (∀ l ∈ ls, Understood l) ↔ ∀ n fault, ¬ Misread ls n fault := by
  constructor
  · intro h n fault hfault
    obtain ⟨l, hl, hnot⟩ := exists_misread_iff.mp ⟨fault, hfault⟩
    exact hnot (h l (List.mem_of_getElem? hl))
  · intro h l hl
    obtain ⟨n, hn⟩ := List.mem_iff_getElem?.mp hl
    by_contra hnot
    obtain ⟨fault, hfault⟩ := exists_misread_iff.mpr ⟨l, hn, hnot⟩
    exact h n fault hfault

instance : DecidablePred Understood
  | .error _ => .isFalse id
  | .ok chars =>
    if hskip : isSkipped (trim chars) = true then .isTrue (.inl hskip)
    else
      match hread : Declaration.read chars with
      | .declaration d => .isTrue (.inr ⟨d, hread⟩)
      | .badArguments _ => .isFalse (by simp [Understood, hskip, hread])
      | .shapeless => .isFalse (by simp [Understood, hskip, hread])

private theorem exists_misread_of_readLine (hl : ls[n]? = some l)
    (h : readLine number l = .error f) :
    ∃ fault, f = .line number fault ∧ Misread ls n fault := by
  unfold readLine at h
  cases l with
  | error why =>
    cases h
    exact ⟨_, rfl, .unreadable hl⟩
  | ok chars =>
    simp only at h
    split at h
    · cases h
    · next hskip =>
      rw [Bool.not_eq_true] at hskip
      split at h
      · cases h
      · next keyword hread =>
        cases h
        exact ⟨_, rfl, .badArguments hl hskip hread⟩
      · next hread =>
        cases h
        exact ⟨_, rfl, .shapeless hl hskip hread⟩

/-- Lines are read up to the first that is not understood. -/
theorem exists_readLine_eq_error (h : (readLines number ls).2 = .error f) :
    ∃ before l after, ls = before ++ l :: after ∧ (∀ l ∈ before, Understood l) ∧
      readLine (number + before.length) l = .error f := by
  induction ls generalizing number with
  | nil => cases h
  | cons l rest ih =>
    have hlater : (readLines (number + 1) rest).2 = .error f → Understood l →
        ∃ before l' after, l :: rest = before ++ l' :: after ∧ (∀ l ∈ before, Understood l) ∧
          readLine (number + before.length) l' = .error f := fun hrest hl => by
      obtain ⟨before, l', after, rfl, hbefore, hline⟩ := ih hrest
      refine ⟨l :: before, l', after, rfl, List.forall_mem_cons.mpr ⟨hl, hbefore⟩, ?_⟩
      rwa [List.length_cons, Nat.add_comm before.length, ← Nat.add_assoc]
    unfold readLines at h
    split at h
    · next f' hline =>
      cases h
      exact ⟨[], l, rest, rfl, by simp, hline⟩
    · next hline => exact hlater h (readLine_eq_ok_iff.mp hline).1
    · next d hline =>
      cases hrest : (readLines (number + 1) rest).2 with
      | error f' =>
        simp only [hrest, Except.map, Except.error.injEq] at h
        exact hlater (hrest.trans (congrArg _ h)) (readLine_eq_ok_iff.mp hline).1
      | ok others => simp [hrest, Except.map] at h

/-- Reading the lines stops at the first one that is misread. -/
theorem firstFault_of_readLines (h : (readLines 1 ls).2 = .error f) :
    ∃ n fault, f = .line (n + 1) fault ∧ FirstFault (Misread ls) n fault := by
  obtain ⟨before, l, after, hls, hbefore, hline⟩ := exists_readLine_eq_error h
  have hl : ls[before.length]? = some l := by rw [hls]; simp
  obtain ⟨fault, rfl, hfault⟩ := exists_misread_of_readLine hl hline
  refine ⟨before.length, fault, by rw [Nat.add_comm], hfault, fun m hm fault' hfault' => ?_⟩
  obtain ⟨l', hl', hnot⟩ := exists_misread_iff.mp ⟨fault', hfault'⟩
  rw [hls, List.getElem?_append_left hm] at hl'
  exact hnot (hbefore l' (List.mem_of_getElem? hl'))

/-! ### Declarations and their lines -/

/-- The declarations of lines that are numbered from this number on. -/
def located (number : Nat) (ls : List Line) : List Located :=
  (ls.zipIdx number).filterMap fun e => (declaration? e.1).map (⟨e.2, ·⟩)

/-- If no line is misread, the declarations are those of all lines. -/
theorem readLines_eq_located (h : (readLines number ls).2 = .ok ds) : ds = located number ls := by
  induction ls generalizing number ds with
  | nil =>
    cases h
    rfl
  | cons l rest ih =>
    rw [located, List.zipIdx_cons, List.filterMap_cons, ← located]
    unfold readLines at h
    split at h
    · cases h
    · next hline =>
      rw [← (readLine_eq_ok_iff.mp hline).2]
      exact ih h
    · next d hline =>
      rw [← (readLine_eq_ok_iff.mp hline).2]
      cases hrest : (readLines (number + 1) rest).2 with
      | error f => simp [hrest, Except.map] at h
      | ok others =>
        simp only [hrest, Except.map, Except.ok.injEq] at h
        rw [← h, ih hrest]

/-- The located declarations are those of the lines, which are numbered from one. -/
theorem mem_located_iff :
    d ∈ located 1 ls ↔ ∃ n, d.line = n + 1 ∧ declarationAt? ls n = some d.declaration := by
  rw [located, List.mem_filterMap]
  constructor
  · rintro ⟨⟨l, number⟩, hmem, hd⟩
    obtain ⟨hle, hl⟩ := List.mem_zipIdx_iff_le_and_getElem?_sub.mp hmem
    obtain ⟨e, he, rfl⟩ := Option.map_eq_some_iff.mp hd
    refine ⟨number - 1, (Nat.sub_add_cancel hle).symm, ?_⟩
    rw [declarationAt?, hl]
    exact he
  · rintro ⟨n, hline, hdeclaration⟩
    obtain ⟨l, hl, hd⟩ := Option.bind_eq_some_iff.mp hdeclaration
    refine ⟨(l, n + 1), List.mem_zipIdx_iff_le_and_getElem?_sub.mpr ⟨Nat.le_add_left 1 n, hl⟩, ?_⟩
    rw [hd, Option.map_some, ← hline]

/-- Without their places, the located declarations are the declarations. -/
theorem map_declaration_located (number : Nat) (ls : List Line) :
    (located number ls).map (·.declaration) = declarations ls := by
  have hlines : declarations ls = (ls.zipIdx number).filterMap (declaration? ∘ Prod.fst) := by
    rw [← List.filterMap_map, List.zipIdx_map_fst, declarations]
  rw [hlines, located, List.map_filterMap]
  refine List.filterMap_congr fun e _ => ?_
  rw [Option.map_map, Function.comp_apply]
  exact Option.map_id'

/-- Located declarations come in the order of their lines. -/
theorem pairwise_located (number : Nat) (ls : List Line) :
    (located number ls).Pairwise (·.line < ·.line) := by
  have hnumbers : (ls.zipIdx number).Pairwise (·.2 < ·.2) := by
    rw [← List.pairwise_map, List.zipIdx_map_snd]
    exact List.pairwise_lt_range' 1
  refine hnumbers.filterMap _ fun e e' hlt d hd d' hd' => ?_
  obtain ⟨_, -, rfl⟩ := Option.map_eq_some_iff.mp hd
  obtain ⟨_, -, rfl⟩ := Option.map_eq_some_iff.mp hd'
  exact hlt

/-- The declarations in front of one are those of the lines before its line. -/
theorem exists_position (h : located 1 ls = ds₁ ++ d :: ds₂) :
    ∃ n, d.line = n + 1 ∧ declarationAt? ls n = some d.declaration ∧
      ∀ m e, declarationAt? ls m = some e → (m < n ↔ ⟨m + 1, e⟩ ∈ ds₁) := by
  obtain ⟨n, hline, hdeclaration⟩ :=
    mem_located_iff.mp (h ▸ List.mem_append_right ds₁ List.mem_cons_self)
  refine ⟨n, hline, hdeclaration, fun m e he => ?_⟩
  have hpairwise := pairwise_located 1 ls
  rw [h, List.pairwise_append, List.pairwise_cons] at hpairwise
  obtain ⟨-, ⟨hbehind, -⟩, hfront⟩ := hpairwise
  constructor
  · intro hm
    have hmem : ⟨m + 1, e⟩ ∈ ds₁ ++ d :: ds₂ := h ▸ mem_located_iff.mpr ⟨m, rfl, he⟩
    rcases List.mem_append.mp hmem with hmem | hmem
    · exact hmem
    · rcases List.mem_cons.mp hmem with rfl | hmem
      · exact absurd hline (by simp only; omega)
      · have hlt := hbehind _ hmem
        simp only at hlt
        omega
  · intro hmem
    have hlt := hfront _ hmem d List.mem_cons_self
    simp only at hlt
    omega

private theorem mem_declarations_iff {e : Declaration} :
    e ∈ declarations ls ↔ ∃ n, declarationAt? ls n = some e := by
  rw [← map_declaration_located 1 ls, List.mem_map]
  constructor
  · rintro ⟨d, hd, rfl⟩
    obtain ⟨n, -, hn⟩ := mem_located_iff.mp hd
    exact ⟨n, hn⟩
  · rintro ⟨n, hn⟩
    exact ⟨⟨n + 1, e⟩, mem_located_iff.mpr ⟨n, rfl, hn⟩, rfl⟩

/-! ### Names that are introduced nowhere -/

variable {name : String}

/-- The names of the fluents are those that are declared. -/
theorem mem_fluentNames : name ∈ fluentNames ds ↔ .fluent name ∈ ds.map (·.declaration) := by
  rw [fluentNames_eq, List.mem_filterMap]
  constructor
  · rintro ⟨d, hd, hname⟩
    cases d <;> cases hname
    exact hd
  · exact fun h => ⟨_, h, rfl⟩

private theorem mem_labels_ofList_fluentNames :
    name ∈ (FluentSet.ofList (fluentNames ds)).labels ↔ .fluent name ∈ ds.map (·.declaration) := by
  rw [FluentSet.labels_ofList, List.mem_eraseDups, mem_fluentNames]

/-- The names of the operators are those that are declared. -/
theorem mem_operatorNames : name ∈ operatorNames ds ↔ .operator name ∈ ds.map (·.declaration) := by
  rw [operatorNames_eq, List.mem_filterMap]
  constructor
  · rintro ⟨d, hd, hname⟩
    cases d <;> cases hname
    exact hd
  · exact fun h => ⟨_, h, rfl⟩

/-- The names a declaration uses are its fluent and its operator. -/
theorem uses_iff {e : Declaration} :
    e.Uses (FluentSet.ofList (fluentNames ds)).labels (operatorNames ds) ↔
      (∀ f, e.usedFluent? = some f → .fluent f ∈ ds.map (·.declaration)) ∧
      ∀ o, e.usedOperator? = some o → .operator o ∈ ds.map (·.declaration) := by
  cases e <;> simp [Declaration.Uses, Declaration.usedFluent?, Declaration.usedOperator?,
    mem_labels_ofList_fluentNames, mem_operatorNames]

private theorem exists_undeclared_iff :
    (∃ fault, Undeclared ls n fault) ↔ ∃ e, declarationAt? ls n = some e ∧
    ¬ e.Uses (FluentSet.ofList (fluentNames (located 1 ls))).labels
      (operatorNames (located 1 ls)) := by
  simp only [uses_iff, map_declaration_located]
  constructor
  · rintro ⟨fault, h⟩
    cases h with
    | fluent he hf hnone => exact ⟨_, he, fun huses => hnone (huses.1 _ hf)⟩
    | operator he _ ho hnone => exact ⟨_, he, fun huses => hnone (huses.2 _ ho)⟩
  · rintro ⟨e, he, hnot⟩
    by_cases hfluent : ∀ f, e.usedFluent? = some f → .fluent f ∈ declarations ls
    · have hoperator := not_and.mp hnot hfluent
      push Not at hoperator
      obtain ⟨o, ho, hnone⟩ := hoperator
      exact ⟨_, .operator he hfluent ho hnone⟩
    · push Not at hfluent
      obtain ⟨f, hf, hnone⟩ := hfluent
      exact ⟨_, .fluent he hf hnone⟩

/-- The fluent is looked at before the operator. -/
theorem undeclared?_eq_some {fluents operators : List String}
    (h : undeclared? fluents operators d = some f) :
    (∃ g, d.declaration.usedFluent? = some g ∧ g ∉ fluents ∧
      f = .line d.line (.undeclaredFluent g)) ∨
      ∃ o, d.declaration.usedOperator? = some o ∧ o ∉ operators ∧
        (∀ g, d.declaration.usedFluent? = some g → g ∈ fluents) ∧
          f = .line d.line (.undeclaredOperator o) := by
  obtain ⟨line, e⟩ := d
  cases e with
  | fluent name => cases h
  | operator name => cases h
  | precondition o g polarity | effect o g polarity =>
    by_cases hg : g ∈ fluents
    · have ho : o ∉ operators := fun ho => by simp [undeclared?, hg, ho] at h
      simp only [undeclared?, hg, ho, if_true, if_false, Option.none_or, Option.some.injEq] at h
      exact .inr ⟨o, rfl, ho, fun g' hg' => Option.some.inj hg' ▸ hg, h.symm⟩
    · simp only [undeclared?, hg, if_false, Option.some_or, Option.some.injEq] at h
      exact .inl ⟨g, rfl, hg, h.symm⟩
  | initially g polarity | goal g polarity =>
    have hg : g ∉ fluents := fun hg => by simp [undeclared?, hg] at h
    simp only [undeclared?, hg, if_false, Option.some.injEq] at h
    exact .inl ⟨g, rfl, hg, h.symm⟩

private theorem undeclared_of_undeclared? (hd : declarationAt? ls n = some d.declaration)
    (h : undeclared? (FluentSet.ofList (fluentNames (located 1 ls))).labels
      (operatorNames (located 1 ls)) d =
      some f) : ∃ fault, f = .line d.line fault ∧ Undeclared ls n fault := by
  rcases undeclared?_eq_some h with ⟨g, hg, hnone, rfl⟩ | ⟨o, ho, hnone, hknown, rfl⟩
  · rw [mem_labels_ofList_fluentNames, map_declaration_located] at hnone
    exact ⟨_, rfl, .fluent hd hg hnone⟩
  · rw [mem_operatorNames, map_declaration_located] at hnone
    simp only [mem_labels_ofList_fluentNames, map_declaration_located] at hknown
    exact ⟨_, rfl, .operator hd hknown ho hnone⟩

private theorem firstFault_of_findSome? (h : (located 1 ls).findSome?
    (undeclared? (FluentSet.ofList (fluentNames (located 1 ls))).labels
      (operatorNames (located 1 ls))) = some f) :
    ∃ n fault, f = .line (n + 1) fault ∧ FirstFault (Undeclared ls) n fault := by
  obtain ⟨ds₁, d, ds₂, hsplit, hd, hbefore⟩ := List.findSome?_eq_some_iff.mp h
  obtain ⟨n, hline, hdeclaration, hfront⟩ := exists_position hsplit
  obtain ⟨fault, rfl, hfault⟩ := undeclared_of_undeclared? hdeclaration hd
  refine ⟨n, fault, by rw [hline], hfault, fun m hm fault' hfault' => ?_⟩
  obtain ⟨e, he, hnot⟩ := exists_undeclared_iff.mp ⟨fault', hfault'⟩
  exact hnot (undeclared?_eq_none_iff.mp (hbefore _ ((hfront m e he).mp hm)))

/-! ### Operators with contradictory conditions -/

variable {o : String} {reason : Refusal} {es : List Edit}

/-- There is nothing wrong with the conditions of an operator that was added. -/
theorem not_operatorFault_of_records (h : Problem.Records (FluentSet.ofList (fluentNames ds)) es p)
    (hmem : .operator o (preconditionsOf ds o) (effectsOf ds o) ∈ es) :
    ¬ OperatorFault (ds.map (·.declaration)) o reason := by
  obtain ⟨added, hadded, -, hpre, heff⟩ := h.operators _ _ _ hmem
  intro hfault
  cases hfault with
  | preconditions hboth =>
    exact hpre.not_both (h.wellFormed.operators added hadded).preconditions
      ⟨mem_preconditionsOf.mpr hboth.1, mem_preconditionsOf.mpr hboth.2⟩
  | effects _ hboth =>
    exact heff.not_both (h.wellFormed.operators added hadded).effects
      ⟨mem_effectsOf.mpr hboth.1, mem_effectsOf.mpr hboth.2⟩

/-- A new operator all of whose fluents are introduced is refused for contradictory conditions
only. -/
theorem operatorFault_of_edit (huses :
      ∀ d ∈ ds, d.declaration.Uses (FluentSet.ofList (fluentNames ds)).labels (operatorNames ds))
      (hfluents : p.fluents = .ofList (fluentNames ds)) (hfresh : p.hasOperator o = false)
      (h : p.edit (.operator o (preconditionsOf ds o) (effectsOf ds o)) = .error reason) :
    OperatorFault (ds.map (·.declaration)) o reason := by
  have huses : ∀ e ∈ ds.map (·.declaration), e.Uses p.fluents.labels (operatorNames ds) :=
    hfluents ▸ List.forall_mem_map.mpr huses
  have hpre : ∀ fault, p.FaultIn (preconditionsOf ds o) fault ↔
      ∃ f, fault = .contradictory f ∧ Contradictory (ds.map (·.declaration)) (.precondition o) f :=
        fun fault => by
    constructor
    · intro hfault
      cases hfault with
      | unknownFluent hmem hnone => exact absurd (huses _ (mem_preconditionsOf.mp hmem)).1 hnone
      | contradictory htrue hfalse =>
        exact ⟨_, rfl, mem_preconditionsOf.mp htrue, mem_preconditionsOf.mp hfalse⟩
    · rintro ⟨f, rfl, htrue, hfalse⟩
      exact .contradictory (mem_preconditionsOf.mpr htrue) (mem_preconditionsOf.mpr hfalse)
  have heff : ∀ fault, p.FaultIn (effectsOf ds o) fault →
      ∃ f, fault = .contradictory f ∧ Contradictory (ds.map (·.declaration)) (.effect o) f :=
        fun fault hfault => by
    cases hfault with
    | unknownFluent hmem hnone => exact absurd (huses _ (mem_effectsOf.mp hmem)).1 hnone
    | contradictory htrue hfalse => exact ⟨_, rfl, mem_effectsOf.mp htrue, mem_effectsOf.mp hfalse⟩
  rw [Problem.edit_eq_error_iff, Problem.respond_operator, hfresh, if_neg Bool.false_ne_true] at h
  split at h
  · next fault hresolve =>
    cases h
    obtain ⟨f, rfl, hboth⟩ := (hpre fault).mp (Problem.faultIn_of_resolve hresolve)
    exact .preconditions hboth
  · next pre hresolve =>
    split at h
    · next fault hresolve' =>
      cases h
      obtain ⟨f, rfl, hboth⟩ := heff fault (Problem.faultIn_of_resolve hresolve')
      refine .effects (fun g hg => ?_) hboth
      exact Problem.not_faultIn_of_resolve hresolve ((hpre _).mpr ⟨g, rfl, hg⟩)
    · cases h

/-- The operators are added in order, up to the first that is at fault. -/
theorem exists_operatorFault_of_build
    (huses : ∀ d ∈ ds, d.declaration.Uses (FluentSet.ofList (fluentNames ds)).labels
      (operatorNames ds)) (h :
    Problem.build (.ofList (fluentNames ds)) (edits ds) = .error reason) :
    ∃ before o after, (operatorNames ds).eraseDups = before ++ o :: after ∧
      OperatorFault (ds.map (·.declaration)) o reason ∧
      ∀ o' ∈ before, ∀ reason', ¬ OperatorFault (ds.map (·.declaration)) o' reason' := by
  have hnodup : (operatorNames ds).eraseDups.Nodup := by
    rw [← FluentSet.labels_ofList]
    exact FluentSet.nodup_labels_ofList _
  rw [Problem.build, edits, List.foldlM_append] at h
  cases hoperators : ((operatorNames ds).eraseDups.map fun o =>
      Edit.operator o (preconditionsOf ds o) (effectsOf ds o)).foldlM Problem.edit
        (Problem.ofFluents (.ofList (fluentNames ds))) with
  | error reason' =>
    rw [hoperators] at h
    cases h
    obtain ⟨added, e, others, q, hsplit, hadded, hedit⟩ := exists_of_foldlM_eq_error hoperators
    obtain ⟨before, rest, hnames, rfl, hrest⟩ := List.map_eq_append_iff.mp hsplit
    obtain ⟨o, after, rfl, rfl, -⟩ := List.map_eq_cons_iff.mp hrest
    have hrecords := Problem.build_eq_ok_iff.mp hadded
    have hlabels : q.operators.map (·.label) = before := by
      rw [hrecords.labels_eq, List.filterMap_map]
      exact List.filterMap_some
    have hfresh : q.hasOperator o = false := by
      rw [Bool.eq_false_iff]
      intro htaken
      obtain ⟨added, hadded, hlabel⟩ := hrecords.wellFormed.hasOperator_iff.mp htaken
      have hmem : o ∈ before := hlabels ▸ List.mem_map.mpr ⟨added, hadded, hlabel⟩
      rw [hnames, List.nodup_append] at hnodup
      exact hnodup.2.2 o hmem o List.mem_cons_self rfl
    exact ⟨before, o, after, hnames, operatorFault_of_edit huses hrecords.fluents_eq hfresh hedit,
      fun o' ho' reason' => not_operatorFault_of_records hrecords (List.mem_map_of_mem ho')⟩
  | ok q =>
    -- The fluents that are made initially true are all introduced.
    rw [hoperators] at h
    obtain ⟨before, e, after, q', hsplit, hbefore, hedit⟩ := exists_of_foldlM_eq_error h
    have hrecords := (Problem.build_eq_ok_iff.mp hoperators).of_foldlM hbefore
    have hmem : e ∈ (initiallyTrue ds).map Edit.initiallyTrue := hsplit ▸ by simp
    obtain ⟨name, hname, rfl⟩ := List.mem_map.mp hmem
    obtain ⟨d, hd, hdeclaration⟩ := List.mem_map.mp (mem_initiallyTrue.mp hname)
    have hknown := huses d hd
    rw [hdeclaration, ← hrecords.fluents_eq] at hknown
    cases hrecords.wellFormed.objection_of_edit hedit with
    | initialFluent hnone => exact absurd hknown hnone

/-! ### Goals that contradict each other -/

/-- The goals are added line by line, up to the first that is refused. -/
theorem exists_goal_eq_error (h : addGoals p ds = .error f) :
    ∃ ds₁ d ds₂ q name polarity reason, ds = ds₁ ++ d :: ds₂ ∧ addGoals p ds₁ = .ok q ∧
      d.declaration = .goal name polarity ∧ q.edit (.goal name polarity) = .error reason ∧
      f = .line d.line (.refused reason) := by
  induction ds generalizing p with
  | nil => cases h
  | cons d rest ih =>
    have hlater : ∀ next, (∀ ds, addGoals p (d :: ds) = addGoals next ds) →
        ∃ ds₁ d' ds₂ q name polarity reason, d :: rest = ds₁ ++ d' :: ds₂ ∧ addGoals p ds₁ = .ok q ∧
          d'.declaration = .goal name polarity ∧ q.edit (.goal name polarity) = .error reason ∧
          f = .line d'.line (.refused reason) := fun next hnext => by
      rw [hnext] at h
      obtain ⟨ds₁, d', ds₂, q, name, polarity, reason, rfl, hadd, hrest⟩ := ih h
      exact ⟨d :: ds₁, d', ds₂, q, name, polarity, reason, rfl, by rw [hnext, hadd], hrest⟩
    cases hdeclaration : d.declaration with
    | goal name polarity =>
      cases hadd : p.edit (.goal name polarity) with
      | error reason =>
        rw [addGoals, hdeclaration] at h
        simp only [hadd, Except.error.injEq] at h
        exact ⟨[], d, rest, p, name, polarity, reason, rfl, rfl, hdeclaration, hadd, h.symm⟩
      | ok next => exact hlater next fun ds => by rw [addGoals, hdeclaration]; simp only [hadd]
    | fluent name => exact hlater p fun ds => by rw [addGoals, hdeclaration]
    | operator name => exact hlater p fun ds => by rw [addGoals, hdeclaration]
    | precondition o g polarity => exact hlater p fun ds => by rw [addGoals, hdeclaration]
    | effect o g polarity => exact hlater p fun ds => by rw [addGoals, hdeclaration]
    | initially g polarity => exact hlater p fun ds => by rw [addGoals, hdeclaration]

/-- No goals of lines are contradictory if one canonical list collects them. -/
theorem not_contradicted_of_collects {s : FluentSet} {cs : List Condition}
    {stated : List Declaration} {k m : Nat} (h : s.Collects (fun f b => .goal f b ∈ stated) cs)
    (hcs : Condition.Canonical k cs)
    (hstated : ∀ i ≤ m, ∀ e, declarationAt? ls i = some e → e ∈ stated) :
    ¬ Contradicted ls m fault := by
  intro hfault
  cases hfault with
  | @goal i name polarity hm hlt hi =>
    have hthis := hstated m (Nat.le_refl m) _ hm
    have hother := hstated i (Nat.le_of_lt hlt) _ hi
    cases polarity with
    | true => exact h.not_both hcs ⟨hthis, hother⟩
    | false => exact h.not_both hcs ⟨hother, hthis⟩

/-- A goal of an introduced fluent is refused only for one of an earlier line. -/
theorem firstFault_of_addGoals
    (huses : ∀ d ∈ located 1 ls,
      d.declaration.Uses (FluentSet.ofList (fluentNames (located 1 ls))).labels
        (operatorNames (located 1 ls)))
    (hp : Problem.Records (.ofList (fluentNames (located 1 ls))) (edits (located 1 ls)) p)
    (h : addGoals p (located 1 ls) = .error f) :
    ∃ n fault, f = .line (n + 1) fault ∧ FirstFault (Contradicted ls) n fault := by
  obtain ⟨ds₁, d, ds₂, q, name, polarity, reason, hsplit, hadd, hdeclaration, hedit, rfl⟩ :=
    exists_goal_eq_error h
  have hq := hp.of_foldlM (addGoals_eq_ok_iff.mp hadd)
  have hgoal := hq.goal.congr fun _ _ => goal_mem_edits
  obtain ⟨n, hline, hn, hfront⟩ := exists_position hsplit
  rw [hdeclaration] at hn
  have hlines : ∀ m < n, ∀ e, declarationAt? ls m = some e → e ∈ ds₁.map (·.declaration) :=
    fun m hm e he =>
    List.mem_map.mpr ⟨_, (hfront m e he).mp hm, rfl⟩
  refine ⟨n, .refused reason, by rw [hline], ?_, fun m hm fault' =>
    not_contradicted_of_collects hgoal hq.wellFormed.goal fun i hi e he => hlines i (by omega) e he⟩
  cases hq.wellFormed.objection_of_edit hedit with
  | goalFluent hnone =>
    have hknown := huses d (hsplit ▸ List.mem_append_right _ List.mem_cons_self)
    rw [hdeclaration, ← hq.fluents_eq] at hknown
    exact absurd hknown hnone
  | goalContradiction hid hopposite =>
    obtain ⟨other, hother, hmem⟩ := (hgoal.mem_iff _).mp hopposite
    obtain rfl := FluentSet.eq_of_idOf?_eq (hq.fluents_eq ▸ hid) hother
    obtain ⟨d', hd', hdeclaration'⟩ := List.mem_map.mp hmem
    obtain ⟨m, hline', hm⟩ := mem_located_iff.mp (hsplit ▸ List.mem_append_left _ hd')
    rw [hdeclaration'] at hm
    refine .goal hn ((hfront m _ hm).mpr ?_) hm
    rw [← hline', ← hdeclaration']
    exact hd'

/-! ### Rounds -/

/-- The operators of a text, in order of their first introduction. -/
def introduced (ls : List Line) : List String :=
  ((declarations ls).filterMap Declaration.operatorName?).eraseDups

/-- No line is misread. -/
def AllRead (ls : List Line) : Prop :=
  ∀ n fault, ¬ Misread ls n fault

/-- Moreover, no name is used that is introduced nowhere. -/
def AllDeclared (ls : List Line) : Prop :=
  AllRead ls ∧ ∀ n fault, ¬ Undeclared ls n fault

/-- Moreover, no operator has contradictory conditions. -/
def AllAdded (ls : List Line) : Prop :=
  AllDeclared ls ∧ ∀ o ∈ introduced ls, ∀ reason, ¬ OperatorFault (declarations ls) o reason

/-- Moreover, no goals contradict each other. -/
def Flawless (ls : List Line) : Prop :=
  AllAdded ls ∧ ∀ n fault, ¬ Contradicted ls n fault

/-- The failure a text is rejected with, by the round that finds it. -/
inductive Rejected (ls : List Line) : Failure → Prop
  /-- A line is misread. -/
  | misread {n : Nat} {fault : LineFault} :
      FirstFault (Misread ls) n fault → Rejected ls (.line (n + 1) fault)
  /-- A name is introduced nowhere. -/
  | undeclared {n : Nat} {fault : LineFault} : AllRead ls → FirstFault (Undeclared ls) n fault →
    Rejected ls (.line (n + 1) fault)
  /-- An operator has contradictory conditions. -/
  | operator {before after : List String} {o : String} {reason : Refusal} : AllDeclared ls →
    introduced ls = before ++ o :: after → OperatorFault (declarations ls) o reason →
    (∀ o' ∈ before, ∀ reason', ¬ OperatorFault (declarations ls) o' reason') →
      Rejected ls (.refused reason)
  /-- Goals contradict each other. -/
  | goal {n : Nat} {fault : LineFault} : AllAdded ls → FirstFault (Contradicted ls) n fault →
    Rejected ls (.line (n + 1) fault)

private theorem eraseDups_operatorNames_located (ls : List Line) :
    (operatorNames (located 1 ls)).eraseDups = introduced ls := by
  rw [operatorNames_eq, map_declaration_located, introduced]

/-- A text all of whose lines are read is put together from its declarations. -/
theorem read_problem_eq (h : (readLines 1 ls).2 = .ok ds) :
    AllRead ls ∧ (read ls).problem = assemble (located 1 ls) := by
  refine ⟨forall_understood_iff.mp (readLines_eq_ok h).1, ?_⟩
  rw [problem_read, h, ← readLines_eq_located h]
  rfl

private theorem allDeclared_iff :
    AllDeclared ls ↔ (∀ l ∈ ls, Understood l) ∧
      ∀ e ∈ declarations ls, (∀ f ∈ e.usedFluent?, .fluent f ∈ declarations ls) ∧
      ∀ o ∈ e.usedOperator?, .operator o ∈ declarations ls := by
  have hundeclared : (∀ n fault, ¬ Undeclared ls n fault) ↔ ∀ e ∈ declarations ls,
      e.Uses (FluentSet.ofList (fluentNames (located 1 ls))).labels
        (operatorNames (located 1 ls)) := by
    constructor
    · intro h e he
      obtain ⟨n, hn⟩ := mem_declarations_iff.mp he
      by_contra hnot
      obtain ⟨fault, hfault⟩ := exists_undeclared_iff.mpr ⟨e, hn, hnot⟩
      exact h n fault hfault
    · intro h n fault hfault
      obtain ⟨e, he, hnot⟩ := exists_undeclared_iff.mp ⟨fault, hfault⟩
      exact hnot (h e (mem_declarations_iff.mpr ⟨n, he⟩))
  rw [AllDeclared, AllRead, ← forall_understood_iff, hundeclared]
  simp only [uses_iff, map_declaration_located, Option.mem_def]

instance (ls : List Line) : Decidable (AllDeclared ls) :=
  decidable_of_iff _ allDeclared_iff.symm

private theorem allDeclared_of_uses (hread : AllRead ls)
    (huses : ∀ d ∈ located 1 ls,
      d.declaration.Uses (FluentSet.ofList (fluentNames (located 1 ls))).labels
        (operatorNames (located 1 ls))) :
    AllDeclared ls := by
  refine allDeclared_iff.mpr ⟨forall_understood_iff.mpr hread, ?_⟩
  rw [← map_declaration_located 1 ls]
  exact List.forall_mem_map.mpr fun d hd => uses_iff.mp (huses d hd)

private theorem allAdded_of_records {es : List Edit} (hdeclared : AllDeclared ls)
    (h : Problem.Records (.ofList (fluentNames (located 1 ls))) es p)
    (hes : edits (located 1 ls) ⊆ es) :
    AllAdded ls := by
  refine ⟨hdeclared, fun o ho reason => ?_⟩
  rw [← eraseDups_operatorNames_located, List.mem_eraseDups] at ho
  rw [← map_declaration_located 1 ls]
  refine not_operatorFault_of_records h (hes ?_)
  exact List.mem_append_left _ (List.mem_map_of_mem (List.mem_eraseDups.mpr ho))

/-- A text that is rejected is rejected in one of the rounds. -/
theorem rejected_of_read (h : (read ls).problem = .error f) : Rejected ls f := by
  cases hlines : (readLines 1 ls).2 with
  | error f' =>
    rw [problem_read, hlines] at h
    cases h
    obtain ⟨n, fault, rfl, hfirst⟩ := firstFault_of_readLines hlines
    exact .misread hfirst
  | ok ds =>
    obtain ⟨hread, hassemble⟩ := read_problem_eq hlines
    rw [hassemble, assemble] at h
    split at h
    · next f' hfault =>
      cases h
      obtain ⟨n, fault, rfl, hfirst⟩ := firstFault_of_findSome? hfault
      exact .undeclared hread hfirst
    · next hnone =>
      have huses := fun d hd => undeclared?_eq_none_iff.mp
        (List.findSome?_eq_none_iff.mp hnone d hd)
      have hdeclared := allDeclared_of_uses hread huses
      split at h
      · next reason hbuild =>
        cases h
        obtain ⟨before, o, after, hnames, hfault, hbefore⟩ :=
          exists_operatorFault_of_build huses hbuild
        rw [eraseDups_operatorNames_located] at hnames
        rw [map_declaration_located] at hfault hbefore
        exact .operator hdeclared hnames hfault hbefore
      · next p hbuild =>
        have hrecords := Problem.build_eq_ok_iff.mp hbuild
        obtain ⟨n, fault, rfl, hfirst⟩ := firstFault_of_addGoals huses hrecords h
        exact .goal (allAdded_of_records hdeclared hrecords (List.Subset.refl _)) hfirst

/-- A text that is read has no fault in any of the rounds. -/
theorem flawless_of_read (h : (read ls).problem = .ok p) : Flawless ls := by
  cases hlines : (readLines 1 ls).2 with
  | error f =>
    obtain ⟨n, fault, -, hfirst⟩ := firstFault_of_readLines hlines
    have hread := forall_understood_iff.mp (read_eq_ok_iff.mp h).1
    exact absurd hfirst.found (hread n fault)
  | ok ds =>
    obtain ⟨hread, hassemble⟩ := read_problem_eq hlines
    rw [hassemble, assemble_eq_ok_iff] at h
    obtain ⟨huses, hrecords⟩ := h
    have hadded := allAdded_of_records (allDeclared_of_uses hread huses) hrecords
      (List.subset_append_left _ _)
    refine ⟨hadded, fun n fault => not_contradicted_of_collects
      (hrecords.goal.congr fun _ _ => goal_mem_edits)
      hrecords.wellFormed.goal fun i _ e he => ?_⟩
    rw [map_declaration_located]
    exact mem_declarations_iff.mpr ⟨i, he⟩

/-- The lines of a text with a contradiction in its goals, and with another one in the effects of an
operator. -/
def contradictions : List Line :=
  ["goal(-a).", "goal(a).", "eff(o, a).", "pre(o, b).", "% nothing", "eff(o, -a).",
    "operator(o).", "fluent(a).",
    "fluent(b)."].map fun l => .ok l.toList

end ProblemText

end HorizonPlanner
