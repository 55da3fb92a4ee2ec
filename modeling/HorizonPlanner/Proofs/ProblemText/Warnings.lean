import HorizonPlanner.Proofs.ProblemText.Rejections
import Mathlib.Data.List.Induction

/-!
# Warnings about a text

Handlers are told of every warning as it comes up, in two rounds. Fluents that are declared to be
initially false are reported while the lines are read, up to the first that cannot be understood.
Names that are introduced again are reported once all lines are read, against the names introduced
up to then. The handlers may do what they like: they are told the same, and the problem is the same.
-/

namespace HorizonPlanner.ProblemText

open Text

/-! ### Reading with handlers -/

/-- What is called with the line and the text of a warning. -/
abbrev Handler (m : Type → Type) := Nat → String → m Unit

section

variable {m : Type → Type} [Monad m]

/-- Tells all handlers of a warning, in the order of their registration. -/
def Warning.tell (handlers : List (Handler m)) (w : Warning) : m Unit :=
  handlers.forM fun h => h w.line w.oddity.message

/-- Reads lines, numbered from this number on, and tells the handlers what is odd about one before
the next one is read. -/
def readLinesTelling (handlers : List (Handler m)) :
    Nat → List Line → m (Except Failure (List Located))
  | _, [] => return .ok []
  | number, l :: rest =>
    match readLine number l with
    | .error f => return .error f
    | .ok none => readLinesTelling handlers (number + 1) rest
    | .ok (some d) => do
      d.warnings.forM (·.tell handlers)
      return (← readLinesTelling handlers (number + 1) rest).map (d :: ·)

/-- The names introduced so far. -/
structure Names where
  /-- The fluents. -/
  fluents : FluentSet
  /-- The operators, in order of their introduction. -/
  operators : List String

/-- Takes up the name a declaration introduces, unless it is among the names already, which the
handlers are told. -/
def Names.introduce (handlers : List (Handler m)) (names : Names) (d : Located) : m Names :=
  match d.declaration with
  | .fluent name =>
    if name ∈ names.fluents.labels then do
      Warning.tell handlers ⟨d.line, .fluentAgain name⟩
      return names
    else return { names with fluents := names.fluents.insert name }
  | .operator name =>
    if name ∈ names.operators then do
      Warning.tell handlers ⟨d.line, .operatorAgain name⟩
      return names
    else return { names with operators := names.operators ++ [name] }
  | _ => return names

/-- The problem stated by declarations, with these names introduced. -/
def Names.assemble (names : Names) (ds : List Located) : Except Failure Problem :=
  match ds.findSome? (undeclared? names.fluents.labels names.operators) with
  | some f => .error f
  | none =>
    let operators := names.operators.map fun o =>
      Edit.operator o (preconditionsOf ds o) (effectsOf ds o)
    match Problem.build names.fluents (operators ++ (initiallyTrue ds).map .initiallyTrue) with
    | .error reason => .error (.refused reason)
    | .ok p => addGoals p ds

/-- Reads a problem from lines, and tells the handlers of warnings as they come up. -/
def readTelling (handlers : List (Handler m)) (ls : List Line) : m (Except Failure Problem) := do
  match ← readLinesTelling handlers 1 ls with
  | .error f => return .error f
  | .ok ds => return (← ds.foldlM (Names.introduce handlers) ⟨.empty, []⟩).assemble ds

end

/-! ### What the warnings are -/

/-- The line at a position declares a fluent to be initially false, and none before it is
misread. -/
inductive NegativeInitial (ls : List Line) : Warning → Prop
  /-- The warning has the number of the line. -/
  | line {n : Nat} {f : String} : declarationAt? ls n = some (.initially f false) →
    (∀ k < n, ∀ fault, ¬ Misread ls k fault) → NegativeInitial ls ⟨n + 1, .negativeInitial⟩

/-- The line at a position introduces a name that an earlier line introduces. Fluents and operators
are named apart. -/
inductive Redeclared (ls : List Line) : Warning → Prop
  /-- Both lines introduce a fluent. -/
  | fluent {k n : Nat} {name : String} : declarationAt? ls n = some (.fluent name) → k < n →
    declarationAt? ls k = some (.fluent name) → Redeclared ls ⟨n + 1, .fluentAgain name⟩
  /-- Both lines introduce an operator. -/
  | operator {k n : Nat} {name : String} : declarationAt? ls n = some (.operator name) → k < n →
    declarationAt? ls k = some (.operator name) → Redeclared ls ⟨n + 1, .operatorAgain name⟩

/-- The warnings of a kind, one for each line that gives rise to one, in the order of the lines. -/
structure InLineOrder (kind : Warning → Prop) (ws : List Warning) : Prop where
  /-- The warnings are those of the kind. -/
  mem_iff : ∀ w, w ∈ ws ↔ kind w
  /-- No line comes twice, and none before an earlier one. -/
  increasing : ws.Pairwise (·.line < ·.line)

variable {ls : List Line} {l : Line} {ds ds₁ ds₂ : List Located} {d : Located}
    {w : Warning} {n number : Nat}
  {fluents fluents' operators operators' : List String}

/-! ### Warnings while lines are read -/

/-- The lines that are read are those in front of the first that is not understood. -/
theorem warnings_readLines (number : Nat) (ls : List Line) :
    (readLines number ls).1 = (located number (ls.takeWhile (decide <| Understood ·))).flatMap
      Located.warnings := by
  induction ls generalizing number with
  | nil => rfl
  | cons l rest ih =>
    by_cases hl : Understood l
    · have hline : readLine number l = .ok ((declaration? l).map (⟨number, ·⟩)) :=
        readLine_eq_ok_iff.mpr ⟨hl, rfl⟩
      rw [List.takeWhile_cons_of_pos (by simpa using hl), located, List.zipIdx_cons,
        List.filterMap_cons, ← located, readLines, hline]
      cases declaration? l with
      | none => exact ih (number + 1)
      | some d => simp [ih (number + 1)]
    · rw [List.takeWhile_cons_of_neg (by simpa using hl), readLines]
      cases hline : readLine number l with
      | error f => rfl
      | ok read? => exact absurd (readLine_eq_ok_iff.mp hline).1 hl

/-- A line is read when neither it nor any before it is misread. -/
theorem declarationAt?_takeWhile_understood {e : Declaration} :
    declarationAt? (ls.takeWhile (decide <| Understood ·)) n = some e ↔
      declarationAt? ls n = some e ∧ ∀ k < n, ∀ fault, ¬ Misread ls k fault := by
  have hmisread : ∀ k, (∀ fault, ¬ Misread ls k fault) ↔ ∀ l, ls[k]? = some l → Understood l :=
    fun k => by
    rw [← not_exists, exists_misread_iff]
    push Not
    rfl
  simp only [hmisread]
  rw [List.takeWhile_eq_take_findIdx_not, declarationAt?, List.getElem?_take]
  constructor
  · intro h
    split at h
    · next hlt =>
      obtain ⟨hn, hall⟩ := (List.lt_findIdx_iff _ _ _).mp hlt
      refine ⟨h, fun k hk l hl => ?_⟩
      obtain ⟨-, rfl⟩ := List.getElem?_eq_some_iff.mp hl
      simpa using hall k (Nat.le_of_lt hk)
    · cases h
  · rintro ⟨h, hall⟩
    obtain ⟨l, hl, he⟩ := Option.bind_eq_some_iff.mp h
    obtain ⟨hn, rfl⟩ := List.getElem?_eq_some_iff.mp hl
    have hunderstood : Understood ls[n] := by
      obtain ⟨chars, hchars, -, hread⟩ := declaration?_eq_some_iff.mp he
      rw [hchars]
      exact .inr ⟨e, hread⟩
    rw [if_pos ((List.lt_findIdx_iff _ _ _).mpr ⟨hn, fun k hk => ?_⟩)]
    · exact h
    · rcases Nat.lt_or_eq_of_le hk with hlt | rfl
      · simpa using hall k hlt _ (List.getElem?_eq_getElem _)
      · simpa using hunderstood

private theorem mem_warnings_iff :
    w ∈ d.warnings ↔ ∃ f, d.declaration = .initially f false ∧ w = ⟨d.line, .negativeInitial⟩ := by
  obtain ⟨line, e⟩ := d
  cases e with
  | initially f polarity => cases polarity <;> simp [Located.warnings]
  | _ => simp [Located.warnings]

/-- Each line gives rise to one warning at most. -/
theorem lines_warnings (ds : List Located) :
    ((ds.flatMap Located.warnings).map (·.line)).Sublist (ds.map (·.line)) := by
  induction ds with
  | nil => simp
  | cons d rest ih =>
    have hline : (d.warnings.map (·.line)).Sublist [d.line] := by
      unfold Located.warnings
      split <;> simp
    rw [List.flatMap_cons, List.map_append, List.map_cons]
    exact hline.append ih

private theorem inLineOrder_warnings_readLines (ls : List Line) :
    InLineOrder (NegativeInitial ls) (readLines 1 ls).1 where
  mem_iff w := by
    rw [warnings_readLines, List.mem_flatMap]
    constructor
    · rintro ⟨d, hd, hw⟩
      obtain ⟨f, hdeclaration, rfl⟩ := mem_warnings_iff.mp hw
      obtain ⟨n, hline, hn⟩ := mem_located_iff.mp hd
      obtain ⟨hn, hbefore⟩ := declarationAt?_takeWhile_understood.mp hn
      rw [hline]
      exact .line (hdeclaration ▸ hn) hbefore
    · intro h
      cases h with
      | @line n f hn hbefore =>
        have hread := declarationAt?_takeWhile_understood.mpr ⟨hn, hbefore⟩
        exact ⟨⟨n + 1, .initially f false⟩, mem_located_iff.mpr ⟨n, rfl, hread⟩,
          mem_warnings_iff.mpr ⟨f, rfl, rfl⟩⟩
  increasing := by
    rw [warnings_readLines, ← List.pairwise_map]
    exact (List.pairwise_map.mpr (pairwise_located 1 _)).sublist (lines_warnings _)

/-! ### Warnings about names -/

/-- Only which names are known matters. -/
theorem repetitions_congr (hf : ∀ x, x ∈ fluents ↔ x ∈ fluents')
    (ho : ∀ x, x ∈ operators ↔ x ∈ operators') (ds : List Located) :
    repetitions fluents operators ds = repetitions fluents' operators' ds := by
  induction ds generalizing fluents fluents' operators operators' with
  | nil => rfl
  | cons d rest ih =>
    have hcons : ∀ {names names' : List String} (name : String), (∀ x, x ∈ names ↔ x ∈ names') →
        ∀ x, x ∈ name :: names ↔ x ∈ name :: names' :=
          fun name h x => by rw [List.mem_cons, List.mem_cons, h]
    unfold repetitions
    split
    · next name _ => rw [ih hf ho, ih (hcons name hf) ho, if_congr (hf name) rfl rfl]
    · next name _ => rw [ih hf ho, ih hf (hcons name ho), if_congr (ho name) rfl rfl]
    · exact ih hf ho

/-- A declaration is reported if its name is known, and its name is known from then on. -/
theorem repetitions_cons (fluents operators : List String) (d : Located) (rest : List Located) :
    repetitions fluents operators (d :: rest) = repetitions fluents operators [d] ++
      repetitions (fluents ++ fluentNames [d]) (operators ++ operatorNames [d]) rest := by
  have hknown : ∀ {names : List String} {name : String}, name ∈ names → ∀ x, x ∈ names ↔
      x ∈ names ++ [name] :=
    fun h x => by simpa using fun heq : x = _ => heq ▸ h
  have hnew : ∀ (names : List String) (name : String) x, x ∈ name :: names ↔ x ∈ names ++ [name] :=
    fun names name x => by simp [or_comm]
  obtain ⟨line, e⟩ := d
  cases e with
  | fluent name =>
    have hnames : fluentNames [⟨line, .fluent name⟩] = [name] := rfl
    have hothers : operatorNames [⟨line, .fluent name⟩] = [] := rfl
    rw [hnames, hothers, List.append_nil]
    by_cases hmem : name ∈ fluents
    · simp [repetitions, hmem, repetitions_congr (hknown hmem) (fun _ => Iff.rfl) rest]
    · simp [repetitions, hmem, repetitions_congr (hnew fluents name) (fun _ => Iff.rfl) rest]
  | operator name =>
    have hnames : operatorNames [⟨line, .operator name⟩] = [name] := rfl
    have hothers : fluentNames [⟨line, .operator name⟩] = [] := rfl
    rw [hnames, hothers, List.append_nil]
    by_cases hmem : name ∈ operators
    · simp [repetitions, hmem, repetitions_congr (fun _ => Iff.rfl) (hknown hmem) rest]
    · simp [repetitions, hmem, repetitions_congr (fun _ => Iff.rfl) (hnew operators name) rest]
  | _ => simp [repetitions, fluentNames, operatorNames]

private theorem fluentNames_append (ds₁ ds₂ : List Located) :
    fluentNames (ds₁ ++ ds₂) = fluentNames ds₁ ++ fluentNames ds₂ :=
  List.filterMap_append

private theorem operatorNames_append (ds₁ ds₂ : List Located) :
    operatorNames (ds₁ ++ ds₂) = operatorNames ds₁ ++ operatorNames ds₂ :=
  List.filterMap_append

/-- The names of the declarations in front are known to those behind them. -/
theorem repetitions_append (fluents operators : List String) (ds₁ ds₂ : List Located) :
    repetitions fluents operators (ds₁ ++ ds₂) = repetitions fluents operators ds₁ ++
      repetitions (fluents ++ fluentNames ds₁) (operators ++ operatorNames ds₁) ds₂ := by
  induction ds₁ generalizing fluents operators with
  | nil => simp [repetitions, fluentNames, operatorNames]
  | cons d rest ih =>
    have hfluents : fluentNames (d :: rest) = fluentNames [d] ++ fluentNames rest :=
      fluentNames_append [d] rest
    have hoperators : operatorNames (d :: rest) = operatorNames [d] ++ operatorNames rest :=
      operatorNames_append [d] rest
    rw [List.cons_append, repetitions_cons, ih, repetitions_cons fluents operators d rest,
      hfluents, hoperators]
    simp only [List.append_assoc]

/-- A declaration is reported against those in front of it. -/
theorem mem_repetitions_iff : w ∈ repetitions [] [] ds ↔
    ∃ ds₁ d ds₂, ds = ds₁ ++ d :: ds₂ ∧
      w ∈ repetitions (fluentNames ds₁) (operatorNames ds₁) [d] := by
  constructor
  · intro hw
    induction ds using List.reverseRecOn with
    | nil => cases hw
    | append_singleton ds d ih =>
      rw [repetitions_append, List.mem_append] at hw
      rcases hw with hw | hw
      · obtain ⟨ds₁, d', ds₂, rfl, hw'⟩ := ih hw
        exact ⟨ds₁, d', ds₂ ++ [d], by simp, hw'⟩
      · exact ⟨ds, d, [], rfl, hw⟩
  · rintro ⟨ds₁, d, ds₂, rfl, hw⟩
    rw [repetitions_append, repetitions_cons]
    exact List.mem_append_right _ (List.mem_append_left _ hw)

private theorem mem_repetitions_singleton_iff : w ∈ repetitions fluents operators [d] ↔
    (∃ name, d.declaration = .fluent name ∧ name ∈ fluents ∧ w = ⟨d.line, .fluentAgain name⟩) ∨
      ∃ name, d.declaration = .operator name ∧ name ∈ operators ∧
        w = ⟨d.line, .operatorAgain name⟩ := by
  obtain ⟨line, e⟩ := d
  cases e with
  | fluent name => by_cases hmem : name ∈ fluents <;> simp [repetitions, hmem]
  | operator name => by_cases hmem : name ∈ operators <;> simp [repetitions, hmem]
  | _ => simp [repetitions]

/-- A declaration of a text stands behind those of the earlier lines. -/
theorem exists_located_eq_append {e : Declaration} (h : declarationAt? ls n = some e) :
    ∃ ds₁ ds₂, located 1 ls = ds₁ ++ ⟨n + 1, e⟩ :: ds₂ :=
  List.append_of_mem (mem_located_iff.mpr ⟨n, rfl, h⟩)

private theorem mem_map_declaration_iff (h : located 1 ls = ds₁ ++ d :: ds₂)
    (hline : d.line = n + 1) {e : Declaration} :
    e ∈ ds₁.map (·.declaration) ↔ ∃ k < n, declarationAt? ls k = some e := by
  obtain ⟨n', hline', -, hfront⟩ := exists_position h
  obtain rfl : n' = n := by omega
  constructor
  · intro he
    obtain ⟨d', hd', rfl⟩ := List.mem_map.mp he
    obtain ⟨k, hk, hdeclaration⟩ := mem_located_iff.mp (h ▸ List.mem_append_left _ hd')
    exact ⟨k, (hfront k _ hdeclaration).mpr (hk ▸ hd'), hdeclaration⟩
  · rintro ⟨k, hk, hdeclaration⟩
    exact List.mem_map.mpr ⟨_, (hfront k e hdeclaration).mp hk, rfl⟩

/-- A name is known to a line when an earlier line introduces it. -/
theorem mem_repetitions_located_iff : w ∈ repetitions [] [] (located 1 ls) ↔ Redeclared ls w := by
  rw [mem_repetitions_iff]
  constructor
  · rintro ⟨ds₁, d, ds₂, hsplit, hw⟩
    obtain ⟨n, hline, hn, -⟩ := exists_position hsplit
    rcases mem_repetitions_singleton_iff.mp hw with ⟨name, hd, hmem, rfl⟩ | ⟨name, hd, hmem, rfl⟩
    · obtain ⟨k, hk, hearlier⟩ := (mem_map_declaration_iff hsplit hline).mp
        (mem_fluentNames.mp hmem)
      rw [hline]
      exact .fluent (hd ▸ hn) hk hearlier
    · obtain ⟨k, hk, hearlier⟩ := (mem_map_declaration_iff hsplit hline).mp
        (mem_operatorNames.mp hmem)
      rw [hline]
      exact .operator (hd ▸ hn) hk hearlier
  · intro h
    cases h with
    | @fluent k n name hn hk hearlier =>
      obtain ⟨ds₁, ds₂, hsplit⟩ := exists_located_eq_append hn
      have hmem := mem_fluentNames.mpr ((mem_map_declaration_iff hsplit rfl).mpr ⟨k, hk, hearlier⟩)
      exact ⟨ds₁, _, ds₂, hsplit, mem_repetitions_singleton_iff.mpr (.inl ⟨name, rfl, hmem, rfl⟩)⟩
    | @operator k n name hn hk hearlier =>
      obtain ⟨ds₁, ds₂, hsplit⟩ := exists_located_eq_append hn
      have hmem := mem_operatorNames.mpr
        ((mem_map_declaration_iff hsplit rfl).mpr ⟨k, hk, hearlier⟩)
      exact ⟨ds₁, _, ds₂, hsplit, mem_repetitions_singleton_iff.mpr (.inr ⟨name, rfl, hmem, rfl⟩)⟩

/-- Each declaration is reported once at most. -/
theorem lines_repetitions (fluents operators : List String) (ds : List Located) :
    ((repetitions fluents operators ds).map (·.line)).Sublist (ds.map (·.line)) := by
  induction ds generalizing fluents operators with
  | nil => simp [repetitions]
  | cons d rest ih =>
    have hline : ((repetitions fluents operators [d]).map (·.line)).Sublist [d.line] := by
      unfold repetitions
      split
      · split <;> simp [repetitions]
      · split <;> simp [repetitions]
      · simp [repetitions]
    rw [repetitions_cons, List.map_append, List.map_cons]
    exact hline.append (ih _ _)

private theorem inLineOrder_repetitions (ls : List Line) :
    InLineOrder (Redeclared ls) (repetitions [] [] (located 1 ls)) where
  mem_iff _ := mem_repetitions_located_iff
  increasing := by
    rw [← List.pairwise_map]
    exact (List.pairwise_map.mpr (pairwise_located 1 ls)).sublist (lines_repetitions _ _ _)

/-! ### What the handlers are told -/

section

variable {m : Type → Type} [Monad m] [LawfulMonad m]

private theorem readLinesTelling_eq (handlers : List (Handler m)) (number : Nat) (ls : List Line) :
    readLinesTelling handlers number ls = (do
      (readLines number ls).1.forM (·.tell handlers)
      return (readLines number ls).2) := by
  induction ls generalizing number with
  | nil => simp [readLinesTelling, readLines]
  | cons l rest ih =>
    rw [readLinesTelling, readLines]
    cases readLine number l with
    | error f => simp
    | ok read? =>
      cases read? with
      | none => exact ih (number + 1)
      | some d => simp [ih (number + 1)]

/-- The names that declarations introduce. -/
def namesOf (ds : List Located) : Names :=
  ⟨.ofList (fluentNames ds), (operatorNames ds).eraseDups⟩

/-- The names of the declarations in front are those that are known. -/
theorem introduce_namesOf (handlers : List (Handler m)) (ds : List Located) (d : Located) :
    (namesOf ds).introduce handlers d = (do
      (repetitions (fluentNames ds) (operatorNames ds) [d]).forM (·.tell handlers)
      return namesOf (ds ++ [d])) := by
  obtain ⟨line, e⟩ := d
  rw [namesOf, namesOf, fluentNames_append, operatorNames_append, ← FluentSet.insertAll_ofList,
    List.eraseDups_append]
  cases e with
  | fluent name =>
    have hnames : fluentNames [⟨line, .fluent name⟩] = [name] := rfl
    have hothers : operatorNames [⟨line, .fluent name⟩] = [] := rfl
    by_cases hmem : name ∈ fluentNames ds
    · have hknown : name ∈ (FluentSet.ofList (fluentNames ds)).labels := by
        rwa [FluentSet.labels_ofList, List.mem_eraseDups]
      simp [Names.introduce, repetitions, hnames, hothers, hmem, hknown, FluentSet.insertAll,
        FluentSet.insert_of_mem hknown, List.removeAll]
    · have hnew : name ∉ (FluentSet.ofList (fluentNames ds)).labels := by
        rwa [FluentSet.labels_ofList, List.mem_eraseDups]
      simp [Names.introduce, repetitions, hnames, hothers, hmem, hnew, FluentSet.insertAll,
        List.removeAll]
  | operator name =>
    have hnames : operatorNames [⟨line, .operator name⟩] = [name] := rfl
    have hothers : fluentNames [⟨line, .operator name⟩] = [] := rfl
    by_cases hmem : name ∈ operatorNames ds
    · simp [Names.introduce, repetitions, hnames, hothers, hmem, FluentSet.insertAll,
        List.removeAll]
    · simp [Names.introduce, repetitions, hnames, hothers, hmem, FluentSet.insertAll,
        List.removeAll, List.eraseDups_cons]
  | _ =>
    simp [Names.introduce, repetitions, fluentNames, operatorNames,
      FluentSet.insertAll, List.removeAll]

private theorem foldlM_introduce (handlers : List (Handler m)) (ds : List Located) :
    ds.foldlM (Names.introduce handlers) ⟨.empty, []⟩ = (do
      (repetitions [] [] ds).forM (·.tell handlers)
      return namesOf ds) := by
  induction ds using List.reverseRecOn with
  | nil =>
    have hnone : namesOf [] = ⟨.empty, []⟩ := rfl
    simp [repetitions, hnone]
  | append_singleton ds d ih =>
    rw [List.foldlM_append, ih, repetitions_append]
    simp [introduce_namesOf]

private theorem assemble_namesOf (ds : List Located) : (namesOf ds).assemble ds = assemble ds := by
  have hundeclared : ∀ fluents : List String,
      undeclared? fluents (operatorNames ds).eraseDups = undeclared? fluents (operatorNames ds) :=
        fun fluents => by
    funext d
    simp only [undeclared?, List.mem_eraseDups]
  rw [Names.assemble, assemble, namesOf, hundeclared]
  rfl

private theorem readTelling_eq (handlers : List (Handler m)) (ls : List Line) :
    readTelling handlers ls = (do
      (read ls).warnings.forM (·.tell handlers)
      return (read ls).problem) := by
  rw [readTelling, readLinesTelling_eq, read]
  cases readLines 1 ls with
  | mk ws result =>
    cases result with
    | error f => simp
    | ok ds => simp [foldlM_introduce, assemble_namesOf]

end

/-- What a warning says: its line and its text. -/
def Warning.report (w : Warning) : Nat × String :=
  (w.line, w.oddity.message)

/-- The handler that notes, under its number, what it is told. -/
def noting (i : Nat) : Handler (StateM (List (Nat × Nat × String))) := fun line message =>
  modify (· ++ [(i, line, message)])

private theorem run_tell_noting (is : List Nat) (w : Warning) (notes : List (Nat × Nat × String)) :
    (w.tell (is.map noting)).run notes = ((), notes ++ is.map fun i => (i, w.report)) := by
  induction is generalizing notes with
  | nil =>
    show ((), notes) = _
    simp
  | cons i is ih =>
    have hcons : w.tell ((i :: is).map noting) =
        (noting i w.line w.oddity.message >>= fun _ => w.tell (is.map noting)) := rfl
    have hfirst : (noting i w.line w.oddity.message).run notes = ((), notes ++ [(i, w.report)]) :=
      rfl
    rw [hcons, StateT.run_bind, hfirst]
    simp [bind, ih]

/-- Handlers that note what they are told note the warnings as they are delivered. -/
theorem run_forM_tell_noting (handlers : Nat) (ws : List Warning)
    (notes : List (Nat × Nat × String)) :
    (ws.forM (·.tell ((List.range handlers).map noting))).run notes =
      ((), notes ++ (deliveries handlers ws).map fun c => (c.1, c.2.report)) := by
  induction ws generalizing notes with
  | nil =>
    show ((), notes) = _
    simp [deliveries]
  | cons w ws ih =>
    have hdeliveries : (deliveries handlers (w :: ws)).map (fun c => (c.1, c.2.report)) =
        (List.range handlers).map (fun i => (i, w.report)) ++
          (deliveries handlers ws).map fun c => (c.1, c.2.report) := by
      simp [deliveries, Function.comp_def]
    rw [List.forM_eq_forM] at ih ⊢
    rw [List.forM_cons, StateT.run_bind, run_tell_noting, hdeliveries]
    simp [bind, ih]

/-- Every handler gets all warnings. -/
theorem filter_deliveries {handlers i : Nat} (hi : i < handlers) (ws : List Warning) :
    ((deliveries handlers ws).filter (·.1 = i)).map (·.2) = ws := by
  have hone : (List.range handlers).filter (· = i) = [i] := by
    rw [List.filter_eq, List.count_range, if_pos hi]
    rfl
  simp only [deliveries, List.filter_flatMap, List.map_flatMap, List.filter_map,
    Function.comp_def, hone, List.map_cons, List.map_nil, List.flatMap_singleton']

/-- The warnings of the first round end where it fails, and then there is no second one. -/
theorem exists_warnings_read (ls : List Line) :
    ∃ negatives again, (read ls).warnings = negatives ++ again ∧
    InLineOrder (NegativeInitial ls) negatives ∧
      InLineOrder (fun w => AllRead ls ∧ Redeclared ls w) again := by
  have hnegatives := inLineOrder_warnings_readLines ls
  cases hlines : readLines 1 ls with
  | mk ws result =>
    rw [hlines] at hnegatives
    cases result with
    | error f =>
      obtain ⟨n, fault, -, hfirst⟩ := firstFault_of_readLines (congrArg Prod.snd hlines)
      refine ⟨ws, [], by simp [read, hlines], hnegatives, fun w => ?_, .nil⟩
      simp only [List.not_mem_nil, false_iff, not_and]
      exact fun hread => absurd hfirst.found (hread n fault)
    | ok ds =>
      obtain ⟨hread, -⟩ := read_problem_eq (congrArg Prod.snd hlines)
      obtain rfl := readLines_eq_located (congrArg Prod.snd hlines)
      obtain ⟨hmem, hincreasing⟩ := inLineOrder_repetitions ls
      exact ⟨ws, repetitions [] [] (located 1 ls), by simp [read, hlines], hnegatives,
        fun w => by rw [hmem, and_iff_right hread], hincreasing⟩

/-- The warnings about a text are exact. First come the fluents declared to be initially false, up
to the first line that is misread; then, if there is no such line, the names that are introduced
again, both in the order of the lines. Whatever the handlers are, each of these warnings is told to
all of them in turn before the next one is, and the problem or the failure is that of the reading
without handlers. So each handler is told all of the warnings. -/
theorem read_tells_warnings (ls : List Line) :
    (∃ negatives again, (read ls).warnings = negatives ++ again ∧
        InLineOrder (NegativeInitial ls) negatives ∧
          InLineOrder (fun w => AllRead ls ∧ Redeclared ls w) again) ∧
      (∀ (m : Type → Type) [Monad m] [LawfulMonad m] (handlers : List (Handler m)),
        readTelling handlers ls = (do
          (read ls).warnings.forM fun w => handlers.forM fun h => h w.line w.oddity.message
          return (read ls).problem)) ∧
      ∀ handlers,
        (readTelling ((List.range handlers).map noting) ls).run [] =
            ((read ls).problem, (deliveries handlers (read ls).warnings).map fun c =>
              (c.1, c.2.report)) ∧
          ∀ i < handlers,
            ((deliveries handlers (read ls).warnings).filter (·.1 = i)).map (·.2) =
              (read ls).warnings := by
  refine ⟨exists_warnings_read ls, fun m _ _ handlers => readTelling_eq handlers ls,
    fun handlers => ⟨?_, ?_⟩⟩
  · rw [readTelling_eq, StateT.run_bind, run_forM_tell_noting, List.nil_append]
    rfl
  · exact fun i hi => filter_deliveries hi (read ls).warnings

/-- The lines of a text that is odd on four lines, and uses an unknown name between them. -/
def oddities : List Line :=
  ["init(-a).", "fluent(a).", "operator(o).", "fluent(a).", "fluent(o).",
    "goal(b).", "operator(o).",
    "fluent(a)."].map fun l => .ok l.toList

/-- What is odd behind the line at fault is reported as well. The name of an operator is free for a
fluent. -/
theorem read_tells_warnings_oddities :
    (readTelling ((List.range 2).map noting) oddities).run [] =
      (.error (.line 6 (.undeclaredFluent "b")),
        [(0, 1, Oddity.negativeInitial.message), (1, 1, Oddity.negativeInitial.message),
          (0, 4, "fluent a is already declared"), (1, 4, "fluent a is already declared"),
          (0, 7, "operator o is already declared"), (1, 7, "operator o is already declared"),
          (0, 8, "fluent a is already declared"), (1, 8, "fluent a is already declared")]) ∧
      ((deliveries 2 (read oddities).warnings).filter (·.1 = 1)).map (·.2) =
        (read oddities).warnings ∧
      readTelling [fun _ _ => throw ()] oddities =
        (throw () : Except Unit (Except Failure Problem)) := by
  obtain ⟨-, htold, hnoted⟩ := read_tells_warnings oddities
  obtain ⟨hnotes, hall⟩ := hnoted 2
  have hwarnings : (read oddities).warnings = [⟨1, .negativeInitial⟩, ⟨4, .fluentAgain "a"⟩,
      ⟨7, .operatorAgain "o"⟩, ⟨8, .fluentAgain "a"⟩] := by decide +kernel
  have hproblem : (read oddities).problem = .error (.line 6 (.undeclaredFluent "b")) := by rfl
  refine ⟨?_, hall 1 (by decide), ?_⟩
  · rw [hnotes, hproblem, hwarnings]
    exact congrArg (Prod.mk _) (by decide +kernel)
  · rw [htold, hwarnings]
    rfl

end HorizonPlanner.ProblemText
