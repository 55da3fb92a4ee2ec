import HorizonPlanner.Declaration
import HorizonPlanner.Proofs.Text.Blanks
import Mathlib.Tactic.Simproc.ExistsAndEq

/-!
# The grammar of declarations

A declaration is written as its keyword, its arguments in parentheses and a full stop, with gaps of
blanks at nine places of choice. A line is read as a declaration exactly when it is one of the ways
to write it, and then the line is a way to write no other declaration. Of the other lines, those
with the parentheses and the stop in place have arguments that do not fit the keyword.
-/

namespace HorizonPlanner

open Text

/-! ### Writing declarations -/

/-- The gaps around a keyword and around the full stop. -/
structure Declaration.Frame where
  /-- In front of the keyword. -/
  beforeKeyword : Gap
  /-- Between the keyword and the parenthesis. -/
  behindKeyword : Gap
  /-- Between the parenthesis and the full stop. -/
  beforeStop : Gap
  /-- Behind the full stop. -/
  behindStop : Gap

/-- The gaps within arguments. -/
structure Declaration.Gaps where
  /-- In front of a name that has no dash. -/
  beforeName : Gap
  /-- Behind this name. -/
  behindName : Gap
  /-- In front of the dash, whether or not there is one. -/
  beforeDash : Gap
  /-- Between the dash and its fluent. -/
  behindDash : Gap
  /-- Behind this fluent. -/
  behindFluent : Gap

namespace Declaration

/-- A letter or an underscore, followed by letters, digits, underscores and dashes. -/
inductive IsNameText : List Char → Prop
  /-- The first character and the others. -/
  | mk {c : Char} {rest : List Char} : c.isAlpha = true ∨ c = '_' →
    (∀ d ∈ rest, d.isAlphanum = true ∨ d = '_' ∨ d = '-') → IsNameText (c :: rest)

/-- The keyword of a declaration. -/
def keyword : Declaration → Keyword
  | .fluent _ => .fluent
  | .operator _ => .operator
  | .precondition .. => .pre
  | .effect .. => .eff
  | .initially .. => .init
  | .goal .. => .goal

/-- All names of the declaration are names indeed. -/
def Named : Declaration → Prop
  | .fluent name | .operator name | .initially name _ | .goal name _ => IsNameText name.toList
  | .precondition o f _ | .effect o f _ => IsNameText o.toList ∧ IsNameText f.toList

/-- A name between its gaps. -/
def Gaps.name (g : Gaps) (n : String) : List Char :=
  g.beforeName.val ++ n.toList ++ g.behindName.val

/-- A fluent with its dash, unless it stands for its being true. -/
def Gaps.literal (g : Gaps) (f : String) (polarity : Bool) : List Char :=
  g.beforeDash.val ++ (if polarity then [] else ['-']) ++ g.behindDash.val ++
    f.toList ++ g.behindFluent.val

/-- The arguments of a declaration, written with these gaps. -/
def arguments (g : Gaps) : Declaration → List Char
  | .fluent name | .operator name => g.name name
  | .precondition o f polarity | .effect o f polarity => g.name o ++ ',' :: g.literal f polarity
  | .initially f polarity | .goal f polarity => g.literal f polarity

/-- A keyword with a text in parentheses and the full stop. -/
def Frame.enclose (r : Frame) (k : Keyword) (args : List Char) : List Char :=
  r.beforeKeyword.val ++ k.text.toList ++ r.behindKeyword.val ++ '(' :: args ++
    ')' :: r.beforeStop.val ++ '.' :: r.behindStop.val

/-- The declaration, written with these gaps. -/
def render (r : Frame) (g : Gaps) (d : Declaration) : List Char :=
  r.enclose d.keyword (d.arguments g)

variable {c : Char} {s args line : List Char} {n o f : String} {polarity : Bool}
    {k : Keyword} {d : Declaration}

/-! ### Names -/

private theorem isLetter_eq_true_iff : isLetter c = true ↔ c.isAlpha = true := by
  have hletter :
      c.isAlpha = (decide ('A' ≤ c ∧ c ≤ 'Z') || decide ('a' ≤ c) && decide (c ≤ 'z')) := rfl
  rw [isLetter, hletter, Bool.decide_and, Bool.or_comm]

private theorem isNameStart_eq_true_iff : isNameStart c = true ↔ c.isAlpha = true ∨ c = '_' := by
  rw [isNameStart, Bool.or_eq_true, isLetter_eq_true_iff, beq_iff_eq]

private theorem isNameRest_eq_true_iff :
    isNameRest c = true ↔ c.isAlphanum = true ∨ c = '_' ∨ c = '-' := by
  have hdigit : (decide ('0' ≤ c) && decide (c ≤ '9')) = c.isDigit := rfl
  simp only [isNameRest, hdigit, Bool.or_eq_true, isNameStart_eq_true_iff,
    Char.isAlphanum, beq_iff_eq]
  grind

private theorem isName_eq_true_iff : isName s = true ↔ IsNameText s := by
  cases s with
  | nil =>
    rw [isName, Bool.false_eq_true, false_iff]
    intro h
    cases h
  | cons c rest =>
    simp only [isName, Bool.and_eq_true, isNameStart_eq_true_iff, List.all_eq_true,
      isNameRest_eq_true_iff]
    constructor
    · rintro ⟨hc, hrest⟩
      exact .mk hc hrest
    · intro h
      cases h with
      | mk hc hrest => exact ⟨hc, hrest⟩

/-- Every character of a name may stand behind its first one. -/
theorem IsNameText.isNameRest_of_mem (h : IsNameText s) (hc : c ∈ s) : isNameRest c = true := by
  obtain ⟨hfirst, hrest⟩ := h
  rcases List.mem_cons.mp hc with rfl | hc
  · simp only [isNameRest, isNameStart_eq_true_iff.mpr hfirst, Bool.true_or]
  · exact isNameRest_eq_true_iff.mpr (hrest c hc)

/-- The code points of the characters of names. -/
theorem toNat_of_isNameRest (h : isNameRest c = true) :
    c.toNat = 45 ∨ 48 ≤ c.toNat ∧ c.toNat ≤ 57 ∨ 65 ≤ c.toNat ∧ c.toNat ≤ 90 ∨ c.toNat = 95 ∨
      97 ≤ c.toNat ∧ c.toNat ≤ 122 := by
  have hle : ∀ a b : Char, a ≤ b ↔ a.toNat ≤ b.toNat := fun _ _ => UInt32.le_iff_toNat_le
  simp only [isNameRest, isNameStart, isLetter, Bool.or_eq_true, Bool.and_eq_true,
    decide_eq_true_eq, beq_iff_eq, ← Char.toNat_inj, hle] at h
  simp only [show 'a'.toNat = 97 from rfl, show 'z'.toNat = 122 from rfl,
    show 'A'.toNat = 65 from rfl, show 'Z'.toNat = 90 from rfl, show '0'.toNat = 48 from rfl,
    show '9'.toNat = 57 from rfl, show '_'.toNat = 95 from rfl, show '-'.toNat = 45 from rfl] at h
  omega

/-- Names have no blanks in them. -/
theorem IsNameText.isBlank_of_mem (h : IsNameText s) (hc : c ∈ s) : isBlank c = false := by
  have hcode := toNat_of_isNameRest (h.isNameRest_of_mem hc)
  simp only [isBlank, blankRanges, List.any_cons, List.any_nil, Bool.or_false, Bool.or_eq_false_iff,
    Bool.and_eq_false_iff, decide_eq_false_iff_not]
  omega

/-- A name contains no character that names may not contain. -/
theorem IsNameText.notMem (h : IsNameText s) (hc : isNameRest c = false) : c ∉ s := fun hmem => by
  rw [h.isNameRest_of_mem hmem] at hc
  cases hc

/-- Names are not empty. -/
theorem IsNameText.ne_nil (h : IsNameText s) : s ≠ [] := by
  cases h
  simp

/-- A name does not begin with a dash. -/
theorem IsNameText.head?_ne_dash (h : IsNameText s) (rest : List Char) :
    (s ++ rest).head? ≠ some '-' := by
  obtain ⟨hfirst, -⟩ := h
  rintro heq
  rw [List.cons_append, List.head?_cons, Option.some.injEq] at heq
  subst heq
  revert hfirst
  decide

/-! ### Arguments -/

/-- What is read as a name is the name between gaps. -/
theorem readName_eq_some_iff :
    readName s = some n ↔ IsNameText n.toList ∧ ∃ g : Gaps, s = g.name n := by
  have hgaps : ∀ hn : IsNameText n.toList, trim s = n.toList ↔ ∃ g : Gaps, s = g.name n :=
    fun hn => by
    rw [trim_eq_iff fun c hc => hn.isBlank_of_mem hc]
    constructor
    · rintro ⟨a, b, h⟩
      exact ⟨⟨a, b, .none, .none, .none⟩, h⟩
    · rintro ⟨g, h⟩
      exact ⟨g.beforeName, g.behindName, h⟩
  unfold readName
  constructor
  · intro h
    simp only at h
    split at h
    · next hname =>
      have htrim : trim s = n.toList := by rw [← Option.some.inj h, String.toList_ofList]
      rw [htrim] at hname
      have hn := isName_eq_true_iff.mp hname
      exact ⟨hn, (hgaps hn).mp htrim⟩
    · cases h
  · rintro ⟨hn, hg⟩
    rw [(hgaps hn).mpr hg, if_pos (isName_eq_true_iff.mpr hn), String.ofList_toList]

/-- What is read as a fluent with or without a dash is written so between gaps. -/
theorem readLiteral_eq_some_iff :
    readLiteral s = some (f, polarity) ↔ IsNameText f.toList ∧
      ∃ g : Gaps, s = g.literal f polarity := by
  have hdash : isBlank '-' = false := by decide
  unfold readLiteral
  constructor
  · intro h
    split at h
    · next rest hrest =>
      obtain ⟨_, hname, heq⟩ := Option.map_eq_some_iff.mp h
      obtain ⟨rfl, rfl⟩ := Prod.mk.inj heq
      obtain ⟨a, rfl⟩ := (skipBlanks_eq_cons_iff hdash).mp hrest
      obtain ⟨hf, g, rfl⟩ := readName_eq_some_iff.mp hname
      exact ⟨hf, ⟨.none, .none, a, g.beforeName, g.behindName⟩, by simp [Gaps.literal, Gaps.name]⟩
    · obtain ⟨_, hname, heq⟩ := Option.map_eq_some_iff.mp h
      obtain ⟨rfl, rfl⟩ := Prod.mk.inj heq
      obtain ⟨hf, g, hg⟩ := readName_eq_some_iff.mp hname
      obtain ⟨a, ha⟩ := exists_gap_append_skipBlanks s
      rw [hg] at ha
      exact ⟨hf, ⟨.none, .none, a, g.beforeName, g.behindName⟩,
        by simp [ha, Gaps.literal, Gaps.name]⟩
  · rintro ⟨hf, g, rfl⟩
    cases polarity with
    | false =>
      have hskip : skipBlanks (g.literal f false) = '-' ::
          (g.behindDash.val ++ f.toList ++ g.behindFluent.val) := by
        rw [skipBlanks_eq_cons_iff hdash]
        exact ⟨g.beforeDash, by simp [Gaps.literal]⟩
      have hname : readName (g.behindDash.val ++ f.toList ++ g.behindFluent.val) = some f :=
        readName_eq_some_iff.mpr ⟨hf, ⟨g.behindDash, g.behindFluent, .none, .none, .none⟩, rfl⟩
      simp only [hskip, hname, Option.map_some]
    | true =>
      -- Both gaps in front of the name are skipped, and the name does not begin with a dash.
      obtain ⟨front, hfront⟩ := g.beforeDash.exists_append g.behindDash
      have hliteral : g.literal f true = front.val ++ (f.toList ++ g.behindFluent.val) := by
        simp [Gaps.literal, hfront]
      have hskip : skipBlanks (g.literal f true) = f.toList ++ g.behindFluent.val := by
        rw [hliteral, skipBlanks_append, skipBlanks_of_head?_ne]
        intro c hc
        rw [List.head?_append, Option.or_of_isSome (by simpa using hf.ne_nil)] at hc
        exact hf.isBlank_of_mem (List.mem_of_mem_head? hc)
      have hname : readName (f.toList ++ g.behindFluent.val) = some f :=
        readName_eq_some_iff.mpr ⟨hf, ⟨.none, g.behindFluent, .none, .none, .none⟩, rfl⟩
      rw [hskip]
      split
      · next rest hrest => exact absurd (by simp [hrest]) (hf.head?_ne_dash g.behindFluent.val)
      · rw [hname, Option.map_some]

/-- What is read as a name and a fluent is written so, with a comma between them. -/
theorem readCondition_eq_some_iff :
    readCondition s = some (o, f, polarity) ↔ (IsNameText o.toList ∧ IsNameText f.toList) ∧
      ∃ g : Gaps, s = g.name o ++ ',' :: g.literal f polarity := by
  have hcomma : ∀ g : Gaps, IsNameText o.toList → ∀ c ∈ g.name o, (c != ',') = true :=
    fun g ho c hc => by
    rw [bne_iff_ne]
    rintro rfl
    have hblank : isBlank ',' = false := by decide
    simp only [Gaps.name, List.mem_append] at hc
    rcases hc with (hc | hc) | hc
    · exact g.beforeName.notMem hblank hc
    · exact ho.notMem (by decide) hc
    · exact g.behindName.notMem hblank hc
  unfold readCondition
  constructor
  · intro h
    split at h
    · next rest hrest =>
      split at h
      · next o' f' polarity' hname hliteral =>
        obtain ⟨rfl, rfl, rfl⟩ : o' = o ∧ f' = f ∧ polarity' = polarity := by simpa using h
        obtain ⟨ho, g, hg⟩ := readName_eq_some_iff.mp hname
        obtain ⟨hf, g', hg'⟩ := readLiteral_eq_some_iff.mp hliteral
        have hs : s = s.takeWhile (· != ',') ++ s.dropWhile (· != ',') :=
          List.takeWhile_append_dropWhile.symm
        rw [hrest, hg, hg'] at hs
        exact ⟨⟨ho, hf⟩, ⟨g.beforeName, g.behindName, g'.beforeDash, g'.behindDash,
          g'.behindFluent⟩, hs⟩
      · cases h
    · cases h
  · rintro ⟨⟨ho, hf⟩, g, rfl⟩
    have htake : (g.name o ++ ',' :: g.literal f polarity).takeWhile (· != ',') = g.name o := by
      rw [List.takeWhile_append_of_pos (hcomma g ho)]
      simp
    have hdrop : (g.name o ++ ',' :: g.literal f polarity).dropWhile
        (· != ',') = ',' :: g.literal f polarity := by
      rw [List.dropWhile_append_of_pos (hcomma g ho)]
      simp
    have hname : readName (g.name o) = some o := readName_eq_some_iff.mpr ⟨ho, g, rfl⟩
    have hliteral : readLiteral (g.literal f polarity) = some (f, polarity) :=
      readLiteral_eq_some_iff.mpr ⟨hf, g, rfl⟩
    simp only [htake, hdrop, hname, hliteral]

/-- Arguments are read as those of a declaration exactly when they are one of the ways to write
them. -/
theorem readArguments_eq_some_iff :
    readArguments args k = some d ↔ d.keyword = k ∧ d.Named ∧ ∃ g : Gaps, args = d.arguments g := by
  cases k <;> cases d <;>
    simp [readArguments, keyword, Named, arguments, readName_eq_some_iff, readLiteral_eq_some_iff,
      readCondition_eq_some_iff, -Bool.exists_bool]

/-! ### Lines -/

/-- A text begins with a word exactly when the rest is what stands behind it. -/
theorem behind?_eq_some_iff {w rest : List Char} :
    Keyword.behind? w s = some rest ↔ s = w ++ rest := by
  induction w generalizing s with
  | nil => simp [Keyword.behind?]
  | cons c w ih =>
    cases s with
    | nil => simp [Keyword.behind?]
    | cons x s =>
      rw [Keyword.behind?, List.cons_append, List.cons.injEq]
      split
      · next heq => rw [ih, heq, and_iff_right rfl]
      · next hne => simp [Ne.symm hne]

private theorem isSome_head?_keyword (k : Keyword) : k.text.toList.head?.isSome = true := by
  cases k <;> decide

/-- Keywords differ in their first letters. -/
theorem keyword_eq_of_append_eq {k' : Keyword} {rest rest' : List Char}
    (h : k.text.toList ++ rest = k'.text.toList ++ rest') : k = k' := by
  have hhead := congrArg List.head? h
  rw [List.head?_append, List.head?_append, Option.or_of_isSome (isSome_head?_keyword k),
    Option.or_of_isSome (isSome_head?_keyword k')] at hhead
  revert hhead
  cases k <;> cases k' <;> decide

/-- The keyword read is the one a text begins with. -/
theorem keywordRead?_eq_some_iff {rest : List Char} :
    Keyword.read? s = some (k, rest) ↔ s = k.text.toList ++ rest := by
  have hread : ∀ {k rest}, Keyword.read? s = some (k, rest) → s = k.text.toList ++ rest :=
    fun {k rest} h => by
    obtain ⟨k', -, hk'⟩ := List.exists_of_findSome?_eq_some h
    obtain ⟨_, hbehind, heq⟩ := Option.map_eq_some_iff.mp hk'
    obtain ⟨rfl, rfl⟩ := Prod.mk.inj heq
    exact behind?_eq_some_iff.mp hbehind
  refine ⟨hread, fun hs => ?_⟩
  have hmem : k ∈ Keyword.all := by cases k <;> decide
  cases hfound : Keyword.read? s with
  | none =>
    have hnone := List.findSome?_eq_none_iff.mp hfound k hmem
    rw [behind?_eq_some_iff.mpr hs] at hnone
    cases hnone
  | some found =>
    obtain ⟨k', rest'⟩ := found
    have hs' := hread hfound
    obtain rfl := keyword_eq_of_append_eq (hs.symm.trans hs')
    rw [List.append_cancel_left (hs.symm.trans hs')]

/-- Blanks in front of a keyword are skipped, and nothing else. -/
theorem skipBlanks_append_keyword (g : Gap) (k : Keyword) (rest : List Char) :
    skipBlanks (g.val ++ (k.text.toList ++ rest)) = k.text.toList ++ rest := by
  have hfirst : ∀ c ∈ k.text.toList.head?, isBlank c = false := by
    cases k <;> rintro c ⟨⟩ <;> decide
  rw [skipBlanks_append, skipBlanks_of_head?_ne]
  intro c hc
  rw [List.head?_append, Option.or_of_isSome (isSome_head?_keyword k)] at hc
  exact hfirst c hc

private theorem isArgument_eq_true_iff : isArgument c = true ↔ c ≠ '(' ∧ c ≠ ')' := by
  simp [isArgument]

/-- A line with the shape of a declaration consists of what is found in it and of gaps. -/
theorem exists_frame_of_shape? (h : shape? line = some (k, args)) :
    (∀ c ∈ args, c ≠ '(' ∧ c ≠ ')') ∧ ∃ r : Frame, line = r.enclose k args := by
  unfold shape? at h
  obtain ⟨⟨k', s⟩, hkeyword, h⟩ := Option.bind_eq_some_iff.mp h
  simp only at h
  split at h
  case h_2 => cases h
  next body hopen =>
  split at h
  case h_2 => cases h
  next behindArgs hclose =>
  split at h
  case h_2 => cases h
  next rest hstop =>
  split at h
  case isFalse => cases h
  next hblank =>
  obtain ⟨rfl, rfl⟩ := Prod.mk.inj (Option.some.inj h)
  obtain ⟨front, hfront⟩ := exists_gap_append_skipBlanks line
  obtain ⟨behindKeyword, rfl⟩ := (skipBlanks_eq_cons_iff (by decide)).mp hopen
  obtain ⟨beforeStop, rfl⟩ := (skipBlanks_eq_cons_iff (by decide)).mp hstop
  have hbody : body.takeWhile isArgument ++ ')' :: (beforeStop.val ++ '.' :: rest) = body := by
    rw [← hclose, List.takeWhile_append_dropWhile]
  refine ⟨fun c hc => isArgument_eq_true_iff.mp (List.mem_takeWhile_imp hc),
    ⟨front, behindKeyword, beforeStop, ⟨rest, List.all_eq_true.mp hblank⟩⟩, ?_⟩
  rw [hfront, keywordRead?_eq_some_iff.mp hkeyword]
  simp only [Frame.enclose, List.append_assoc, List.cons_append]
  rw [hbody]

/-- The shape of a declaration is found whatever the gaps are. -/
theorem shape?_enclose (r : Frame) (k : Keyword) (hargs : ∀ c ∈ args, c ≠ '(' ∧ c ≠ ')') :
    shape? (r.enclose k args) = some (k, args) := by
  let behindArgs := ')' :: (r.beforeStop.val ++ '.' :: r.behindStop.val)
  let behindKeyword := r.behindKeyword.val ++ '(' :: (args ++ behindArgs)
  have hline : r.enclose k args = r.beforeKeyword.val ++ (k.text.toList ++ behindKeyword) := by
    simp [Frame.enclose, behindKeyword, behindArgs]
  have hkeyword : Keyword.read? (skipBlanks (r.enclose k args)) = some (k, behindKeyword) := by
    rw [hline, skipBlanks_append_keyword, keywordRead?_eq_some_iff]
  have hopen : skipBlanks behindKeyword = '(' :: (args ++ behindArgs) :=
    (skipBlanks_eq_cons_iff (by decide)).mpr ⟨r.behindKeyword, rfl⟩
  have hall : ∀ c ∈ args, isArgument c = true := fun c hc => isArgument_eq_true_iff.mpr (hargs c hc)
  have htake : (args ++ behindArgs).takeWhile isArgument = args := by
    rw [List.takeWhile_append_of_pos hall]
    simp [behindArgs, isArgument]
  have hclose : (args ++ behindArgs).dropWhile isArgument = behindArgs := by
    rw [List.dropWhile_append_of_pos hall]
    simp [behindArgs, isArgument]
  have hstop : skipBlanks (r.beforeStop.val ++ '.' :: r.behindStop.val) = '.' :: r.behindStop.val :=
    (skipBlanks_eq_cons_iff (by decide)).mpr ⟨r.beforeStop, rfl⟩
  have hend : r.behindStop.val.all isBlank = true := List.all_eq_true.mpr r.behindStop.property
  rw [shape?, Option.bind_eq_bind, hkeyword, Option.bind_some]
  simp only [hopen, htake, hclose, behindArgs, hstop, hend, if_true]

private theorem shape?_eq_some_iff : shape? line = some (k, args) ↔
    (∀ c ∈ args, c ≠ '(' ∧ c ≠ ')') ∧ ∃ r : Frame, line = r.enclose k args := by
  refine ⟨exists_frame_of_shape?, ?_⟩
  rintro ⟨hargs, r, rfl⟩
  exact shape?_enclose r k hargs

/-! ### Declarations -/

/-- Arguments have no parentheses in them. -/
theorem Named.arguments_ne (h : d.Named) (g : Gaps) : ∀ c ∈ d.arguments g, c ≠ '(' ∧ c ≠ ')' := by
  have hname : ∀ c, isBlank c = false → isNameRest c = false → ∀ n, IsNameText n.toList →
      c ∉ g.name n := by
    intro c hblank hrest n hn
    simp [Gaps.name, Gap.notMem _ hblank, hn.notMem hrest]
  have hliteral : ∀ c, isBlank c = false → isNameRest c = false → ∀ f, IsNameText f.toList →
      ∀ polarity,
      c ∉ g.literal f polarity := by
    intro c hblank hrest f hf polarity
    have hdash : c ≠ '-' := fun heq => absurd hrest (by rw [heq]; decide)
    cases polarity <;> simp [Gaps.literal, Gap.notMem _ hblank, hf.notMem hrest, hdash]
  have hall : ∀ c, isBlank c = false → isNameRest c = false → c ≠ ',' → c ∉ d.arguments g := by
    intro c hblank hrest hcomma
    cases d with
    | fluent n | operator n => exact hname c hblank hrest n h
    | precondition o f polarity | effect o f polarity =>
      simp [arguments, hname c hblank hrest o h.1, hcomma, hliteral c hblank hrest f h.2]
    | initially f polarity | goal f polarity => exact hliteral c hblank hrest f h polarity
  exact fun c hc => ⟨fun heq => hall '(' (by decide) (by decide) (by decide) (heq ▸ hc),
    fun heq => hall ')' (by decide) (by decide) (by decide) (heq ▸ hc)⟩

/-- A line is read as a declaration exactly when it is one of the ways to write it. -/
theorem read_eq_declaration_iff :
    read line = .declaration d ↔ d.Named ∧ ∃ (r : Frame) (g : Gaps), line = d.render r g := by
  unfold read
  constructor
  · intro h
    split at h
    · cases h
    · next k args hshape =>
      split at h
      · next d' hargs =>
        obtain rfl := Reading.declaration.inj h
        obtain ⟨-, r, rfl⟩ := shape?_eq_some_iff.mp hshape
        obtain ⟨rfl, hnamed, g, rfl⟩ := readArguments_eq_some_iff.mp hargs
        exact ⟨hnamed, r, g, rfl⟩
      · cases h
  · rintro ⟨hnamed, r, g, rfl⟩
    have hargs : readArguments (d.arguments g) d.keyword = some d :=
      readArguments_eq_some_iff.mpr ⟨rfl, hnamed, g, rfl⟩
    rw [render, shape?_enclose r d.keyword (hnamed.arguments_ne g)]
    simp only [hargs]

private theorem read_eq_badArguments_iff : read line = .badArguments k ↔
    ∃ args, (∀ c ∈ args, c ≠ '(' ∧ c ≠ ')') ∧ (∃ r : Frame, line = r.enclose k args) ∧
      ∀ d : Declaration, d.keyword = k → d.Named → ∀ g : Gaps, args ≠ d.arguments g := by
  unfold read
  constructor
  · intro h
    split at h
    · cases h
    · next k' args hshape =>
      split at h
      · cases h
      · next hargs =>
        obtain rfl := Reading.badArguments.inj h
        obtain ⟨hfree, hframe⟩ := shape?_eq_some_iff.mp hshape
        refine ⟨args, hfree, hframe, fun d hk hnamed g heq => ?_⟩
        rw [readArguments_eq_some_iff.mpr ⟨hk, hnamed, g, heq⟩] at hargs
        cases hargs
  · rintro ⟨args, hfree, ⟨r, rfl⟩, hnone⟩
    rw [shape?_enclose r k hfree]
    cases hargs : readArguments args k with
    | none => simp only [hargs]
    | some d =>
      obtain ⟨hk, hnamed, g, heq⟩ := readArguments_eq_some_iff.mp hargs
      exact absurd heq (hnone d hk hnamed g)

private theorem read_eq_shapeless_iff : read line = .shapeless ↔
    ∀ (r : Frame) (k : Keyword) (args : List Char), (∀ c ∈ args, c ≠ '(' ∧ c ≠ ')') →
      line ≠ r.enclose k args := by
  have hread : read line = .shapeless ↔ shape? line = none := by
    unfold read
    cases shape? line with
    | none => simp
    | some found => cases hargs : readArguments found.2 found.1 <;> simp [hargs]
  rw [hread]
  constructor
  · rintro hnone r k args hfree rfl
    rw [shape?_enclose r k hfree] at hnone
    cases hnone
  · intro hnone
    cases hshape : shape? line with
    | none => rfl
    | some found =>
      obtain ⟨hfree, r, hr⟩ := shape?_eq_some_iff.mp hshape
      exact absurd hr (hnone r found.1 found.2 hfree)

/-- The grammar of declarations is exact. A line is read as a declaration exactly when it is written
as one, with proper names and any gaps, so that it is written as one declaration at most. Otherwise
its arguments are found fault with exactly when they stand between the parentheses of a keyword
without fitting it, and nothing is read of lines that lack this shape. -/
theorem read_iff_render :
    (∀ line d, read line = .declaration d ↔ d.Named ∧
      ∃ (r : Frame) (g : Gaps), line = d.render r g) ∧
      (∀ line k, read line = .badArguments k ↔
        ∃ args, (∀ c ∈ args, c ≠ '(' ∧ c ≠ ')') ∧ (∃ r : Frame, line = r.enclose k args) ∧
          ∀ d : Declaration, d.keyword = k → d.Named → ∀ g : Gaps, args ≠ d.arguments g) ∧
      (∀ line, read line = .shapeless ↔ ∀ (r : Frame) (k : Keyword) (args : List Char),
        (∀ c ∈ args, c ≠ '(' ∧ c ≠ ')') → line ≠ r.enclose k args) ∧
      (∀ d : Declaration, d.Named → ∀ (r : Frame) (g : Gaps), read (d.render r g) =
        .declaration d) ∧
      ∀ d d' : Declaration, d.Named → d'.Named → ∀ (r r' : Frame) (g g' : Gaps),
        d.render r g = d'.render r' g' → d = d' := by
  have hback : ∀ d : Declaration, d.Named → ∀ (r : Frame) (g : Gaps), read
      (d.render r g) = .declaration d :=
    fun d hnamed r g => read_eq_declaration_iff.mpr ⟨hnamed, r, g, rfl⟩
  refine ⟨fun _ _ => read_eq_declaration_iff, fun _ _ => read_eq_badArguments_iff,
    fun _ => read_eq_shapeless_iff,
    hback, fun d d' hd hd' r r' g g' heq => ?_⟩
  have hread := hback d hd r g
  rw [heq, hback d' hd' r' g'] at hread
  exact (Reading.declaration.inj hread).symm

/-- Dashes within a name, in front of a name, and in the place of one. -/
theorem read_iff_render_dashes :
    read "eff(a-1,-\u00a0b-) .".toList = .declaration (.effect "a-1" "b-" false) ∧
      (∀ (d : Declaration) (r : Frame) (g : Gaps), d.Named →
        "eff(a-1,-\u00a0b-) .".toList = d.render r g →
        d = .effect "a-1" "b-" false) ∧
      (∃ args, (∃ r : Frame, "goal(--b).".toList = r.enclose .goal args) ∧
        ∀ d : Declaration, d.keyword = .goal → d.Named → ∀ g : Gaps, args ≠ d.arguments g) ∧
      ∀ (r : Frame) (k : Keyword) (args : List Char), (∀ c ∈ args, c ≠ '(' ∧ c ≠ ')') →
        "goals(-b).".toList ≠ r.enclose k args := by
  obtain ⟨-, hbad, hshapeless, hback, hunique⟩ := read_iff_render
  have hnamed : Named (.effect "a-1" "b-" false) :=
    ⟨isName_eq_true_iff.mp (by decide), isName_eq_true_iff.mp (by decide)⟩
  let r : Frame := ⟨.none, .none, ⟨[' '], List.forall_mem_singleton.mpr (by decide)⟩, .none⟩
  let g : Gaps := ⟨.none, .none, .none, ⟨['\u00a0'], List.forall_mem_singleton.mpr (by decide)⟩,
    .none⟩
  have hline : "eff(a-1,-\u00a0b-) .".toList = render r g (.effect "a-1" "b-" false) := by decide
  obtain ⟨args, -, hframe, hnone⟩ := (hbad "goal(--b).".toList .goal).mp (by decide)
  exact ⟨hline ▸ hback _ hnamed r g,
    fun d r' g' hd heq => hunique d _ hd hnamed r' r g' g (heq.symm.trans hline),
    ⟨args, hframe, hnone⟩, (hshapeless _).mp (by decide)⟩

end Declaration

end HorizonPlanner
