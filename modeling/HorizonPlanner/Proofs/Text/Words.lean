import HorizonPlanner.Text.Blank
import HorizonPlanner.Proofs.Text.Numerals

/-!
# Words

The words of a text are cut at the separators. Words that are written one after the other, with
separators between them, are found again.
-/

namespace HorizonPlanner.Text

variable {isSep : Char → Bool} {c : Char} {word rest text : List Char}

/-- The word under way takes up everything up to the next separator. -/
theorem wordsFrom_append (h : ∀ c ∈ word, isSep c = false) (current rest : List Char) :
    wordsFrom isSep current (word ++ rest) = wordsFrom isSep (word.reverse ++ current) rest := by
  induction word generalizing current with
  | nil => rfl
  | cons c word ih =>
    obtain ⟨hc, hword⟩ := List.forall_mem_cons.mp h
    rw [List.cons_append, wordsFrom, if_neg (by simp [hc]), ih hword]
    simp

/-- A separator in front of a text changes nothing. -/
theorem words_cons_of_isSep (h : isSep c = true) : words isSep (c :: rest) = words isSep rest := by
  simp [words, wordsFrom, h]

/-- A word that is followed by a separator is the first one. -/
theorem words_append_cons (hne : word ≠ []) (hword : ∀ c ∈ word, isSep c = false)
    (hc : isSep c = true) : words isSep (word ++ c :: rest) = word :: words isSep rest := by
  rw [words, wordsFrom_append hword, List.append_nil, wordsFrom, if_pos hc,
    if_neg (by simpa using hne), List.reverse_reverse]
  rfl

/-- A text without separators is a word. -/
theorem words_eq_singleton (hne : word ≠ []) (hword : ∀ c ∈ word, isSep c = false) :
    words isSep word = [word] := by
  have h := wordsFrom_append hword [] []
  rw [List.append_nil, List.append_nil] at h
  rw [words, h, wordsFrom, if_neg (by simpa using hne), List.reverse_reverse]

/-- Words that are each followed by a separator are found again. -/
theorem words_flatMap_append (hc : isSep c = true) {ws : List (List Char)}
    (hws : ∀ w ∈ ws, w ≠ [] ∧ ∀ x ∈ w, isSep x = false) :
    words isSep (ws.flatMap (· ++ [c]) ++ rest) = ws ++ words isSep rest := by
  induction ws with
  | nil => rfl
  | cons w ws ih =>
    obtain ⟨⟨hne, hw⟩, hws⟩ := List.forall_mem_cons.mp hws
    rw [List.flatMap_cons, List.append_assoc, List.append_assoc, List.singleton_append,
      words_append_cons hne hw hc, ih hws, List.cons_append]

/-- Words that each stand behind a separator are found again. -/
theorem words_flatMap_cons (hc : isSep c = true) {ws : List (List Char)}
    (hws : ∀ w ∈ ws, w ≠ [] ∧ ∀ x ∈ w, isSep x = false) :
    words isSep (ws.flatMap (c :: ·)) = ws := by
  induction ws with
  | nil => rfl
  | cons w ws ih =>
    obtain ⟨⟨hne, hw⟩, hws⟩ := List.forall_mem_cons.mp hws
    have hrest := ih hws
    rw [List.flatMap_cons, List.cons_append, words_cons_of_isSep hc]
    cases ws with
    | nil => rw [List.flatMap_nil, List.append_nil, words_eq_singleton hne hw]
    | cons v ws =>
      rw [List.flatMap_cons, List.cons_append, words_cons_of_isSep hc] at hrest
      rw [List.flatMap_cons, List.cons_append, words_append_cons hne hw hc, hrest]

/-- A separator at the end of a text changes nothing. -/
theorem words_concat_of_isSep (hc : isSep c = true) :
    words isSep (text ++ [c]) = words isSep text := by
  have hfrom : ∀ current, wordsFrom isSep current (text ++ [c]) = wordsFrom isSep current text := by
    intro current
    induction text generalizing current with
    | nil => simp [wordsFrom, hc]
    | cons x text ih =>
      rw [List.cons_append, wordsFrom, wordsFrom, ih, ih]
  exact hfrom []

/-- The words are the parts between separators that are not empty. -/
theorem words_eq_filter_splitOnP (text : List Char) :
    words isSep text = (text.splitOnP isSep).filter (· ≠ []) := by
  have hfrom : ∀ current, wordsFrom isSep current text =
      (text.splitOnPPrepend isSep current).filter (· ≠ []) := by
    induction text with
    | nil => 
      intro current
      rw [wordsFrom, List.splitOnPPrepend_nil]
      cases current <;> simp
    | cons x text ih =>
      intro current
      rw [wordsFrom, List.splitOnPPrepend_cons_eq_if, ← List.splitOnPPrepend_nil_right, ih, ih]
      split
      · cases current <;> simp
      · rfl
  exact hfrom []

/-! ### Numbers as words -/

/-- No digit separates words. -/
theorem isSeparator_of_isDigit (h : c.isDigit = true) : isSeparator c = false := by
  rw [Bool.eq_false_iff]
  intro hsep
  simp only [isSeparator, Bool.or_eq_true, beq_iff_eq] at hsep
  rcases hsep with (((rfl | rfl) | rfl) | rfl) | rfl <;> exact absurd h (by decide)

/-- Numbers have no separators in them. -/
theorem isSeparator_of_mem_ofInt {i : Int} (h : c ∈ Numeral.ofInt i) : isSeparator c = false := by
  rcases Numeral.eq_dash_or_isDigit_of_mem_ofInt h with rfl | hc
  · rfl
  · exact isSeparator_of_isDigit hc

/-- Numbers that are each followed by a space are found again. -/
theorem words_numbers (numbers : List Int) (rest : List Char) :
    words isSeparator (numbers.flatMap (fun i => Numeral.ofInt i ++ [' ']) ++ rest) =
      numbers.map Numeral.ofInt ++ words isSeparator rest := by
  have hwords : ∀ w ∈ numbers.map Numeral.ofInt, w ≠ [] ∧ ∀ x ∈ w, isSeparator x = false :=
    List.forall_mem_map.mpr fun i _ =>
      ⟨Numeral.ofInt_ne_nil i, fun _ hx => isSeparator_of_mem_ofInt hx⟩
  rw [← words_flatMap_append (show isSeparator ' ' = true from rfl) hwords, List.flatMap_map]

end HorizonPlanner.Text
