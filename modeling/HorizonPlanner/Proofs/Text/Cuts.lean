import HorizonPlanner.Proofs.Text.Lines
import HorizonPlanner.Proofs.Text.Words

/-!
# Texts that are cut off

A text that is cut off has the lines and the words of the whole text up to the cut, except that the
cut may have shortened the last of them. A shortened numeral is the numeral of a smaller number,
unless only its dash is left.
-/

namespace HorizonPlanner.Text

/-- The words of a text that is cut off, and those of the whole text. -/
inductive CutShort : List (List Char) → List (List Char) → Prop
  /-- The cut is in front of the first word. -/
  | nil {ws : List (List Char)} : CutShort [] ws
  /-- The cut is in a word, or right behind it. -/
  | last {x w : List Char} {ws : List (List Char)} : x ≠ [] → x <+: w → CutShort [x] (w :: ws)
  /-- The cut is behind the first word. -/
  | cons {w : List Char} {xs ws : List (List Char)} : CutShort xs ws → CutShort (w :: xs) (w :: ws)

variable {isSep : Char → Bool} {c : Char} {current text rest word : List Char}

/-! ### Bytes -/

/-- A text in ASCII has one byte for each character. -/
theorem utf8_eq_map (h : ∀ c ∈ text, c.toNat < 0x80) :
    utf8 text = text.map fun c => UInt8.ofNat c.toNat := by
  rw [utf8, List.map_eq_flatMap]
  refine List.flatMap_congr fun c hc => ?_
  have hcode : c.toNat < 0x80 := h c hc
  have hencodes := encodes_utf8EncodeChar c
  generalize String.utf8EncodeChar c = bytes at hencodes ⊢
  cases hencodes <;> first | rfl | omega

/-- Cutting off the bytes of an ASCII text is cutting off the text. -/
theorem exists_prefix_of_utf8 (h : ∀ c ∈ text, c.toNat < 0x80) {bytes : List UInt8}
    (hbytes : bytes <+: utf8 text) :
    ∃ t, t <+: text ∧ bytes = utf8 t := by
  rw [utf8_eq_map h, List.prefix_map_iff] at hbytes
  obtain ⟨t, ht, rfl⟩ := hbytes
  exact ⟨t, ht, (utf8_eq_map fun c hc => h c (ht.subset hc)).symm⟩

/-! ### Lines -/

/-- A text that is cut off consists of complete lines and of a part of the next one. -/
theorem exists_lines_of_prefix {ls : List (List Char)} (h : text <+: ls.flatMap (· ++ ['\n'])) :
    ∃ init last more, text = init.flatMap (· ++ ['\n']) ++ last ∧ ls = init ++ more ∧
      (last = [] ∨ ∃ l more', more = l :: more' ∧ last <+: l) := by
  induction ls generalizing text with
  | nil =>
    rw [List.flatMap_nil, List.prefix_nil] at h
    exact ⟨[], [], [], h, rfl, .inl rfl⟩
  | cons l ls ih =>
    rw [List.flatMap_cons] at h
    rcases List.prefix_or_prefix_of_prefix h (List.prefix_append _ _) with hshort | ⟨rest, rfl⟩
    · rcases List.prefix_concat_iff.mp hshort with rfl | hlast
      · exact ⟨[l], [], ls, by simp, rfl, .inl rfl⟩
      · exact ⟨[], text, l :: ls, rfl, rfl, .inr ⟨l, ls, rfl, hlast⟩⟩
    · obtain ⟨init, last, more, rfl, rfl, hlast⟩ := ih ((List.prefix_append_right_inj _).mp h)
      exact ⟨l :: init, last, more, by simp, rfl, hlast⟩

/-! ### Words -/

/-- A separator ends the word under way, and what comes after it has words of its own. -/
theorem words_append_cons_of_isSep (hc : isSep c = true) (text rest : List Char) :
    words isSep (text ++ c :: rest) = words isSep text ++ words isSep rest := by
  have hfrom : ∀ current, wordsFrom isSep current (text ++ c :: rest) =
      wordsFrom isSep current text ++ wordsFrom isSep [] rest := by
    induction text with
    | nil =>
      intro current
      simp only [List.nil_append, wordsFrom, hc, if_true]
      split <;> rfl
    | cons x text ih =>
      intro current
      rw [List.cons_append, wordsFrom, wordsFrom, ih, ih]
      split
      · split <;> rfl
      · rfl
  exact hfrom []

/-- The words of lines are those of one line after the other. -/
theorem words_lines_append (hfeed : isSep '\n' = true) (ls : List (List Char)) (last : List Char) :
    words isSep (ls.flatMap (· ++ ['\n']) ++ last) = ls.flatMap (words isSep) ++
      words isSep last := by
  induction ls with
  | nil => rfl
  | cons l ls ih =>
    rw [List.flatMap_cons, List.flatMap_cons, List.append_assoc, List.append_assoc,
      List.singleton_append, words_append_cons_of_isSep hfeed, ih, List.append_assoc]

/-- The word under way is the beginning of a word, however it goes on. -/
theorem exists_wordsFrom_eq_cons (isSep : Char → Bool) (h : current ≠ []) (text : List Char) :
    ∃ w ws, wordsFrom isSep current text = w :: ws ∧ current.reverse <+: w := by
  induction text generalizing current with
  | nil => exact ⟨current.reverse, [], by simp [wordsFrom, h], List.prefix_refl _⟩
  | cons x text ih =>
    rw [wordsFrom]
    split
    · exact ⟨current.reverse, _, by rw [if_neg (by simpa using h)], List.prefix_refl _⟩
    · obtain ⟨w, ws, hws, hpre⟩ := ih (List.cons_ne_nil x current)
      rw [List.reverse_cons] at hpre
      exact ⟨w, ws, hws, (List.prefix_append _ _).trans hpre⟩

/-- Every character is a separator or stands in a word. -/
theorem isSep_or_mem_words (isSep : Char → Bool) (hc : c ∈ text) :
    isSep c = true ∨ ∃ w ∈ words isSep text, c ∈ w := by
  have hfrom : ∀ current, isSep c = true ∨ ∃ w ∈ wordsFrom isSep current text, c ∈ w := by
    induction text with
    | nil => simp at hc
    | cons x text ih =>
      intro current
      rw [wordsFrom]
      by_cases hx : isSep x = true
      · rw [if_pos hx]
        rcases List.mem_cons.mp hc with rfl | hc
        · exact .inl hx
        · rcases ih hc [] with hsep | ⟨w, hw, hcw⟩
          · exact .inl hsep
          · refine .inr ⟨w, ?_, hcw⟩
            split
            · exact hw
            · exact List.mem_cons_of_mem _ hw
      · rw [if_neg hx]
        rcases List.mem_cons.mp hc with rfl | hc
        · obtain ⟨w, ws, hws, hpre⟩ :=
            exists_wordsFrom_eq_cons isSep (List.cons_ne_nil c current) text
          exact .inr ⟨w, by simp [hws], hpre.subset (by simp)⟩
        · exact ih hc (x :: current)
  exact hfrom []

/-- The words of a text that is cut off. -/
theorem cutShort_words (h : rest <+: text) : CutShort (words isSep rest) (words isSep text) := by
  obtain ⟨behind, rfl⟩ := h
  have hfrom : ∀ current, CutShort (wordsFrom isSep current rest)
      (wordsFrom isSep current (rest ++ behind)) := by
    induction rest with
    | nil =>
      intro current
      cases current with
      | nil => exact .nil
      | cons x current =>
        obtain ⟨w, ws, hws, hpre⟩ := exists_wordsFrom_eq_cons isSep
          (List.cons_ne_nil x current) behind
        rw [List.nil_append, hws]
        exact .last (by simp) hpre
    | cons x rest ih =>
      intro current
      rw [List.cons_append, wordsFrom, wordsFrom]
      split
      · split
        · exact ih []
        · exact .cons (ih [])
      · exact ih (x :: current)
  exact hfrom []

/-- Words in front do not change how a list of words is cut short. -/
theorem CutShort.append_left {xs ws : List (List Char)} (h : CutShort xs ws)
    (us : List (List Char)) :
    CutShort (us ++ xs) (us ++ ws) := by
  induction us with
  | nil => exact h
  | cons u us ih => exact .cons ih

/-- What cuts some words short cuts more words short. -/
theorem CutShort.append_right {xs ws : List (List Char)} (h : CutShort xs ws)
    (vs : List (List Char)) :
    CutShort xs (ws ++ vs) := by
  induction h with
  | nil => exact .nil
  | last hne hpre => exact .last hne hpre
  | cons _ ih => exact .cons ih

/-! ### Numerals -/

namespace Numeral

variable {i j : Int} {n : Nat} {x : List Char}

/-- A numeral that is cut off is that of a smaller number. -/
theorem exists_of_prefix_ofNat (h : x <+: ofNat n) (hne : x ≠ []) :
    ∃ m, x = ofNat m ∧ m ≤ n ∧ (n ≠ 0 → m ≠ 0) := by
  induction n using ofNat.induct with
  | case1 n hlt =>
    have hdigit : ofNat n = [] ++ [digitChar n] := by rw [ofNat, if_pos hlt, List.nil_append]
    rw [hdigit, List.prefix_concat_iff, List.prefix_nil] at h
    exact ⟨n, (h.resolve_right hne).trans hdigit.symm, Nat.le_refl n, id⟩
  | case2 n hge ih =>
    have hdigits : ofNat n = ofNat (n / 10) ++ [digitChar (n % 10)] := by rw [ofNat, if_neg hge]
    rw [hdigits, List.prefix_concat_iff] at h
    rcases h with rfl | hpre
    · exact ⟨n, hdigits.symm, Nat.le_refl n, id⟩
    · obtain ⟨m, rfl, hle, hpos⟩ := ih hpre
      exact ⟨m, rfl, by omega, fun _ => hpos (by omega)⟩

private theorem ofNat_injective {m : Nat} (h : ofNat m = ofNat n) : m = n := by
  rw [← ofDigitChars_ofNat m, h, ofDigitChars_ofNat]

private theorem dash_cons_ne_ofNat (n : Nat) : '-' :: x ≠ ofNat n := fun h =>
  absurd (isDigit_of_mem_ofNat (h ▸ List.mem_cons_self)) (by decide)

/-- The numeral of zero is one digit. -/
theorem ofInt_zero : ofInt 0 = ['0'] := by
  rw [ofInt, if_neg (by decide), Int.natAbs_zero, ofNat, if_pos (by decide)]
  rfl

/-- A dash alone is no numeral. -/
theorem ofInt_ne_dash (i : Int) : ofInt i ≠ ['-'] := by
  unfold ofInt
  split
  · simp [ofNat_ne_nil]
  · exact fun h => dash_cons_ne_ofNat i.natAbs h.symm

/-- An integer is determined by its numeral. -/
theorem ofInt_injective (h : ofInt i = ofInt j) : i = j := by
  unfold ofInt at h
  split at h <;> split at h
  · have := ofNat_injective (List.cons.inj h).2
    omega
  · exact absurd h (dash_cons_ne_ofNat _)
  · exact absurd h.symm (dash_cons_ne_ofNat _)
  · have := ofNat_injective h
    omega

/-- A numeral that is cut off is that of a smaller integer, unless only its dash is left. -/
theorem exists_of_prefix_ofInt (h : x <+: ofInt i) (hne : x ≠ []) (hdash : x ≠ ['-']) :
    ∃ j, x = ofInt j ∧ j.natAbs ≤ i.natAbs ∧ (i ≠ 0 → j ≠ 0) := by
  unfold ofInt at h
  split at h
  · next hneg =>
    cases x with
    | nil => exact absurd rfl hne
    | cons c y =>
      obtain ⟨rfl, hy⟩ := List.cons_prefix_cons.mp h
      obtain ⟨m, rfl, hle, hpos⟩ := exists_of_prefix_ofNat hy fun hnil => hdash (by rw [hnil])
      have hm : m ≠ 0 := hpos (by omega)
      exact ⟨-(m : Int),
        by rw [ofInt, if_pos (by omega), Int.natAbs_neg, Int.natAbs_natCast], by omega, by omega⟩
  · next hneg =>
    obtain ⟨m, rfl, hle, hpos⟩ := exists_of_prefix_ofNat h hne
    exact ⟨m, by rw [ofInt, if_neg (by omega), Int.natAbs_natCast], by omega, by omega⟩

end Numeral

end HorizonPlanner.Text
