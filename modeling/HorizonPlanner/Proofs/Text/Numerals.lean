import HorizonPlanner.Sat.Literal
import Mathlib.Data.Nat.Notation

/-!
# Decimal numerals

The digits of a number are those of the standard library, and reading undoes writing. A text of
digits is read as the number they stand for, unless this number exceeds the bound.
-/

namespace HorizonPlanner.Text.Numeral

variable {bound value m n : Nat} {c : Char} {text : List Char}

/-! ### Digits -/

private theorem digitChar_eq (h : n < 10) : digitChar n = Nat.digitChar n := by
  have hall : ∀ d < 10, digitChar d = Nat.digitChar d := by decide
  exact hall n h

/-- The digits of a number are those of the standard library. -/
theorem ofNat_eq_toDigits (n : Nat) : ofNat n = Nat.toDigits 10 n := by
  induction n using ofNat.induct with
  | case1 n hlt => rw [ofNat, if_pos hlt, digitChar_eq hlt, Nat.toDigits_of_lt_base hlt]
  | case2 n hge ih =>
    have hmod : n % 10 < 10 := Nat.mod_lt _ (by decide)
    rw [ofNat, if_neg hge, ih, digitChar_eq hmod,
      Nat.toDigits_of_base_le (by decide) (Nat.le_of_not_lt hge)]

/-- A numeral has a digit. -/
theorem ofNat_ne_nil (n : Nat) : ofNat n ≠ [] := by
  rw [ofNat_eq_toDigits]
  exact Nat.toDigits_ne_nil

/-- Numerals of natural numbers consist of digits. -/
theorem isDigit_of_mem_ofNat (h : c ∈ ofNat n) : c.isDigit = true := by
  rw [ofNat_eq_toDigits] at h
  exact Nat.isDigit_of_mem_toDigits (by decide) (by decide) h

/-- The digits of a number stand for it. -/
theorem ofDigitChars_ofNat (n : Nat) : Nat.ofDigitChars 10 (ofNat n) 0 = n := by
  rw [ofNat_eq_toDigits]
  exact Nat.ofDigitChars_ten_toDigits

private theorem digitValue?_eq (c : Char) :
    digitValue? c = if c.isDigit then some (c.toNat - '0'.toNat) else none := by
  simp [digitValue?, Char.isDigit, Char.le_def]

/-! ### Reading -/

/-- More digits make a number no smaller. -/
theorem le_ofDigitChars (text : List Char) (value : Nat) :
    value ≤ Nat.ofDigitChars 10 text value := by
  rw [Nat.ofDigitChars_eq_ofDigitChars_zero]
  have hpos : 0 < 10 ^ text.length := Nat.pow_pos (by decide)
  exact Nat.le_trans (Nat.le_mul_of_pos_left value hpos) (Nat.le_add_right _ _)

/-- Digits behind a number are read exactly when the whole number is within the bound. -/
theorem extend_eq_ok_iff (h : value ≤ bound) :
    extend bound value text = .ok m ↔
      (∀ c ∈ text, c.isDigit = true) ∧ Nat.ofDigitChars 10 text value = m ∧ m ≤ bound := by
  induction text generalizing value with
  | nil =>
    simp only [extend, Except.ok.injEq, Nat.ofDigitChars_nil, List.not_mem_nil, false_implies,
      implies_true, true_and]
    exact ⟨fun hm => ⟨hm, hm ▸ h⟩, fun hm => hm.1⟩
  | cons c rest ih =>
    rw [extend, digitValue?_eq, List.forall_mem_cons, Nat.ofDigitChars_cons, Nat.mul_comm 10 value]
    by_cases hdigit : c.isDigit = true
    · simp only [hdigit, if_true, true_and]
      split
      · next hle => exact ih hle
      · next hlarge =>
        have hgrows := le_ofDigitChars rest (value * 10 + (c.toNat - '0'.toNat))
        simp only [reduceCtorEq, false_iff]
        rintro ⟨-, rfl, hle⟩
        exact hlarge (Nat.le_trans hgrows hle)
    · simp [hdigit]

/-- A number within the bound is read off its digits. -/
theorem extend_ofNat (h : n ≤ bound) : extend bound 0 (ofNat n) = .ok n :=
  (extend_eq_ok_iff (Nat.zero_le _)).mpr
    ⟨fun _ hc => isDigit_of_mem_ofNat hc, ofDigitChars_ofNat n, h⟩

private theorem unsigned_of_ne_nil (h : text ≠ []) : unsigned bound text = extend bound 0 text := by
  cases text with
  | nil => exact absurd rfl h
  | cons c rest => rfl

/-- A text without a sign is read as a natural number. -/
theorem toInt?_of_isDigit (h : text ≠ []) (hdigits : ∀ c ∈ text, c.isDigit = true) :
    toInt? text = (extend (Nat.pow 2 63 - 1) 0 text).map Int.ofNat := by
  unfold toInt?
  split
  · exact absurd rfl h
  · exact absurd (hdigits '+' (by simp)) (by decide)
  · exact absurd (hdigits '-' (by simp)) (by decide)
  · rfl

/-- An integer of at most one word is read off its text. -/
theorem toInt?_ofInt {i : Int} (h : i.natAbs < Word.half) : toInt? (ofInt i) = .ok i := by
  have hhalf : Word.half = Nat.pow 2 63 := by decide
  rw [hhalf] at h
  unfold ofInt
  split
  · next hneg =>
    rw [toInt?, unsigned_of_ne_nil (ofNat_ne_nil _), extend_ofNat (Nat.le_of_lt h)]
    show Except.ok (-(i.natAbs : Int)) = .ok i
    rw [show -(i.natAbs : Int) = i by omega]
  · next hpos =>
    rw [toInt?_of_isDigit (ofNat_ne_nil _) fun _ hc => isDigit_of_mem_ofNat hc,
      extend_ofNat (Nat.le_sub_one_of_lt h)]
    show Except.ok (i.natAbs : Int) = .ok i
    rw [show (i.natAbs : Int) = i by omega]

/-- The numeral of an integer is not empty. -/
theorem ofInt_ne_nil (i : Int) : ofInt i ≠ [] := by
  unfold ofInt
  split
  · simp
  · exact ofNat_ne_nil _

/-- The characters of a number are digits, but for the dash in front. -/
theorem eq_dash_or_isDigit_of_mem_ofInt {i : Int} (h : c ∈ ofInt i) :
    c = '-' ∨ c.isDigit = true := by
  unfold ofInt at h
  split at h
  · exact (List.mem_cons.mp h).imp_right isDigit_of_mem_ofNat
  · exact .inr (isDigit_of_mem_ofNat h)

/-- Digits are characters of ASCII. -/
theorem isAscii_of_isDigit (h : c.isDigit = true) : c.toNat < 0x80 := by
  rw [Char.isDigit, Bool.and_eq_true, decide_eq_true_eq, decide_eq_true_eq] at h
  exact Nat.lt_of_le_of_lt (UInt32.le_iff_toNat_le.mp h.2) (by decide)

/-- Numerals are written in ASCII. -/
theorem isAscii_of_mem_ofInt {i : Int} (h : c ∈ ofInt i) : c.toNat < 0x80 := by
  rcases eq_dash_or_isDigit_of_mem_ofInt h with rfl | hdigit
  · decide
  · exact isAscii_of_isDigit hdigit

end HorizonPlanner.Text.Numeral
