import HorizonPlanner.Text.Blank
import Mathlib.Data.List.TakeWhile

/-!
# Blanks around a text

A text begins with a gap of blanks, which may be empty. What follows the gap is found again when the
blanks are skipped, and a text without blanks is found between two gaps when they are trimmed off.
-/

namespace HorizonPlanner.Text

/-- A text that consists of blanks only. -/
abbrev Gap := { s : List Char // ∀ c ∈ s, isBlank c = true }

/-- No blanks at all. -/
def Gap.none : Gap := ⟨[], by simp⟩

variable {c : Char} {s t : List Char}

/-- A character that is not blank does not occur in a gap. -/
theorem Gap.notMem (g : Gap) (hc : isBlank c = false) : c ∉ g.val := fun hmem => by
  simp [g.property c hmem] at hc

/-- Two gaps in a row are one. -/
theorem Gap.exists_append (a b : Gap) : ∃ g : Gap, g.val = a.val ++ b.val :=
  ⟨⟨a.val ++ b.val, List.forall_mem_append.mpr ⟨a.property, b.property⟩⟩, rfl⟩

/-- Blanks in front are skipped. -/
theorem skipBlanks_append (g : Gap) (s : List Char) : skipBlanks (g.val ++ s) = skipBlanks s :=
  List.dropWhile_append_of_pos g.property

/-- Where no blank is in front, nothing is skipped. -/
theorem skipBlanks_of_head?_ne (h : ∀ c ∈ s.head?, isBlank c = false) : skipBlanks s = s := by
  cases s with
  | nil => rfl
  | cons c s => simp [skipBlanks, h c (by simp)]

/-- A text begins with the blanks that are skipped. -/
theorem exists_gap_append_skipBlanks (s : List Char) : ∃ g : Gap, s = g.val ++ skipBlanks s :=
  ⟨⟨s.takeWhile isBlank, fun _ hc => List.mem_takeWhile_imp hc⟩,
    List.takeWhile_append_dropWhile.symm⟩

/-- What is left behind the blanks begins with the first character that is not blank. -/
theorem skipBlanks_eq_cons_iff (hc : isBlank c = false) :
    skipBlanks s = c :: t ↔ ∃ g : Gap, s = g.val ++ c :: t := by
  constructor
  · intro h
    obtain ⟨g, hg⟩ := exists_gap_append_skipBlanks s
    exact ⟨g, h ▸ hg⟩
  · rintro ⟨g, rfl⟩
    rw [skipBlanks_append, skipBlanks_of_head?_ne (by simpa using hc)]

private theorem Gap.exists_reverse (g : Gap) : ∃ r : Gap, r.val = g.val.reverse :=
  ⟨⟨g.val.reverse, fun c hc => g.property c (List.mem_reverse.mp hc)⟩, rfl⟩

/-- A text without blanks is what is left of itself between two gaps. -/
theorem trim_append (a b : Gap) (ht : ∀ c ∈ t, isBlank c = false) :
    trim (a.val ++ t ++ b.val) = t := by
  obtain ⟨r, hr⟩ := b.exists_reverse
  rw [trim, List.append_assoc, skipBlanks_append a]
  cases t with
  | nil =>
    have hnone : skipBlanks b.val = [] := List.dropWhile_eq_nil_iff.mpr b.property
    rw [List.nil_append, hnone]
    rfl
  | cons c t =>
    have hfirst : skipBlanks (c :: t ++ b.val) = c :: t ++ b.val :=
      skipBlanks_of_head?_ne (by simpa using ht c (by simp))
    have hlast : ∀ d ∈ (c :: t).reverse.head?, isBlank d = false := fun d hd =>
      ht d (List.mem_reverse.mp (List.mem_of_mem_head? hd))
    rw [hfirst, List.reverse_append, ← hr, skipBlanks_append r, skipBlanks_of_head?_ne hlast,
      List.reverse_reverse]

/-- A text consists of what is left of it when it is trimmed, and of a gap on both sides. -/
theorem exists_gaps_trim (s : List Char) : ∃ a b : Gap, s = a.val ++ trim s ++ b.val := by
  obtain ⟨a, ha⟩ := exists_gap_append_skipBlanks s
  obtain ⟨b, hb⟩ := exists_gap_append_skipBlanks (skipBlanks s).reverse
  obtain ⟨r, hr⟩ := b.exists_reverse
  have hrest : skipBlanks s = trim s ++ r.val := by
    rw [hr, trim, ← List.reverse_append, ← hb, List.reverse_reverse]
  exact ⟨a, r, by rw [List.append_assoc, ← hrest, ← ha]⟩

/-- A text without blanks is left exactly when it stands between two gaps. -/
theorem trim_eq_iff (ht : ∀ c ∈ t, isBlank c = false) :
    trim s = t ↔ ∃ a b : Gap, s = a.val ++ t ++ b.val := by
  constructor
  · rintro rfl
    exact exists_gaps_trim s
  · rintro ⟨a, b, rfl⟩
    exact trim_append a b ht

end HorizonPlanner.Text
