import HorizonPlanner.Text.Line
import Mathlib.Data.List.Forall2

/-!
# Texts as bytes and as lines

Decoding undoes encoding. The bytes of a line feed and of a carriage return occur in the encoding of
no other character, so that the lines of an encoded text are found again.
-/

namespace HorizonPlanner.Text

variable {c : Char} {text line : List Char} {rest bytes : List UInt8}

/-- The bytes of a text. -/
def utf8 (text : List Char) : List UInt8 :=
  text.flatMap String.utf8EncodeChar

@[simp] private theorem utf8_nil : utf8 [] = [] := rfl

@[simp] private theorem utf8_append (a b : List Char) : utf8 (a ++ b) = utf8 a ++ utf8 b :=
  List.flatMap_append

/-! ### Characters -/

private theorem toNat_ofNat_of_lt {n : Nat} (h : n < 256) : (UInt8.ofNat n).toNat = n := by
  rw [UInt8.toNat_ofNat']
  exact Nat.mod_eq_of_lt h

private theorem scalar?_toNat {least code : Nat} (hcode : code = c.toNat) (h : least ≤ c.toNat) :
    Utf8.scalar? least code = some c := by
  rw [Utf8.scalar?, hcode, if_pos ⟨h, c.valid⟩, Char.ofNat_toNat]

private theorem continuation?_ofNat {n : Nat} (h : n < 64) :
    Utf8.continuation? (UInt8.ofNat (n + 128)) = some n := by
  rw [Utf8.continuation?, toNat_ofNat_of_lt (by omega), if_pos (by omega), Nat.add_sub_cancel]

private theorem two?_eq (hleast : 0x80 ≤ c.toNat) (hmost : c.toNat < 0x800) :
    Utf8.two? (UInt8.ofNat (c.toNat / 64 % 32 + 192)) (UInt8.ofNat (c.toNat % 64 + 128)) =
      some c := by
  rw [Utf8.two?, continuation?_ofNat (Nat.mod_lt _ (by decide)), toNat_ofNat_of_lt (by omega)]
  exact scalar?_toNat (by omega) hleast

private theorem three?_eq (hleast : 0x800 ≤ c.toNat) (hmost : c.toNat < 0x10000) :
    Utf8.three? (UInt8.ofNat (c.toNat / 4096 % 16 + 224)) (UInt8.ofNat (c.toNat / 64 % 64 + 128))
      (UInt8.ofNat (c.toNat % 64 + 128)) = some c := by
  rw [Utf8.three?, continuation?_ofNat (Nat.mod_lt _ (by decide)),
    continuation?_ofNat (Nat.mod_lt _ (by decide)), toNat_ofNat_of_lt (by omega)]
  exact scalar?_toNat (by omega) hleast

private theorem four?_eq (hleast : 0x10000 ≤ c.toNat) (hmost : c.toNat < 0x110000) :
    Utf8.four? (UInt8.ofNat (c.toNat / 262144 % 8 + 240)) (UInt8.ofNat (c.toNat / 4096 % 64 + 128))
      (UInt8.ofNat (c.toNat / 64 % 64 + 128)) (UInt8.ofNat (c.toNat % 64 + 128)) = some c := by
  rw [Utf8.four?, continuation?_ofNat (Nat.mod_lt _ (by decide)),
    continuation?_ofNat (Nat.mod_lt _ (by decide)), continuation?_ofNat (Nat.mod_lt _ (by decide)),
    toNat_ofNat_of_lt (by omega)]
  exact scalar?_toNat (by omega) hleast

private theorem toNat_lt (c : Char) : c.toNat < 0x110000 := by
  have h := c.valid
  show c.val.toNat < 0x110000
  unfold UInt32.isValidChar Nat.isValidChar at h
  omega

/-- The encoding of a character, by its number of bytes. -/
inductive Utf8.Encodes (c : Char) : List UInt8 → Prop
  /-- One byte. -/
  | one : c.toNat < 0x80 → Encodes c [UInt8.ofNat c.toNat]
  /-- Two bytes. -/
  | two : 0x80 ≤ c.toNat → c.toNat < 0x800 →
    Encodes c [UInt8.ofNat (c.toNat / 64 % 32 + 192), UInt8.ofNat (c.toNat % 64 + 128)]
  /-- Three bytes. -/
  | three : 0x800 ≤ c.toNat → c.toNat < 0x10000 →
    Encodes c [UInt8.ofNat (c.toNat / 4096 % 16 + 224), UInt8.ofNat (c.toNat / 64 % 64 + 128),
      UInt8.ofNat (c.toNat % 64 + 128)]
  /-- Four bytes. -/
  | four : 0x10000 ≤ c.toNat → c.toNat < 0x110000 →
    Encodes c [UInt8.ofNat (c.toNat / 262144 % 8 + 240), UInt8.ofNat (c.toNat / 4096 % 64 + 128),
      UInt8.ofNat (c.toNat / 64 % 64 + 128), UInt8.ofNat (c.toNat % 64 + 128)]

/-- The bytes of a character encode it. -/
theorem encodes_utf8EncodeChar (c : Char) : Utf8.Encodes c (String.utf8EncodeChar c) := by
  have hmost := toNat_lt c
  unfold String.utf8EncodeChar
  rw [show c.val.toNat = c.toNat from rfl]
  simp only
  split
  · exact .one (by omega)
  · split
    · exact .two (by omega) (by omega)
    · split
      · exact .three (by omega) (by omega)
      · exact .four (by omega) (by omega)

/-- An encoded character is decoded. -/
theorem Utf8.Encodes.decode_append (h : Encodes c bytes) (rest : List UInt8) :
    decode (bytes ++ rest) = (decode rest).map (c :: ·) := by
  conv_lhs => rw [decode.eq_def]
  cases h with
  | one hmost =>
    simp only [List.cons_append, List.nil_append]
    rw [toNat_ofNat_of_lt (by omega), if_pos (by omega), Char.ofNat_toNat]
  | two hleast hmost =>
    simp only [List.cons_append, List.nil_append]
    rw [two?_eq hleast hmost, toNat_ofNat_of_lt (by omega), if_neg (by omega), if_neg (by omega),
      if_pos (by omega)]
  | three hleast hmost =>
    simp only [List.cons_append, List.nil_append]
    rw [three?_eq hleast hmost, toNat_ofNat_of_lt (by omega), if_neg (by omega), if_neg (by omega),
      if_neg (by omega), if_pos (by omega)]
  | four hleast hmost =>
    simp only [List.cons_append, List.nil_append]
    rw [four?_eq hleast hmost, toNat_ofNat_of_lt (by omega), if_neg (by omega), if_neg (by omega),
      if_neg (by omega), if_neg (by omega), if_pos (by omega)]

/-- Decoding undoes encoding. -/
theorem decode_utf8_append (text : List Char) (rest : List UInt8) :
    Utf8.decode (utf8 text ++ rest) = (Utf8.decode rest).map (text ++ ·) := by
  induction text with
  | nil => simp
  | cons c text ih =>
    have hcons : utf8 (c :: text) = String.utf8EncodeChar c ++ utf8 text := rfl
    rw [hcons, List.append_assoc, (encodes_utf8EncodeChar c).decode_append, ih, Option.map_map]
    rfl

/-- A byte of ASCII encodes a character of its own. -/
theorem Utf8.Encodes.eq_of_mem (h : Encodes c bytes) {b : UInt8} (hb : b ∈ bytes)
    (hascii : b.toNat < 0x80) : c.toNat = b.toNat := by
  cases h <;> simp only [List.mem_cons, List.not_mem_nil, or_false] at hb
  · rw [hb, toNat_ofNat_of_lt (by omega)]
  all_goals
    rcases hb with rfl | rfl | rfl | rfl <;> rw [toNat_ofNat_of_lt (by omega)] at hascii <;> omega

/-- The bytes of a text have an ASCII character in them exactly when the text has. -/
theorem mem_of_mem_utf8 {b : UInt8} (hb : b ∈ utf8 text) (hascii : b.toNat < 0x80) :
    Char.ofNat b.toNat ∈ text := by
  obtain ⟨c, hc, hbc⟩ := List.mem_flatMap.mp hb
  rwa [← (encodes_utf8EncodeChar c).eq_of_mem hbc hascii, Char.ofNat_toNat]

private theorem utf8_eq_nil_iff : utf8 text = [] ↔ text = [] := by
  cases text with
  | nil => simp
  | cons c text => simp [utf8, String.utf8EncodeChar_ne_nil]

/-! ### Lines -/

/-- Takes one carriage return off the end of a line. -/
def chomp (line : List Char) : List Char :=
  if line.getLast? = some '\r' then line.dropLast else line

/-- Without a carriage return nothing is removed from a line. -/
theorem chomp_of_notMem (h : '\r' ∉ line) : chomp line = line := by
  rw [chomp, if_neg fun hlast => h (List.mem_of_getLast? hlast)]

private theorem dropReturn_utf8 (line : List Char) :
    dropReturn (utf8 line) = utf8 (chomp line) := by
  rcases List.eq_nil_or_concat line with rfl | ⟨init, c, rfl⟩
  · rfl
  · by_cases hc : c = '\r'
    · have hreturn : String.utf8EncodeChar '\r' = [carriageReturn] := by decide
      subst hc
      simp [dropReturn, chomp, utf8, hreturn]
    · have hne : (utf8 (init ++ [c])).getLast? ≠ some carriageReturn := fun h => by
        have hmem : carriageReturn ∈ String.utf8EncodeChar c := by
          rw [utf8_append, utf8, utf8, List.flatMap_singleton,
            List.getLast?_append_of_ne_nil _ String.utf8EncodeChar_ne_nil] at h
          exact List.mem_of_getLast? h
        have hcode := (encodes_utf8EncodeChar c).eq_of_mem hmem (by decide)
        exact hc (Char.toNat_inj.mp hcode)
      rw [List.concat_eq_append, dropReturn, if_neg hne, chomp, if_neg (by simpa using hc)]

private theorem decodeLine_utf8 (line : List Char) : decodeLine (utf8 line) = .ok line := by
  have hdecode := decode_utf8_append line []
  rw [List.append_nil, Utf8.decode, Option.map_some, List.append_nil] at hdecode
  rw [decodeLine, hdecode]

/-- A line feed ends the line under way. -/
theorem splitLines_append_cons {line : List UInt8} (h : lineFeed ∉ line)
    (current rest : List UInt8) :
    splitLines current (line ++ lineFeed :: rest) =
      ((current.reverse ++ line) :: (splitLines [] rest).1, (splitLines [] rest).2) := by
  induction line generalizing current with
  | nil => simp [splitLines]
  | cons b line ih =>
    obtain ⟨hb, hline⟩ := not_or.mp (mt List.mem_cons.mpr h)
    rw [List.cons_append, splitLines, if_neg (Ne.symm hb), ih hline]
    simp

private theorem splitLines_of_not_mem {line : List UInt8} (h : lineFeed ∉ line)
    (current : List UInt8) :
    splitLines current line = ([], current.reverse ++ line) := by
  induction line generalizing current with
  | nil => simp [splitLines]
  | cons b line ih =>
    obtain ⟨hb, hline⟩ := not_or.mp (mt List.mem_cons.mpr h)
    rw [splitLines, if_neg (Ne.symm hb), ih hline]
    simp

/-- Lines that are each followed by a line feed are found again, and so is what comes after them. -/
theorem splitLines_flatMap_append {ls : List (List UInt8)} {last : List UInt8}
    (hls : ∀ l ∈ ls, lineFeed ∉ l) (hlast : lineFeed ∉ last) :
    splitLines [] (ls.flatMap (· ++ [lineFeed]) ++ last) = (ls, last) := by
  induction ls with
  | nil => exact splitLines_of_not_mem hlast []
  | cons l ls ih =>
    obtain ⟨hl, hls⟩ := List.forall_mem_cons.mp hls
    rw [List.flatMap_cons, List.append_assoc, List.append_assoc, List.singleton_append,
      splitLines_append_cons hl, ih hls]
    rfl

/-- The lines of a text are read as they were written, without carriage returns at their ends.
Behind the last line feed there may be another line. -/
theorem lines_utf8 {ls : List (List Char)} {last : List Char} (hls : ∀ l ∈ ls, '\n' ∉ l)
    (hlast : '\n' ∉ last) :
    lines (utf8 (ls.flatMap (· ++ ['\n']) ++ last)) none =
      ls.map (fun l => .ok (chomp l)) ++ if last = [] then [] else [.ok last] := by
  have hfeed : ∀ l, '\n' ∉ l → lineFeed ∉ utf8 l := fun l hl hmem =>
    hl (mem_of_mem_utf8 hmem (by decide))
  have hbytes : utf8 (ls.flatMap (· ++ ['\n'])) = (ls.map utf8).flatMap (· ++ [lineFeed]) := by
    have hnewline : utf8 ['\n'] = [lineFeed] := by decide
    rw [utf8, List.flatMap_assoc, List.flatMap_map]
    refine List.flatMap_congr fun l _ => ?_
    rw [← hnewline, ← utf8_append]
    rfl
  rw [lines, utf8_append, hbytes, splitLines_flatMap_append
    (List.forall_mem_map.mpr fun l hl => hfeed l (hls l hl)) (hfeed last hlast)]
  simp only [List.map_map]
  congr 1
  · refine List.map_congr_left fun l _ => ?_
    rw [Function.comp_apply, dropReturn_utf8, decodeLine_utf8]
  · simp only [List.isEmpty_iff, utf8_eq_nil_iff, decodeLine_utf8]

/-- The lines of a text, without carriage returns in front of their line feeds. What comes after the
last line feed is a line unless it is empty. -/
def linesOf (text : List Char) : List (List Char) :=
  let parts := text.splitOn '\n'
  let last := parts.getLastD []
  parts.dropLast.map chomp ++ if last = [] then [] else [last]

private theorem notMem_of_mem_splitOn {α : Type} [DecidableEq α] {x : α}
    {xs part : List α} (h : part ∈ xs.splitOn x) :
    x ∉ part := by
  induction xs generalizing part with
  | nil =>
    rw [List.splitOn_nil, List.mem_singleton] at h
    rw [h]
    exact List.not_mem_nil
  | cons y xs ih =>
    rw [List.splitOn_cons_eq_if_modifyHead] at h
    split at h
    · rcases List.mem_cons.mp h with rfl | h
      · exact List.not_mem_nil
      · exact ih h
    · next hne =>
      obtain ⟨first, others, hparts⟩ := List.exists_cons_of_ne_nil (List.splitOn_ne_nil x xs)
      rw [hparts] at h ih
      rcases List.mem_cons.mp h with rfl | h
      · have hx : x ≠ y := fun heq => hne (by simp [heq])
        simpa [hx] using ih List.mem_cons_self
      · exact ih (List.mem_cons_of_mem _ h)

private theorem intercalate_concat {α : Type} (x : α) (parts : List (List α)) (last : List α) :
    [x].intercalate (parts ++ [last]) = parts.flatMap (· ++ [x]) ++ last := by
  induction parts with
  | nil => simp
  | cons part parts ih =>
    have hne : parts ++ [last] ≠ [] := by simp
    rw [List.cons_append, List.intercalate_cons_of_ne_nil hne, ih]
    simp

/-- The lines of a text are read. -/
theorem lines_utf8_eq (text : List Char) : lines (utf8 text) none = (linesOf text).map .ok := by
  obtain ⟨parts, last, hsplit⟩ : ∃ parts last, text.splitOn '\n' = parts ++ [last] :=
    ⟨_, _, (List.dropLast_append_getLast (List.splitOn_ne_nil '\n' text)).symm⟩
  have hfeed : ∀ l ∈ parts ++ [last], '\n' ∉ l := fun l hl => notMem_of_mem_splitOn (hsplit ▸ hl)
  rw [List.forall_mem_append, List.forall_mem_singleton] at hfeed
  have htext : text = parts.flatMap (· ++ ['\n']) ++ last := by
    rw [← intercalate_concat, ← hsplit, List.intercalate_splitOn]
  have hlines := lines_utf8 hfeed.1 hfeed.2
  rw [← htext] at hlines
  rw [hlines, linesOf, hsplit]
  by_cases hlast : last = [] <;> simp [hlast]

/-- The lines of a text. The last one may lack its line feed. -/
structure LaidOut (text : List Char) (ls : List (List Char)) : Prop where
  /-- No line has a line feed in it. -/
  line_feed_not_mem : ∀ l ∈ ls, '\n' ∉ l
  /-- The lines are the whole text. -/
  text_eq : text = ls.flatMap (· ++ ['\n']) ∨ text ++ ['\n'] = ls.flatMap (· ++ ['\n'])

/-- The lines of a text are found, apart from carriage returns at their ends, but for a last one
that is empty. -/
theorem LaidOut.exists_lines {ls : List (List Char)} (h : LaidOut text ls) :
    ∃ read, lines (utf8 text) none = read.map .ok ∧
      (List.Forall₂ (fun l r => r = l ∨ r = chomp l) ls read ∨
        ∃ init, ls = init ++ [[]] ∧ List.Forall₂ (fun l r => r = l ∨ r = chomp l) init read) := by
  have hchomp : ∀ ls : List (List Char),
      List.Forall₂ (fun l r => r = l ∨ r = chomp l) ls (ls.map chomp) := fun ls =>
    List.forall₂_map_right_iff.mpr (List.forall₂_same.mpr fun _ _ => .inr rfl)
  obtain ⟨hfeed, htext | htext⟩ := h
  · refine ⟨ls.map chomp, ?_, .inl (hchomp ls)⟩
    have hlines := lines_utf8 hfeed (show '\n' ∉ [] by simp)
    rw [List.append_nil, ← htext] at hlines
    simpa [Function.comp_def] using hlines
  · rcases List.eq_nil_or_concat ls with rfl | ⟨init, last, rfl⟩
    · simp at htext
    · rw [List.concat_eq_append] at hfeed htext ⊢
      rw [List.forall_mem_append, List.forall_mem_singleton] at hfeed
      rw [List.flatMap_append, List.flatMap_singleton, ← List.append_assoc,
        List.append_cancel_right_eq]
        at htext
      have hlines := lines_utf8 hfeed.1 hfeed.2
      rw [← htext] at hlines
      by_cases hlast : last = []
      · subst hlast
        exact ⟨init.map chomp, by simpa [Function.comp_def] using hlines,
          .inr ⟨init, rfl, hchomp init⟩⟩
      · refine ⟨init.map chomp ++ [last], by simpa [hlast, Function.comp_def] using hlines, .inl ?_⟩
        exact List.rel_append (hchomp init) (.cons (.inl rfl) .nil)

end HorizonPlanner.Text
