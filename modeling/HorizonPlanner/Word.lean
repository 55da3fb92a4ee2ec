import HorizonPlanner.Violation

/-!
# Machine words

Sizes, positions and variables are counted by words of 64 bits. Sums and products are those of
numbers: one that is no word breaks a condition, and nothing ever wraps around. Room in memory is
measured by signed words.
-/

namespace HorizonPlanner.Word

/-- The number of words. -/
def count : Nat := 18446744073709551616

/-- The number of signed words that are not negative. -/
def half : Nat := 9223372036854775808

/-- The sum of two words. -/
def add (a b : Nat) : Except Violation Nat :=
  if a + b < count then .ok (a + b) else .error (.overflow .addition)

/-- The product of two words. -/
def mul (a b : Nat) : Except Violation Nat :=
  if a * b < count then .ok (a * b) else .error (.overflow .multiplication)

/-- The quotient of two words. -/
def div (a b : Nat) : Except Violation Nat :=
  if b = 0 then .error .divisionByZero else .ok (a / b)

/-- The remainder of two words. -/
def rem (a b : Nat) : Except Violation Nat :=
  if b = 0 then .error .remainderByZero else .ok (a % b)

/-- Sets aside room for this number of elements, each of which takes this number of bytes. -/
def room (elements bytes : Nat) : Except Violation Unit :=
  if elements * bytes < half then .ok () else .error .noRoom

variable {a b c : Nat}

/-- Words have a sum exactly when it is a word. -/
theorem add_eq_ok_iff : add a b = .ok c ↔ a + b < count ∧ c = a + b := by
  unfold add
  split
  · next h => simp [h, eq_comm]
  · next h => simp [h]

/-- Words have a product exactly when it is a word. -/
theorem mul_eq_ok_iff : mul a b = .ok c ↔ a * b < count ∧ c = a * b := by
  unfold mul
  split
  · next h => simp [h, eq_comm]
  · next h => simp [h]

/-- Words have a quotient by a word other than zero. -/
theorem div_of_pos (h : 0 < b) : div a b = .ok (a / b) :=
  if_neg (Nat.ne_of_gt h)

/-- Words have a remainder by a word other than zero. -/
theorem rem_of_pos (h : 0 < b) : rem a b = .ok (a % b) :=
  if_neg (Nat.ne_of_gt h)

/-- There is room for elements exactly when their bytes are counted by a signed word. -/
theorem room_eq_ok_iff : room a b = .ok () ↔ a * b < half := by
  unfold room
  split
  · next h => simp [h]
  · next h => simp [h]

end HorizonPlanner.Word
