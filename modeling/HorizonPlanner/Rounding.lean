/-!
# Rounding of quotients

Quotients are rounded to the nearest natural number, and of two that are equally near the even one
is taken.
-/

namespace HorizonPlanner

/-- The natural number nearest to `n / d`; half-way between two of them, the even one. -/
def roundEven (n d : Nat) : Nat :=
  if 2 * (n % d) < d then n / d
  else if d < 2 * (n % d) then n / d + 1
  else n / d + n / d % 2

end HorizonPlanner
