import FieldEngine.Text.Layout

/-!
# Quotients with three decimals

Elapsed times are divided in 64-bit floating point and then printed with three decimals. Both
roundings go to the nearest value, a tie to the even one, and are computed here on integers: a
floating-point value is a fraction whose numerator needs at most 53 bits.
-/

namespace FieldEngine.Text

/-- `n / d` rounded to the nearest integer, a tie to the even one. -/
def roundDiv (n d : Nat) : Nat :=
  let q := n / d
  let r := n % d
  if 2 * r < d then q else if d < 2 * r then q + 1 else q + q % 2

/-- The exponent `e` with `2 ^ e ≤ n / d < 2 ^ (e + 1)`, for positive `n` and `d`. -/
def binaryExponent (n d : Nat) : Int :=
  let e : Int := (n.log2 : Int) - (d.log2 : Int)
  let reached := if 0 ≤ e then d * Nat.pow 2 e.toNat ≤ n else d ≤ n * Nat.pow 2 (-e).toNat
  if reached then e else e - 1

/-- The fraction nearest to `n / d` among those with a 53-bit significand. -/
def nearestFloat (n d : Nat) : Nat × Nat :=
  if n = 0 then (0, 1)
  else
    let shift := 52 - binaryExponent n d
    let up := Nat.pow 2 shift.toNat
    let down := Nat.pow 2 (-shift).toNat
    if 0 ≤ shift then (roundDiv (n * up) d, up) else (roundDiv n (d * down) * down, 1)

/-- `n / d`, divided in floating point, with three decimals. -/
def thousandths (n d : Nat) : String :=
  let whole := nearestFloat n 1
  let quotient := nearestFloat whole.1 (whole.2 * d)
  let t := roundDiv (quotient.1 * 1000) quotient.2
  toString (t / 1000) ++ "." ++ counter 3 (t % 1000)

end FieldEngine.Text
