/-
Floating point numbers with a fixed number of decimal places.

`roundDiv` rounds a quotient to the nearest whole number, a half to the even
neighbour.  `fixed` writes a number that is not negative with some places after
the point, rounded like this from its exact value: `parts` takes the number
apart into a whole number and a power of two.
-/

namespace Stitch.Text.Decimal

/-- The whole number nearest to a quotient; of two that are equally near the
even one. -/
def roundDiv (n d : Nat) : Nat :=
  let q := n / d
  let r := n % d
  if 2 * r < d then q
  else if d < 2 * r then q + 1
  else if q % 2 = 0 then q else q + 1

/-- A finite number that is not negative, as `m * 2 ^ up / 2 ^ down`. -/
def parts (x : Float) : Nat × Nat × Nat :=
  -- The sign bit is dropped; eleven bits of exponent and 52 of fraction are left.
  let bits := x.toBits.toNat % Nat.pow 2 63
  let exponent := bits / Nat.pow 2 52
  let fraction := bits % Nat.pow 2 52
  if exponent = 0 then (fraction, 0, 1074)
  else (Nat.pow 2 52 + fraction, exponent - 1075, 1075 - exponent)

/-- A number with exactly this many places after the point. -/
def fixed (places : Nat) (x : Float) : String :=
  let (m, up, down) := parts x
  let scaled := roundDiv (m * Nat.pow 2 up * Nat.pow 10 places) (Nat.pow 2 down)
  let fraction := Nat.toDigits 10 (scaled % Nat.pow 10 places)
  let zeros := List.replicate (places - fraction.length) '0'
  s!"{scaled / Nat.pow 10 places}." ++ String.ofList (zeros ++ fraction)

end Stitch.Text.Decimal
