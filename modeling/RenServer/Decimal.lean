/- # Decimal numbers

A decimal number is a natural number times a power of ten. It is shown with a
point if the point falls near its digits, and with a power of ten otherwise.

Key definitions:

* `Decimal.neighbours`: the two numbers next to it on a grid of powers of ten.
* `Decimal.display`: how it is shown.
-/

namespace RenServer

/-- `digits` times ten to the `exponent`. -/
structure Decimal where
  digits : Nat
  exponent : Int
  deriving DecidableEq, Repr, Inhabited

/-- A quotient to the nearest whole number, half of one to the even side. -/
def roundDiv (num den : Nat) : Nat :=
  let below := num / den
  let twice := 2 * (num % den)
  if twice < den ∨ (twice = den ∧ below % 2 = 0) then below else below + 1

namespace Decimal

/-- A number as a quotient. -/
def quotient (d : Decimal) : Nat × Nat :=
  (d.digits * Nat.pow 10 d.exponent.toNat, Nat.pow 10 (-d.exponent).toNat)

/-- Where the point falls, counted from the first digit. -/
def point (d : Decimal) : Int := (Nat.toDigits 10 d.digits).length + d.exponent

/-- The numbers next to a number on the grid of ten to the `exponent`, the nearer
one first. If both are equally near, the even one is first. -/
def neighbours (d : Decimal) (exponent : Int) : List Decimal :=
  let (num, den) := { d with exponent := d.exponent - exponent : Decimal }.quotient
  let below := num / den
  let nearer := roundDiv num den
  [⟨nearer, exponent⟩, ⟨if nearer = below then below + 1 else below, exponent⟩]

/-- The points within which a number is shown without a power of ten. -/
def isPlain (point : Int) : Bool := -4 < point && point ≤ 16

/-- Digits with a point in them, and a zero where the point has no digit next to
it. -/
def plain (digits : List Char) (point : Int) : List Char :=
  if point ≤ 0 then '0' :: '.' :: List.replicate point.natAbs '0' ++ digits
  else
    let n := point.toNat
    if n < digits.length then digits.take n ++ '.' :: digits.drop n
    else digits ++ List.replicate (n - digits.length) '0' ++ ['.', '0']

/-- A power of ten has a sign and two digits at least. -/
def power (n : Int) : List Char :=
  let digits := Nat.toDigits 10 n.natAbs
  'e' :: (if n < 0 then '-' else '+') :: (List.replicate (2 - digits.length) '0' ++ digits)

/-- Digits with a point after the first, and a power of ten. -/
def scientific (digits : List Char) (point : Int) : List Char :=
  let part := match digits.drop 1 with
    | [] => []
    | rest => '.' :: rest
  digits.take 1 ++ part ++ power (point - 1)

/-- How a number is shown. -/
def display (d : Decimal) : List Char :=
  let digits := Nat.toDigits 10 d.digits
  if isPlain d.point then plain digits d.point else scientific digits d.point

end Decimal
end RenServer
