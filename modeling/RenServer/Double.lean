/- # Reals of double precision

A real is kept to 53 binary digits. A decimal number becomes the nearest real
there is, of two equally near ones the even one: a number that is too large is
infinite, and one that is too small is zero. A real is shown as the decimal
number with the fewest digits that becomes this real again.

Key definitions:

* `Double.ofDecimal`: the real nearest to a decimal number.
* `Double.shortest`: the decimal number that stands for a real.
* `Double.display`: how a real is shown.
-/
import RenServer.Decimal

namespace RenServer

/-- A real of double precision. -/
inductive Double where
  /-- `m` times two to the `q`, or the negative of it. -/
  | finite (negative : Bool) (m : Nat) (q : Int)
  | infinite (negative : Bool)
  | nan
  deriving DecidableEq, Repr, Inhabited

namespace Double

/-! ### Rounding -/

/-- The number of binary digits. -/
def precision : Nat := 53

/-- The least power of two. -/
def minPower : Int := -1074

/-- The greatest power of two. -/
def maxPower : Int := 971

/-- Whether a quotient reaches two to the `power`. -/
def reaches (num den : Nat) (power : Int) : Bool :=
  den * Nat.pow 2 power.toNat ≤ num * Nat.pow 2 (-power).toNat

/-- The greatest power of two that a quotient reaches. The lengths of its parts
tell it up to one. -/
def binaryOrder (num den : Nat) : Int :=
  let guess : Int := num.log2 - den.log2
  if reaches num den guess then guess else guess - 1

/-- The real nearest to a quotient. -/
def ofQuotient (negative : Bool) (num den : Nat) : Double :=
  let q := max (binaryOrder num den - (precision - 1)) minPower
  let m := roundDiv (num * Nat.pow 2 (-q).toNat) (den * Nat.pow 2 q.toNat)
  let (m, q) :=
    if m = Nat.pow 2 precision then (Nat.pow 2 (precision - 1), q + 1) else (m, q)
  if maxPower < q then .infinite negative else .finite negative m q

/-- No real reaches ten to this. -/
def pointAbove : Int := 310

/-- Below ten to this every number is nearest to zero. -/
def pointBelow : Int := -324

/-- The real nearest to a decimal number. -/
def ofDecimal (negative : Bool) (d : Decimal) : Double :=
  if d.digits = 0 ∨ d.point < pointBelow then .finite negative 0 minPower
  else if pointAbove < d.point then .infinite negative
  else ofQuotient negative d.quotient.1 d.quotient.2

/-! ### Showing -/

/-- The decimal number equal to `m` times two to the `q`. -/
def exact (m : Nat) (q : Int) : Decimal :=
  if 0 ≤ q then ⟨m * Nat.pow 2 q.toNat, 0⟩ else ⟨m * Nat.pow 5 q.natAbs, q⟩

/-- The powers of ten on whose grids a real can stand, the widest grid first. -/
def grids : List Int := (List.range 635).map fun (n : Nat) => pointAbove - n

/-- The decimal number that stands for `m` times two to the `q`: on the widest
grid that has one, the nearest number that becomes this real again. -/
def shortest (m : Nat) (q : Int) : Decimal :=
  let whole := exact m q
  let found := grids.findSome? fun exponent =>
    (whole.neighbours exponent).find? fun d => ofDecimal false d = .finite false m q
  found.getD whole

/-- How a real is shown. Zero keeps its sign. -/
def display : Double → String
  | .finite negative m q =>
    let text := (if m = 0 then ⟨0, 0⟩ else shortest m q).display
    String.ofList (if negative then '-' :: text else text)
  | .infinite negative => if negative then "-inf" else "inf"
  | .nan => "nan"

/-- Zero of either sign. -/
def isZero : Double → Bool
  | .finite _ m _ => m == 0
  | _ => false

end Double
end RenServer
