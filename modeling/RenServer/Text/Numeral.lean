/- # Numerals

Integers written in decimal: a sign, then digits of any script, with single
underscores allowed between two digits and margins around the whole. A numeral
of more than `maxDigits` digits is refused.

Key definitions:

* `ofDigits`: the number that digit values write.
* `limited`: the same under the limit.
* `integer?`: reads a whole numeral.
-/
import RenServer.Text.Blank
import RenServer.Text.Digit

namespace RenServer
namespace Text

/-- The most digits a numeral may have. -/
def maxDigits : Nat := 4300

/-- A numeral over the limit, with the number of its digits. -/
structure TooLong where
  digits : Nat
  deriving DecidableEq, Repr

def TooLong.message (t : TooLong) : String :=
  s!"Exceeds the limit ({maxDigits} digits) for integer string conversion: value has {t.digits} digits; use sys.set_int_max_str_digits() to increase the limit"

/-- Whether a number can be written within the limit. -/
def isWritable (n : Int) : Bool := n.natAbs < Nat.pow 10 maxDigits

/-- What stands in the place of a text with a number that cannot be written. -/
def unwritable : String :=
  s!"Exceeds the limit ({maxDigits} digits) for integer string conversion; use sys.set_int_max_str_digits() to increase the limit"

/-- The number that digit values write in base ten. -/
def ofDigits (ds : List Nat) : Nat := ds.foldl (fun n d => 10 * n + d) 0

/-- The number that digit values write, if they are not too many. -/
def limited (ds : List Nat) : Except TooLong Nat :=
  if ds.length ≤ maxDigits then .ok (ofDigits ds) else .error ⟨ds.length⟩

/-- The digit values of digits with single underscores between them. -/
def digitValues? : List Char → Option (List Nat)
  | [] => none
  | [c] => (digitValue? c).map fun d => [d]
  | c :: '_' :: rest => do
    let d ← digitValue? c
    let ds ← digitValues? rest
    return d :: ds
  | c :: rest => do
    let d ← digitValue? c
    let ds ← digitValues? rest
    return d :: ds

/-- The number that digits with underscores write. -/
def natural? (s : List Char) : Option Nat := do
  let ds ← digitValues? s
  (limited ds).toOption

/-- The blanks that may stand around a numeral: all but the separators. -/
def isMargin (c : Char) : Bool := isBlank c && !isSeparator c

/-- A text without the margins at either end. -/
def withoutMargins (s : List Char) : List Char :=
  ((s.dropWhile isMargin).reverse.dropWhile isMargin).reverse

/-- The number that a numeral writes, if it is one and within the limit. -/
def integer? (s : List Char) : Option Int :=
  match withoutMargins s with
  | '-' :: rest => (natural? rest).map fun n => -(n : Int)
  | '+' :: rest => (natural? rest).map Int.ofNat
  | rest => (natural? rest).map Int.ofNat

end Text
end RenServer
