/- # Numbers, dates and times of TOML

A date is tried first, then a time, then a number, since all three may start
with a digit. Each reads as much as belongs to it, and what does not belong is
left for the document to complain about.
-/
import RenServer.Toml.Scan

namespace RenServer
namespace Toml

open Text

/-! ### Dates and times -/

/-- A number of so many digits within bounds, and what is left after it. -/
def fixed? (count low high : Nat) (s : List Char) : Option (Nat × List Char) :=
  let digits := s.take count
  if digits.length = count ∧ digits.all isAsciiDigit then
    let n := ofDigits (digits.filterMap digitValue?)
    if low ≤ n ∧ n ≤ high then some (n, s.drop count) else none
  else none

/-- What is left after a given character. -/
def mark? (c : Char) (s : List Char) : Option (List Char) := after? [c] s

/-- What is left after hours and minutes. -/
def clock? (s : List Char) : Option (List Char) := do
  let (_, s) ← fixed? 2 0 23 s
  let s ← mark? ':' s
  let (_, s) ← fixed? 2 0 59 s
  return s

/-- What is left after the fraction of a second, if there is one. -/
def skipFraction (s : List Char) : List Char :=
  match s with
  | '.' :: d :: rest => if isAsciiDigit d then rest.dropWhile isAsciiDigit else s
  | _ => s

/-- What is left after a time. -/
def time? (s : List Char) : Option (List Char) := do
  let s ← clock? s
  let s ← mark? ':' s
  let (_, s) ← fixed? 2 0 59 s
  return skipFraction s

/-- What is left after the offset from universal time, if there is one. -/
def skipOffset (s : List Char) : List Char :=
  match s with
  | 'Z' :: rest => rest
  | 'z' :: rest => rest
  | '+' :: rest => (clock? rest).getD s
  | '-' :: rest => (clock? rest).getD s
  | _ => s

/-- What is left after the time that follows a date, if there is one. -/
def skipTime (s : List Char) : List Char :=
  match s with
  | c :: rest =>
    if c = 'T' ∨ c = 't' ∨ c = ' ' then
      match time? rest with
      | some after => skipOffset after
      | none => s
    else s
  | [] => s

def isLeap (year : Nat) : Bool := year % 4 == 0 && (year % 100 != 0 || year % 400 == 0)

def daysIn (year month : Nat) : Nat :=
  if month = 2 then if isLeap year then 29 else 28
  else if month = 4 ∨ month = 6 ∨ month = 9 ∨ month = 11 then 30
  else 31

/-- Year, month, day and what is left after a date, whether or not there is
such a day. -/
def date? (s : List Char) : Option (Nat × Nat × Nat × List Char) := do
  let (year, s) ← fixed? 4 0 9999 s
  let s ← mark? '-' s
  let (month, s) ← fixed? 2 1 12 s
  let s ← mark? '-' s
  let (day, s) ← fixed? 2 1 31 s
  return (year, month, day, s)

/-- The characters that were read when `rest` is left. -/
def readBefore (s rest : List Char) : String := String.ofList (s.take (s.length - rest.length))

/-- A date, with a time or without, or a time alone. -/
def moment? (s : List Char) : Option (Except Fault (Value × List Char)) :=
  match date? s with
  | some (year, month, day, rest) =>
    let rest := skipTime rest
    some <|
      if 1 ≤ year ∧ day ≤ daysIn year month then .ok (.literal (readBefore s rest), rest)
      else .error .malformed
  | none => (time? s).map fun rest => .ok (.literal (readBefore s rest), rest)

/-! ### Numbers -/

/-- Digits of a class with single underscores between them, from the first digit
on, and what is left after them. -/
def digitRun (isDigit : Char → Bool) : List Char → List Char × List Char
  | [] => ([], [])
  | c :: rest =>
    if isDigit c then
      let (more, left) := digitRun isDigit rest
      (c :: more, left)
    else if c = '_' then
      match rest with
      | d :: _ =>
        if isDigit d then digitRun isDigit rest else ([], c :: rest)
      | [] => ([], [c])
    else ([], c :: rest)

/-- Digits with underscores between them; the first character has to be a
digit. -/
def digits? (isDigit : Char → Bool) (s : List Char) : Option (List Char × List Char) :=
  match s with
  | c :: _ => if isDigit c then some (digitRun isDigit s) else none
  | [] => none

def isHexDigit (c : Char) : Bool := (hexValue? c).isSome

/-- A number in another base, after the zero. -/
def based? : List Char → Option (Value × List Char)
  | 'x' :: rest => number 16 isHexDigit rest
  | 'o' :: rest => number 8 (fun c => '0' ≤ c && c ≤ '7') rest
  | 'b' :: rest => number 2 (fun c => c == '0' || c == '1') rest
  | _ => none
where
  number (base : Nat) (isDigit : Char → Bool) (s : List Char) : Option (Value × List Char) := do
    let (ds, rest) ← digits? isDigit s
    return (.int ((ds.filterMap hexValue?).foldl (fun n d => base * n + d) 0 : Nat), rest)

/-- The digits before the point: zero alone, or digits that do not start with
zero. -/
def whole? : List Char → Option (List Char × List Char)
  | '0' :: rest => some (['0'], rest)
  | s => digits? isAsciiDigit s

/-- A sign, if there is one. -/
def sign : List Char → Bool × List Char
  | '-' :: rest => (true, rest)
  | '+' :: rest => (false, rest)
  | s => (false, s)

/-- The digits after the point, if there are any. -/
def fraction? : List Char → Option (List Char × List Char)
  | '.' :: rest => digits? isAsciiDigit rest
  | _ => none

/-- The power of ten, if there is one. -/
def exponent? : List Char → Option (Int × List Char)
  | c :: rest =>
    if c = 'e' ∨ c = 'E' then do
      let (negative, rest) := sign rest
      let (ds, rest) ← digits? isAsciiDigit rest
      let n : Int := ofDigits (ds.filterMap digitValue?)
      return (if negative then -n else n, rest)
    else none
  | [] => none

/-- A number in base ten, whole if it has neither fraction nor exponent. Only a
whole one can have too many digits. -/
def decimal? (s : List Char) : Option (Except Fault (Value × List Char)) := do
  let (negative, s) := sign s
  let (ds, s) ← whole? s
  let real (ds : List Char) (power : Int) : Value :=
    .real (Double.ofDecimal negative ⟨ofDigits (ds.filterMap digitValue?), power⟩)
  match fraction? s, exponent? s with
  | none, none =>
    return match limited (ds.filterMap digitValue?) with
      | .ok n => .ok (.int (if negative then -n else n), s)
      | .error e => .error (.tooLong e)
  | none, some (power, s) => return .ok (real ds power, s)
  | some (fs, s), _ =>
    let (power, s) := (exponent? s).getD (0, s)
    return .ok (real (ds ++ fs) (power - fs.length), s)

/-- A number, in base ten or in another one. -/
def number? (s : List Char) : Option (Except Fault (Value × List Char)) :=
  match s with
  | '0' :: rest =>
    match based? rest with
    | some read => some (.ok read)
    | none => decimal? s
  | _ => decimal? s

/-- An infinity, or what is no number. -/
def numberWord? (s : List Char) : Option (Except Fault (Value × List Char)) :=
  let (negative, s) := sign s
  ((after? "inf".toList s).map fun rest => .ok (.real (.infinite negative), rest)).or
    ((after? "nan".toList s).map fun rest => .ok (.real .nan, rest))

end Toml
end RenServer
