/- # Hosts in square brackets

The authority of a URI may hold a host in square brackets: an IPv6 address, or an
address of a version to come. Anything else in them is a fault.

Key definitions:

* `Host.isVersionSix`, `Host.isVersionFour`, `Host.isFuture`: the addresses.
* `Host.fault?`: what is wrong with a host in brackets.
-/
import RenServer.Text.Cut
import RenServer.Text.Hex
import RenServer.Text.Numeral
import RenServer.Text.Quoted

namespace RenServer
namespace Host

open Text

/-- Why a host cannot stand in square brackets. -/
inductive Fault where
  /-- It starts like an address of a version to come and is none. -/
  | future
  /-- It is no address. -/
  | noAddress (host : String)
  /-- It is an IPv4 address. -/
  | versionFour
  deriving DecidableEq, Repr

def Fault.message : Fault → String
  | .future => "IPvFuture address is invalid"
  | .noAddress host => quoted host ++ " does not appear to be an IPv4 or IPv6 address"
  | .versionFour => "An IPv4 address cannot be in brackets"

def isHexDigit (c : Char) : Bool := (hexValue? c).isSome

/-- One of the four numbers of an IPv4 address, without zeros before it. -/
def isOctet (s : List Char) : Bool :=
  s ≠ [] && s.all Char.isDigit && s.length ≤ 3 && (s.head? != some '0' || s.length == 1) &&
    ofDigits (s.filterMap digitValue?) ≤ 255

def isVersionFour (s : List Char) : Bool :=
  (fields '.' s).length == 4 && (fields '.' s).all isOctet

/-- One of the eight groups of an IPv6 address. -/
def isGroup (s : List Char) : Bool := s ≠ [] && s.length ≤ 4 && s.all isHexDigit

/-- An IPv4 address at the end stands for two groups. -/
def withoutOctets (groups : List (List Char)) : List (List Char) :=
  if groups.getLast?.any isVersionFour then groups.dropLast ++ [['0'], ['0']] else groups

/-- The groups on one side of two colons, none if the address starts or ends with
the colons. -/
def side (groups : List (List Char)) : List (List Char) := if groups = [[]] then [] else groups

/-- An address without a scope: eight groups, or fewer around two colons that stand
for the groups that are missing. -/
def isGrouped (s : List Char) : Bool :=
  let groups := withoutOctets (fields ':' s)
  let inner := groups.tail.dropLast
  2 ≤ s.count ':' &&
    match inner.count [] with
    | 0 => groups.length == 8 && groups.all isGroup
    | 1 =>
      let first := side (groups.take (inner.idxOf [] + 1))
      let last := side (groups.drop (inner.idxOf [] + 2))
      first.length + last.length ≤ 7 && (first ++ last).all isGroup
    | _ => false

/-- An IPv6 address, maybe with a scope after a percent sign. -/
def isVersionSix (s : List Char) : Bool :=
  match cut? ['%'] s with
  | none => isGrouped s
  | some (address, scope) => scope ≠ [] && !scope.contains '%' && isGrouped address

/-- An address of a version to come, after its first letter: the version, a point
and more. -/
def isFuture (s : List Char) : Bool :=
  s.head?.any isHexDigit &&
    match s.dropWhile isHexDigit with
    | '.' :: more => more ≠ []
    | _ => false

/-- What is wrong with a host in square brackets. -/
def fault? (host : List Char) : Option Fault :=
  match host with
  | 'v' :: rest => if isFuture rest then none else some .future
  | _ =>
    if isVersionFour host then some .versionFour
    else if isVersionSix host then none
    else some (.noAddress (String.ofList host))

end Host
end RenServer
