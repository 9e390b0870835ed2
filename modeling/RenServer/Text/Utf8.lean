/- # UTF-8

Bytes are cut into pieces: scalar values, and broken pieces, each as long as
the bytes could still have started a scalar value. Compiler output is decoded
with one replacement character per broken piece; a project file with a broken
piece is refused.

Key definitions:

* `pieces`: the pieces of a byte list.
* `decodeLossy`: every broken piece becomes U+FFFD.
* `decodeStrict`: the text, or the first broken piece and where it stands.
-/
import RenServer.Text.Hex

namespace RenServer
namespace Text
namespace Utf8

/-- Why a piece is broken. -/
inductive Fault where
  | invalidStart
  | invalidContinuation
  | unexpectedEnd
  deriving DecidableEq, Repr

/-- A piece of a byte list. -/
inductive Piece where
  | scalar (c : Char)
  | broken (bytes : List UInt8) (fault : Fault)
  deriving DecidableEq, Repr

/-- A scalar value of which the lead byte, and maybe more, has been read. The
next byte has to lie between `low` and `high`, and it is the last one if
`more` is zero. -/
structure Pending where
  seen : List UInt8
  value : Nat
  more : Nat
  low : Nat := 0x80
  high : Nat := 0xbf
  deriving DecidableEq, Repr

/-- What a byte can be when no scalar value is under way. -/
inductive Lead where
  | ascii (c : Char)
  | opens (p : Pending)
  | invalid
  deriving DecidableEq, Repr

/-- A byte that opens a piece. The second byte's bounds exclude overlong forms,
surrogates and values above U+10FFFF. -/
def lead (b : UInt8) : Lead :=
  let n := b.toNat
  if n < 0x80 then .ascii (Char.ofNat n)
  else if n < 0xc2 then .invalid
  else if n < 0xe0 then .opens { seen := [b], value := n - 0xc0, more := 0 }
  else if n < 0xf0 then
    .opens { seen := [b], value := n - 0xe0, more := 1,
             low := if n = 0xe0 then 0xa0 else 0x80, high := if n = 0xed then 0x9f else 0xbf }
  else if n < 0xf5 then
    .opens { seen := [b], value := n - 0xf0, more := 2,
             low := if n = 0xf0 then 0x90 else 0x80, high := if n = 0xf4 then 0x8f else 0xbf }
  else .invalid

/-- Whether a byte continues a scalar value. -/
def Pending.accepts (p : Pending) (b : UInt8) : Bool := p.low ≤ b.toNat && b.toNat ≤ p.high

/-- The value so far, with one more byte. -/
def Pending.shifted (p : Pending) (b : UInt8) : Nat := p.value * 64 + (b.toNat - 0x80)

/-- One more byte, not the last. -/
def Pending.next (p : Pending) (b : UInt8) : Pending :=
  { seen := p.seen ++ [b], value := p.shifted b, more := p.more - 1 }

/-- The pieces of a byte list, given what is under way. -/
def piecesFrom : Option Pending → List UInt8 → List Piece
  | none, [] => []
  | some p, [] => [.broken p.seen .unexpectedEnd]
  | none, b :: rest =>
    match lead b with
    | .ascii c => .scalar c :: piecesFrom none rest
    | .opens p => piecesFrom (some p) rest
    | .invalid => .broken [b] .invalidStart :: piecesFrom none rest
  | some p, b :: rest =>
    if p.accepts b then
      if p.more = 0 then .scalar (Char.ofNat (p.shifted b)) :: piecesFrom none rest
      else piecesFrom (some (p.next b)) rest
    else
      .broken p.seen .invalidContinuation ::
        match lead b with
        | .ascii c => .scalar c :: piecesFrom none rest
        | .opens q => piecesFrom (some q) rest
        | .invalid => .broken [b] .invalidStart :: piecesFrom none rest

/-- The pieces of a byte list. -/
def pieces (bytes : List UInt8) : List Piece := piecesFrom none bytes

/-- The replacement character. -/
def replacement : Char := '\ufffd'

/-- The text of a piece when broken pieces are replaced. -/
def Piece.shown : Piece → Char
  | .scalar c => c
  | .broken _ _ => replacement

/-- The text of a byte list, one replacement character per broken piece. -/
def decodeLossy (bytes : List UInt8) : List Char := (pieces bytes).map Piece.shown

/-- A broken piece and the offset of its first byte. -/
structure Undecodable where
  offset : Nat
  bytes : List UInt8
  fault : Fault
  deriving DecidableEq, Repr

/-- The text of pieces, the first of which stands at `offset`. -/
def scalars (offset : Nat) : List Piece → Except Undecodable (List Char)
  | [] => .ok []
  | .scalar c :: rest => (scalars (offset + c.utf8Size) rest).map (c :: ·)
  | .broken bytes fault :: _ => .error { offset, bytes, fault }

/-- The text of a byte list that is UTF-8 throughout. -/
def decodeStrict (bytes : List UInt8) : Except Undecodable (List Char) := scalars 0 (pieces bytes)

/-- The bytes of a text. -/
def encode (s : String) : List UInt8 := s.toUTF8.toList

/-- The words for a fault. -/
def Fault.words : Fault → String
  | .invalidStart => "invalid start byte"
  | .invalidContinuation => "invalid continuation byte"
  | .unexpectedEnd => "unexpected end of data"

/-- The report on an undecodable byte list. A broken piece of one byte is shown,
of a longer one only the place is. -/
def Undecodable.message (u : Undecodable) : String :=
  let place :=
    match u.bytes with
    | [b] => s!"byte 0x{String.ofList (hexDigits 2 b.toNat)} in position {u.offset}"
    | bs => s!"bytes in position {u.offset}-{u.offset + bs.length - 1}"
  s!"'utf-8' codec can't decode {place}: {u.fault.words}"

end Utf8
end Text
end RenServer
