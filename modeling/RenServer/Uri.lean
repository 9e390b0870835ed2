/- # Document URIs

The client names documents by URIs, and those that start with `file://` name
files. The authority after the slashes becomes part of the path if there is a
path, a drive letter loses the slash before it, and percent signs stand for
bytes of UTF-8.

Key definitions:

* `percentDecode`: the text that percent-encoded text stands for.
* `documentPath`: the file of a document.
-/
import RenServer.Text.Cut
import RenServer.Text.Hex
import RenServer.Text.Utf8
import RenServer.Uri.Host

namespace RenServer
namespace Uri

open Text

/-- Why a URI names no file although it should. -/
inductive Fault where
  /-- The authority has one square bracket and not the other. -/
  | unbalanced
  /-- The host in square brackets cannot stand there. -/
  | host (fault : Host.Fault)
  /-- The authority has a character that can be read as a mark between parts. -/
  | ambiguous (authority : String)
  deriving DecidableEq, Repr

def Fault.message : Fault → String
  | .unbalanced => "Invalid IPv6 URL"
  | .host fault => fault.message
  | .ambiguous authority =>
    "netloc '" ++ authority ++ "' contains invalid characters under NFKC normalization"

/-- The characters whose plain form holds one of the marks that stand between the
parts of a URI: a slash, a question mark, a number sign, an at sign or a colon. -/
def lookalikes : List Char :=
  ['\u2047', '\u2048', '\u2049', '\u2100', '\u2101', '\u2105', '\u2106', '\u2a74', '\ufe13',
   '\ufe16', '\ufe55', '\ufe56', '\ufe5f', '\ufe6b', '\uff03', '\uff0f', '\uff1a', '\uff1f',
   '\uff20']

/-- The byte that two hexadecimal digits write. -/
def hexByte? (high low : Char) : Option UInt8 := do
  let n ← hexNumber? [high, low]
  return UInt8.ofNat n

/-- A unit of percent-encoded text: a byte, or a character beyond ASCII. -/
inductive Encoded where
  | byte (b : UInt8)
  | beyond (c : Char)
  deriving DecidableEq, Repr

/-- The units of percent-encoded text. A percent sign without two digits after it
stands for itself. -/
def units : List Char → List Encoded
  | [] => []
  | '%' :: high :: low :: rest =>
    match hexByte? high low with
    | some b => .byte b :: units rest
    | none => .byte 0x25 :: units (high :: low :: rest)
  | c :: rest => (if c.toNat < 0x80 then .byte (UInt8.ofNat c.toNat) else .beyond c) :: units rest

/-- The text of units after a run of bytes, last byte first. Each run is decoded
on its own, so bytes never join across another character. -/
def decodeFrom (run : List UInt8) : List Encoded → List Char
  | [] => Utf8.decodeLossy run.reverse
  | .byte b :: rest => decodeFrom (b :: run) rest
  | .beyond c :: rest => Utf8.decodeLossy run.reverse ++ c :: decodeFrom [] rest

/-- The text that percent-encoded text stands for. -/
def percentDecode (s : List Char) : List Char := decodeFrom [] (units s)

/-- Whether a character ends the authority. -/
def endsAuthority (c : Char) : Bool := c == '/' || c == '?' || c == '#'

/-- The path part of what follows the authority. -/
def pathPart (s : List Char) : List Char :=
  (s.takeWhile (· ≠ '#')).takeWhile (· ≠ '?')

/-- A drive letter is written small and without a slash before it. -/
def withoutDriveSlash : List Char → List Char
  | '/' :: letter :: ':' :: rest =>
    if letter.isAlpha then letter.toLower :: ':' :: rest else '/' :: letter :: ':' :: rest
  | path => path

/-- What is between the first opening square bracket and the next closing one. -/
def bracketed (authority : List Char) : List Char :=
  (authority.dropWhile (· ≠ '[')).tail.takeWhile (· ≠ ']')

/-- What is wrong with an authority. -/
def authorityFault? (authority : List Char) : Option Fault :=
  if authority.contains '[' != authority.contains ']' then some .unbalanced
  else
    let host := if authority.contains '[' then Host.fault? (bracketed authority) else none
    (host.map .host).or
      (if authority.any lookalikes.contains then some (.ambiguous (String.ofList authority))
        else none)

/-- The file named by what follows `file://`. -/
def filePath (rest : List Char) : Except Fault (List Char) :=
  let plain := rest.filter fun c => c ≠ '\t' ∧ c ≠ '\r' ∧ c ≠ '\n'
  let authority := plain.takeWhile (!endsAuthority ·)
  let path := percentDecode (pathPart (plain.dropWhile (!endsAuthority ·)))
  match authorityFault? authority with
  | some fault => .error fault
  | none =>
    if authority ≠ [] ∧ path ≠ [] then .ok (['/', '/'] ++ percentDecode authority ++ path)
    else .ok (withoutDriveSlash path)

/-- The file of a document, nothing if its URI names no file. -/
def documentPath (uri : String) : Except Fault (Option String) :=
  match after? "file://".toList uri.toList with
  | none => .ok none
  | some rest => (filePath rest).map fun path => some (String.ofList path)

end Uri
end RenServer
