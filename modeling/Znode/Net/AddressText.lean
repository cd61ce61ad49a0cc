import Mathlib
import Znode.Core.Checked
import Znode.Core.Hex
import Znode.Lib.BigEndian
import Znode.Lib.Regex
import Znode.Lib.Text
import Znode.Net.Addresses

/-!
# Addresses as text

* `kIPv4Pattern`, `kIPv6Pattern`, `kIPv6IPv4Pattern` : the patterns, which allow a port behind the address;
* `IPAddress.fromString` : the patterns in the order of the source. The parsers of the library for the address itself,
  `make_address_v4` and `make_address_v6`, are parameters;
* `inetPton4` : what the library reads as an IPv4 address.
-/

namespace Znode.Net
open Znode.Lib Znode.Core

/-- `\d{1,3}\.\d{1,3}\.\d{1,3}\.\d{1,3}`. -/
def quadPattern : Regex UInt8 :=
  let octet := Regex.many true 1 (some 3) isDigit
  let dot := Regex.one (· = 46)
  .seq octet <| .seq dot <| .seq octet <| .seq dot <| .seq octet <| .seq dot octet

/-- `(?::(\d+))?`. -/
def portPattern : Regex UInt8 := .opt (.seq (.one (· = 58)) (.group (.many true 1 none isDigit)))

def kIPv4Pattern : Regex UInt8 := .seq (.group quadPattern) portPattern

def isHexOrColon (c : UInt8) : Bool :=
  isDigit c || 97 ≤ c.toNat && c.toNat ≤ 102 || 65 ≤ c.toNat && c.toNat ≤ 70 || c = 58

/-- An expression between brackets that may be left out, one by one. -/
def bracketed (r : Regex UInt8) : Regex UInt8 := .seq (.opt (.one (· = 91))) (.seq r (.opt (.one (· = 93))))

def kIPv6Pattern : Regex UInt8 := .seq (bracketed (.group (.many true 1 none isHexOrColon))) portPattern

/-- `::ffff:`, in either case. -/
def mappedPattern : Regex UInt8 := Regex.word Hex.toLower (ascii "::ffff:")

def kIPv6IPv4Pattern : Regex UInt8 :=
  .seq (bracketed (.group (.seq mappedPattern (.group quadPattern)))) portPattern

/-- `address_v6::to_v4`, which throws for an address that is neither mapped nor compatible. -/
def toV4 (bytes : Octets 16) : Option (Octets 4) :=
  let first := bytes.val.take 12
  if first = List.replicate 10 0 ++ [0xFF, 0xFF] ∨
      first = List.replicate 12 0 ∧ bytes.val.drop 12 ≠ [0, 0, 0, 0] ∧ bytes.val.drop 12 ≠ [0, 0, 0, 1] then
    some (Octets.ofBytes 4 (bytes.val.drop 12))
  else none

section
variable (makeAddressV4 : Bytes → Option (Octets 4)) (makeAddressV6 : Bytes → Option (Octets 16))

/-- An address, or the error of a parser of the library that throws. -/
def orBadAddress (address : Option IPAddress) : Result IPAddress := address.elim (.error (.errc .badAddress)) .ok

def IPAddress.fromString (input : Bytes) : Result IPAddress :=
  if input.isEmpty then .ok default
  else
    match kIPv6IPv4Pattern.fullMatch input with
    | some groups => orBadAddress (((makeAddressV6 (Regex.str groups 1)).bind toV4).map .v4)
    | none =>
      match kIPv6Pattern.fullMatch input with
      | some groups => orBadAddress ((makeAddressV6 (Regex.str groups 1)).map .v6)
      | none =>
        match kIPv4Pattern.fullMatch input with
        | some groups => orBadAddress ((makeAddressV4 (Regex.str groups 1)).map .v4)
        | none => .error (.errc .badAddress)

end

/-- A number below 256 without a zero in front. -/
def readOctet (s : Bytes) : Option UInt8 :=
  if s ≠ [] ∧ AllDigits s ∧ (s.head? = some 48 → s.length = 1) ∧ decimalVal s < 256 then
    some (UInt8.ofNat (decimalVal s))
  else none

def inetPton4 (s : Bytes) : Option (Octets 4) :=
  ((s.splitOn 46).mapM readOctet).bind fun octets => if h : octets.length = 4 then some ⟨octets, h⟩ else none

end Znode.Net
