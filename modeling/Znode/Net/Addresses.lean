import Mathlib
import Znode.Core.Serializable

/-!
# Addresses, endpoints and node services

* `IPAddress` with `addressReservation` and `isRoutable`; IPv6 scope identifiers are left out, nothing that
  is modelled reads them;
* `IPEndpoint`, `NodeService` and their `serialization`. The port is sent in network byte order; an address
  is sent as 16 bytes, an IPv4 one mapped into IPv6. What comes back as IPv4 is every address whose first
  eight bytes are zero.
-/

namespace Znode.Net
open Znode.Lib Znode.Core

inductive IPAddress where
  | v4 (bytes : Octets 4)
  | v6 (bytes : Octets 16)
deriving DecidableEq, Repr

inductive IPAddressReservationType where
  | kNotReserved
  | kRFC1918
  | kRFC2544
  | kRFC6598
  | kRFC5737
  | kRFC3927
  | kRFC3849
  | kRFC3964
  | kRFC4193
  | kRFC4380
  | kRFC4843
  | kRFC4862
  | kRFC6052
  | kRFC6145
deriving DecidableEq, Repr

inductive IPAddressType where
  | kIPv4
  | kIPv6
deriving DecidableEq, Repr

def addrByte {n : Nat} (bytes : Octets n) (i : Nat) : Nat := (bytes.val.getD i 0).toNat

namespace IPAddress

def ofV4 (a b c d : UInt8) : IPAddress := v4 ⟨[a, b, c, d], rfl⟩

instance : Inhabited IPAddress := ⟨ofV4 0 0 0 0⟩

def getType : IPAddress → IPAddressType
  | v4 _ => .kIPv4
  | v6 _ => .kIPv6

def toBytes : IPAddress → Bytes
  | v4 b => b.val
  | v6 b => b.val

def isLoopback : IPAddress → Bool
  | v4 b => addrByte b 0 = 127
  | v6 b => b.val = List.replicate 15 0 ++ [1]

def isAny : IPAddress → Bool
  | v4 b => b = Octets.zero 4
  | v6 b => b = Octets.zero 16

def isUnspecified : IPAddress → Bool
  | v4 b => b = Octets.zero 4
  | v6 b => b = Octets.zero 16

def isValid (a : IPAddress) : Bool := !(a.isAny || a.isUnspecified)

/-- A later check overrides an earlier one, as in the source. -/
def addressV4Reservation (bytes : Octets 4) : IPAddressReservationType := Id.run do
  let b := addrByte bytes
  let mut ret := .kNotReserved
  if b 0 = 10 ∨ (b 0 = 172 ∧ b 1 ≥ 16 ∧ b 1 ≤ 31) ∨ (b 0 = 192 ∧ b 1 = 168) then ret := .kRFC1918
  if b 0 = 192 ∧ (b 1 = 18 ∨ b 1 = 19) then ret := .kRFC2544
  if b 0 = 100 ∧ b 1 ≥ 64 ∧ b 1 ≤ 127 then ret := .kRFC6598
  if (b 0 = 192 ∧ b 1 = 0 ∧ b 2 = 2) ∨ (b 0 = 198 ∧ b 1 = 51 ∧ b 2 = 100) ∨
      (b 0 = 203 ∧ b 1 = 0 ∧ b 2 = 113) then
    ret := .kRFC5737
  if b 0 = 169 ∧ b 1 = 254 then ret := .kRFC3927
  return ret

def addressV6Reservation (bytes : Octets 16) : IPAddressReservationType := Id.run do
  let b := addrByte bytes
  let mut ret := .kNotReserved
  if b 0 = 0x20 ∧ b 1 = 0x01 ∧ b 2 = 0x0D ∧ b 3 = 0xB8 then ret := .kRFC3849
  if b 0 = 0x20 ∧ b 1 = 0x02 then ret := .kRFC3964
  if b 0 = 0xFC ∨ b 0 = 0xFD then ret := .kRFC4193
  if b 0 = 0x20 ∧ b 1 = 0x01 ∧ b 2 = 0x00 ∧ b 3 = 0x00 then ret := .kRFC4380
  if b 0 = 0x20 ∧ b 1 = 0x01 ∧ b 2 = 0x00 ∧ b 3 / 16 = 1 then ret := .kRFC4843
  if b 0 = 0xFE ∧ b 1 = 0x80 then ret := .kRFC4862
  if b 0 = 0x00 ∧ b 1 = 0x64 ∧ b 2 = 0xFF ∧ b 3 = 0x9B then ret := .kRFC6052
  if bytes.val = [0x00, 0x00, 0xFF, 0xFF] ++ List.replicate 12 0 then ret := .kRFC6145
  return ret

def addressReservation (a : IPAddress) : IPAddressReservationType :=
  if a.isUnspecified then .kNotReserved
  else
    match a with
    | v4 b => addressV4Reservation b
    | v6 b => addressV6Reservation b

def isRoutable (a : IPAddress) : Bool :=
  if !a.isValid || a.isLoopback then false
  else
    match a.addressReservation with
    | .kRFC1918 | .kRFC2544 | .kRFC3927 | .kRFC4862 | .kRFC6598 | .kRFC5737 | .kRFC4193 | .kRFC4843
    | .kRFC3849 => false
    | _ => true

/-- The 16 bytes sent for an address. -/
def mappedBytes : IPAddress → Octets 16
  | v4 b => Octets.ofBytes 16 (List.replicate 10 0 ++ [0xFF, 0xFF] ++ b.val)
  | v6 b => b

/-- The address 16 received bytes stand for. -/
def ofMappedBytes (bytes : Octets 16) : IPAddress :=
  if bytes.val.take 8 = List.replicate 8 0 then v4 (Octets.ofBytes 4 (bytes.val.drop 12)) else v6 bytes

def bind (action : Action) (a : IPAddress) : Ser IPAddress := do
  match action with
  | .kComputeSize => addSize 16; return a
  | .kSerialize =>
    let _ ← bindOctets 16 action a.mappedBytes
    return a
  | .kDeserialize => return ofMappedBytes (← bindOctets 16 action (Octets.zero 16))

end IPAddress

/-! ## Endpoints -/

structure IPEndpoint where
  address : IPAddress := default
  port : UInt16 := 0
deriving DecidableEq, Repr

def bswap16 (v : Nat) : Nat := v % 256 * 256 + v / 256 % 256

namespace IPEndpoint

def isValid (e : IPEndpoint) : Bool := e.address.isValid && 1 < e.port && e.port < 65535

def isRoutable (e : IPEndpoint) : Bool := e.isValid && e.address.isRoutable

/-- `to_bytes`: the address, when it is valid, and the port in network byte order. -/
def toBytes (e : IPEndpoint) : Bytes :=
  (if e.address.isValid then e.address.toBytes else []) ++ leBytes 2 (bswap16 e.port.toNat)

def bindPort (action : Action) (port : UInt16) : Ser UInt16 := do
  let p ← bindUInt 2 action (bswap16 port.toNat)
  return UInt16.ofNat (bswap16 p)

def serialization (action : Action) : SerOf IPEndpoint Unit := do
  SerOf.field address (fun a e => { e with address := a }) (IPAddress.bind action)
  SerOf.field port (fun p e => { e with port := p }) (bindPort action)

end IPEndpoint

/-! ## Node services -/

def kNodeNetwork : UInt64 := 1

def kTimeInit : Int := 100000000

/-- `net::NodeService`; times are in seconds. -/
structure NodeService where
  time : Int := kTimeInit
  services : UInt64 := 0
  endpoint : IPEndpoint := {}
deriving DecidableEq, Repr

/-- `bind` of a time already cut to 32 bits. -/
def bindTime (action : Action) (time : Int) : Ser Int := do
  let timeSeconds ← bindUInt 4 action time.toNat
  return timeSeconds

def bindUInt64 (action : Action) (v : UInt64) : Ser UInt64 := do
  return UInt64.ofNat (← bindUInt 8 action v.toNat)

namespace NodeService

def serialization (action : Action) : SerOf NodeService Unit := do
  SerOf.update fun s => { s with time := s.time % 2 ^ 32 }
  SerOf.field time (fun a s => { s with time := a }) (bindTime action)
  SerOf.field services (fun a s => { s with services := a }) (bindUInt64 action)
  SerOf.member endpoint (fun a s => { s with endpoint := a }) (IPEndpoint.serialization action)

/-- `VersionNodeService::serialization`: a service without its time. -/
def versionSerialization (action : Action) : SerOf NodeService Unit := do
  SerOf.field services (fun a s => { s with services := a }) (bindUInt64 action)
  SerOf.member endpoint (fun a s => { s with endpoint := a }) (IPEndpoint.serialization action)

end NodeService

end Znode.Net

/-! ## Related streams -/

namespace Znode.Core
open Znode.Lib Znode.Net

section Addresses
variable {R : SDataStream → SDataStream → Prop}

namespace BindStable
variable {action : Action}

theorem bindUInt64 (h : BindStable action R) (v : UInt64) : Respects R (bindUInt64 action v) :=
  (h.bindUInt _ _).bind fun _ => Respects.pure _

theorem bindTime (h : BindStable action R) (t : Int) : Respects R (bindTime action t) :=
  (h.bindUInt _ _).bind fun _ => Respects.pure _

theorem bindAddress (h : BindStable action R) (a : IPAddress) : Respects R (IPAddress.bind action a) := by
  cases action with
  | kComputeSize => exact absurd rfl h.moves
  | kSerialize => exact (h.bindOctets _).bind fun _ => Respects.pure _
  | kDeserialize => exact (h.bindOctets _).bind fun _ => Respects.pure _

theorem endpoint (h : BindStable action R) : Respects (Along IPEndpoint R) (IPEndpoint.serialization action) :=
  (respects_field h.bindAddress).bind fun _ =>
    respects_field fun _ => (h.bindUInt _ _).bind fun _ => Respects.pure _

theorem nodeService (h : BindStable action R) :
    Respects (Along NodeService R) (NodeService.serialization action) :=
  (respects_update _).bind fun _ => (respects_field h.bindTime).bind fun _ =>
    (respects_field h.bindUInt64).bind fun _ => respects_member h.endpoint

theorem versionNodeService (h : BindStable action R) :
    Respects (Along NodeService R) (NodeService.versionSerialization action) :=
  (respects_field h.bindUInt64).bind fun _ => respects_member h.endpoint

end BindStable

end Addresses

end Znode.Core
