import Mathlib
import Znode.Lib.Bytes

/-!
# Data streams and the serialization primitives

* `Error` : the error codes of a call (`ser::Error` and `net::Error`, told apart by category);
  `Fault` : the ways a call does not return at all;
* `SDataStream` : the byte buffer with its read cursor, the version and the computed size;
* `Ser` : calls on a stream that may fail. As in the source a failed call keeps what it has already
  done to the stream, so the monad is `EStateM` and not `StateT` over `Except`;
* `bindUInt`, `bindInt`, `bindBool`, `bindOctets`, `bindString` : the overloads of
  `SDataStream::bind`, one per kind of field, for all three actions.
-/

namespace Znode.Core
open Znode.Lib

inductive SerError where
  | kSuccess
  | kInputTooLarge
  | kReadOverflow
  | kNonCanonicalCompactSize
  | kCompactSizeTooBig
  | kUnexpectedError
  | kStringTooBig
  | kInvalidRejectionCode
  | kInvalidInventoryType
deriving DecidableEq, Repr

inductive NetError where
  | kSuccess
  | kMessageSizeOverflow
  | kMessageHeaderIncomplete
  | kMessageBodyIncomplete
  | kMessageHeaderInvalidMagic
  | kMessageHeaderMalformedCommand
  | kMessageHeaderEmptyCommand
  | kMessageHeaderIllegalCommand
  | kMessageHeaderIllegalPayloadLength
  | kMessageHeaderInvalidChecksum
  | kMessagePayloadEmptyVector
  | kMessagePayloadOversizedVector
  | kMessagePayloadLengthMismatchesVectorSize
  | kMessagePayloadDuplicateVectorItems
  | kMessagePayloadExtraData
  | kMessagePayLoadUnhandleable
  | kMessageUnknownCommand
  | kMessageWriteNotPermitted
  | kMessagePushNotPermitted
  | kInvalidProtocolVersion
  | kUnsupportedMessageTypeForProtocolVersion
  | kDeprecatedMessageTypeForProtocolVersion
  | kDuplicateProtocolHandShake
  | kInvalidProtocolHandShake
  | kMessageFloodingDetected
  | kConnectedToSelf
  | kUnsolicitedPong
  | kInvalidPingPongNonce
  | kUnknownRejectedCommand
  | kMessagePayloadInvalidLastBlockHeight
  | kMessagePayloadInvalidTimestamp
  | kInvalidNtpResponse
  | kInvalidSystemTime
deriving DecidableEq, Repr

/-- An error code: an enumerator with its category. -/
inductive Error where
  | ser (e : SerError)
  | net (e : NetError)
deriving DecidableEq, Repr

/-- How a call can fail to return: `ASSERT` aborts the process (also in release builds), a loop goes on past
the number of rounds the model allows it, or the element past the end of a container is read. -/
inductive Fault where
  | assert
  | loop
  | outOfRange
deriving DecidableEq, Repr

inductive Scope where
  | kNetwork
  | kStorage
  | kHash
deriving DecidableEq, Repr

inductive Action where
  | kComputeSize
  | kSerialize
  | kDeserialize
deriving DecidableEq, Repr

def kMaxStreamSize : Nat := 512 * 1024 * 1024

def kMaxSerializedCompactSize : Nat := 0x02000000

/-- Subtraction of two `size_t`: wraps below zero. -/
def sizeSub (a b : Nat) : Nat := if b ≤ a then a - b else 2 ^ 64 + a - b

theorem sizeSub_of_le {a b : Nat} (h : b ≤ a) : sizeSub a b = a - b := if_pos h

/-- `ser::SDataStream`, with the buffer and the cursor of its base `DataStream`. -/
structure SDataStream where
  buffer : Bytes := []
  readPosition : Nat := 0
  scope : Scope := .kNetwork
  version : Int := 0
  computedSize : Nat := 0
deriving DecidableEq, Repr

abbrev Ser := EStateM Error SDataStream

namespace SDataStream

def size (s : SDataStream) : Nat := s.buffer.length

def avail (s : SDataStream) : Nat := sizeSub s.buffer.length s.readPosition

def tellg (s : SDataStream) : Nat := s.readPosition

def eof (s : SDataStream) : Bool := s.readPosition ≥ s.buffer.length

/-- Moves the cursor, at most to the end; returns where it ended up. -/
def seekg (s : SDataStream) (position : Nat) : Nat × SDataStream :=
  let p := min position s.buffer.length
  (p, { s with readPosition := p })

def clear (s : SDataStream) : SDataStream :=
  { s with buffer := [], readPosition := 0, computedSize := 0 }

theorem avail_of_le {s : SDataStream} (h : s.readPosition ≤ s.buffer.length) :
    s.avail = s.buffer.length - s.readPosition := sizeSub_of_le h

end SDataStream

/-! ## Reading and writing bytes -/

def write (data : Bytes) : Ser Unit := do
  let s ← get
  if s.size + data.length > kMaxStreamSize then throw (.ser .kInputTooLarge)
  set { s with buffer := s.buffer ++ data }

/-- `DataStream::push_back`: not bounded by `kMaxStreamSize`. -/
def pushBack (byte : UInt8) : Ser Unit :=
  modify fun s => { s with buffer := s.buffer ++ [byte] }

/-- `DataStream::read`: `count` bytes from the cursor on, all that is left when omitted. -/
def read (count : Option Nat := none) : Ser Bytes := do
  let s ← get
  let bytesBeingRead := count.getD s.avail
  if bytesBeingRead > s.avail then throw (.ser .kReadOverflow)
  set { s with readPosition := s.readPosition + bytesBeingRead }
  return slice s.buffer s.readPosition bytesBeingRead

theorem write_run (data : Bytes) (s : SDataStream) : (write data).run s =
    if s.buffer.length + data.length > kMaxStreamSize then .error (.ser .kInputTooLarge) s
    else .ok () { s with buffer := s.buffer ++ data } := by
  simp only [write, SDataStream.size]
  split <;> simp [*]

theorem read_run (n : Nat) (s : SDataStream) : (read (some n)).run s =
    if n > s.avail then .error (.ser .kReadOverflow) s
    else .ok (slice s.buffer s.readPosition n) { s with readPosition := s.readPosition + n } := by
  simp only [read, Option.getD_some]
  split <;> simp [*]

theorem read_all_run (s : SDataStream) : (read none).run s =
    .ok (slice s.buffer s.readPosition s.avail) { s with readPosition := s.readPosition + s.avail } := by
  simp [read]

theorem read_run_of_le {n : Nat} {s : SDataStream} (h : s.readPosition + n ≤ s.buffer.length) :
    (read (some n)).run s =
      .ok (slice s.buffer s.readPosition n) { s with readPosition := s.readPosition + n } := by
  have ha := SDataStream.avail_of_le (s := s) (by omega)
  rw [read_run, if_neg (by omega)]

theorem read_run_of_lt {n : Nat} {s : SDataStream} (hp : s.readPosition ≤ s.buffer.length)
    (h : s.buffer.length < s.readPosition + n) :
    (read (some n)).run s = .error (.ser .kReadOverflow) s := by
  have ha := SDataStream.avail_of_le hp
  rw [read_run, if_pos (by omega)]

/-! ## The `bind` overloads -/

def writeData (n v : Nat) : Ser Unit := write (leBytes n v)

def readAs (n : Nat) : Ser Nat := do return leVal (← read (some n))

/-- Accounts `n` bytes for `kComputeSize`. -/
def addSize (n : Nat) : Ser Unit :=
  modify fun s => { s with computedSize := s.computedSize + n }

def bindUInt (n : Nat) (action : Action) (object : Nat) : Ser Nat := do
  match action with
  | .kComputeSize => addSize n; return object
  | .kSerialize => writeData n object; return object
  | .kDeserialize => readAs n

/-- `bind` of a signed integer of `n` bytes (two's complement on the wire). -/
def bindInt (n : Nat) (action : Action) (object : Int) : Ser Int := do
  match action with
  | .kComputeSize => addSize n; return object
  | .kSerialize => writeData n (object % 256 ^ n).toNat; return object
  | .kDeserialize => return Int.bmod (← readAs n) (256 ^ n)

/-- `bind` of a bool: written with `push_back`, true exactly when the byte read is `0x01`. -/
def bindBool (action : Action) (object : Bool) : Ser Bool := do
  match action with
  | .kComputeSize => addSize 1; return object
  | .kSerialize => pushBack (if object then 1 else 0); return object
  | .kDeserialize => return (← readAs 1) == 1

def bindOctets (n : Nat) (action : Action) (object : Octets n) : Ser (Octets n) := do
  match action with
  | .kComputeSize => addSize n; return object
  | .kSerialize => write object.val; return object
  | .kDeserialize => return Octets.ofBytes n (← read (some n))

end Znode.Core
