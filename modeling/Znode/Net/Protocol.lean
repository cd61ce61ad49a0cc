import Mathlib
import Znode.Core.Compact

/-!
# Message types, commands and the table of message definitions

* `MessageType`, `MessageDefinition`, `kMessageDefinitions` : the enumeration and the table indexed by
  it (`messageType_definitionOf` : the entry of a type is about that type);
* `getCommandFromMessageType` : the 12 bytes of a command, made from the enumerator's name as the
  source does; `messageTypeFromCommand` : the lookup in the other direction
  (`messageTypeFromCommand_eq_iff`).
-/

namespace Znode.Net
open Znode.Lib Znode.Core

def kMaxProtocolMessageLength : Nat := 4 * 1024 * 1024

def kMessageHeaderMagicLength : Nat := 4
def kMessageHeaderCommandLength : Nat := 12
def kMessageHeaderChecksumLength : Nat := 4
def kMessageHeaderLength : Nat :=
  kMessageHeaderMagicLength + kMessageHeaderCommandLength + 4 + kMessageHeaderChecksumLength

def kDefaultProtocolVersion : Int := 170002
def kMinSupportedProtocolVersion : Int := kDefaultProtocolVersion
def kMaxSupportedProtocolVersion : Int := kDefaultProtocolVersion

def kMaxInvItems : Nat := 50000
def kInvItemSize : Nat := 36
def kMaxAddrItems : Nat := 1000
def kAddrItemSize : Nat := 30
def kMaxGetHeadersItems : Nat := 2000
def kMaxHeadersItems : Nat := 160

def h256Size : Nat := 32

inductive MessageType where
  | kVersion
  | kVerAck
  | kInv
  | kAddr
  | kPing
  | kPong
  | kGetHeaders
  | kHeaders
  | kGetAddr
  | kMemPool
  | kReject
  | kGetData
  | kNotFound
  | kMissingOrUnknown
deriving DecidableEq, Repr

namespace MessageType

def enumValues : List MessageType :=
  [kVersion, kVerAck, kInv, kAddr, kPing, kPong, kGetHeaders, kHeaders, kGetAddr, kMemPool, kReject,
    kGetData, kNotFound, kMissingOrUnknown]

def enumName : MessageType → String
  | kVersion => "kVersion"
  | kVerAck => "kVerAck"
  | kInv => "kInv"
  | kAddr => "kAddr"
  | kPing => "kPing"
  | kPong => "kPong"
  | kGetHeaders => "kGetHeaders"
  | kHeaders => "kHeaders"
  | kGetAddr => "kGetAddr"
  | kMemPool => "kMemPool"
  | kReject => "kReject"
  | kGetData => "kGetData"
  | kNotFound => "kNotFound"
  | kMissingOrUnknown => "kMissingOrUnknown"

def index (t : MessageType) : Nat := enumValues.idxOf t

end MessageType

/-! ## The definitions -/

structure MessageDefinition where
  command : String := ""
  messageType : MessageType := .kMissingOrUnknown
  isVectorized : Bool := false
  maxVectorItems : Option Nat := none
  vectorItemSize : Option Nat := none
  minPayloadLength : Option Nat := none
  maxPayloadLength : Option Nat := none
  minProtocolVersion : Option Int := none
  maxProtocolVersion : Option Int := none
deriving Repr

def kMessageVersion : MessageDefinition where
  command := "version"
  messageType := .kVersion
  minPayloadLength := some 46
  maxPayloadLength := some 1024

def emptyDefinition (command : String) (messageType : MessageType) : MessageDefinition where
  command := command
  messageType := messageType
  minPayloadLength := some 0
  maxPayloadLength := some 0

/-- A vector of items of a fixed size. -/
def vectorDefinition (command : String) (messageType : MessageType) (maxItems itemSize : Nat) :
    MessageDefinition where
  command := command
  messageType := messageType
  isVectorized := true
  maxVectorItems := some maxItems
  vectorItemSize := some itemSize
  minPayloadLength := some (1 + itemSize)
  maxPayloadLength := some (serCompactSizeof maxItems + maxItems * itemSize)

def nonceDefinition (command : String) (messageType : MessageType) : MessageDefinition where
  command := command
  messageType := messageType
  minPayloadLength := some 8
  maxPayloadLength := some 8

def kMessageVerAck : MessageDefinition := emptyDefinition "verack" .kVerAck
def kMessageInv : MessageDefinition := vectorDefinition "inv" .kInv kMaxInvItems kInvItemSize
def kMessageGetData : MessageDefinition := vectorDefinition "getdata" .kGetData kMaxInvItems kInvItemSize
def kMessageAddr : MessageDefinition := vectorDefinition "addr" .kAddr kMaxAddrItems kAddrItemSize
def kMessagePing : MessageDefinition := nonceDefinition "ping" .kPing
def kMessagePong : MessageDefinition := nonceDefinition "pong" .kPong

def kMessageGetheaders : MessageDefinition where
  command := "getheaders"
  messageType := .kGetHeaders
  isVectorized := true
  maxVectorItems := some kMaxGetHeadersItems
  vectorItemSize := some h256Size
  minPayloadLength := some (4 + 1 + h256Size * 2)
  maxPayloadLength := some (4 + serCompactSizeof kMaxGetHeadersItems + h256Size * (kMaxGetHeadersItems + 1))

/-- The items of `headers` have no fixed size, and the payload no upper bound of its own. -/
def kMessageHeaders : MessageDefinition where
  command := "headers"
  messageType := .kHeaders
  isVectorized := true
  maxVectorItems := some kMaxHeadersItems
  minPayloadLength := some (1 + 140)

def kMessageGetAddr : MessageDefinition := emptyDefinition "getaddr" .kGetAddr
def kMessageMempool : MessageDefinition := emptyDefinition "mempool" .kMemPool

def kMessageReject : MessageDefinition where
  command := "reject"
  messageType := .kReject
  minPayloadLength := some 3
  maxPayloadLength := some (12 + 1 + 256 + 32)

def kMessageNotFound : MessageDefinition := vectorDefinition "notfound" .kNotFound kMaxInvItems kInvItemSize
def kMessageMissingOrUnknown : MessageDefinition := {}

/-- The table, in the order of `MessageType`. -/
def kMessageDefinitions : List MessageDefinition :=
  [kMessageVersion, kMessageVerAck, kMessageInv, kMessageAddr, kMessagePing, kMessagePong,
    kMessageGetheaders, kMessageHeaders, kMessageGetAddr, kMessageMempool, kMessageReject,
    kMessageGetData, kMessageNotFound, kMessageMissingOrUnknown]

/-- The entry of a type, `kMessageDefinitions[type]`. -/
def definitionOf (t : MessageType) : MessageDefinition :=
  kMessageDefinitions.getD t.index kMessageMissingOrUnknown

theorem messageType_definitionOf (t : MessageType) : (definitionOf t).messageType = t := by
  cases t <;> decide

/-! ## Commands -/

def stringBytes (s : String) : Bytes := s.toList.map fun c => UInt8.ofNat c.toNat

/-- `get_command_from_message_type`: the enumerator's name without its `k`, in lower case, filled with
NULs to 12 bytes. -/
def getCommandFromMessageType (t : MessageType) : Octets 12 :=
  Octets.ofBytes kMessageHeaderCommandLength
    ((t.enumName.toList.drop 1).map fun c => UInt8.ofNat c.toLower.toNat)

def getCommands : List (Octets 12 × MessageType) :=
  (MessageType.enumValues.filter (· ≠ .kMissingOrUnknown)).map fun t => (getCommandFromMessageType t, t)

def messageTypeFromCommand (command : Octets 12) : MessageType :=
  match getCommands.find? (fun p => p.1 == command) with
  | some p => p.2
  | none => .kMissingOrUnknown

def isKnownCommand (command : Bytes) : Bool :=
  if command.isEmpty || command.length > kMessageHeaderCommandLength then false
  else messageTypeFromCommand (Octets.ofBytes 12 command) ≠ .kMissingOrUnknown

/-- The command of the table is the one made from the enumerator's name. -/
theorem command_definitionOf {t : MessageType} (h : t ≠ .kMissingOrUnknown) :
    Octets.ofBytes 12 (stringBytes (definitionOf t).command) = getCommandFromMessageType t := by
  cases t <;> first | decide | exact absurd rfl h

theorem messageTypeFromCommand_command (t : MessageType) :
    messageTypeFromCommand (getCommandFromMessageType t) = t := by
  cases t <;> decide

/-- **The lookup of a command finds a known type exactly on the command of that type.** -/
theorem messageTypeFromCommand_eq_iff {command : Octets 12} {t : MessageType}
    (ht : t ≠ .kMissingOrUnknown) :
    messageTypeFromCommand command = t ↔ command = getCommandFromMessageType t := by
  constructor
  · intro h
    unfold messageTypeFromCommand at h
    split at h
    · rename_i p hp
      have hmem := List.mem_of_find?_eq_some hp
      have hcmd := List.find?_some hp
      obtain ⟨u, -, rfl⟩ := List.mem_map.mp hmem
      subst h
      exact (beq_iff_eq.mp hcmd).symm
    · exact absurd h.symm ht
  · rintro rfl
    exact messageTypeFromCommand_command t

end Znode.Net
