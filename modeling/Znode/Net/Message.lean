import Mathlib
import Znode.Lib.Act
import Znode.Core.Serializable
import Znode.Net.Protocol

/-!
# Messages: header, payload checks and `write`

* `MessageHeader` with `setType`, `serialization` and `validate`;
* `Message` : the buffered bytes, the header read from them, and the two flags;
* `Msg` : the member functions of `Message`. `outcome::result` errors are errors of the call, a failed
  `ASSERT` is a fault;
* `Message.write` : the loop that takes bytes off the input, as many as the header or the payload
  still lacks, and validates after each portion.

SHA-256 is a parameter, a total function into 32 bytes: the only failure of the library call, running
out of memory, is left out.
-/

namespace Znode.Net
open Znode.Lib Znode.Core

/-! ## Digests and duplicate chunks -/

def kEmptyHash : Octets 32 :=
  ⟨[0x5d, 0xf6, 0xe0, 0xe2, 0x76, 0x13, 0x59, 0xd3, 0x0a, 0x82, 0x75, 0x05, 0x8e, 0x29, 0x9f, 0xcc,
    0x03, 0x81, 0x53, 0x45, 0x45, 0xf5, 0x5c, 0xf4, 0x3e, 0x41, 0x98, 0x3f, 0x5d, 0x4c, 0x94, 0x56], rfl⟩

/-- `crypto::Hash256` of `data`: SHA-256 twice, the known digest when nothing was ingested. -/
def hash256 (sha256 : Bytes → Octets 32) (data : Bytes) : Octets 32 :=
  if data.length = 0 then kEmptyHash else sha256 (sha256 data).val

/-- The chunks of `chunkSize` bytes; a shorter remainder is not one of them. -/
def dataChunks (data : Bytes) (chunkSize : Nat) : List Bytes :=
  (List.range (data.length / chunkSize)).map fun i => slice data (i * chunkSize) chunkSize

/-- The loop of `count_duplicate_data_chunks` over the chunks not seen yet. -/
def countDuplicates (maxCount : Nat) : List Bytes → List Bytes → Nat → Nat
  | [], _, count => count
  | chunk :: chunks, uniqueChunks, count =>
    if chunk ∈ uniqueChunks then
      if maxCount ≠ 0 ∧ count + 1 = maxCount then count + 1
      else countDuplicates maxCount chunks uniqueChunks (count + 1)
    else countDuplicates maxCount chunks (chunk :: uniqueChunks) count

def countDuplicateDataChunks (data : Bytes) (chunkSize maxCount : Nat) : Nat :=
  if chunkSize = 0 ∨ data.length < chunkSize then 0
  else countDuplicates maxCount (dataChunks data chunkSize) [] 0

/-! ## The header -/

/-- `net::MessageHeader`; `payloadLength` is a `uint32_t`. -/
structure MessageHeader where
  networkMagic : Octets 4 := Octets.zero 4
  command : Octets 12 := Octets.zero 12
  payloadLength : Nat := 0
  payloadChecksum : Octets 4 := Octets.zero 4
  messageType : MessageType := .kMissingOrUnknown
deriving DecidableEq, Repr

namespace MessageHeader

def pristine (h : MessageHeader) : Bool :=
  h.networkMagic = Octets.zero 4 && h.command = Octets.zero 12 && h.payloadChecksum = Octets.zero 4 &&
    h.messageType = .kMissingOrUnknown && h.payloadLength = 0

def getDefinition (h : MessageHeader) : MessageDefinition := definitionOf h.messageType

def getType (h : MessageHeader) : MessageType := h.getDefinition.messageType

/-- `set_type`: on a pristine header the command is all zeros, so copying the definition's command
leaves it filled with NULs. -/
def setType (type : MessageType) (h : MessageHeader) : MessageHeader :=
  if !h.pristine then h
  else { h with command := Octets.ofBytes 12 (stringBytes (definitionOf type).command), messageType := type }

def serialization (action : Action) : SerOf MessageHeader Unit := do
  SerOf.field networkMagic (fun a h => { h with networkMagic := a }) (bindOctets 4 action)
  SerOf.field command (fun a h => { h with command := a }) (bindOctets 12 action)
  SerOf.field payloadLength (fun a h => { h with payloadLength := a }) (bindUInt 4 action)
  SerOf.field payloadChecksum (fun a h => { h with payloadChecksum := a }) (bindOctets 4 action)

def clamp (v lo hi : Nat) : Nat := if v < lo then lo else if hi < v then hi else v

/-- The checks of `validate` after the command was looked up. -/
def checkFields (protocolVersion : Int) (h : MessageHeader) : Except Error Unit :=
  if h.messageType = .kMissingOrUnknown then .error (.net .kMessageHeaderIllegalCommand)
  else if h.payloadLength > kMaxProtocolMessageLength then
    .error (.net .kMessageHeaderIllegalPayloadLength)
  else if h.getDefinition.minProtocolVersion.any (protocolVersion < ·) then
    .error (.net .kUnsupportedMessageTypeForProtocolVersion)
  else if h.getDefinition.maxProtocolVersion.any (protocolVersion > ·) then
    .error (.net .kDeprecatedMessageTypeForProtocolVersion)
  else if clamp h.payloadLength (h.getDefinition.minPayloadLength.getD 0)
      (h.getDefinition.maxPayloadLength.getD kMaxProtocolMessageLength) ≠ h.payloadLength then
    .error (.net .kMessageHeaderIllegalPayloadLength)
  else if h.payloadLength = 0 ∧ h.payloadChecksum.val ≠ kEmptyHash.val.take 4 then
    .error (.net .kMessageHeaderInvalidChecksum)
  else .ok ()

/-- `MessageHeader::validate`; the type is set also when a later check fails. -/
def validate (protocolVersion : Int) (magic : Octets 4) (h : MessageHeader) :
    Except Error Unit × MessageHeader :=
  if h.networkMagic ≠ magic then (.error (.net .kMessageHeaderInvalidMagic), h)
  else
    let h' := { h with messageType := messageTypeFromCommand h.command }
    (h'.checkFields protocolVersion, h')

end MessageHeader

/-! ## The message -/

structure Message where
  header : MessageHeader := {}
  serStream : SDataStream := {}
  networkMagic : Octets 4 := Octets.zero 4
  headerValidated : Bool := false
  payloadValidated : Bool := false
deriving DecidableEq, Repr

abbrev Msg := Act Error Fault Message

namespace Message

def new (version : Int) (magic : Octets 4) : Message :=
  { serStream := { version := version }, networkMagic := magic }

def isComplete (m : Message) : Bool := m.headerValidated && m.payloadValidated

def getType (m : Message) : MessageType := m.header.getType

def size (m : Message) : Nat := m.serStream.size

def reset (m : Message) : Message :=
  { m with header := {}, serStream := m.serStream.clear, headerValidated := false, payloadValidated := false }

def onStream {α : Type} (c : Ser α) : Msg α :=
  Act.zoom serStream (fun s m => { m with serStream := s }) c

def seekg (position : Nat) : Msg Nat := do
  let m ← get
  set { m with serStream := (m.serStream.seekg position).2 }
  return (m.serStream.seekg position).1

/-- `header_.serialize` and `header_.deserialize` on the message's own stream. -/
def serializeHeader (action : Action) : Msg Unit :=
  Act.zoom (fun m => (m.header, m.serStream)) (fun hs m => { m with header := hs.1, serStream := hs.2 })
    (MessageHeader.serialization action)

def validateHeader : Msg Unit := do
  let m ← get
  if m.headerValidated then return
  if m.serStream.size < kMessageHeaderLength then throw (.net .kMessageHeaderIncomplete)
  serializeHeader .kDeserialize
  let m ← get
  let (result, header) := m.header.validate m.serStream.version m.networkMagic
  set { m with header := header }
  Act.ofExcept result
  modify fun m => { m with headerValidated := true, payloadValidated := m.header.payloadLength = 0 }

/-- Where the number of items stands in the payload: `getheaders` has its version before it. -/
def vectorOffset (messageDefinition : MessageDefinition) : Nat :=
  if messageDefinition.messageType = .kGetHeaders then 4 else 0

/-- The payload length a vector of `numElements` items of `itemSize` bytes asks for; `getheaders` has
one more item, the stop hash. -/
def expectedPayloadLength (messageDefinition : MessageDefinition) (numElements itemSize : Nat) : Nat :=
  numElements * itemSize + (if messageDefinition.messageType = .kGetHeaders then itemSize else 0) +
    serCompactSizeof numElements + vectorOffset messageDefinition

/-- The checks on the number of items, once it was read. -/
def checkNumElements (messageDefinition : MessageDefinition) (payloadLength numElements : Nat) :
    Except Error Unit :=
  if numElements = 0 then .error (.net .kMessagePayloadEmptyVector)
  else if numElements > messageDefinition.maxVectorItems.getD kMaxSerializedCompactSize then
    .error (.net .kMessagePayloadOversizedVector)
  else if messageDefinition.vectorItemSize.any
      (payloadLength ≠ expectedPayloadLength messageDefinition numElements ·) then
    .error (.net .kMessagePayloadLengthMismatchesVectorSize)
  else .ok ()

def validatePayloadVector (messageDefinition : MessageDefinition) : Msg Unit := do
  let pos := kMessageHeaderLength + vectorOffset messageDefinition
  let reached ← seekg pos
  let m ← get
  if reached ≠ pos ∨ m.serStream.avail < 1 then throw (.net .kMessageBodyIncomplete)
  match ← (onStream readCompact).attempt with
  | .error e =>
    -- too few bytes for the number itself: it is not known yet
    throw (if e = .ser .kReadOverflow then .net .kMessageBodyIncomplete else e)
  | .ok numElements => Act.ofExcept (checkNumElements messageDefinition m.header.payloadLength numElements)

section
variable (sha256 : Bytes → Octets 32)

def validatePayloadChecksum : Msg Unit := do
  let payloadView ← onStream (read none)
  let m ← get
  Act.require .assert (payloadView.length = m.header.payloadLength)
  if (hash256 sha256 payloadView).val.take 4 ≠ m.header.payloadChecksum.val then
    throw (.net .kMessageHeaderInvalidChecksum)

/-- The search for duplicate items, in a complete payload of items of a fixed size. -/
def checkDuplicates (messageDefinition : MessageDefinition) : Msg Unit := do
  match messageDefinition.vectorItemSize with
  | none => return
  | some itemSize =>
    match ← (onStream (read none)).attempt with
    | .error _ => Act.raise .assert
    | .ok payloadView =>
      if countDuplicateDataChunks payloadView itemSize 1 > 0 then
        throw (.net .kMessagePayloadDuplicateVectorItems)

/-- The end of `validate_payload`: the payload must be complete and match its checksum. -/
def checkCompletePayload (payloadIncomplete : Bool) : Msg Unit := do
  if payloadIncomplete then throw (.net .kMessageBodyIncomplete)
  Act.require .assert ((← seekg kMessageHeaderLength) = kMessageHeaderLength)
  validatePayloadChecksum sha256
  modify fun m => { m with payloadValidated := true }

/-- The checks of `validate_payload`, between the two flags before it and the cursor reset after it. -/
def checkPayload (payloadIncomplete : Bool) : Msg Unit := do
  let m ← get
  if m.header.getDefinition.isVectorized then
    validatePayloadVector m.header.getDefinition
    if !payloadIncomplete then checkDuplicates m.header.getDefinition
  checkCompletePayload sha256 payloadIncomplete

def validatePayload : Msg Unit := do
  let m ← get
  if m.payloadValidated then return
  if !m.headerValidated then throw (.net .kMessageHeaderIncomplete)
  let result ← (checkPayload sha256 (m.serStream.avail ≠ m.header.payloadLength)).attempt
  let _ ← seekg kMessageHeaderLength  -- `reset_position`, however the checks ended
  Act.ofExcept result

def validate : Msg Unit := do
  let m ← get
  if m.serStream.size > kMaxProtocolMessageLength then throw (.net .kMessageSizeOverflow)
  if m.isComplete then return
  validateHeader
  let result ← (validatePayload sha256).attempt
  Act.require .assert ((← seekg kMessageHeaderLength) = kMessageHeaderLength)
  Act.ofExcept result

/-- The bytes `write` takes off the input in one round: what the header or the payload still lacks. -/
def bytesToRead (m : Message) (inputSize : Nat) : Nat :=
  min (if m.serStream.tellg < kMessageHeaderLength then sizeSub kMessageHeaderLength m.serStream.avail
    else sizeSub m.header.payloadLength m.serStream.avail) inputSize

def isIncomplete (e : Error) : Bool := e = .net .kMessageHeaderIncomplete || e = .net .kMessageBodyIncomplete

/-- The loop of `write`: the result of the call and the input not taken. The first argument bounds
the number of rounds. -/
def writeLoop : Nat → Except Error Unit → Bytes → Msg (Except Error Unit × Bytes)
  | 0, _, _ => Act.raise .loop
  | rounds + 1, result, input => do
    if input.isEmpty then return (result, input)
    let bytesToRead := (← get).bytesToRead input.length
    match ← (onStream (Core.write (input.take bytesToRead))).attempt with
    | .error e => return (.error e, input)
    | .ok _ =>
      match ← (validate sha256).attempt with
      | .ok _ => return (.ok (), input.drop bytesToRead)
      | .error e =>
        if isIncomplete e then writeLoop rounds (.error e) (input.drop bytesToRead)
        else return (.error e, input.drop bytesToRead)

/-- `Message::write`: its result and what is left of the input. -/
def write (input : Bytes) : Msg (Except Error Unit × Bytes) := do
  let m ← get
  if input.isEmpty then
    if !m.headerValidated then return (.error (.net .kMessageHeaderIncomplete), input)
    else if !m.payloadValidated then return (.error (.net .kMessageBodyIncomplete), input)
    else return (.ok (), input)
  else if m.isComplete then return (.error (.net .kMessageWriteNotPermitted), input)
  else writeLoop sha256 (input.length + 1) (.ok ()) input

end

end Message

end Znode.Net
