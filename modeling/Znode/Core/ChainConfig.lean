import Mathlib
import Znode.Lib.Bytes
import Znode.Lib.Text
import Znode.Core.Checked

/-!
# The configuration of a chain, as JSON

The configuration is stored in the database as JSON. `from_json` checks one member of the value it reads, and takes the
others for granted; `to_json` looks up the name of the chain in a table of three.

* `Json`, `Json.getUnsigned` : the values of nlohmann's library, and its `get<uintN_t>()`;
* `ChainConfig.toJson`, `ChainConfig.fromJson` : with `JsonFault.exception` where an exception leaves the function, and
  `JsonFault.undefined` where the behaviour is undefined;
* `fromJson_toJson` : what `to_json` writes is read back, if the seal engine is;
* `ChainConfig.WellFormed` : the members that are read have values of their types, and the chain is a known one;
* `chain_config_iff` : for exactly the values that are refused or well-formed nothing goes wrong.

The hashes of the genesis block are neither written nor read.
-/

namespace Znode.Core
open Znode.Lib

inductive JsonFault where
  | exception
  | undefined
deriving DecidableEq, Repr

/-- `nlohmann::json`. Of a floating point number there is its integral part, and nothing if it is not finite. -/
inductive Json where
  | null
  | boolean (value : Bool)
  | numberInteger (value : Int)
  | numberUnsigned (value : Nat)
  | numberFloat (integral : Option Int)
  | string (value : Bytes)
  | array (elements : List Json)
  | object (members : List (Bytes × Json))
  | binary (bytes : Bytes)
  | discarded

namespace Json

def isDiscarded : Json → Bool
  | discarded => true
  | _ => false

def isNumberInteger : Json → Bool
  | numberInteger _ => true
  | numberUnsigned _ => true
  | _ => false

def isObject : Json → Bool
  | object _ => true
  | _ => false

def find (key : Bytes) : Json → Option Json
  | object members => (members.find? fun m => m.1 = key).map Prod.snd
  | _ => none

def contains (j : Json) (key : Bytes) : Bool := (j.find key).isSome

/-- `get<uintN_t>()` with so many bits. A number is cast, and a floating point number must fit. -/
def getUnsigned (bits : Nat) : Json → Except JsonFault Nat
  | numberUnsigned value => .ok (value % 2 ^ bits)
  | numberInteger value => .ok (value % 2 ^ bits).toNat
  | boolean value => .ok value.toNat
  | numberFloat (some integral) =>
    if 0 ≤ integral ∧ integral < 2 ^ bits then .ok integral.toNat else .error .undefined
  | numberFloat none => .error .undefined
  | _ => .error .exception

/-- The first `n` elements as bytes. -/
def getElements : Nat → List Json → Except JsonFault Bytes
  | 0, _ => .ok []
  | _ + 1, [] => .error .exception
  | n + 1, element :: elements => do
    let value ← getUnsigned 8 element
    let bytes ← getElements n elements
    return UInt8.ofNat value :: bytes

/-- `get<std::array<uint8_t, n>>()`. -/
def getArray (n : Nat) : Json → Except JsonFault (Octets n)
  | array elements => (getElements n elements).map (Octets.ofBytes n)
  | _ => .error .exception

/-- `json[key]` on a value that is not changed, and a conversion of it. -/
def get {α : Type} (j : Json) (key : Bytes) (convert : Json → Except JsonFault α) : Except JsonFault α :=
  (j.find key).elim (.error .exception) convert

end Json

/-- What `auto x{value}` makes of a JSON value: one compiler copies it, another one takes the braces for a list. -/
inductive BraceInit where
  | copy
  | list
deriving DecidableEq, Repr

/-- A list of one value is an object when the value is a pair of a text and another value. -/
def BraceInit.apply : BraceInit → Json → Json
  | list, .array [.string key, value] => .object [(key, value)]
  | list, value => .array [value]
  | copy, value => value

inductive SealEngineType where
  | kNoProof
  | kEquihash
deriving DecidableEq, Repr

namespace SealEngineType

def enumName : SealEngineType → Bytes
  | kNoProof => ascii "kNoProof"
  | kEquihash => ascii "kEquihash"

def enumCast (name : Bytes) : Option SealEngineType :=
  if name = ascii "kNoProof" then some kNoProof else if name = ascii "kEquihash" then some kEquihash else none

end SealEngineType

structure ChainConfig where
  identifier : UInt32 := 0
  magic : Octets 4 := Octets.zero 4
  defaultPort : UInt16 := 0
  sealEngineType : SealEngineType := .kNoProof

namespace ChainConfig

def kKnownChainConfigs : List Bytes := [ascii "mainnet", ascii "testnet", ascii "regtest"]

def consensusObject (type : SealEngineType) : Json :=
  .object [(type.enumName.erase 0x6b, .object [(ascii "K", .numberUnsigned 200), (ascii "N", .numberUnsigned 9)])]

/-- What `to_json` returns for a chain of this name. -/
def jsonOf (config : ChainConfig) (chainName : Bytes) : Json :=
  .object
    [(ascii "chainId", .numberUnsigned config.identifier.toNat),
      (ascii "chainName", .string chainName),
      (ascii "chainMagic", .array (config.magic.val.map fun b => .numberUnsigned b.toNat)),
      (ascii "defaultPort", .numberUnsigned config.defaultPort.toNat),
      (ascii "consensus", consensusObject config.sealEngineType)]

/-- `to_json`. The place in the table is not checked. -/
def toJson (config : ChainConfig) : Except JsonFault Json :=
  kKnownChainConfigs[(config.identifier - 1).toNat]?.elim (.error .undefined) fun chainName =>
    .ok (config.jsonOf chainName)

/-- The loop over the members of the consensus object. -/
def readConsensus : List (Bytes × Json) → SealEngineType → Except JsonFault SealEngineType
  | [], type => .ok type
  | (key, value) :: members, type =>
    if value.isObject then
      (SealEngineType.enumCast (0x6b :: key)).elim (.error .exception) (readConsensus members)
    else readConsensus members type

/-- What is read from the object, or from another value. -/
def readObject : Json → Except JsonFault SealEngineType
  | .object members => readConsensus members .kNoProof
  | _ => .ok .kNoProof

/-- What `from_json` takes from the member `consensus`, if there is one. -/
def sealEngine (braces : BraceInit) (consensus : Option Json) : Except JsonFault SealEngineType :=
  consensus.elim (.ok .kNoProof) fun value => readObject (braces.apply value)

/-- The check at the beginning of `from_json`. -/
def accepts (j : Json) : Bool :=
  !(j.isDiscarded || !j.contains (ascii "chainId") || !(j.find (ascii "chainId")).any Json.isNumberInteger)

def fromJson (braces : BraceInit) (j : Json) : Except JsonFault (Option ChainConfig) :=
  if !accepts j then .ok none
  else do
    let identifier ← j.get (ascii "chainId") (Json.getUnsigned 32)
    let magic ← j.get (ascii "chainMagic") (Json.getArray 4)
    let defaultPort ← j.get (ascii "defaultPort") (Json.getUnsigned 16)
    let sealEngineType ← sealEngine braces (j.find (ascii "consensus"))
    return some
      { identifier := UInt32.ofNat identifier
        magic := magic
        defaultPort := UInt16.ofNat defaultPort
        sealEngineType := sealEngineType }

/-- `from_json` returns, and the configuration it returns can be written and read back. -/
def Safe (braces : BraceInit) (j : Json) : Prop :=
  ∃ r, fromJson braces j = .ok r ∧
    ∀ config ∈ r, ∃ json, config.toJson = .ok json ∧ fromJson braces json = .ok (some config)

end ChainConfig

/-! ## Well-formed values -/

namespace Json

/-- A number or a truth value; a floating point number must fit. -/
def IsNumber (bits : Nat) : Json → Prop
  | numberUnsigned _ => True
  | numberInteger _ => True
  | boolean _ => True
  | numberFloat (some integral) => 0 ≤ integral ∧ integral < 2 ^ bits
  | _ => False

end Json

namespace ChainConfig

structure WellFormed (braces : BraceInit) (j : Json) : Prop where
  identifier : ∃ id, j.get (ascii "chainId") (Json.getUnsigned 32) = .ok id ∧ 1 ≤ id ∧ id ≤ 3
  magic : ∃ elements, j.find (ascii "chainMagic") = some (.array elements) ∧ 4 ≤ elements.length ∧
    ∀ element ∈ elements.take 4, element.IsNumber 8
  port : ∃ value, j.find (ascii "defaultPort") = some value ∧ value.IsNumber 16
  consensus : ∀ value, j.find (ascii "consensus") = some value → ∀ members, braces.apply value = .object members →
    ∀ m ∈ members, m.2.isObject → m.1 = ascii "NoProof" ∨ braces = .copy ∧ m.1 = ascii "Equihash"

end ChainConfig

/-! ## Reading -/

namespace Json

theorem getUnsigned_ok_iff (bits : Nat) (j : Json) : (∃ value, j.getUnsigned bits = .ok value) ↔ j.IsNumber bits := by
  cases j with
  | numberFloat integral =>
      cases integral with
      | none => simp [getUnsigned, IsNumber]
      | some integral =>
          by_cases h : 0 ≤ integral ∧ integral < 2 ^ bits
          · simp [getUnsigned, IsNumber, h]
          · simp [getUnsigned, IsNumber, h]
  | _ => simp [getUnsigned, IsNumber]

theorem getUnsigned_lt {bits value : Nat} {j : Json} (hbits : 0 < bits) (h : j.getUnsigned bits = .ok value) :
    value < 2 ^ bits := by
  have hpos : 0 < 2 ^ bits := Nat.two_pow_pos bits
  unfold getUnsigned at h
  split at h
  · cases h
    exact Nat.mod_lt _ hpos
  · cases h
    have := Int.emod_lt_of_pos ‹Int› (b := 2 ^ bits) (by positivity)
    have := Int.emod_nonneg ‹Int› (b := 2 ^ bits) (by positivity)
    zify
    omega
  · cases h
    exact (Bool.toNat_lt _).trans_le (Nat.le_pow hbits)
  · split_ifs at h with hfits
    cases h
    zify
    omega
  · cases h
  · cases h

theorem getElements_cons {n : Nat} {element : Json} {elements : List Json} {bytes : Bytes} :
    getElements (n + 1) (element :: elements) = .ok bytes ↔
      ∃ value, element.getUnsigned 8 = .ok value ∧ ∃ rest, getElements n elements = .ok rest ∧
        UInt8.ofNat value :: rest = bytes := by
  simp only [getElements, bind_eq_ok_iff, pure, Except.pure, Except.ok.injEq]

theorem getElements_ok_iff (n : Nat) (elements : List Json) : (∃ bytes, getElements n elements = .ok bytes) ↔
    n ≤ elements.length ∧ ∀ element ∈ elements.take n, element.IsNumber 8 := by
  induction n generalizing elements with
  | zero => simp [getElements]
  | succ n ih =>
      cases elements with
      | nil => simp [getElements]
      | cons element elements =>
          rw [List.take_succ_cons, List.forall_mem_cons, ← getUnsigned_ok_iff, List.length_cons,
            Nat.add_le_add_iff_right, and_left_comm, ← ih]
          constructor
          · rintro ⟨bytes, hbytes⟩
            obtain ⟨value, hvalue, rest, hrest, -⟩ := getElements_cons.mp hbytes
            exact ⟨⟨value, hvalue⟩, rest, hrest⟩
          · rintro ⟨⟨value, hvalue⟩, rest, hrest⟩
            exact ⟨_, getElements_cons.mpr ⟨value, hvalue, rest, hrest, rfl⟩⟩

theorem getElements_bytes (bytes : Bytes) :
    getElements bytes.length (bytes.map fun b => .numberUnsigned b.toNat) = .ok bytes := by
  induction bytes with
  | nil => rfl
  | cons b bytes ih =>
      refine getElements_cons.mpr ⟨_, rfl, bytes, ih, ?_⟩
      rw [Nat.mod_eq_of_lt b.toNat_lt, UInt8.ofNat_toNat]

theorem getArray_ok_iff (n : Nat) (j : Json) : (∃ octets, j.getArray n = .ok octets) ↔
    ∃ elements, j = .array elements ∧ n ≤ elements.length ∧ ∀ element ∈ elements.take n, element.IsNumber 8 := by
  cases j with
  | array elements =>
      simp only [getArray, map_eq_ok_iff, array.injEq, exists_eq_left', ← getElements_ok_iff]
      constructor
      · rintro ⟨octets, bytes, hbytes, -⟩
        exact ⟨bytes, hbytes⟩
      · rintro ⟨bytes, hbytes⟩
        exact ⟨_, bytes, hbytes, rfl⟩
  | _ => simp [getArray]

theorem get_eq_ok_iff {α : Type} {j : Json} {key : Bytes} {convert : Json → Except JsonFault α} {a : α} :
    j.get key convert = .ok a ↔ ∃ value, j.find key = some value ∧ convert value = .ok a := by
  rw [get]
  cases j.find key <;> simp

theorem get_ok_iff {α : Type} {j : Json} {key : Bytes} {convert : Json → Except JsonFault α} :
    (∃ a, j.get key convert = .ok a) ↔ ∃ value, j.find key = some value ∧ ∃ a, convert value = .ok a := by
  simp only [get_eq_ok_iff]
  constructor
  · rintro ⟨a, value, hvalue, ha⟩
    exact ⟨value, hvalue, a, ha⟩
  · rintro ⟨value, hvalue, a, ha⟩
    exact ⟨a, value, hvalue, ha⟩

end Json

namespace SealEngineType

theorem enumCast_cons (key : Bytes) : enumCast (0x6b :: key) =
    if key = ascii "NoProof" then some kNoProof else if key = ascii "Equihash" then some kEquihash else none := by
  have hnoProof : ascii "kNoProof" = 0x6b :: ascii "NoProof" := rfl
  have hequihash : ascii "kEquihash" = 0x6b :: ascii "Equihash" := rfl
  rw [enumCast, hnoProof, hequihash]
  simp only [List.cons.injEq, true_and]

end SealEngineType

namespace ChainConfig

theorem readConsensus_ok_iff (members : List (Bytes × Json)) (type : SealEngineType) :
    (∃ type', readConsensus members type = .ok type') ↔
      ∀ m ∈ members, m.2.isObject → m.1 = ascii "NoProof" ∨ m.1 = ascii "Equihash" := by
  induction members generalizing type with
  | nil => simp [readConsensus]
  | cons m members ih =>
      obtain ⟨key, value⟩ := m
      rw [List.forall_mem_cons, readConsensus, SealEngineType.enumCast_cons]
      by_cases hobject : value.isObject
      · rw [if_pos hobject]
        by_cases hnoProof : key = ascii "NoProof"
        · rw [if_pos hnoProof, Option.elim_some, ih]
          simp [hnoProof]
        · by_cases hequihash : key = ascii "Equihash"
          · rw [if_neg hnoProof, if_pos hequihash, Option.elim_some, ih]
            simp [hequihash]
          · simp [hnoProof, hequihash, hobject]
      · rw [if_neg hobject, ih]
        simp [hobject]

theorem fromJson_of_accepts {braces : BraceInit} {j : Json} (h : accepts j) {r : Option ChainConfig} :
    fromJson braces j = .ok r ↔ ∃ identifier, j.get (ascii "chainId") (Json.getUnsigned 32) = .ok identifier ∧
      ∃ magic, j.get (ascii "chainMagic") (Json.getArray 4) = .ok magic ∧
      ∃ defaultPort, j.get (ascii "defaultPort") (Json.getUnsigned 16) = .ok defaultPort ∧
      ∃ type, sealEngine braces (j.find (ascii "consensus")) = .ok type ∧
        some (ChainConfig.mk (UInt32.ofNat identifier) magic (UInt16.ofNat defaultPort) type) = r := by
  simp only [fromJson, h, Bool.not_true, Bool.false_eq_true, if_false, bind_eq_ok_iff, pure, Except.pure,
    Except.ok.injEq]

/-! ## Writing and reading back -/

theorem known_iff (identifier : UInt32) :
    (identifier - 1).toNat < kKnownChainConfigs.length ↔ 1 ≤ identifier.toNat ∧ identifier.toNat ≤ 3 := by
  have hlt := identifier.toNat_lt
  rw [UInt32.toNat_sub, show kKnownChainConfigs.length = 3 from rfl, show (1 : UInt32).toNat = 1 from rfl]
  omega

/-- A name is found for the known chains only. -/
theorem toJson_ok_iff (config : ChainConfig) :
    (∃ json, config.toJson = .ok json) ↔ 1 ≤ config.identifier.toNat ∧ config.identifier.toNat ≤ 3 := by
  rw [← known_iff, toJson]
  by_cases hknown : (config.identifier - 1).toNat < kKnownChainConfigs.length
  · rw [List.getElem?_eq_getElem hknown]
    exact iff_of_true ⟨_, rfl⟩ hknown
  · rw [List.getElem?_eq_none (Nat.le_of_not_lt hknown)]
    exact iff_of_false (by simp) hknown

/-- The seal engine that is read back. -/
def kept : BraceInit → SealEngineType → SealEngineType
  | .copy, type => type
  | .list, _ => .kNoProof

theorem sealEngine_consensusObject (braces : BraceInit) (type : SealEngineType) :
    sealEngine braces (some (consensusObject type)) = .ok (kept braces type) := by
  cases braces <;> cases type <;> rfl

theorem fromJson_jsonOf (braces : BraceInit) (config : ChainConfig) (chainName : Bytes) :
    fromJson braces (config.jsonOf chainName) =
      .ok (some { config with sealEngineType := kept braces config.sealEngineType }) := by
  refine (fromJson_of_accepts rfl).mpr ⟨config.identifier.toNat, ?_, config.magic, ?_, config.defaultPort.toNat, ?_, _,
    sealEngine_consensusObject braces config.sealEngineType, ?_⟩
  · exact congrArg Except.ok (Nat.mod_eq_of_lt config.identifier.toNat_lt)
  · have hbytes := Json.getElements_bytes config.magic.val
    rw [config.magic.property] at hbytes
    change (Json.getElements 4 _).map _ = _
    rw [hbytes, Except.map, Octets.ofBytes_val]
  · exact congrArg Except.ok (Nat.mod_eq_of_lt config.defaultPort.toNat_lt)
  · simp

/-- What `to_json` writes is read back, up to the seal engine. -/
theorem fromJson_toJson {braces : BraceInit} {config : ChainConfig} {json : Json} (h : config.toJson = .ok json) :
    fromJson braces json = .ok (some config) ↔ kept braces config.sealEngineType = config.sealEngineType := by
  rw [toJson] at h
  cases hname : kKnownChainConfigs[(config.identifier - 1).toNat]? with
  | none =>
      rw [hname] at h
      cases h
  | some chainName =>
      rw [hname] at h
      cases h
      rw [fromJson_jsonOf]
      obtain ⟨identifier, magic, defaultPort, type⟩ := config
      simp

/-! ## The condition -/

/-- Where the braces make a list, an object is read from a pair only. -/
theorem apply_list {value : Json} {members : List (Bytes × Json)} (h : BraceInit.list.apply value = .object members) :
    ∃ m, members = [m] := by
  unfold BraceInit.apply at h
  split at h
  · cases h
    exact ⟨_, rfl⟩
  · cases h
  · contradiction

theorem readConsensus_noProof {members : List (Bytes × Json)}
    (h : ∀ m ∈ members, m.2.isObject → m.1 = ascii "NoProof") : readConsensus members .kNoProof = .ok .kNoProof := by
  induction members with
  | nil => rfl
  | cons m members ih =>
      obtain ⟨key, value⟩ := m
      obtain ⟨hm, hmembers⟩ := List.forall_mem_cons.mp h
      rw [readConsensus]
      split_ifs with hobject
      · rw [SealEngineType.enumCast_cons, if_pos (hm hobject), Option.elim_some, ih hmembers]
      · exact ih hmembers

/-- The names are known and the seal engine is read back. -/
theorem readConsensus_iff (braces : BraceInit) {value : Json} {members : List (Bytes × Json)}
    (happly : braces.apply value = .object members) :
    (∃ type, readConsensus members .kNoProof = .ok type ∧ kept braces type = type) ↔
      ∀ m ∈ members, m.2.isObject → m.1 = ascii "NoProof" ∨ braces = .copy ∧ m.1 = ascii "Equihash" := by
  cases braces with
  | copy =>
      simp only [kept, and_true, true_and]
      exact readConsensus_ok_iff members .kNoProof
  | list =>
      simp only [reduceCtorEq, false_and, or_false]
      constructor
      · rintro ⟨type, htype, hkept⟩ m hm hobject
        obtain ⟨m', rfl⟩ := apply_list happly
        rw [List.mem_singleton] at hm
        subst hm
        -- the other name would have left the other engine
        refine ((readConsensus_ok_iff _ _).mp ⟨type, htype⟩ m (List.mem_singleton_self m) hobject).resolve_right ?_
        intro hequihash
        rw [readConsensus, if_pos hobject, hequihash] at htype
        cases htype
        cases hkept
      · intro h
        exact ⟨_, readConsensus_noProof h, rfl⟩

theorem sealEngine_iff (braces : BraceInit) (consensus : Option Json) :
    (∃ type, sealEngine braces consensus = .ok type ∧ kept braces type = type) ↔
      ∀ value, consensus = some value → ∀ members, braces.apply value = .object members →
        ∀ m ∈ members, m.2.isObject → m.1 = ascii "NoProof" ∨ braces = .copy ∧ m.1 = ascii "Equihash" := by
  have hnoProof : kept braces .kNoProof = .kNoProof := by cases braces <;> rfl
  cases consensus with
  | none => exact iff_of_true ⟨_, rfl, hnoProof⟩ (by simp)
  | some value =>
      simp only [Option.some.injEq, forall_eq', sealEngine, Option.elim_some]
      cases happly : braces.apply value with
      | object members =>
          rw [readObject, readConsensus_iff braces happly]
          simp
      | _ => exact iff_of_true ⟨_, rfl, hnoProof⟩ (by simp)

/-- The identifier is kept as it was read. -/
theorem toNat_of_get {j : Json} {id : Nat} (h : j.get (ascii "chainId") (Json.getUnsigned 32) = .ok id) :
    (UInt32.ofNat id).toNat = id := by
  obtain ⟨value, -, hvalue⟩ := Json.get_eq_ok_iff.mp h
  exact UInt32.toNat_ofNat_of_lt (Json.getUnsigned_lt (by omega) hvalue)

theorem wellFormed_of_safe {braces : BraceInit} {j : Json} (haccepts : accepts j) (hsafe : Safe braces j) :
    WellFormed braces j := by
  obtain ⟨r, hr, hback⟩ := hsafe
  obtain ⟨id, hid, magic, hmagic, port, hport, type, htype, rfl⟩ := (fromJson_of_accepts haccepts).mp hr
  obtain ⟨json, hjson, hread⟩ := hback _ rfl
  have hknown := (toJson_ok_iff _).mp ⟨json, hjson⟩
  have hkept := (fromJson_toJson hjson).mp hread
  obtain ⟨array, harray, helements⟩ := Json.get_ok_iff.mp ⟨magic, hmagic⟩
  obtain ⟨elements, rfl, hlength⟩ := (Json.getArray_ok_iff 4 array).mp helements
  obtain ⟨value, hvalue, hnumber⟩ := Json.get_ok_iff.mp ⟨port, hport⟩
  rw [toNat_of_get hid] at hknown
  exact
    { identifier := ⟨id, hid, hknown⟩
      magic := ⟨elements, harray, hlength⟩
      port := ⟨value, hvalue, (Json.getUnsigned_ok_iff 16 value).mp hnumber⟩
      consensus := (sealEngine_iff braces _).mp ⟨type, htype, hkept⟩ }

theorem WellFormed.safe {braces : BraceInit} {j : Json} (haccepts : accepts j) (h : WellFormed braces j) :
    Safe braces j := by
  obtain ⟨id, hid, hknown⟩ := h.identifier
  obtain ⟨elements, helements, hlength⟩ := h.magic
  obtain ⟨value, hvalue, hnumber⟩ := h.port
  obtain ⟨magic, hmagic⟩ := Json.get_ok_iff.mpr ⟨_, helements, (Json.getArray_ok_iff 4 _).mpr ⟨elements, rfl, hlength⟩⟩
  obtain ⟨port, hport⟩ := Json.get_ok_iff.mpr ⟨_, hvalue, (Json.getUnsigned_ok_iff 16 value).mpr hnumber⟩
  obtain ⟨type, htype, hkept⟩ := (sealEngine_iff braces _).mpr h.consensus
  refine ⟨_, (fromJson_of_accepts haccepts).mpr ⟨id, hid, magic, hmagic, port, hport, type, htype, rfl⟩, ?_⟩
  intro config hconfig
  rw [Option.mem_some] at hconfig
  subst hconfig
  rw [← toNat_of_get hid] at hknown
  obtain ⟨json, hjson⟩ := (toJson_ok_iff ⟨UInt32.ofNat id, magic, UInt16.ofNat port, type⟩).mpr hknown
  exact ⟨json, hjson, (fromJson_toJson hjson).mpr hkept⟩

theorem safe_of_not_accepts {braces : BraceInit} {j : Json} (h : ¬ accepts j) : Safe braces j := by
  refine ⟨none, ?_, by simp⟩
  rw [fromJson, if_pos (by simpa using h)]

/-- A value from the database is safe exactly when it has no integer `chainId`, or is well-formed. -/
theorem chain_config_iff (braces : BraceInit) (j : Json) :
    Safe braces j ↔ ¬ accepts j ∨ WellFormed braces j := by
  by_cases haccepts : accepts j
  · constructor
    · intro hsafe
      exact Or.inr (wellFormed_of_safe haccepts hsafe)
    · rintro (hnot | h)
      · exact absurd haccepts hnot
      · exact h.safe haccepts
  · exact iff_of_true (safe_of_not_accepts haccepts) (Or.inl haccepts)

theorem not_safe_of_error {braces : BraceInit} {j : Json} {fault : JsonFault} (h : fromJson braces j = .error fault) :
    ¬ Safe braces j := by
  rintro ⟨r, hr, -⟩
  rw [h] at hr
  cases hr

/-- `{"chainId": 1}` ends the process. With the magic and the port of the main network the chain 7 is read, and its name
is looked up outside the table. -/
theorem chain_config_unchecked :
    let alone := Json.object [(ascii "chainId", .numberUnsigned 1)]
    let unknown := jsonOf { identifier := 7, magic := .ofBytes 4 (ascii "cash"), defaultPort := 9033 } []
    fromJson .copy alone = .error .exception ∧ fromJson .list alone = .error .exception ∧ ¬ Safe .copy alone ∧
      ∃ config, fromJson .copy unknown = .ok (some config) ∧ config.toJson = .error .undefined := by
  exact ⟨rfl, rfl, not_safe_of_error rfl, _, fromJson_jsonOf .copy _ [], rfl⟩

end ChainConfig

end Znode.Core
